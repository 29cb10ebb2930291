import Spox.Contract.Pending

/-!
# Reward claim registry — the other paginated views

`get-registrations`, `get-withdrawals` and `get-pending-withdrawals` walk
their linked list as `get-pending-claims` does, each with a row of its own.
Only `get-pending-withdrawals` can abort: the age test of an entry adds to a
stored burn height. A stored height was the height of some block
(`Reachable.stored`), so it does not on a chain whose heights leave room.
-/

namespace Spox.RewardClaims

open Spox.Lib

variable {σ : Type} {views : Views σ} {R : σ → σ → Prop} {base : Nat} {w w' : World σ}

/-! ## Registrations -/

/-- A row of `get-registrations`: a registration merged with its key. -/
structure RegistrationRow extends RegistrationKey, Registration
deriving DecidableEq, Repr

/-- `registrations-step`. -/
def registrationsStep (r : Registry) (acc : Walk RegistrationKey RegistrationRow)
    (_tick : Nat) : Walk RegistrationKey RegistrationRow :=
  match acc.node with
  | some key =>
      let nextNode := r.registrationLl.next key
      match r.registrations key with
      | some registration =>
          { node := nextNode
            rows := (asMaxLen 100 (acc.rows ++ [⟨key, registration⟩])).getD acc.rows }
      | none => { acc with node := nextNode }
  | none => acc

/-- `get-registrations`. -/
def getRegistrations (w : World σ) (cursor : Option RegistrationKey) :
    Page RegistrationKey RegistrationRow :=
  let start :=
    match cursor with
    | some cursorKey => some cursorKey
    | none => w.registry.registrationLl.head
  let walk := pendingTicks.foldl (registrationsStep w.registry) { node := start, rows := [] }
  ⟨walk.rows, walk.node⟩

/-- The row of a key. -/
def registrationRow (r : Registry) (key : RegistrationKey) : Option RegistrationRow :=
  (r.registrations key).map fun registration => ⟨key, registration⟩

/-! ## Withdrawals -/

/-- A row of `get-withdrawals`: a key and the burn height it was indexed at. -/
structure WithdrawalRow extends WithdrawalKey where
  indexedHeight : Nat
deriving DecidableEq, Repr

/-- `withdrawals-step`. -/
def withdrawalsStep (r : Registry) (acc : Walk WithdrawalKey WithdrawalRow) (_tick : Nat) :
    Walk WithdrawalKey WithdrawalRow :=
  match acc.node with
  | some key =>
      let nextNode := r.pendingWithdrawalLl.next key
      match r.pendingWithdrawals key with
      | some storedHeight =>
          { node := nextNode
            rows := (asMaxLen 100 (acc.rows ++ [⟨key, storedHeight⟩])).getD acc.rows }
      | none => { acc with node := nextNode }
  | none => acc

/-- `get-withdrawals`. -/
def getWithdrawals (w : World σ) (cursor : Option WithdrawalKey) :
    Page WithdrawalKey WithdrawalRow :=
  let start :=
    match cursor with
    | some cursorKey => some cursorKey
    | none => w.registry.pendingWithdrawalLl.head
  let walk := pendingTicks.foldl (withdrawalsStep w.registry) { node := start, rows := [] }
  ⟨walk.rows, walk.node⟩

/-- The row of a key. -/
def withdrawalRow (r : Registry) (key : WithdrawalKey) : Option WithdrawalRow :=
  (r.pendingWithdrawals key).map fun storedHeight => ⟨key, storedHeight⟩

/-! ## Withdrawals that are ready to settle -/

/-- `withdrawal-ready-to-list`. -/
def withdrawalReadyToList (views : Views σ) (requestId storedHeight : Nat) : M σ Bool := do
  let w ← Tx.get
  let matured ← Tx.add storedHeight withdrawalMinBurnAge
  if views.burnBlockHeight w.ext < matured then
    pure false
  else
    match views.getWithdrawalRequest w.ext requestId with
    | some request => pure request.status.isSome
    | none => pure false

/-- `pending-withdrawals-step`. -/
def pendingWithdrawalsStep (views : Views σ) (acc : Walk WithdrawalKey WithdrawalKey)
    (_tick : Nat) : M σ (Walk WithdrawalKey WithdrawalKey) := do
  match acc.node with
  | some key => do
      let w ← Tx.get
      let nextNode := w.registry.pendingWithdrawalLl.next key
      match w.registry.pendingWithdrawals key with
      | some storedHeight =>
          if ← withdrawalReadyToList views key.requestId storedHeight then
            pure
              { node := nextNode
                rows := (asMaxLen 100 (acc.rows ++ [
                  { staker := key.staker
                    signerManager := key.signerManager
                    requestId := key.requestId }])).getD acc.rows }
          else pure { acc with node := nextNode }
      | none => pure { acc with node := nextNode }
  | none => pure acc

/-- `get-pending-withdrawals`. -/
def getPendingWithdrawals (views : Views σ) (cursor : Option WithdrawalKey) :
    M σ (Page WithdrawalKey WithdrawalKey) := do
  let w ← Tx.get
  let start :=
    match cursor with
    | some cursorKey => some cursorKey
    | none => w.registry.pendingWithdrawalLl.head
  let walk ← pendingTicks.foldlM (pendingWithdrawalsStep views) { node := start, rows := [] }
  pure ⟨walk.rows, walk.node⟩

/-- Whether an indexed withdrawal is old enough and resolved. -/
def readyAt (views : Views σ) (w : World σ) (key : WithdrawalKey) : Bool :=
  match w.registry.pendingWithdrawals key with
  | some storedHeight =>
      decide (storedHeight + withdrawalMinBurnAge ≤ views.burnBlockHeight w.ext) &&
        ((views.getWithdrawalRequest w.ext key.requestId).bind
          WithdrawalRequest.status).isSome
  | none => false

/-- The row of a key, if it is ready to settle. -/
def readyRow (views : Views σ) (w : World σ) (key : WithdrawalKey) : Option WithdrawalKey :=
  if readyAt views w key then some key else none

/-! ## Steps as ticks of a walk -/

section Steps

variable (r : Registry)

theorem registrationsStep_eq (acc : Walk RegistrationKey RegistrationRow) (tick : Nat) :
    registrationsStep r acc tick = acc.tick r.registrationLl.next (registrationRow r) 100 := by
  obtain ⟨node, rows⟩ := acc
  cases node with
  | none => rfl
  | some key =>
      simp only [registrationsStep, Walk.tick, registrationRow]
      cases r.registrations key with
      | none => rfl
      | some registration =>
          simp only [Option.map_some, appendWithin, asMaxLen]
          split <;> rfl

theorem withdrawalsStep_eq (acc : Walk WithdrawalKey WithdrawalRow) (tick : Nat) :
    withdrawalsStep r acc tick = acc.tick r.pendingWithdrawalLl.next (withdrawalRow r) 100 := by
  obtain ⟨node, rows⟩ := acc
  cases node with
  | none => rfl
  | some key =>
      simp only [withdrawalsStep, Walk.tick, withdrawalRow]
      cases r.pendingWithdrawals key with
      | none => rfl
      | some storedHeight =>
          simp only [Option.map_some, appendWithin, asMaxLen]
          split <;> rfl

end Steps

/-! ## What the index holds -/

/-- Burn heights leave room for the age of a withdrawal. On the chain they
are 32-bit numbers. -/
def Views.HeightsFit (views : Views σ) : Prop :=
  ∀ ext, views.burnBlockHeight ext + withdrawalMinBurnAge < Tx.uintBound

/-- An entry of the index: it was stored at the burn height of some state of
the chain, and its signer-manager is a contract. -/
structure Stored (views : Views σ) (key : WithdrawalKey) (height : Nat) : Prop where
  height : ∃ ext, height = views.burnBlockHeight ext
  signerManager : ∃ id, key.signerManager = .contract id

def StoredWithdrawals (views : Views σ) (w : World σ) : Prop :=
  ∀ key height, w.registry.pendingWithdrawals key = some height → Stored views key height

theorem StoredWithdrawals.unindexed (h : StoredWithdrawals views w) (key : WithdrawalKey)
    (hmap : w'.registry.pendingWithdrawals =
      Function.update w.registry.pendingWithdrawals key none) : StoredWithdrawals views w' := by
  intro q height hq
  rw [hmap] at hq
  by_cases hqk : q = key
  · subst hqk
    simp at hq
  · rw [Function.update_of_ne hqk] at hq
    exact h q height hq

theorem StoredWithdrawals.congr (h : StoredWithdrawals views w)
    (hmap : w'.registry.pendingWithdrawals = w.registry.pendingWithdrawals) :
    StoredWithdrawals views w' := by
  intro q height hq
  rw [hmap] at hq
  exact h q height hq

theorem Tracked.stored {key : RegistrationKey} {stored : Option Nat}
    (h : Tracked views key w stored w') (hkey : ∃ id, key.signerManager = .contract id)
    (hw : StoredWithdrawals views w) : StoredWithdrawals views w' := by
  cases h with
  | none => exact hw
  | known => exact hw
  | fresh id hstatus hfree =>
      intro q height hq
      by_cases hqk : q = ⟨key.staker, key.signerManager, id⟩
      · subst hqk
        have hheight : views.burnBlockHeight w.ext = height := by
          simpa [World.indexedAt] using hq
        exact ⟨⟨w.ext, hheight.symm⟩, hkey⟩
      · refine hw q height ?_
        simpa [World.indexedAt, hqk] using hq

theorem Change.stored {l : Label} (h : Change views R l w w') (hinv : Inv base w)
    (hw : StoredWithdrawals views w) : StoredWithdrawals views w' := by
  cases h with
  | outside h => exact hw.congr h.pendingWithdrawals
  | register => exact hw.congr (escrowOnly_registered _ _ _ _).pendingWithdrawals
  | addClaims => exact hw.congr (escrowOnly_toppedUp _ _ _ _ _).pendingWithdrawals
  | cancel => exact hw.congr (escrowOnly_cancelled _ _ _).pendingWithdrawals
  | claim w w₁ key row cycle covered earned claimError stored htracked _ hrow =>
      exact (htracked.stored (hinv.rows key row hrow).signerManager hw).congr
        (by simp [World.claimed, World.advanced])
  | settle w w₁ key accepted hindexed hstatus hcall =>
      exact hw.unindexed key (by simp [World.unindexed, hcall.pendingWithdrawals])
  | prune w key hindexed hstatus => exact hw.unindexed key rfl

/-- **The index holds what was stored in it**, in every reachable world. -/
theorem Reachable.stored (h : Reachable views R w) : StoredWithdrawals views w := by
  obtain ⟨stx, ext, hrun⟩ := h
  refine ((Run.changes_of_deployed hrun).invariant
    (fun v => Inv (stx currentContract) v ∧ StoredWithdrawals views v)
    (fun _ _ _ _ hstep hs => ⟨hstep.inv hs.1, hstep.stored hs.1 hs.2⟩)
    ⟨inv_deployed stx ext, ?_⟩).2
  intro key height hkey
  simp [World.deployed, Registry.deployed] at hkey

/-! ## Pages -/

theorem indexedKeys_nodup : (indexedKeys w).Nodup := insertionOrder_nodup

/-- The walk from the head visits the indexed withdrawals. -/
theorem Inv.visits_index (hinv : Inv base w) :
    Visits w.registry.pendingWithdrawalLl.next w.registry.pendingWithdrawalLl.head
      (indexedKeys w) :=
  hinv.index.visits

theorem pendingTicks_length : pendingTicks.length = 100 := List.length_replicate

theorem getRegistrations_page {cursor : Option RegistrationKey} {ks : List RegistrationKey}
    (h : Visits w.registry.registrationLl.next (cursor.or w.registry.registrationLl.head) ks) :
    getRegistrations w cursor =
      ⟨(ks.take 100).filterMap (registrationRow w.registry), (ks.drop 100).head?⟩ := by
  have hpage : getRegistrations w cursor =
      (pendingTicks.foldl (registrationsStep w.registry)
        ⟨cursor.or w.registry.registrationLl.head, []⟩).page := by
    cases cursor <;> rfl
  rw [hpage, Walk.page_foldl (registrationsStep_eq w.registry) pendingTicks_length h]

theorem getWithdrawals_page {cursor : Option WithdrawalKey} {ks : List WithdrawalKey}
    (h : Visits w.registry.pendingWithdrawalLl.next
      (cursor.or w.registry.pendingWithdrawalLl.head) ks) :
    getWithdrawals w cursor =
      ⟨(ks.take 100).filterMap (withdrawalRow w.registry), (ks.drop 100).head?⟩ := by
  have hpage : getWithdrawals w cursor =
      (pendingTicks.foldl (withdrawalsStep w.registry)
        ⟨cursor.or w.registry.pendingWithdrawalLl.head, []⟩).page := by
    cases cursor <;> rfl
  rw [hpage, Walk.page_foldl (withdrawalsStep_eq w.registry) pendingTicks_length h]

/-- Where heights leave room, the age test of an indexed withdrawal does not
abort. -/
theorem run_withdrawalReadyToList (hfit : views.HeightsFit) (hstored : StoredWithdrawals views w)
    {key : WithdrawalKey} {height : Nat}
    (hkey : w.registry.pendingWithdrawals key = some height) :
    withdrawalReadyToList views key.requestId height w = .ok (readyAt views w key) w := by
  obtain ⟨ext, hext⟩ := (hstored key height hkey).height
  have hroom := hfit ext
  rw [← hext] at hroom
  simp only [withdrawalReadyToList, Tx.run_bind, Tx.run_get, Tx.add, Tx.uint, if_pos hroom,
    Tx.run_pure, readyAt, hkey]
  by_cases hyoung : views.burnBlockHeight w.ext < height + withdrawalMinBurnAge
  · rw [if_pos hyoung, decide_eq_false (by omega)]
    rfl
  · rw [if_neg hyoung, decide_eq_true (by omega), Bool.true_and]
    cases views.getWithdrawalRequest w.ext key.requestId <;> rfl

theorem run_pendingWithdrawalsStep (hfit : views.HeightsFit)
    (hstored : StoredWithdrawals views w) (acc : Walk WithdrawalKey WithdrawalKey) (tick : Nat) :
    pendingWithdrawalsStep views acc tick w =
      .ok (acc.tick w.registry.pendingWithdrawalLl.next (readyRow views w) 100) w := by
  obtain ⟨node, rows⟩ := acc
  cases node with
  | none => rfl
  | some key =>
      simp only [pendingWithdrawalsStep, Tx.run_bind, Tx.run_get, Walk.tick, readyRow]
      cases hkey : w.registry.pendingWithdrawals key with
      | none =>
          have hready : readyAt views w key = false := by simp only [readyAt, hkey]
          simp [hready]
      | some height =>
          simp only [Tx.run_bind, run_withdrawalReadyToList hfit hstored hkey]
          cases readyAt views w key with
          | false => rfl
          | true =>
              simp only [if_true, appendWithin, asMaxLen, Tx.run_pure]
              split <;> rfl

/-- **A page** of the withdrawals that are ready to settle. -/
theorem getPendingWithdrawals_page (hfit : views.HeightsFit)
    (hstored : StoredWithdrawals views w) {cursor : Option WithdrawalKey}
    {ks : List WithdrawalKey}
    (h : Visits w.registry.pendingWithdrawalLl.next
      (cursor.or w.registry.pendingWithdrawalLl.head) ks) :
    getPendingWithdrawals views cursor w =
      .ok ⟨(ks.take 100).filterMap (readyRow views w), (ks.drop 100).head?⟩ w := by
  have hpage : getPendingWithdrawals views cursor w =
      ((pendingTicks.foldlM (pendingWithdrawalsStep views)
        ⟨cursor.or w.registry.pendingWithdrawalLl.head, []⟩) >>= fun walk =>
          pure walk.page) w := by
    cases cursor <;> rfl
  rw [hpage, Tx.run_bind_ok (Tx.run_foldlM_reads
      (run_pendingWithdrawalsStep hfit hstored) pendingTicks _),
    Walk.page_foldl (fun _ _ => rfl) pendingTicks_length h, Tx.run_pure]

/-! ## A small chain with a withdrawal -/

namespace Chain

/-- The readings of the small chain, with burn heights of 32 bits. -/
def bounded : Views Chain :=
  { Chain.views with burnBlockHeight := fun chain => chain.cycle % 2 ^ 32 }

theorem bounded_heightsFit : bounded.HeightsFit := by
  intro chain
  have hlt : chain.cycle % 2 ^ 32 < 2 ^ 32 := Nat.mod_lt _ (by decide)
  show chain.cycle % 2 ^ 32 + 7 < 2 ^ 128
  omega

/-- The first of three claims was paid out through request 7, which sBTC has
accepted since, and is old enough to be listed. -/
def ready : World Chain :=
  ((((start ⟨2, 0, none⟩).call bounded paying 2 byStaker
    (.registerForClaims staker signerManager 1 false 3)).outside ⟨4, 2, some ⟨none⟩⟩
    (fun _ => 0) 0).call bounded paying 2 byStaker
    (.processRewardClaim staker signerManager)).outside ⟨11, 2, some ⟨some true⟩⟩ (fun _ => 0) 0

theorem reachable_ready : Reachable bounded (fun _ _ => True) ready := by
  refine ⟨Function.update (fun _ => 0) staker 1000000, ⟨2, 0, none⟩, ?_⟩
  have hcode := paying_respects fun _ _ => True
  refine .tail ?_ (.outside (Chain.mk 11 2 (some ⟨some true⟩)) (fun _ => 0) 0 trivial)
  refine .trans ?_ (run_call hcode 2 byStaker (.processRewardClaim staker signerManager) _)
  refine .tail ?_ (.outside (Chain.mk 4 2 (some ⟨none⟩)) (fun _ => 0) 0 trivial)
  exact run_call hcode 2 byStaker (.registerForClaims staker signerManager 1 false 3) _

/-- The withdrawal of request 7. -/
def withdrawalKey : WithdrawalKey := ⟨staker, .contract signerManager, 7⟩

end Chain

end Spox.RewardClaims
