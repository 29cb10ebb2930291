import Spox.Contract.Soundness
import Spox.Lib.Sequence

/-!
# Reward claim registry — batches

A batch is a fold that swallows the errors of a private function, and a
private function keeps what it wrote before it failed. The batches are sound
all the same: in a world that satisfies the invariant a transfer or a burn
that comes after a write goes through, so a private function that fails has
written nothing. Hence a batch does what its entries do as transactions of
their own, one after another.
-/

namespace Spox.RewardClaims

open Spox.Lib

variable {σ : Type} {views : Views σ} {R : σ → σ → Prop} {base : Nat} {w w' : World σ}

/-! ## Fixed readings -/

/-- The two pox-5 readings a claim is decided on stay as they are. -/
structure Steady (views : Views σ) (ext ext' : σ) : Prop where
  cycle : views.currentDistributionCycle ext' = views.currentDistributionCycle ext
  covered : getLastRewardsComputeDistribution views ext' =
    getLastRewardsComputeDistribution views ext

theorem Steady.refl (ext : σ) : Steady views ext ext := ⟨rfl, rfl⟩

theorem Steady.trans {ext ext' ext'' : σ} (h : Steady views ext ext')
    (h' : Steady views ext' ext'') : Steady views ext ext'' :=
  ⟨h'.cycle.trans h.cycle, h'.covered.trans h.covered⟩

theorem steady_of_trans_gen {ext ext' : σ}
    (h : Relation.ReflTransGen (Steady views) ext ext') : Steady views ext ext' := by
  induction h with
  | refl => exact .refl ext
  | tail _ hstep ih => exact ih.trans hstep

theorem Tracked.ext {key : RegistrationKey} {stored : Option Nat}
    (h : Tracked views key w stored w') : w'.ext = w.ext := by
  cases h <;> rfl

theorem advanced_ext (key : RegistrationKey) (row : Registration) (cycle : Nat) :
    (w.advanced key row cycle).ext = w.ext := by
  simp only [World.advanced, World.burnEscrow]
  split <;> rfl

/-- What holds between the entries of a batch that started in `w`. -/
structure Between (views : Views σ) (base : Nat) (w s : World σ) : Prop where
  inv : Inv base s
  idle : s.registry.signerManagerCallActive = false
  steady : Steady views w.ext s.ext

/-! ## Entries -/

section Public

variable {α : Type} {body : M σ α} (answer : α → Value)

/-- With the guard down a public function is its private body. -/
theorem run_public_ok (hidle : w.registry.signerManagerCallActive = false) {a : α}
    (h : body w = .ok a w') :
    Tx.atomic (do
      let a ← (do
        validateNoReentrancy
        body)
      pure (answer a)) w = .ok (answer a) w' := by
  simp only [validateNoReentrancy, Tx.asserts, Tx.atomic, Tx.run_bind, Tx.run_get, hidle,
    if_true, Tx.run_pure, h]

/-- What the body wrote before it failed is undone. -/
theorem run_public_err (hidle : w.registry.signerManagerCallActive = false) {code : Nat}
    (h : body w = .err code w') :
    Tx.atomic (do
      let a ← (do
        validateNoReentrancy
        body)
      pure (answer a)) w = .err code w := by
  simp only [validateNoReentrancy, Tx.asserts, Tx.atomic, Tx.run_bind, Tx.run_get, hidle,
    if_true, Tx.run_pure, h]

theorem run_public_abort (hidle : w.registry.signerManagerCallActive = false)
    (h : body w = .abort) :
    Tx.atomic (do
      let a ← (do
        validateNoReentrancy
        body)
      pure (answer a)) w = .abort := by
  simp only [validateNoReentrancy, Tx.asserts, Tx.atomic, Tx.run_bind, Tx.run_get, hidle,
    if_true, Tx.run_pure, h]

end Public

section Entry

variable {code : Code σ} {depth : Nat} {s t : World σ}

/-- Cancelling depends on the registry and the balances alone. -/
theorem cancelled_congr (key : RegistrationKey) (row : Registration)
    (hregistry : s.registry = t.registry) (hstx : s.stx = t.stx) :
    (s.cancelled key row).registry = (t.cancelled key row).registry ∧
      (s.cancelled key row).stx = (t.cancelled key row).stx := by
  simp only [World.cancelled, World.refund]
  split
  · simp [World.move, hregistry, hstx]
  · simp [hregistry, hstx]

/-- The worlds of the two executions of a cancel batch: the batch has logged
the entries it skipped, the sequence has not. -/
structure Twins (base : Nat) (s t : World σ) : Prop where
  registry : s.registry = t.registry
  stx : s.stx = t.stx
  inv : Inv base s
  inv' : Inv base t
  idle : t.registry.signerManagerCallActive = false

theorem countCancellations_entry (h : Twins base s t) (ctx : Ctx)
    (signerManager staker : Principal) (n : Nat) :
    let entry := exec views code (depth + 1) ctx (.cancelRegistration staker signerManager)
    ∃ s', countCancellations ctx signerManager n staker s =
        .ok (n + entry.score (fun _ => 1) t) s' ∧ Twins base s' (entry.commit t) := by
  intro entry
  rcases (cancelRegistrationImpl_spec h.inv ctx staker signerManager).total with
    ⟨refund, s', hs, row, hrow, hauth, -, rfl⟩ | ⟨error, s', hs, hsame, hwhy⟩
  · -- the entry is cancelled in both
    rcases (cancelRegistrationImpl_spec h.inv' ctx staker signerManager).total with
      ⟨refund', t', ht, row', hrow', -, -, rfl⟩ | ⟨error, t', ht, rfl, hwhy⟩
    · have hentry : entry t = .ok (.uint refund') _ := run_public_ok .uint h.idle ht
      rw [← h.registry, hrow] at hrow'
      cases hrow'
      obtain ⟨hregistry, hstx⟩ := cancelled_congr ⟨staker, signerManager⟩ row
        h.registry h.stx
      refine ⟨s.cancelled ⟨staker, signerManager⟩ row, ?_, ?_⟩
      · rw [Tx.score_of_ok hentry]
        simp [countCancellations, Tx.run_bind, Tx.attempt, hs]
      · rw [Tx.commit_of_ok hentry]
        exact ⟨hregistry, hstx, h.inv.cancelled hrow, h.inv'.cancelled (h.registry ▸ hrow), by
          rw [← hregistry]
          simpa [World.cancelled] using h.registry ▸ h.idle⟩
    · rw [← h.registry] at hwhy
      rcases hwhy with ⟨-, hnone⟩ | ⟨-, row', hrow', hnot⟩
      · rw [hrow] at hnone
        cases hnone
      · rw [hrow] at hrow'
        cases hrow'
        exact absurd hauth hnot
  · -- the entry is skipped in both
    rcases (cancelRegistrationImpl_spec h.inv' ctx staker signerManager).total with
      ⟨refund', t', ht, row', hrow', hauth, -, rfl⟩ | ⟨error', t', ht, -⟩
    · rw [← h.registry] at hrow'
      rcases hwhy with ⟨-, hnone⟩ | ⟨-, row, hrow, hnot⟩
      · rw [hrow'] at hnone
        cases hnone
      · rw [hrow'] at hrow
        cases hrow
        exact absurd hauth hnot
    · have hentry : entry t = .err error' t := run_public_err .uint h.idle ht
      refine ⟨s.emit [.cancelRegistrationSkipped ⟨staker, signerManager⟩ error], ?_, ?_⟩
      · rw [Tx.score_of_err hentry]
        simp [countCancellations, Tx.run_bind, Tx.attempt, hs, hsame, print]
      · rw [Tx.commit_of_err hentry]
        exact ⟨h.registry, h.stx,
          (outside_emit (R := fun _ _ => True) (e := .cancelRegistrationSkipped
            ⟨staker, signerManager⟩ error) rfl rfl).inv h.inv, h.inv', h.idle⟩

/-- An entry of a claim batch does what its transaction does. -/
theorem countClaim_entry (h : Between views base w s) (hcode : code.Respects (Steady views))
    {sm : ContractId} (hreturns : (interpret code (exec views code depth)).Returns sm)
    (hcycle : views.currentDistributionCycle w.ext + 1 < Tx.uintBound) (ctx : Ctx)
    (staker : Principal) (n : Nat) :
    let entry := exec views code (depth + 1) ctx (.processRewardClaim staker sm)
    countClaim views (interpret code (exec views code depth)) sm
        (views.currentDistributionCycle w.ext)
        (getLastRewardsComputeDistribution views w.ext) n staker s =
        .ok (n + entry.score (fun _ => 1) s) (entry.commit s) ∧
      Between views base w (entry.commit s) := by
  intro entry
  have hframes := (interpret_frames hcode depth sm).total hreturns
  have hvoid : Tx.uintBound ≤ views.currentDistributionCycle w.ext + 1 → False :=
    fun hbound => absurd hcycle (by omega)
  have hspec := processRewardClaimImpl_spec views h.inv h.idle staker sm hframes
    (getLastRewardsComputeDistribution views w.ext) hvoid
  rcases hspec.total with ⟨stored, s', hs, row, w₁, w₂, earned, claimError, hrow, hdue, hcall,
    htracked, hpaid, hs'⟩ | ⟨error, s', hs, hsame, -⟩
  · have hrun := hs
    rw [← h.steady.cycle, ← h.steady.covered] at hrun
    have hentry : entry s = .ok (.optional stored) s' := run_public_ok .optional h.idle hrun
    rw [Tx.score_of_ok hentry, Tx.commit_of_ok hentry]
    have hclaim : Change views (Steady views) (.claim ⟨staker, .contract sm⟩) w₁ s' :=
      hs' ▸ .claim w₁ w₂ _ row _ _ earned claimError stored htracked hpaid
        (hcall.registrations ▸ hrow) hdue
    refine ⟨by simp [countClaim, Tx.run_bind, Tx.attempt, hs], ?_⟩
    refine ⟨hclaim.inv (hcall.inv h.inv), hclaim.active.trans (hcall.active.trans h.idle), ?_⟩
    have hext : s'.ext = w₁.ext := by
      rw [hs', World.claimed, World.emit_ext, World.emit_ext, advanced_ext, htracked.ext]
    rw [hext]
    exact h.steady.trans (steady_of_trans_gen hcall.ext)
  · have hrun := hs
    rw [← h.steady.cycle, ← h.steady.covered] at hrun
    have hentry : entry s = .err error s := run_public_err .optional h.idle hrun
    rw [Tx.score_of_err hentry, Tx.commit_of_err hentry]
    exact ⟨by simp [countClaim, Tx.run_bind, Tx.attempt, hs, hsame], h⟩

/-- What a settled world counts for: a withdrawal that was resolved. -/
def resolved : Value → Nat
  | .bool true => 1
  | _ => 0

/-- An entry of a settlement batch does what its transaction does. -/
theorem countSettlement_entry (hidle : s.registry.signerManagerCallActive = false)
    (hcode : code.Respects R) {sm : ContractId}
    (hreturns : (interpret code (exec views code depth)).Returns sm) (ctx : Ctx)
    (item : WithdrawalItem) (n : Nat) :
    let entry := exec views code (depth + 1) ctx
      (.settlePendingWithdrawal item.staker sm item.requestId)
    countSettlement views (interpret code (exec views code depth)) sm n item s =
        .ok (n + entry.score resolved s) (entry.commit s) ∧
      (entry.commit s).registry.signerManagerCallActive = false := by
  intro entry
  have hframes := (interpret_frames hcode depth sm).total hreturns
  rcases (settlePendingWithdrawalImpl_spec hidle item.staker sm hframes item.requestId).total with
    ⟨didResolve, s', hs, hresult⟩ | ⟨error, s', hs, hsame, -⟩
  · have hentry : entry s = .ok (.bool didResolve) s' := run_public_ok .bool hidle hs
    rw [Tx.score_of_ok hentry, Tx.commit_of_ok hentry]
    refine ⟨?_, ?_⟩
    · cases didResolve <;> simp [countSettlement, Tx.run_bind, Tx.attempt, hs, resolved]
    · rcases hresult with ⟨-, hsettled⟩ | ⟨-, rfl, -⟩
      · exact hsettled.change.active.trans hidle
      · exact hidle
  · have hentry : entry s = .err error s := run_public_err .bool hidle hs
    rw [Tx.score_of_err hentry, Tx.commit_of_err hentry]
    exact ⟨by simp [countSettlement, Tx.run_bind, Tx.attempt, hs, hsame], hidle⟩

end Entry

/-! ## Batches -/

/-- The entries of a batch as transactions of their own, one after another. -/
def World.calls (views : Views σ) (code : Code σ) (depth : Nat) (ctx : Ctx)
    (entries : List Call) (w : World σ) : World σ :=
  Tx.commits (exec views code depth ctx) entries w

/-- The batch answers with the number of entries that count, and leaves the
registry and the balances that the entries leave one after another. -/
def SameAsSequence (views : Views σ) (code : Code σ) (depth : Nat) (ctx : Ctx)
    (batch : Call) (entries : List Call) (weight : Value → Nat) (w : World σ) : Prop :=
  ∃ w', exec views code depth ctx batch w =
      .ok (.uint (Tx.scores weight (exec views code depth ctx) entries w)) w' ∧
    w'.registry = (w.calls views code depth ctx entries).registry ∧
    w'.stx = (w.calls views code depth ctx entries).stx

/-- Where a function fails it has changed nothing. -/
def NoTrace {α : Type} (m : M σ α) (w : World σ) : Prop :=
  ∀ code w', m w = .err code w' → w' = w

section Batch

variable {code : Code σ} {depth : Nat}

/-- A batch is its sequence if each entry is its transaction, up to a
relation that keeps the registry and the balances in step. -/
theorem sameAsSequence_of_entries {γ : Type} {ctx : Ctx} {batch : Call} {weight : Value → Nat}
    (single : γ → Call) (f : Nat → γ → M σ Nat) (sim : World σ → World σ → Prop) (l : List γ)
    (hbatch : ∀ n w', l.foldlM f 0 w = .ok n w' →
      exec views code depth ctx batch w = .ok (.uint n) w')
    (hsim : sim w w) (hagree : ∀ s t, sim s t → s.registry = t.registry ∧ s.stx = t.stx)
    (hentry : ∀ n c s t, c ∈ l → sim s t →
      ∃ s', f n c s = .ok (n + (exec views code depth ctx (single c)).score weight t) s' ∧
        sim s' ((exec views code depth ctx (single c)).commit t)) :
    SameAsSequence views code depth ctx batch (l.map single) weight w := by
  obtain ⟨w', hfold, hsim'⟩ := Tx.foldlM_commits
    (fun c => exec views code depth ctx (single c)) f sim l hentry 0 hsim
  obtain ⟨hregistry, hstx⟩ := hagree _ _ hsim'
  refine ⟨w', ?_, ?_, ?_⟩
  · rw [Tx.scores_map]
    exact hbatch _ _ (by rw [hfold, Nat.zero_add])
  · rw [World.calls, Tx.commits_map]
    exact hregistry
  · rw [World.calls, Tx.commits_map]
    exact hstx

theorem cancelManyRegistrations_same (hinv : Inv base w)
    (hidle : w.registry.signerManagerCallActive = false) (ctx : Ctx)
    (signerManager : Principal) {stakers : List Principal} (hlen : stakers.length ≤ 50) :
    SameAsSequence views code (depth + 1) ctx (.cancelManyRegistrations signerManager stakers)
      (stakers.map fun staker => .cancelRegistration staker signerManager) (fun _ => 1) w := by
  refine sameAsSequence_of_entries _ (countCancellations ctx signerManager) (Twins base)
    stakers ?_ ⟨rfl, rfl, hinv, hinv, hidle⟩ (fun s t h => ⟨h.registry, h.stx⟩) ?_
  · intro n w' hfold
    rw [exec, dispatch, withMaxLen, if_pos hlen]
    exact run_public_ok .uint hidle hfold
  · intro n staker s t _ h
    exact countCancellations_entry h ctx signerManager staker n

/-- A claim batch leaves the very world its sequence leaves. -/
theorem run_processRewardClaims {s : World σ} (h : Between views base w s)
    (hcode : code.Respects (Steady views)) {sm : ContractId}
    (hreturns : (interpret code (exec views code depth)).Returns sm)
    (hcycle : views.currentDistributionCycle w.ext + 1 < Tx.uintBound) (ctx : Ctx)
    {stakers : List Principal} (hlen : stakers.length ≤ 100) :
    let entry := fun staker => exec views code (depth + 1) ctx (.processRewardClaim staker sm)
    exec views code (depth + 1) ctx (.processRewardClaims sm stakers) s =
        .ok (.uint (Tx.scores (fun _ => 1) entry stakers s)) (Tx.commits entry stakers s) ∧
      Between views base w (Tx.commits entry stakers s) := by
  intro entry
  -- the fold and the sequence go through the same worlds
  obtain ⟨s', hfold, rfl, hbetween⟩ := Tx.foldlM_commits entry
    (countClaim views (interpret code (exec views code depth)) sm
      (views.currentDistributionCycle w.ext) (getLastRewardsComputeDistribution views w.ext))
    (fun s t => s = t ∧ Between views base w s) stakers
    (by
      intro n staker s _ _ hpost
      obtain ⟨rfl, h⟩ := hpost
      obtain ⟨hrun, hbetween⟩ := countClaim_entry h hcode hreturns hcycle ctx staker n
      exact ⟨_, hrun, rfl, hbetween⟩)
    0 ⟨rfl, h⟩
  rw [Nat.zero_add, ← h.steady.cycle, ← h.steady.covered] at hfold
  refine ⟨?_, hbetween⟩
  rw [exec, dispatch, withMaxLen, if_pos hlen]
  exact run_public_ok .uint h.idle hfold

theorem processRewardClaims_same (hinv : Inv base w)
    (hidle : w.registry.signerManagerCallActive = false)
    (hcode : code.Respects (Steady views)) {sm : ContractId}
    (hreturns : (interpret code (exec views code depth)).Returns sm)
    (hcycle : views.currentDistributionCycle w.ext + 1 < Tx.uintBound) (ctx : Ctx)
    {stakers : List Principal} (hlen : stakers.length ≤ 100) :
    SameAsSequence views code (depth + 1) ctx (.processRewardClaims sm stakers)
      (stakers.map fun staker => .processRewardClaim staker sm) (fun _ => 1) w := by
  obtain ⟨hrun, -⟩ := run_processRewardClaims ⟨hinv, hidle, .refl w.ext⟩ hcode hreturns hcycle
    ctx hlen
  rw [← Tx.scores_map, ← Tx.commits_map] at hrun
  exact ⟨_, hrun, rfl, rfl⟩

/-- So does a settlement batch. -/
theorem run_settlePendingWithdrawals (hidle : w.registry.signerManagerCallActive = false)
    (hcode : code.Respects R) {sm : ContractId}
    (hreturns : (interpret code (exec views code depth)).Returns sm) (ctx : Ctx)
    {items : List WithdrawalItem} (hlen : items.length ≤ 100) :
    let entry := fun item : WithdrawalItem =>
      exec views code (depth + 1) ctx (.settlePendingWithdrawal item.staker sm item.requestId)
    exec views code (depth + 1) ctx (.settlePendingWithdrawals sm items) w =
        .ok (.uint (Tx.scores resolved entry items w)) (Tx.commits entry items w) ∧
      (Tx.commits entry items w).registry.signerManagerCallActive = false := by
  intro entry
  obtain ⟨w', hfold, rfl, hidle'⟩ := Tx.foldlM_commits entry
    (countSettlement views (interpret code (exec views code depth)) sm)
    (fun s t => s = t ∧ s.registry.signerManagerCallActive = false) items
    (by
      intro n item s _ _ hpost
      obtain ⟨rfl, hsidle⟩ := hpost
      obtain ⟨hrun, hidle'⟩ := countSettlement_entry hsidle hcode hreturns ctx item n
      exact ⟨_, hrun, rfl, hidle'⟩)
    0 ⟨rfl, hidle⟩
  rw [Nat.zero_add] at hfold
  refine ⟨?_, hidle'⟩
  rw [exec, dispatch, withMaxLen, if_pos hlen]
  exact run_public_ok .uint hidle hfold

theorem settlePendingWithdrawals_same (hidle : w.registry.signerManagerCallActive = false)
    (hcode : code.Respects R) {sm : ContractId}
    (hreturns : (interpret code (exec views code depth)).Returns sm) (ctx : Ctx)
    {items : List WithdrawalItem} (hlen : items.length ≤ 100) :
    SameAsSequence views code (depth + 1) ctx (.settlePendingWithdrawals sm items)
      (items.map fun item => .settlePendingWithdrawal item.staker sm item.requestId)
      resolved w := by
  obtain ⟨hrun, -⟩ := run_settlePendingWithdrawals hidle hcode hreturns ctx hlen
  rw [← Tx.scores_map, ← Tx.commits_map] at hrun
  exact ⟨_, hrun, rfl, rfl⟩

end Batch

/-- **A batch is its sequence.** Cancel, claim and settlement batches answer
with the number of entries that succeed one after another and leave the same
registry and balances, whatever the list; and a private implementation that
fails has changed nothing. A claim batch reads the two pox-5 values once, so
its signer-managers may not change them. -/
theorem batch_equals_sequence (h : Reachable views R w) {code : Code σ}
    (hcode : code.Respects (Steady views)) (depth : Nat) (ctx : Ctx) :
    (∀ signerManager stakers, stakers.length ≤ 50 →
      SameAsSequence views code (depth + 1) ctx
        (.cancelManyRegistrations signerManager stakers)
        (stakers.map fun staker => .cancelRegistration staker signerManager)
        (fun _ => 1) w) ∧
    (∀ sm stakers, stakers.length ≤ 100 →
      (interpret code (exec views code depth)).Returns sm →
      views.currentDistributionCycle w.ext + 1 < Tx.uintBound →
      SameAsSequence views code (depth + 1) ctx (.processRewardClaims sm stakers)
        (stakers.map fun staker => .processRewardClaim staker sm) (fun _ => 1) w) ∧
    (∀ sm items, items.length ≤ 100 →
      (interpret code (exec views code depth)).Returns sm →
      SameAsSequence views code (depth + 1) ctx (.settlePendingWithdrawals sm items)
        (items.map fun item => .settlePendingWithdrawal item.staker sm item.requestId)
        resolved w) ∧
    (∀ staker signerManager,
      NoTrace (cancelRegistrationImpl (σ := σ) ctx staker signerManager) w) ∧
    (∀ staker sm cycle covered,
      NoTrace (processRewardClaimImpl views (interpret code (exec views code depth)) staker sm
        cycle covered) w) ∧
    (∀ staker sm id,
      NoTrace (settlePendingWithdrawalImpl views (interpret code (exec views code depth))
        staker sm id) w) := by
  obtain ⟨base, hinv⟩ := h.inv
  have hframes : ∀ sm, (interpret code (exec views code depth)).Frames sm (Steady views) True :=
    fun sm => interpret_frames hcode depth sm
  refine ⟨?_, ?_, ?_, ?_, ?_, ?_⟩
  · intro signerManager stakers hlen
    exact cancelManyRegistrations_same hinv h.idle ctx signerManager hlen
  · intro sm stakers hlen hreturns hcycle
    exact processRewardClaims_same hinv h.idle hcode hreturns hcycle ctx hlen
  · intro sm items hlen hreturns
    exact settlePendingWithdrawals_same h.idle hcode hreturns ctx hlen
  · intro staker signerManager error w' herr
    exact ((cancelRegistrationImpl_spec hinv ctx staker signerManager).of_err herr).1
  · intro staker sm cycle covered error w' herr
    exact ((processRewardClaimImpl_spec views hinv h.idle staker sm (hframes sm) covered
      fun _ => trivial).of_err herr).1
  · intro staker sm id error w' herr
    exact ((settlePendingWithdrawalImpl_spec h.idle staker sm (hframes sm) id).of_err herr).1

/-- A staker named twice: the first entry claims, the second finds nothing
due. -/
theorem batch_equals_sequence_twice :
    ∃ w : World Chain, liveKeys w = [Chain.key] ∧
      SameAsSequence Chain.views Chain.paying 2 Chain.byStaker
        (.processRewardClaims Chain.signerManager [Chain.staker, Chain.staker])
        [.processRewardClaim Chain.staker Chain.signerManager,
          .processRewardClaim Chain.staker Chain.signerManager] (fun _ => 1) w ∧
      Tx.scores (fun _ => 1) (exec Chain.views Chain.paying 2 Chain.byStaker)
        [.processRewardClaim Chain.staker Chain.signerManager,
          .processRewardClaim Chain.staker Chain.signerManager] w = 1 := by
  obtain ⟨-, hclaims, -, -, -, -⟩ :=
    batch_equals_sequence ⟨_, _, Chain.run_due (R := fun _ _ => True) trivial⟩
      (Chain.paying_respects _) 1 Chain.byStaker
  exact ⟨Chain.due, by decide, hclaims Chain.signerManager [Chain.staker, Chain.staker]
    (by decide) (Chain.paying_returns _ _) (by decide), by decide⟩

end Spox.RewardClaims
