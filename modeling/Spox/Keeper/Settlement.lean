import Spox.Contract.Withdrawals
import Spox.Keeper.Sweep
import Spox.Keeper.Withdrawals

/-!
# Keeper — a sweep over the pending withdrawals

The settlement half of the keeper: it fetches the withdrawals that are ready
to settle, batches them and executes every batch. What is listed is what
settling would remove, so the sweep removes exactly the listed entries,
whatever order the hash map and the batches are met in and whatever the
signer-managers answer.

The listing and the settlement read the status separately. In between, other
signer-managers are called; what holds the two together is that sbtc-registry
never changes a resolved status (`StatusMono`).
-/

namespace Spox.Keeper

open Spox.Lib Spox.RewardClaims

variable {σ : Type} {views : Views σ} {R : σ → σ → Prop} {base : Nat} {w s s' : World σ}

/-! ## What is listed -/

/-- An entry is ready if it is indexed, old enough and resolved. -/
theorem readyAt_iff {key : WithdrawalKey} :
    readyAt views w key = true ↔ ∃ height,
      w.registry.pendingWithdrawals key = some height ∧
      height + withdrawalMinBurnAge ≤ views.burnBlockHeight w.ext ∧
      ∃ accepted, views.getWithdrawalRequest w.ext key.requestId = some ⟨some accepted⟩ := by
  unfold readyAt
  cases w.registry.pendingWithdrawals key with
  | none => simp
  | some height =>
      cases views.getWithdrawalRequest w.ext key.requestId with
      | none => simp
      | some request =>
          obtain ⟨status⟩ := request
          cases status <;> simp

theorem mem_readyRows (hinv : Inv base w) {key : WithdrawalKey} :
    key ∈ (indexedKeys w).filterMap (readyRow views w) ↔ readyAt views w key = true := by
  rw [List.mem_filterMap]
  constructor
  · intro hrow
    obtain ⟨q, -, hq⟩ := hrow
    unfold readyRow at hq
    split at hq
    · next hready =>
        cases hq
        exact hready
    · cases hq
  · intro hready
    obtain ⟨height, hheight, -⟩ := readyAt_iff.mp hready
    refine ⟨key, hinv.mem_indexedKeys.mpr (by rw [hheight]; rfl), ?_⟩
    rw [readyRow, if_pos hready]

theorem readyRows_nodup : ((indexedKeys w).filterMap (readyRow views w)).Nodup := by
  have hrows : (indexedKeys w).filterMap (readyRow views w) =
      (indexedKeys w).filter (readyAt views w) := by
    rw [← List.filterMap_eq_filter]
    rfl
  rw [hrows]
  exact indexedKeys_nodup.filter _

/-! ## Executing the batches -/

/-- `into_contract_args`: the call of a batch. -/
def WithdrawalsBatch.call (batch : WithdrawalsBatch) : Call :=
  .settlePendingWithdrawals batch.signerManager batch.items

/-- The world after the batches, one transaction each. -/
def settlementSweep (views : Views σ) (code : Code σ) (depth : Nat) (ctx : Ctx)
    (order : List WithdrawalsBatch) (w : World σ) : World σ :=
  Tx.commits (fun batch : WithdrawalsBatch => exec views code depth ctx batch.call) order w

/-- The sum of the counts the batches answer with. -/
def settlementCount (views : Views σ) (code : Code σ) (depth : Nat) (ctx : Ctx)
    (order : List WithdrawalsBatch) (w : World σ) : Nat :=
  Tx.scores counted (fun batch : WithdrawalsBatch => exec views code depth ctx batch.call)
    order w

/-- The index entry of a withdrawal of a batch. -/
def settlementKey (entry : ContractId × WithdrawalItem) : WithdrawalKey :=
  ⟨entry.2.staker, .contract entry.1, entry.2.requestId⟩

/-- A single settlement as a transaction. -/
def settlementEntry (views : Views σ) (code : Code σ) (depth : Nat) (ctx : Ctx)
    (entry : ContractId × WithdrawalItem) : M σ Value :=
  exec views code depth ctx (.settlePendingWithdrawal entry.2.staker entry.1 entry.2.requestId)

/-! ## A sequence of settlements -/

/-- In the middle of a sweep that started in `w`: the entries in `gone` have
been removed, and STX has come in at most. -/
structure Underway (views : Views σ) (base : Nat) (w : World σ) (gone : List WithdrawalKey)
    (s : World σ) : Prop where
  inv : Inv base s
  idle : s.registry.signerManagerCallActive = false
  mono : StatusMono views w.ext s.ext
  entries : ∀ key, s.registry.pendingWithdrawals key =
    if key ∈ gone then none else w.registry.pendingWithdrawals key
  registrations : s.registry.registrations = w.registry.registrations
  registrationLl : s.registry.registrationLl = w.registry.registrationLl
  log : ∃ es, s.log = w.log ++ es ∧ indexings es = [] ∧
    s.stx currentContract = w.stx currentContract + received es

theorem Underway.start (hinv : Inv base w)
    (hidle : w.registry.signerManagerCallActive = false) : Underway views base w [] w :=
  ⟨hinv, hidle, .refl _, by simp, rfl, rfl, [], by simp⟩

theorem Underway.settled {gone : List WithdrawalKey} {key : WithdrawalKey}
    (h : Underway views base w gone s) (hsettled : Settled views (StatusMono views) key s s') :
    Underway views base w (gone ++ [key]) s' := by
  obtain ⟨hregistrations, hlist, es', hlog', hindexings', hstx'⟩ := hsettled.frame
  obtain ⟨es, hlog, hindexings, hstx⟩ := h.log
  refine ⟨hsettled.change.inv h.inv, hsettled.change.active.trans h.idle,
    h.mono.trans (.of_steps hsettled.ext_steps), ?_, hregistrations.trans h.registrations,
    hlist.trans h.registrationLl, es ++ es', ?_, ?_, ?_⟩
  · intro q
    rw [hsettled.pendingWithdrawals, Function.update_apply, h.entries]
    by_cases hq : q = key
    · simp [hq]
    · simp [hq]
  · rw [hlog', hlog, List.append_assoc]
  · rw [indexings_append, hindexings, hindexings', List.append_nil]
  · rw [hstx', hstx, received_append, Nat.add_assoc]

section Entries

variable {code : Code σ} {depth : Nat} {ctx : Ctx}

/-- A settlement of a ready entry answers ok true and removes it. -/
theorem settlementEntry_ready (hcode : code.Respects R)
    (hidle : s.registry.signerManagerCallActive = false)
    (entry : ContractId × WithdrawalItem)
    (hreturns : (interpret code (exec views code depth)).Returns entry.1)
    (hindexed : (s.registry.pendingWithdrawals (settlementKey entry)).isSome = true)
    {accepted : Bool}
    (hstatus : views.getWithdrawalRequest s.ext entry.2.requestId = some ⟨some accepted⟩)
    (ctx : Ctx) :
    ∃ s', settlementEntry views code (depth + 1) ctx entry s = .ok (.bool true) s' ∧
      Settled views R (settlementKey entry) s s' := by
  have hframes := (interpret_frames hcode depth entry.1).total hreturns
  rcases (settlePendingWithdrawalImpl_spec hidle entry.2.staker entry.1 hframes
    entry.2.requestId).total with ⟨didResolve, s', hs, hresult⟩ | ⟨error, s', hs, -, hnone⟩
  · rcases hresult with ⟨rfl, hsettled⟩ | ⟨-, -, hpending⟩
    · exact ⟨s', run_public_ok .bool hidle hs, hsettled⟩
    · rw [hstatus] at hpending
      cases hpending
  · rw [settlementKey, hnone] at hindexed
    cases hindexed

/-- **A sequence of settlements** of distinct ready entries removes them. -/
theorem settlementEntries_ready (hcode : code.Respects (StatusMono views))
    {entries : List (ContractId × WithdrawalItem)}
    (hreturns : ∀ entry ∈ entries, (interpret code (exec views code depth)).Returns entry.1)
    (ctx : Ctx) {gone : List WithdrawalKey} (h : Underway views base w gone s)
    (hnodup : (gone ++ entries.map settlementKey).Nodup)
    (hready : ∀ entry ∈ entries, readyAt views w (settlementKey entry) = true) :
    Underway views base w (gone ++ entries.map settlementKey)
        (Tx.commits (settlementEntry views code (depth + 1) ctx) entries s) ∧
      Tx.scores resolved (settlementEntry views code (depth + 1) ctx) entries s =
        entries.length := by
  induction entries generalizing gone s with
  | nil =>
      rw [List.map_nil, List.append_nil]
      exact ⟨h, rfl⟩
  | cons entry entries ih =>
      rw [List.map_cons, List.append_cons] at hnodup ⊢
      -- the entry has not been removed yet and its status is final
      have hfresh : settlementKey entry ∉ gone := by
        intro hmem
        have hapart := (List.nodup_append.mp (List.Nodup.of_append_left hnodup)).2.2
        exact hapart _ hmem _ (List.mem_singleton_self _) rfl
      obtain ⟨height, hheight, -, accepted, hstatus⟩ :=
        readyAt_iff.mp (hready entry List.mem_cons_self)
      have hindexed : (s.registry.pendingWithdrawals (settlementKey entry)).isSome = true := by
        rw [h.entries, if_neg hfresh, hheight]
        rfl
      obtain ⟨s', hrun, hsettled⟩ := settlementEntry_ready hcode h.idle entry
        (hreturns entry List.mem_cons_self) hindexed (h.mono.final _ _ hstatus) ctx
      obtain ⟨hrest, hscores⟩ := ih
        (fun other hother => hreturns other (List.mem_cons_of_mem entry hother))
        (h.settled hsettled) hnodup
        fun other hother => hready other (List.mem_cons_of_mem entry hother)
      rw [Tx.commits, Tx.scores, Tx.commit_of_ok hrun, Tx.score_of_ok hrun, hscores]
      exact ⟨hrest, Nat.add_comm 1 _⟩

/-- A batch does what its settlements do one after another. -/
theorem settlementSweep_eq_entries (hcode : code.Respects R) {order : List WithdrawalsBatch}
    (hreturns : ∀ batch ∈ order,
      (interpret code (exec views code depth)).Returns batch.signerManager)
    (ctx : Ctx) (hlen : ∀ batch ∈ order, batch.items.length ≤ 100)
    (hidle : s.registry.signerManagerCallActive = false) :
    settlementSweep views code (depth + 1) ctx order s =
        Tx.commits (settlementEntry views code (depth + 1) ctx)
          (order.flatMap WithdrawalsBatch.entries) s ∧
      settlementCount views code (depth + 1) ctx order s =
        Tx.scores resolved (settlementEntry views code (depth + 1) ctx)
          (order.flatMap WithdrawalsBatch.entries) s := by
  refine Tx.commits_flatMap WithdrawalsBatch.entries
    (fun s : World σ => s.registry.signerManagerCallActive = false) ?_ hidle
  intro batch s hbatch hs
  obtain ⟨hrun, hidle'⟩ := run_settlePendingWithdrawals hs hcode (hreturns batch hbatch) ctx
    (hlen batch hbatch)
  rw [WithdrawalsBatch.call, Tx.commit_of_ok hrun, Tx.score_of_ok hrun,
    WithdrawalsBatch.entries, Tx.commits_map, Tx.scores_map]
  exact ⟨rfl, rfl, hidle'⟩

end Entries

/-! ## The sweep -/

/-- What a settlement sweep does: the entries that were ready are gone, the
others keep their height and their relative order, the registrations are as
they were, and the STX of the registry changed by what came in and nothing
else. -/
structure SettlementSwept (views : Views σ) (w w' : World σ) : Prop where
  entries : ∀ key, w'.registry.pendingWithdrawals key =
    if readyAt views w key then none else w.registry.pendingWithdrawals key
  order : indexedKeys w' = (indexedKeys w).filter fun key => !readyAt views w key
  list : w'.registry.pendingWithdrawalLl.Represents (indexedKeys w')
  registrations : w'.registry.registrations = w.registry.registrations
  registrationLl : w'.registry.registrationLl = w.registry.registrationLl
  balance : ∃ es, w'.log = w.log ++ es ∧
    w'.stx currentContract = w.stx currentContract + received es

theorem Underway.swept {gone : List WithdrawalKey} (h : Underway views base w gone s)
    (hgone : ∀ key, key ∈ gone ↔ readyAt views w key = true) : SettlementSwept views w s := by
  have hentries : ∀ key, s.registry.pendingWithdrawals key =
      if readyAt views w key then none else w.registry.pendingWithdrawals key := by
    intro key
    rw [h.entries]
    simp only [hgone key]
  obtain ⟨es, hlog, hindexings, hstx⟩ := h.log
  refine ⟨hentries, ?_, h.inv.index, h.registrations, h.registrationLl, es, hlog, hstx⟩
  rw [indexedKeys, indexedKeys, hlog, indexings_append, hindexings, List.append_nil,
    insertionOrder, insertionOrder, List.filter_filter]
  refine List.filter_congr fun key _ => ?_
  rw [hentries]
  cases readyAt views w key <;> simp

/-- **The settlement sweep matches the listing.** The loop over
`get-pending-withdrawals` ends with a row for each entry that is old enough
and resolved, and no other; each row settles with ok true and is removed,
against any signer-manager that returns; and executing the batches, in any
order, removes the listed entries and touches nothing else but for STX sent
to the registry meanwhile. -/
theorem settlement_sweep (h : Reachable views R w) (hfit : views.HeightsFit) :
    ∃ withdrawals,
      (∀ calls, getAllPendingWithdrawals views w calls =
        if calls < pageCount 100 (indexedKeys w).length then none
        else some (.ok withdrawals)) ∧
      (∀ key, key ∈ withdrawals.map PendingWithdrawal.withdrawalKey ↔ ∃ height,
        w.registry.pendingWithdrawals key = some height ∧
        height + withdrawalMinBurnAge ≤ views.burnBlockHeight w.ext ∧
        ∃ accepted,
          views.getWithdrawalRequest w.ext key.requestId = some ⟨some accepted⟩) ∧
      (∀ withdrawal ∈ withdrawals, ∀ code depth ctx,
        (interpret code (exec views code depth)).Returns withdrawal.signerManager →
        ∃ w', exec views code (depth + 1) ctx (.settlePendingWithdrawal withdrawal.item.staker
            withdrawal.signerManager withdrawal.item.requestId) w = .ok (.bool true) w' ∧
          w'.registry.pendingWithdrawals withdrawal.withdrawalKey = none) ∧
      ∀ code depth ctx, code.Respects (StatusMono views) →
        (∀ withdrawal ∈ withdrawals,
          (interpret code (exec views code depth)).Returns withdrawal.signerManager) →
        ∀ iteration, iteration.Perm (withdrawalGroups withdrawals) →
        ∀ order, order.Perm (batchWithdrawals iteration) →
          SettlementSwept views w (settlementSweep views code (depth + 1) ctx order w) ∧
          settlementCount views code (depth + 1) ctx order w = withdrawals.length := by
  obtain ⟨base, hinv⟩ := h.inv
  have hstored := h.stored
  have hreads := getPendingWithdrawals_readsAll hfit hinv hstored
  have hrows := map_filterMap_withdrawalAt hstored (indexedKeys w)
  refine ⟨(indexedKeys w).filterMap (withdrawalAt views w), hreads.loop, ?_, ?_, ?_⟩
  · intro key
    rw [hrows, mem_readyRows hinv, readyAt_iff]
  · intro withdrawal hmem code depth ctx hreturns
    have hready := List.mem_map_of_mem (f := PendingWithdrawal.withdrawalKey) hmem
    rw [hrows, mem_readyRows hinv, readyAt_iff] at hready
    obtain ⟨height, hheight, -, accepted, hstatus⟩ := hready
    obtain ⟨w', hrun, hsettled⟩ := settlementEntry_ready code.respects_true h.idle
      (withdrawal.signerManager, withdrawal.item) hreturns
      (Option.isSome_iff_exists.mpr ⟨height, hheight⟩) hstatus ctx
    exact ⟨w', hrun, by rw [hsettled.pendingWithdrawals]; exact Function.update_self ..⟩
  · intro code depth ctx hcode hreturns iteration hiteration order horder
    have hentries := batchWithdrawals_entries hiteration horder
    -- the settlements of all batches name each ready entry once
    have hkeys : ((order.flatMap WithdrawalsBatch.entries).map settlementKey).Perm
        ((indexedKeys w).filterMap (readyRow views w)) := by
      have hmapped := hentries.map settlementKey
      rw [List.map_map] at hmapped
      rwa [← hrows]
    obtain ⟨hmanagers, hbatch⟩ := batchWithdrawals_managers hiteration horder hreturns
    have hlen : ∀ batch ∈ order, batch.items.length ≤ 100 := by
      intro batch hbatch
      exact length_le_of_mem_batchWithdrawals (horder.mem_iff.mp hbatch)
    -- batches are replaced by their settlements, whose order no longer matters
    obtain ⟨hsweep, hcount⟩ := settlementSweep_eq_entries hcode hbatch ctx hlen h.idle
    obtain ⟨hunderway, hscores⟩ := settlementEntries_ready hcode hmanagers ctx
      (.start hinv h.idle) (by rw [List.nil_append]; exact hkeys.nodup_iff.mpr readyRows_nodup)
      fun entry hentry =>
        (mem_readyRows hinv).mp (hkeys.mem_iff.mp (List.mem_map_of_mem hentry))
    refine ⟨?_, ?_⟩
    · rw [hsweep]
      refine hunderway.swept fun key => ?_
      rw [List.nil_append, hkeys.mem_iff, mem_readyRows hinv]
    · rw [hcount, hscores, hentries.length_eq, List.length_map]

/-! ## A signer-manager that pays the registry -/

/-- A signer-manager that sends 5 micro-STX to the registry while a
withdrawal is being settled. -/
def generous : Code Chain :=
  { Chain.paying with
    settleAcceptedWithdrawal := fun _ _ w => ⟨[.outside id w.stx 5], some (.ok true)⟩ }

theorem generous_respects (views : Views Chain) : generous.Respects (StatusMono views) :=
  { Chain.paying_respects _ with
    settleAcceptedWithdrawal := fun _ _ w a h => by
      rw [List.mem_singleton.mp h]
      exact fun ext => .refl ext }

theorem generous_returns (reenter : Ctx → Call → M Chain Value) (sm : ContractId) :
    (interpret generous reenter).Returns sm :=
  { Chain.paying_returns reenter sm with
    settleAcceptedWithdrawal := fun id w => by
      simp [interpret, runScript, generous, runAction, Tx.atomic, Tx.run_bind] }

/-! ## Three withdrawals -/

namespace Sample

/-- Request 7 is the chain's, request 8 stays pending and request 9 is
rejected when request 7 is accepted. -/
def mixed : Views Chain :=
  { Chain.bounded with
    getWithdrawalRequest := fun chain id =>
      if id = 7 then chain.request else if id = 8 then some ⟨none⟩
      else if id = 9 then chain.request.map fun request => ⟨request.status.map (!·)⟩
      else none }

/-- A generous signer-manager that opens a request for each staker. -/
def routing : Code Chain :=
  { generous with
    claimStakerRewards := fun _ staker _ _ _ =>
      ⟨[], some (.ok ⟨5, some (if staker = Chain.neighbour then 8
        else if staker = Chain.latecomer then 9 else 7)⟩)⟩ }

theorem routing_respects : routing.Respects (StatusMono mixed) :=
  { generous_respects mixed with
    claimStakerRewards := fun _ _ _ _ _ _ h => by simp [routing] at h }

theorem routing_returns (reenter : Ctx → Call → M Chain Value) (sm : ContractId) :
    (interpret routing reenter).Returns sm :=
  { generous_returns reenter sm with
    claimStakerRewards := fun staker cycle bond w => by
      simp [interpret, runScript, routing, Tx.atomic, Tx.run_bind] }

/-- A transaction of the first staker's. -/
def send (c : Call) (w : World Chain) : World Chain := w.call mixed routing 2 Chain.byStaker c

def mixedRegistered : World Chain :=
  send (.registerForClaims Chain.latecomer Chain.signerManager 1 false 3)
    (send (.registerForClaims Chain.neighbour Chain.signerManager 1 false 3)
      (send (.registerForClaims Chain.staker Chain.signerManager 1 false 3)
        (Chain.start ⟨2, 0, none⟩)))

/-- A claim of each of them is paid out through a request of its own. -/
def mixedClaimed : World Chain :=
  send (.processRewardClaims Chain.signerManager
    [Chain.staker, Chain.neighbour, Chain.latecomer])
    (Chain.become ⟨4, 2, some ⟨none⟩⟩ mixedRegistered)

/-- Request 7 is accepted since, and all three are old enough. -/
def mixedReady : World Chain := Chain.become ⟨11, 2, some ⟨some true⟩⟩ mixedClaimed

theorem run_send {v w : World Chain} (c : Call) (h : Run mixed (fun _ _ => True) v w) :
    Run mixed (fun _ _ => True) v (send c w) :=
  h.trans (run_call routing.respects_true 2 Chain.byStaker c w)

theorem run_mixedRegistered :
    Run mixed (fun _ _ => True) (Chain.start ⟨2, 0, none⟩) mixedRegistered :=
  run_send _ (run_send _ (run_send _ .refl))

theorem run_mixedClaimed :
    Run mixed (fun _ _ => True) (Chain.start ⟨2, 0, none⟩) mixedClaimed :=
  run_send _ (Chain.run_become _ run_mixedRegistered trivial)

theorem reachable_mixedReady : Reachable mixed (fun _ _ => True) mixedReady :=
  ⟨_, _, Chain.run_become _ run_mixedClaimed trivial⟩

/-- The withdrawal of a staker's request. -/
def withdrawalKey (staker : Principal) (requestId : Nat) : WithdrawalKey :=
  ⟨staker, .contract Chain.signerManager, requestId⟩

end Sample

/-- Three withdrawals are indexed; the sweep settles the accepted and the
rejected one, keeps 5 micro-STX and leaves the pending one alone. -/
theorem settlement_sweep_ready :
    indexedKeys Sample.mixedReady = [Sample.withdrawalKey Chain.staker 7,
      Sample.withdrawalKey Chain.neighbour 8, Sample.withdrawalKey Chain.latecomer 9] ∧
    ∃ withdrawals,
      getAllPendingWithdrawals Sample.mixed Sample.mixedReady 1 = some (.ok withdrawals) ∧
      ∃ w', w' = settlementSweep Sample.mixed Sample.routing 2 Chain.byStaker
          (batchWithdrawals (withdrawalGroups withdrawals)) Sample.mixedReady ∧
        SettlementSwept Sample.mixed Sample.mixedReady w' ∧
        indexedKeys w' = [Sample.withdrawalKey Chain.neighbour 8] := by
  have hfit : Sample.mixed.HeightsFit := Chain.bounded_heightsFit
  obtain ⟨withdrawals, hloop, -, -, hsweep⟩ := settlement_sweep Sample.reachable_mixedReady hfit
  have hswept := (hsweep Sample.routing 1 Chain.byStaker Sample.routing_respects
    (fun _ _ => Sample.routing_returns _ _) _ (.refl _) _ (.refl _)).1
  refine ⟨by decide, withdrawals, ?_, _, rfl, hswept, ?_⟩
  · rw [hloop, if_neg (by decide)]
  · rw [hswept.order]
    decide

/-- The balance of the registry is not what it was before the sweep. -/
theorem settlement_sweep_receives_stx :
    Reachable Chain.bounded (fun _ _ => True) Chain.ready ∧
      (∀ sm, (interpret generous (exec Chain.bounded generous 1)).Returns sm) ∧
      getAllPendingWithdrawals Chain.bounded Chain.ready 1 =
        some (.ok [⟨Chain.signerManager, ⟨Chain.staker, 7⟩⟩]) ∧
      (settlementSweep Chain.bounded generous 2 Chain.byStaker
        (batchWithdrawals (withdrawalGroups [⟨Chain.signerManager, ⟨Chain.staker, 7⟩⟩]))
        Chain.ready).stx currentContract ≠ Chain.ready.stx currentContract :=
  ⟨Chain.reachable_ready, generous_returns _, rfl, by decide⟩

end Spox.Keeper
