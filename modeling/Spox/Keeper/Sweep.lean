import Mathlib.Data.Set.Card
import Spox.Contract.Batches
import Spox.Contract.Progress
import Spox.Keeper.Claims

/-!
# Keeper — a sweep over the pending claims

A sweep fetches all pending claims, batches them and executes every batch.
Whatever order the hash map is met in, whatever order the batches are
executed in and whatever the signer-managers answer, it consumes exactly one
installment of each registration that was pending and touches no other.

A batch is the sequence of its claims, so a sweep is a sequence of claims on
the pending registrations, each named once; none of them touches the row of
another, so each still finds its own pending.
-/

namespace Spox.Keeper

open Spox.Lib Spox.RewardClaims

variable {σ : Type} {views : Views σ} {R : σ → σ → Prop} {base : Nat} {w s : World σ}

/-! ## Executing the batches -/

/-- `into_contract_args`: the call of a batch. -/
def RewardClaimsBatch.call (batch : RewardClaimsBatch) : Call :=
  .processRewardClaims batch.signerManager batch.stakers

/-- The world after the batches, one transaction each. -/
def sweep (views : Views σ) (code : Code σ) (depth : Nat) (ctx : Ctx)
    (order : List RewardClaimsBatch) (w : World σ) : World σ :=
  Tx.commits (fun batch : RewardClaimsBatch => exec views code depth ctx batch.call) order w

/-- The count a batch answers with. -/
def counted : Value → Nat
  | .uint n => n
  | _ => 0

/-- The sum of the counts the batches answer with. -/
def sweepCount (views : Views σ) (code : Code σ) (depth : Nat) (ctx : Ctx)
    (order : List RewardClaimsBatch) (w : World σ) : Nat :=
  Tx.scores counted (fun batch : RewardClaimsBatch => exec views code depth ctx batch.call)
    order w

/-- The registrations after a sweep, as a function of the world before it. -/
def sweptRegistrations (views : Views σ) (w : World σ) (key : RegistrationKey) :
    Option Registration :=
  if pendingAt views w key then
    (w.registry.registrations key).bind fun row =>
      consume row (views.currentDistributionCycle w.ext)
  else w.registry.registrations key

/-! ## A sequence of claims -/

/-- The registration of a claim of a batch. -/
def entryKey (entry : ContractId × Principal) : RegistrationKey := ⟨entry.2, .contract entry.1⟩

section Entries

variable {code : Code σ} {depth : Nat} {ctx : Ctx}

/-- A single claim as a transaction. -/
def claimEntry (views : Views σ) (code : Code σ) (depth : Nat) (ctx : Ctx)
    (entry : ContractId × Principal) : M σ Value :=
  exec views code depth ctx (.processRewardClaim entry.2 entry.1)

/-- A claim of a pending registration consumes its installment and touches
no other row. -/
theorem claimEntry_pending (ctx : Ctx) (h : Between views base w s)
    (hcode : code.Respects (Steady views))
    {entry : ContractId × Principal}
    (hreturns : (interpret code (exec views code depth)).Returns entry.1)
    (hcycle : views.currentDistributionCycle w.ext + 1 < Tx.uintBound) {row : Registration}
    (hrow : s.registry.registrations (entryKey entry) = some row)
    (hpending : isPending row (views.currentDistributionCycle w.ext)
      (getLastRewardsComputeDistribution views w.ext) = true) :
    ((claimEntry views code (depth + 1) ctx entry).commit s).registry.registrations =
        Function.update s.registry.registrations (entryKey entry)
          (consume row (views.currentDistributionCycle w.ext)) ∧
      (claimEntry views code (depth + 1) ctx entry).score (fun _ => 1) s = 1 ∧
      Between views base w ((claimEntry views code (depth + 1) ctx entry).commit s) := by
  have hframes := (interpret_frames hcode depth entry.1).total hreturns
  have hspec := exec_processRewardClaim h.inv h.idle hframes
    (fun hbound => absurd hcycle (by rw [h.steady.cycle] at hbound; omega)) ctx entry.2
  rw [h.steady.cycle, h.steady.covered] at hspec
  obtain ⟨-, hbetween⟩ := countClaim_entry h hcode hreturns hcycle ctx entry.2 0
  rcases hspec.total with ⟨value, s', hrun, row', hrow', -, hconsumed⟩ | ⟨error, s', -, -, hnot⟩
  · have hsame : row' = row := Option.some.inj (hrow'.symm.trans hrow)
    subst hsame
    refine ⟨?_, Tx.score_of_ok hrun, hbetween⟩
    rw [claimEntry, Tx.commit_of_ok hrun]
    exact hconsumed.registrations
  · exact absurd (hnot row hrow) (by simp [hpending])

/-- **A sequence of claims** on distinct pending registrations consumes an
installment of each, touches no other row and succeeds every time. -/
theorem claimEntries_pending (ctx : Ctx) (hcode : code.Respects (Steady views))
    (hreturns : ∀ sm, (interpret code (exec views code depth)).Returns sm)
    (hcycle : views.currentDistributionCycle w.ext + 1 < Tx.uintBound)
    {entries : List (ContractId × Principal)} (h : Between views base w s)
    (hnodup : (entries.map entryKey).Nodup)
    (hpending : ∀ entry ∈ entries, ∃ row,
      s.registry.registrations (entryKey entry) = some row ∧
        isPending row (views.currentDistributionCycle w.ext)
          (getLastRewardsComputeDistribution views w.ext) = true) :
    (∀ key, (Tx.commits (claimEntry views code (depth + 1) ctx) entries
        s).registry.registrations key =
      if key ∈ entries.map entryKey then
        (s.registry.registrations key).bind fun row =>
          consume row (views.currentDistributionCycle w.ext)
      else s.registry.registrations key) ∧
    Tx.scores (fun _ => 1) (claimEntry views code (depth + 1) ctx) entries s =
      entries.length := by
  induction entries generalizing s with
  | nil => exact ⟨fun key => by simp [Tx.commits], rfl⟩
  | cons entry entries ih =>
      rw [List.map_cons, List.nodup_cons] at hnodup
      obtain ⟨row, hrow, hdue⟩ := hpending entry List.mem_cons_self
      obtain ⟨hrows, hscore, hbetween⟩ :=
        claimEntry_pending ctx h hcode (hreturns entry.1) hcycle hrow hdue
      -- the other entries name other keys, so their rows are as they were
      have hrest : ∀ other ∈ entries, ∃ row',
          ((claimEntry views code (depth + 1) ctx entry).commit s).registry.registrations
              (entryKey other) = some row' ∧
            isPending row' (views.currentDistributionCycle w.ext)
              (getLastRewardsComputeDistribution views w.ext) = true := by
        intro other hother
        have hne : entryKey other ≠ entryKey entry := by
          intro heq
          exact hnodup.1 (heq ▸ List.mem_map_of_mem hother)
        rw [hrows, Function.update_of_ne hne]
        exact hpending other (List.mem_cons_of_mem entry hother)
      obtain ⟨hcommits, hscores⟩ := ih hbetween hnodup.2 hrest
      refine ⟨?_, ?_⟩
      · intro key
        rw [Tx.commits, hcommits, hrows, List.map_cons]
        by_cases hkey : key = entryKey entry
        · subst hkey
          rw [if_neg hnodup.1, if_pos List.mem_cons_self, Function.update_self, hrow]
          rfl
        · rw [Function.update_of_ne hkey]
          simp only [List.mem_cons, hkey, false_or]
      · rw [Tx.scores, hscore, hscores, List.length_cons, Nat.add_comm]

/-- A batch does what its claims do one after another. -/
theorem sweep_eq_claimEntries (ctx : Ctx) (hcode : code.Respects (Steady views))
    (hreturns : ∀ sm, (interpret code (exec views code depth)).Returns sm)
    (hcycle : views.currentDistributionCycle w.ext + 1 < Tx.uintBound)
    {order : List RewardClaimsBatch} (hlen : ∀ batch ∈ order, batch.stakers.length ≤ 100)
    (h : Between views base w s) :
    sweep views code (depth + 1) ctx order s =
        Tx.commits (claimEntry views code (depth + 1) ctx)
          (order.flatMap RewardClaimsBatch.entries) s ∧
      sweepCount views code (depth + 1) ctx order s =
        Tx.scores (fun _ => 1) (claimEntry views code (depth + 1) ctx)
          (order.flatMap RewardClaimsBatch.entries) s := by
  -- one transaction for a batch against one for each of its entries
  refine Tx.commits_flatMap RewardClaimsBatch.entries (Between views base w) ?_ h
  intro batch s hbatch hs
  obtain ⟨hrun, hbetween⟩ := run_processRewardClaims hs hcode (hreturns batch.signerManager)
    hcycle ctx (hlen batch hbatch)
  rw [RewardClaimsBatch.call, Tx.commit_of_ok hrun, Tx.score_of_ok hrun,
    RewardClaimsBatch.entries, Tx.commits_map, Tx.scores_map]
  exact ⟨rfl, rfl, hbetween⟩

end Entries

/-! ## The sweep -/

/-- What a sweep does to the registrations: each pending one has consumed
exactly one installment, the others are as they were, and all of it is
determined by the world before. -/
structure Swept (views : Views σ) (w w' : World σ) : Prop where
  pending : ∀ key row, w.registry.registrations key = some row →
    pendingAt views w key = true →
    w'.registry.registrations key = consume row (views.currentDistributionCycle w.ext) ∧
      Installment row (w'.registry.registrations key)
  other : ∀ key, pendingAt views w key = false →
    w'.registry.registrations key = w.registry.registrations key
  determined : w'.registry.registrations = sweptRegistrations views w

theorem swept_of_determined (hinv : Inv base w) {w' : World σ}
    (h : w'.registry.registrations = sweptRegistrations views w) : Swept views w w' where
  pending key row hrow hpending := by
    have hkey : w'.registry.registrations key =
        consume row (views.currentDistributionCycle w.ext) := by
      rw [h, sweptRegistrations, if_pos hpending, hrow]
      rfl
    rw [hkey]
    exact ⟨rfl, installment_consume (hinv.rows key row hrow).remaining _⟩
  other key hnot := by
    rw [h, sweptRegistrations, if_neg (by simp [hnot])]
  determined := h

/-- The pending registrations, by the time of their creation. -/
def pendingKeys (views : Views σ) (w : World σ) : List RegistrationKey :=
  (liveKeys w).filter (pendingAt views w)

theorem pendingKeys_nodup : (pendingKeys views w).Nodup := insertionOrder_nodup.filter _

theorem mem_pendingKeys (hinv : Inv base w) {key : RegistrationKey} :
    key ∈ pendingKeys views w ↔ pendingAt views w key = true := by
  rw [pendingKeys, List.mem_filter]
  constructor
  · intro h
    exact h.2
  · intro hpending
    refine ⟨?_, hpending⟩
    have hlive : (w.registry.registrations key).isSome = true := by
      unfold pendingAt at hpending
      split at hpending
      · next row hrow => rw [hrow]; rfl
      · cases hpending
    exact mem_insertionOrder.mpr ⟨hinv.created key hlive, hlive⟩

theorem length_pendingKeys (hinv : Inv base w) :
    (pendingKeys views w).length = {key | pendingAt views w key = true}.ncard := by
  have hset : {key | pendingAt views w key = true} =
      ((pendingKeys views w).toFinset : Set RegistrationKey) := by
    ext key
    rw [List.coe_toFinset]
    exact (mem_pendingKeys hinv).symm
  rw [hset, Set.ncard_coe_finset, List.toFinset_card_of_nodup pendingKeys_nodup]

/-- **The keeper's sweep.** From a reachable world whose pox-5 readings stay
fixed, against signer-managers that return, the client's loop ends, and
executing its batches, whatever the order of the hash map and of the batches,
consumes one installment of every pending registration and nothing else. The
counts add up to the number of registrations that were pending. -/
theorem keeper_sweep (h : Reachable views R w) {code : Code σ}
    (hcode : code.Respects (Steady views)) (depth : Nat) (ctx : Ctx)
    (hreturns : ∀ sm, (interpret code (exec views code depth)).Returns sm)
    (hcycle : views.currentDistributionCycle w.ext + 1 < Tx.uintBound) {fuel : Nat}
    (hpos : 0 < fuel) (hfuel : (liveKeys w).length ≤ 100 * fuel) :
    ∃ claims, getAllPendingClaims views w fuel = some (.ok claims) ∧
      ∀ iteration, iteration.Perm (claimGroups claims) →
      ∀ order, order.Perm (batchClaims iteration) →
        Swept views w (sweep views code (depth + 1) ctx order w) ∧
        sweepCount views code (depth + 1) ctx order w =
          {key | pendingAt views w key = true}.ncard := by
  obtain ⟨base, hinv⟩ := h.inv
  have hstart : Between views base w w := ⟨hinv, h.idle, .refl w.ext⟩
  refine ⟨_, getAllPendingClaims_complete hinv hpos hfuel, ?_⟩
  intro iteration hiteration order horder
  have hlen : ∀ batch ∈ order, batch.stakers.length ≤ 100 := by
    intro batch hbatch
    exact length_le_of_mem_batchClaims (horder.mem_iff.mp hbatch)
  -- the claims of all batches name each pending registration once
  have hkeys : ((order.flatMap RewardClaimsBatch.entries).map entryKey).Perm
      (pendingKeys views w) := by
    have hentries := (batchClaims_entries hiteration horder).map entryKey
    rw [List.map_map] at hentries
    rwa [pendingKeys, ← (getPendingClaims_readsAll hinv).rows]
  have hnodup : ((order.flatMap RewardClaimsBatch.entries).map entryKey).Nodup :=
    hkeys.nodup_iff.mpr pendingKeys_nodup
  have hpending : ∀ entry ∈ order.flatMap RewardClaimsBatch.entries, ∃ row,
      w.registry.registrations (entryKey entry) = some row ∧
        isPending row (views.currentDistributionCycle w.ext)
          (getLastRewardsComputeDistribution views w.ext) = true := by
    intro entry hentry
    have hdue := (mem_pendingKeys hinv).mp (hkeys.mem_iff.mp (List.mem_map_of_mem hentry))
    unfold pendingAt at hdue
    split at hdue
    · next row hrow => exact ⟨row, hrow, hdue⟩
    · cases hdue
  -- batches are replaced by their claims, whose order no longer matters
  obtain ⟨hsweep, hcount⟩ :=
    sweep_eq_claimEntries ctx hcode hreturns hcycle hlen hstart
  obtain ⟨hrows, hscores⟩ :=
    claimEntries_pending ctx hcode hreturns hcycle hstart hnodup hpending
  refine ⟨swept_of_determined hinv ?_, ?_⟩
  · funext key
    rw [hsweep, hrows, sweptRegistrations]
    simp only [hkeys.mem_iff, mem_pendingKeys hinv]
  · rw [hcount, hscores, ← length_pendingKeys hinv, ← hkeys.length_eq, List.length_map]

/-- Two of three registrations are due. -/
def crowdedDue : World Chain := Chain.become ⟨4, 2, some ⟨none⟩⟩ Chain.crowded

/-- The sweep uses up one of them and leaves the third alone. -/
theorem keeper_sweep_due :
    pendingKeys Chain.views crowdedDue = [Chain.key, Chain.keyOf Chain.neighbour] ∧
      ∃ claims, getAllPendingClaims Chain.views crowdedDue 1 = some (.ok claims) ∧
        ∃ w', w' = sweep Chain.views Chain.paying 2 Chain.byStaker
            (batchClaims (claimGroups claims)) crowdedDue ∧
          Swept Chain.views crowdedDue w' ∧
          w'.registry.registrations (Chain.keyOf Chain.neighbour) = none ∧
          w'.registry.registrations (Chain.keyOf Chain.latecomer) =
            crowdedDue.registry.registrations (Chain.keyOf Chain.latecomer) := by
  have hrun : Run Chain.views (fun _ _ => True) (Chain.start ⟨2, 0, none⟩) crowdedDue :=
    Chain.run_become _ Chain.run_crowded trivial
  obtain ⟨claims, hfetch, hsweep⟩ :=
    keeper_sweep ⟨_, _, hrun⟩ (Chain.paying_respects _) 1 Chain.byStaker
      (Chain.paying_returns _) (by decide) Nat.one_pos (by decide)
  have hswept := (hsweep _ (List.Perm.refl _) _ (List.Perm.refl _)).1
  refine ⟨by decide, claims, hfetch, _, rfl, hswept, ?_, hswept.other _ (by decide)⟩
  exact (hswept.pending _ _ rfl (by decide)).1.trans rfl

end Spox.Keeper
