import Spox.Contract.Pending
import Spox.Contract.Progress

/-!
# Reward claim registry — the view and the action agree

`is-pending` and the assertions of `process-reward-claim-impl` test the same
condition on two paths: the view walks the linked list, the action looks the
key up. In a reachable world both reach the same rows, and a claim that
passes the assertions goes through, so a key is listed exactly if its claim
succeeds (`pending_view_agrees`). The arguments of the signer-manager calls
are those of the listed row.
-/

namespace Spox.RewardClaims

open Spox.Lib

variable {σ : Type} {views : Views σ} {R : σ → σ → Prop} {base : Nat} {w w' : World σ}

/-! ## The arguments of the calls -/

/-- Signer-managers that answer alike where a claim with these arguments asks
them. -/
structure AgreeAt (managers managers' : SignerManagers σ) (sm : ContractId)
    (staker : Principal) (rewardCycle : Nat) (bondIndex : Option Nat) : Prop where
  pull : managers'.claimRewards sm bondIndex.toList rewardCycle =
    managers.claimRewards sm bondIndex.toList rewardCycle
  claim : managers'.claimStakerRewards sm staker rewardCycle bondIndex =
    managers.claimStakerRewards sm staker rewardCycle bondIndex

/-- A claim passes these arguments to its signer-manager: what would be
answered to others does not matter, and a runtime error at these voids the
claim, first of `claim-rewards` where something was earned, then of
`claim-staker-rewards`. -/
structure CalledWith (views : Views σ) (w : World σ) (staker : Principal) (sm : ContractId)
    (rewardCycle : Nat) (bondIndex : Option Nat) : Prop where
  only : ∀ managers managers', AgreeAt managers managers' sm staker rewardCycle bondIndex →
    processRewardClaim views managers' staker sm w = processRewardClaim views managers staker sm w
  pull : ∀ managers : SignerManagers σ,
    0 < views.getEarned w.ext (.contract sm) rewardCycle bondIndex →
    managers.claimRewards sm bondIndex.toList rewardCycle = Tx.abort →
    processRewardClaim views managers staker sm w = .abort
  claim : ∀ managers : SignerManagers σ,
    managers.claimRewards sm bondIndex.toList rewardCycle = pure () →
    managers.claimStakerRewards sm staker rewardCycle bondIndex = Tx.abort →
    processRewardClaim views managers staker sm w = .abort

section Calls

variable {managers managers' : SignerManagers σ} {staker : Principal} {sm : ContractId}
  {key : RegistrationKey} {row : Registration} {cycle : Nat} {covered : Option Nat}

/-- With the guard down a due claim comes down to its pull. -/
theorem run_processRewardClaim (hidle : w.registry.signerManagerCallActive = false)
    (hrow : w.registry.registrations ⟨staker, .contract sm⟩ = some row)
    (hdue : isPending row (views.currentDistributionCycle w.ext)
      (getLastRewardsComputeDistribution views w.ext) = true) :
    processRewardClaim views managers staker sm w =
      (pullAndClaim views managers staker sm ⟨staker, .contract sm⟩ row
        (views.currentDistributionCycle w.ext) >>= fun stored => do
          let after ← Tx.get
          history (.claimed ⟨⟨staker, .contract sm⟩, row,
            after.registry.registrations ⟨staker, .contract sm⟩,
            views.currentDistributionCycle w.ext,
            getLastRewardsComputeDistribution views w.ext⟩)
          pure stored) w := by
  obtain ⟨hlt, hcovered⟩ := Bool.and_eq_true_iff.mp hdue
  simp only [processRewardClaim, validateNoReentrancy, processRewardClaimImpl, Tx.asserts,
    Tx.run_bind, Tx.run_get, hidle, if_true, Tx.run_pure, hrow, Tx.unwrap,
    of_decide_eq_true hlt, hcovered]

theorem pullAndClaim_congr (h : AgreeAt managers managers' sm staker
    (row.nextClaimDistribution / 2) row.bondIndex) :
    pullAndClaim views managers' staker sm key row cycle =
      pullAndClaim views managers staker sm key row cycle := by
  simp only [pullAndClaim, claimStakerAndAdvance, signerManagerClaimRewards,
    signerManagerClaimStakerRewards, h.pull, h.claim]

theorem run_guardedCall_abort {ρ : Type} (hidle : w.registry.signerManagerCallActive = false) :
    guardedCall (Tx.abort : M σ ρ) w = .abort := by
  simp only [guardedCall, Tx.asserts, Tx.run_bind, Tx.run_get, hidle, if_true, Tx.run_pure,
    Tx.run_modify, Tx.attempt, Tx.run_abort]

theorem run_guardedCall_pure {ρ : Type} (hidle : w.registry.signerManagerCallActive = false)
    (value : ρ) : guardedCall (pure value : M σ ρ) w = .ok value w := by
  have hsame : (w.onRegistry fun r => { r with signerManagerCallActive := false }) = w := by
    obtain ⟨registry, stx, ext, log⟩ := w
    obtain ⟨admins, fee, active, list, rows, recorded, pending, index⟩ := registry
    have hidle : active = false := hidle
    subst hidle
    rfl
  simp only [guardedCall, Tx.asserts, Tx.run_bind, Tx.run_get, hidle, if_true, Tx.run_pure,
    Tx.run_modify, Tx.attempt]
  exact congrArg (Outcome.ok value) hsame

theorem run_claimStakerAndAdvance_abort (hidle : w.registry.signerManagerCallActive = false)
    (rewardCycle claimDistribution : Nat) (bondIndex : Option Nat)
    (h : managers.claimStakerRewards sm staker rewardCycle bondIndex = Tx.abort) :
    claimStakerAndAdvance views managers staker sm key row rewardCycle claimDistribution
      bondIndex cycle w = .abort := by
  simp only [claimStakerAndAdvance, signerManagerClaimStakerRewards, h, Tx.run_bind, Tx.attempt,
    run_guardedCall_abort hidle]

/-- A claim of a due row passes the bond index and the reward cycle of the row. -/
theorem calledWith_of_due (hidle : w.registry.signerManagerCallActive = false)
    (hrow : w.registry.registrations ⟨staker, .contract sm⟩ = some row)
    (hdue : isPending row (views.currentDistributionCycle w.ext)
      (getLastRewardsComputeDistribution views w.ext) = true) :
    CalledWith views w staker sm (row.nextClaimDistribution / 2) row.bondIndex where
  only managers managers' h := by
    rw [run_processRewardClaim hidle hrow hdue, run_processRewardClaim hidle hrow hdue,
      pullAndClaim_congr h]
  pull managers hearned h := by
    rw [run_processRewardClaim hidle hrow hdue]
    simp only [pullAndClaim, Tx.run_bind, Tx.run_get, if_pos hearned, signerManagerClaimRewards,
      h, Tx.attempt, run_guardedCall_abort hidle]
  claim managers hpull h := by
    rw [run_processRewardClaim hidle hrow hdue]
    by_cases hearned : 0 < views.getEarned w.ext (.contract sm) (row.nextClaimDistribution / 2)
        row.bondIndex
    · simp only [pullAndClaim, Tx.run_bind, Tx.run_get, if_pos hearned, signerManagerClaimRewards,
        hpull, Tx.attempt, run_guardedCall_pure hidle,
        run_claimStakerAndAdvance_abort hidle _ _ _ h]
    · simp only [pullAndClaim, Tx.run_bind, Tx.run_get, if_neg hearned,
        run_claimStakerAndAdvance_abort hidle _ _ _ h]

end Calls

/-! ## Agreement -/

/-- The rows are those of the live registrations that are pending. -/
theorem mem_pendingRows (hinv : Inv base w) {row : PendingClaimRow} :
    row ∈ (liveKeys w).filterMap (pendingRowAt views w) ↔
      ∃ registration, w.registry.registrations row.key = some registration ∧
        isPending registration (views.currentDistributionCycle w.ext)
          (getLastRewardsComputeDistribution views w.ext) = true ∧
        row.bondIndex = registration.bondIndex ∧
        row.rewardCycle = registration.nextClaimDistribution / 2 := by
  rw [List.mem_filterMap]
  constructor
  · intro hrow
    obtain ⟨key, -, hrow⟩ := hrow
    unfold pendingRowAt pendingRow at hrow
    split at hrow
    · next registration hregistration =>
        split at hrow
        · next hdue =>
            cases hrow
            exact ⟨registration, hregistration, hdue, rfl, rfl⟩
        · cases hrow
    · cases hrow
  · intro hrow
    obtain ⟨registration, hregistration, hdue, hbond, hcycle⟩ := hrow
    refine ⟨row.key, hinv.live hregistration, ?_⟩
    rw [pendingRowAt, pendingRow, hregistration]
    simp only [if_pos hdue, PendingClaimRow.key, ← hbond, ← hcycle]

/-- **The view and the action agree.** Against a signer-manager that returns
some response, a key is listed exactly if claiming it succeeds in the same
world; the claim passes the bond index and the reward cycle of the row to the
signer-manager; and every listed registration has a claim left. -/
theorem pending_view_agrees (h : Reachable views R w) {calls : Nat}
    {rows : List PendingClaimRow}
    (hrows : pageThrough (fun cursor => Except.ok (ε := Unit) (getPendingClaims views w cursor))
      calls [] none = some (.ok rows))
    {code : Code σ} (hcode : code.Respects R) (depth : Nat) (ctx : Ctx) (staker : Principal)
    {sm : ContractId} (hreturns : (interpret code (exec views code depth)).Returns sm)
    (hcycle : views.currentDistributionCycle w.ext + 1 < Tx.uintBound) :
    ((∃ row ∈ rows, row.key = ⟨staker, .contract sm⟩) ↔
      ∃ value w', exec views code (depth + 1) ctx (.processRewardClaim staker sm) w =
        .ok value w') ∧
    (∀ row ∈ rows, row.key = ⟨staker, .contract sm⟩ →
      CalledWith views w staker sm row.rewardCycle row.bondIndex) ∧
    ∀ row ∈ rows, ∃ registration, w.registry.registrations row.key = some registration ∧
      0 < registration.remainingClaims := by
  obtain ⟨base, hinv⟩ := h.inv
  -- the loop has read the whole list
  have hall : rows = (liveKeys w).filterMap (pendingRowAt views w) := by
    have hvisits : Visits w.registry.registrationLl.next
        ((none : Option RegistrationKey).or w.registry.registrationLl.head) (liveKeys w) :=
      hinv.visits
    rw [pageThrough_exact (Nat.succ_pos 99)
      (fun _ _ hks => by rw [getPendingClaims_page hks]) hvisits] at hrows
    split at hrows
    · cases hrows
    · cases hrows
      rfl
  subst hall
  have hframes := (interpret_frames hcode depth sm).total hreturns
  have hspec := exec_processRewardClaim hinv h.idle hframes
    (fun hbound => absurd hcycle (by omega)) ctx staker
  refine ⟨⟨?_, ?_⟩, ?_, ?_⟩
  · intro hlisted
    obtain ⟨row, hrow, hkey⟩ := hlisted
    obtain ⟨registration, hregistration, hdue, -, -⟩ := (mem_pendingRows hinv).mp hrow
    rcases hspec.total with ⟨value, w', hrun, -⟩ | ⟨error, w', -, -, hnot⟩
    · exact ⟨value, w', hrun⟩
    · rw [hkey] at hregistration
      exact absurd (hnot registration hregistration) (by simp [hdue])
  · intro hok
    obtain ⟨value, w', hrun⟩ := hok
    obtain ⟨registration, hregistration, hdue, -⟩ := hspec.of_ok hrun
    exact ⟨⟨.contract sm, staker, registration.bondIndex,
      registration.nextClaimDistribution / 2⟩,
      (mem_pendingRows hinv).mpr ⟨registration, hregistration, hdue, rfl, rfl⟩, rfl⟩
  · intro row hrow hkey
    obtain ⟨registration, hregistration, hdue, hbond, hcycle⟩ := (mem_pendingRows hinv).mp hrow
    rw [hbond, hcycle]
    exact calledWith_of_due h.idle (hkey ▸ hregistration) hdue
  · intro row hrow
    obtain ⟨registration, hregistration, -⟩ := (mem_pendingRows hinv).mp hrow
    exact ⟨registration, hregistration, (hinv.rows _ _ hregistration).remaining⟩

set_option maxRecDepth 4000 in
/-- The one row of a small chain, and its claim. -/
theorem pending_view_agrees_due :
    ∃ value w', exec Chain.views Chain.paying 2 Chain.byStaker
      (.processRewardClaim Chain.staker Chain.signerManager) Chain.due = .ok value w' := by
  have hrows : pageThrough
      (fun cursor => Except.ok (ε := Unit) (getPendingClaims Chain.views Chain.due cursor)) 1 []
      none = some (.ok [⟨.contract Chain.signerManager, Chain.staker, none, 1⟩]) := rfl
  obtain ⟨hiff, -, -⟩ := pending_view_agrees
    ⟨_, _, Chain.run_due (R := fun _ _ => True) trivial⟩ hrows (Chain.paying_respects _) 1
    Chain.byStaker Chain.staker (Chain.paying_returns _ Chain.signerManager) (by decide)
  exact hiff.mp ⟨_, List.mem_singleton_self _, rfl⟩

end Spox.RewardClaims
