import Spox.Contract.Solvency

/-!
# Reward claim registry — one claim, one installment

A claim of a due registration consumes exactly one installment, whatever the
signer-manager does while it is called: it may fail, pay, ask for any
withdrawal, and call the registry back at any depth. A claim of one that is
not due changes nothing.
-/

namespace Spox.RewardClaims

open Spox.Lib

variable {σ : Type} {views : Views σ} {R : σ → σ → Prop} {base : Nat} {w w' : World σ}

/-! ## What a claim changes -/

/-- Everything a claim does to the escrow, the registrations and the progress
record, as a function of the world before it. -/
structure Consumed (key : RegistrationKey) (row : Registration) (cycle : Nat)
    (covered : Option Nat) (w w' : World σ) : Prop where
  registrations : w'.registry.registrations =
    Function.update w.registry.registrations key (consume row cycle)
  registrationLl : w'.registry.registrationLl =
    if row.remainingClaims ≤ 1 then w.registry.registrationLl.remove key
    else w.registry.registrationLl
  maxProcessedDistribution : w'.registry.maxProcessedDistribution =
    Function.update w.registry.maxProcessedDistribution key.staker
      (some (World.raised (w.registry.maxProcessedDistribution key.staker)
        row.nextClaimDistribution))
  movements : movements w'.log =
    movements w.log ++ (Movement.burn (burnAmount row)).nonzero.toList
  claims : claims w'.log = claims w.log ++ [⟨key, row, consume row cycle, cycle, covered⟩]

/-- One installment of a row: the last one ends the registration, any other
leaves one fewer, a later distribution and the escrow less the burn. -/
structure Installment (row : Registration) (after : Option Registration) : Prop where
  last : row.remainingClaims = 1 → after = none ∧ burnAmount row = row.prepaidUstx
  next : row.remainingClaims ≠ 1 → ∃ row', after = some row' ∧
    row'.remainingClaims + 1 = row.remainingClaims ∧
    row.nextClaimDistribution < row'.nextClaimDistribution ∧
    row'.prepaidUstx + burnAmount row = row.prepaidUstx ∧
    row'.sponsor = row.sponsor ∧ row'.bondIndex = row.bondIndex ∧
    row'.oneClaimPerRewardCycle = row.oneClaimPerRewardCycle

theorem installment_consume {row : Registration} (hpos : 1 ≤ row.remainingClaims)
    (cycle : Nat) : Installment row (consume row cycle) where
  last hlast := by simp [consume, burnAmount, hlast]
  next hmore := by
    have hnot : ¬ row.remainingClaims ≤ 1 := by omega
    have hle := burnAmount_le row
    rw [consume, if_neg hnot]
    refine ⟨_, rfl, ?_, lt_scheduleNext _ _ _, ?_, rfl, rfl, rfl⟩
    · simp only
      omega
    · simp only
      omega

theorem outside_claims {es : List Event} (h : ∀ e ∈ es, e.isOutside = true) :
    claims es = [] ∧ movements es = [] :=
  ⟨(outside_readings h).2.2,
    List.filterMap_eq_nil_iff.mpr fun e he => (isIdle_of_isOutside (h e he)).2.1⟩

theorem Tracked.consumed_of {key : RegistrationKey} {stored : Option Nat}
    (h : Tracked views key w stored w') :
    w'.registry.registrations = w.registry.registrations ∧
      w'.registry.registrationLl = w.registry.registrationLl ∧
      w'.registry.maxProcessedDistribution = w.registry.maxProcessedDistribution ∧
      claims w'.log = claims w.log ∧ movements w'.log = movements w.log := by
  cases h with
  | none => exact ⟨rfl, rfl, rfl, rfl, rfl⟩
  | known => exact ⟨rfl, rfl, rfl, rfl, rfl⟩
  | fresh => simp [World.indexedAt, Event.claim, Event.movement]

/-- What the calls and the index leave of a claim is its effect on the row. -/
theorem consumed_claimed {w₁ w₂ : World σ} {key : RegistrationKey} {row : Registration}
    {stored : Option Nat} (hcall : Outside R w w₁) (htracked : Tracked views key w₁ stored w₂)
    (cycle : Nat) (covered : Option Nat) (earned : Nat) (claimError : Option Nat) :
    Consumed key row cycle covered w
      (w₂.claimed key row cycle covered earned claimError stored) := by
  obtain ⟨es, hlog, hes, -⟩ := hcall.log
  obtain ⟨hclaims, hmovements⟩ := outside_claims hes
  obtain ⟨hrows, hlist, hmax, hclaims₂, hmovements₂⟩ := htracked.consumed_of
  constructor
  · simp [World.claimed, World.advanced, hrows, hcall.registrations]
  · simp [World.claimed, World.advanced, hlist, hcall.registrationLl]
  · simp [World.claimed, World.advanced, hmax, hcall.maxProcessedDistribution]
  · simp [World.claimed, World.advanced, burnEscrow_log, movements_burn, hmovements₂, hlog,
      hmovements, Event.movement]
  · simp [World.claimed, World.advanced, burnEscrow_log, hclaims₂, hlog, hclaims, Event.claim]

/-- A claim at the level of a transaction. -/
theorem exec_processRewardClaim {code : Code σ} {depth : Nat} {sm : ContractId}
    {void : Prop} (hinv : Inv base w)
    (hidle : w.registry.signerManagerCallActive = false)
    (hframes : (interpret code (exec views code depth)).Frames sm R void)
    (hvoid : Tx.uintBound ≤ views.currentDistributionCycle w.ext + 1 → void) (ctx : Ctx)
    (staker : Principal) :
    Tx.wp (exec views code (depth + 1) ctx (.processRewardClaim staker sm)) w
      (fun _ w' => ∃ row, w.registry.registrations ⟨staker, .contract sm⟩ = some row ∧
        isPending row (views.currentDistributionCycle w.ext)
          (getLastRewardsComputeDistribution views w.ext) = true ∧
        Consumed ⟨staker, .contract sm⟩ row (views.currentDistributionCycle w.ext)
          (getLastRewardsComputeDistribution views w.ext) w w')
      (fun _ w' => w' = w ∧
        ∀ row, w.registry.registrations ⟨staker, .contract sm⟩ = some row →
          isPending row (views.currentDistributionCycle w.ext)
            (getLastRewardsComputeDistribution views w.ext) = false) void := by
  rw [exec, Tx.wp_atomic]
  simp only [dispatch, processRewardClaim, Tx.wp_bind, wp_validateNoReentrancy, Tx.wp_get,
    Tx.wp_pure]
  refine ⟨fun _ => ?_, fun hactive => absurd hactive (by simp [hidle])⟩
  refine (processRewardClaimImpl_spec views hinv hidle staker sm hframes _ hvoid).mono ?_
    (fun _ _ h => ⟨trivial, h.2⟩) id
  intro stored _ hpost
  obtain ⟨row, w₁, w₂, earned, claimError, hrow, hdue, hcall, htracked, -, rfl⟩ := hpost
  exact ⟨row, hrow, hdue, consumed_claimed hcall htracked _ _ _ _⟩

/-! ## Reentrancy -/

/-- What a signer-manager call leaves alone. -/
structure Untouched (w w' : World σ) : Prop where
  registrations : w'.registry.registrations = w.registry.registrations
  registrationLl : w'.registry.registrationLl = w.registry.registrationLl
  pendingWithdrawals : w'.registry.pendingWithdrawals = w.registry.pendingWithdrawals
  pendingWithdrawalLl : w'.registry.pendingWithdrawalLl = w.registry.pendingWithdrawalLl
  maxProcessedDistribution :
    w'.registry.maxProcessedDistribution = w.registry.maxProcessedDistribution
  balance : w.stx currentContract ≤ w'.stx currentContract

theorem Untouched.refl (w : World σ) : Untouched w w :=
  ⟨rfl, rfl, rfl, rfl, rfl, Nat.le_refl _⟩

theorem Outside.untouched (h : Outside R w w') : Untouched w w' := by
  obtain ⟨es, -, -, hstx⟩ := h.log
  exact ⟨h.registrations, h.registrationLl, h.pendingWithdrawals, h.pendingWithdrawalLl,
    h.maxProcessedDistribution, by omega⟩

/-- A call that touches nothing of the registry while the guard is up,
however it ends. -/
def Harmless {ρ : Type} (call : M σ ρ) : Prop :=
  ∀ w, w.registry.signerManagerCallActive = true →
    Tx.wp call w (fun _ w' => Untouched w w') (fun _ w' => Untouched w w') True

theorem harmless_of_outside {ρ : Type} {call : M σ ρ}
    (h : ∀ w : World σ, w.registry.signerManagerCallActive = true →
      Tx.wp call w (fun _ w' => Outside R w w') (fun _ w' => w' = w) True) :
    Harmless call := fun w hactive =>
  (h w hactive).mono (fun _ _ h => h.untouched) (fun _ _ h => h ▸ .refl _) id

/-- A call that touches nothing of the registry when it is made with the
guard down, and leaves the guard down, however it ends. -/
def Fenced {ρ : Type} (call : M σ ρ) : Prop :=
  ∀ w, w.registry.signerManagerCallActive = false →
    Tx.wp call w
      (fun _ w' => Untouched w w' ∧ w'.registry.signerManagerCallActive = false)
      (fun _ w' => Untouched w w' ∧ w'.registry.signerManagerCallActive = false) True

theorem fenced_guardedCall {ρ : Type} {call : M σ ρ}
    (h : ∀ w : World σ, w.registry.signerManagerCallActive = true →
      Tx.wp call w (fun _ w' => Outside R w w') (fun _ w' => w' = w) True) :
    Fenced (guardedCall call) := fun _ hidle =>
  (guardedCall_outside h hidle).mono (fun _ _ h => ⟨h.untouched, h.active.trans hidle⟩)
    (fun _ _ h => ⟨h.untouched, h.active.trans hidle⟩) id

theorem untouched_of_emit {es : List Event} (h : Untouched (w.emit es) w') : Untouched w w' :=
  ⟨h.registrations, h.registrationLl, h.pendingWithdrawals, h.pendingWithdrawalLl,
    h.maxProcessedDistribution, h.balance⟩

/-- A history variable in front of a fenced call changes nothing of this. -/
theorem Fenced.history {ρ : Type} {call : M σ ρ} (h : Fenced call) (e : Event) :
    Fenced (do history e; call) := by
  intro w hidle
  rw [Tx.wp_bind, wp_history]
  exact (h (w.emit [e]) hidle).mono (fun _ _ h => ⟨untouched_of_emit h.1, h.2⟩)
    (fun _ _ h => ⟨untouched_of_emit h.1, h.2⟩) id

/-- **Reentrancy safety.** Whatever a signer-manager does during any of the
four calls, calling back the registry included, it touches nothing of it. Each
of the four wrappers makes its call with the guard up and has it down again
afterwards, and no public function, batches included, calls a signer-manager
in any other way. The guard is down in every reachable world, and a successful
claim consumes the installment of its registration once, from the row that was
there before the calls. -/
theorem reentrancy_safety (h : Reachable views R w) {code : Code σ} (hcode : code.Respects R)
    (depth : Nat) :
    let managers := interpret code (exec views code depth)
    ((∀ sm staker cycle bond, Harmless (managers.claimStakerRewards sm staker cycle bond)) ∧
      (∀ sm bonds cycle, Harmless (managers.claimRewards sm bonds cycle)) ∧
      (∀ sm id, Harmless (managers.settleAcceptedWithdrawal sm id)) ∧
      (∀ sm id, Harmless (managers.reclaimFailedWithdrawal sm id))) ∧
    ((∀ sm staker cycle bond,
        Fenced (signerManagerClaimStakerRewards managers sm staker cycle bond)) ∧
      (∀ sm bonds cycle, Fenced (signerManagerClaimRewards managers sm bonds cycle)) ∧
      (∀ staker sm id, Fenced (signerManagerSettleAcceptedWithdrawal managers staker sm id)) ∧
      (∀ staker sm id, Fenced (signerManagerReclaimFailedWithdrawal managers staker sm id))) ∧
    (∀ ctx c, exec views code (depth + 1) ctx c =
      Tx.atomic (dispatch views managers.whileActive ctx c)) ∧
    w.registry.signerManagerCallActive = false ∧
    ∀ ctx staker sm value w',
      exec views code depth ctx (.processRewardClaim staker sm) w = .ok value w' →
      ∃ row, w.registry.registrations ⟨staker, .contract sm⟩ = some row ∧
        Consumed ⟨staker, .contract sm⟩ row (views.currentDistributionCycle w.ext)
          (getLastRewardsComputeDistribution views w.ext) w w' := by
  intro managers
  obtain ⟨base, hinv⟩ := h.inv
  have hframes : ∀ sm, managers.Frames sm R True := interpret_frames hcode depth
  refine ⟨⟨fun sm staker cycle bond => ?_, fun sm bonds cycle => ?_, fun sm id => ?_,
    fun sm id => ?_⟩, ⟨fun sm staker cycle bond => ?_, fun sm bonds cycle => ?_,
    fun staker sm id => ?_, fun staker sm id => ?_⟩, fun ctx c => ?_, h.idle, ?_⟩
  · exact harmless_of_outside ((hframes sm).claimStakerRewards staker cycle bond)
  · exact harmless_of_outside ((hframes sm).claimRewards bonds cycle)
  · exact harmless_of_outside ((hframes sm).settleAcceptedWithdrawal id)
  · exact harmless_of_outside ((hframes sm).reclaimFailedWithdrawal id)
  · exact fenced_guardedCall ((hframes sm).claimStakerRewards staker cycle bond)
  · exact fenced_guardedCall ((hframes sm).claimRewards bonds cycle)
  · exact (fenced_guardedCall ((hframes sm).settleAcceptedWithdrawal id)).history _
  · exact (fenced_guardedCall ((hframes sm).reclaimFailedWithdrawal id)).history _
  · rw [exec, dispatch_whileActive]
  · intro ctx staker sm value w' hexec
    cases depth with
    | zero => simp [exec] at hexec
    | succ depth =>
        obtain ⟨row, hrow, -, hconsumed⟩ := (exec_processRewardClaim hinv h.idle
          (interpret_frames hcode depth sm) (fun _ => trivial) ctx staker).of_ok hexec
        exact ⟨row, hrow, hconsumed⟩

/-- A signer-manager that tries to buy, to cancel and to claim in a batch
while it is paid, and again while it settles the withdrawal of that payout:
the claim takes one installment and the settling takes none. -/
theorem reentrancy_safety_reentrant :
    ∃ w w' : World Chain, liveKeys w = [Chain.key] ∧
      w.registry.signerManagerCallActive = false ∧
      w' = w.call Chain.views Chain.reentrant 3 Chain.byStaker
        (.processRewardClaim Chain.staker Chain.signerManager) ∧
      (∃ row, Consumed Chain.key row 4 (some 2) w w') ∧
      Tx.wp (signerManagerSettleAcceptedWithdrawal
          (interpret Chain.reentrant (exec Chain.views Chain.reentrant 3)) Chain.staker
          Chain.signerManager 7) w'
        (fun _ w'' => Untouched w' w'' ∧ w''.registry.signerManagerCallActive = false)
        (fun _ w'' => Untouched w' w'' ∧ w''.registry.signerManagerCallActive = false) True := by
  obtain ⟨-, ⟨-, -, hsettle, -⟩, -, hidle, hclaim⟩ :=
    reentrancy_safety ⟨_, _, Chain.run_due (R := fun _ _ => True) trivial⟩
      (Chain.reentrant_respects _) 3
  obtain ⟨row, -, hconsumed⟩ := hclaim Chain.byStaker Chain.staker Chain.signerManager
    (.optional none) _ rfl
  exact ⟨Chain.due, _, by decide, hidle, rfl, ⟨row, hconsumed⟩,
    hsettle Chain.staker Chain.signerManager 7 _ (by decide)⟩

/-! ## Progress -/

/-- **Always advance, exactly once, or change nothing.** Against a
signer-manager whose calls return, a claim fails exactly when there is no
registration or it is not due, and then changes nothing; otherwise it
succeeds, and its effect on the row, the list, the burn and the progress
record is the same whatever the signer-manager answered. The bound on the
pox-5 cycle keeps the next distribution within an unsigned integer. -/
theorem process_reward_claim_progress (h : Reachable views R w) {code : Code σ}
    (hcode : code.Respects R) (depth : Nat) (ctx : Ctx) (staker : Principal)
    (sm : ContractId) (hreturns : (interpret code (exec views code depth)).Returns sm)
    (hcycle : views.currentDistributionCycle w.ext + 1 < Tx.uintBound) :
    let result := exec views code (depth + 1) ctx (.processRewardClaim staker sm) w
    ((∃ error w', result = .err error w') ↔
      w.registry.registrations ⟨staker, .contract sm⟩ = none ∨
      ∃ row, w.registry.registrations ⟨staker, .contract sm⟩ = some row ∧
        (views.currentDistributionCycle w.ext ≤ row.nextClaimDistribution ∨
          rewardsCalculatedForClaimDistribution row.nextClaimDistribution
            (getLastRewardsComputeDistribution views w.ext) = false)) ∧
    (∀ error w', result = .err error w' → w' = w) ∧
    (∀ value w', result = .ok value w' → ∃ row,
      w.registry.registrations ⟨staker, .contract sm⟩ = some row ∧
      Consumed ⟨staker, .contract sm⟩ row (views.currentDistributionCycle w.ext)
        (getLastRewardsComputeDistribution views w.ext) w w' ∧
      Installment row (consume row (views.currentDistributionCycle w.ext))) ∧
    result ≠ .abort := by
  intro result
  obtain ⟨base, hinv⟩ := h.inv
  have hspec := exec_processRewardClaim hinv h.idle
    ((interpret_frames hcode depth sm).total hreturns)
    (fun hbound => absurd hcycle (by omega)) ctx staker
  have hdue : ∀ row, isPending row (views.currentDistributionCycle w.ext)
      (getLastRewardsComputeDistribution views w.ext) = false ↔
      (views.currentDistributionCycle w.ext ≤ row.nextClaimDistribution ∨
        rewardsCalculatedForClaimDistribution row.nextClaimDistribution
          (getLastRewardsComputeDistribution views w.ext) = false) := by
    intro row
    simp [isPending, imp_iff_not_or]
  refine ⟨⟨?_, ?_⟩, ?_, ?_, ?_⟩
  · intro hpost
    obtain ⟨error, w', herr⟩ := hpost
    obtain ⟨-, hnot⟩ := hspec.of_err herr
    cases hrow : w.registry.registrations ⟨staker, .contract sm⟩ with
    | none => exact .inl rfl
    | some row => exact .inr ⟨row, rfl, (hdue row).mp (hnot row hrow)⟩
  · intro hnot
    rcases hspec.total with ⟨value, w', -, row, hrow, hpending, -⟩ | ⟨error, w', herr, -⟩
    · rcases hnot with hnone | ⟨row', hrow', hlate⟩
      · rw [hrow] at hnone
        cases hnone
      · rw [hrow] at hrow'
        cases hrow'
        rw [(hdue row).mpr hlate] at hpending
        cases hpending
    · exact ⟨error, w', herr⟩
  · intro error w' herr
    exact (hspec.of_err herr).1
  · intro value w' hok
    obtain ⟨row, hrow, -, hconsumed⟩ := hspec.of_ok hok
    exact ⟨row, hrow, hconsumed, installment_consume (hinv.rows _ row hrow).remaining _⟩
  · intro habort
    rcases hspec.total with ⟨value, w', hok, -⟩ | ⟨error, w', herr, -⟩
    · exact absurd (habort.symm.trans hok) (by simp)
    · exact absurd (habort.symm.trans herr) (by simp)

theorem process_reward_claim_progress_paid :
    ∃ w : World Chain, liveKeys w = [Chain.key] ∧
      ∃ w', exec Chain.views Chain.paying 1 Chain.byStaker
          (.processRewardClaim Chain.staker Chain.signerManager) w =
          .ok (.optional (some 7)) w' ∧
        ∃ row, Consumed Chain.key row 4 (some 2) w w' ∧ Installment row (consume row 4) := by
  obtain ⟨-, -, hok, -⟩ := process_reward_claim_progress
    ⟨_, _, Chain.run_due (R := fun _ _ => True) trivial⟩ (Chain.paying_respects _) 0
    Chain.byStaker Chain.staker Chain.signerManager (Chain.paying_returns _ _) (by decide)
  refine ⟨Chain.due, by decide, _, rfl, ?_⟩
  obtain ⟨row, -, hconsumed, hinstallment⟩ := hok (.optional (some 7)) _ rfl
  exact ⟨row, hconsumed, hinstallment⟩

end Spox.RewardClaims
