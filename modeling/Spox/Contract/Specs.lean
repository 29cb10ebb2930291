import Spox.Contract.Reentrancy

/-!
# Reward claim registry — one specification for each function

Each lemma says what a function of the contract does from a world that
satisfies the invariant: the world it leads to when it answers ok, and the
world and the conditions when it answers an error. Callers cite these and
never unfold the function again.

A specification that leaves `void` open says when the function can abort:
a hypothesis `condition → void` names the only condition under which it
does.
-/

namespace Spox.RewardClaims

open Spox.Lib

variable {σ : Type} {views : Views σ} {R : σ → σ → Prop} {base : Nat} {w w' : World σ}

/-! ## Moving STX -/

/-- The refund of a live registration goes through. -/
theorem run_refund {amount : Nat} {sponsor : Principal} (hne : sponsor ≠ currentContract)
    (hle : amount ≤ w.stx currentContract) :
    whenPositive amount (asContract amount fun txSender =>
      stxTransfer txSender amount txSender sponsor) w = .ok () (w.refund amount sponsor) := by
  by_cases hpos : 0 < amount
  · simp only [whenPositive, if_pos hpos, World.refund]
    refine run_asContract (run_stxTransfer hpos (Ne.symm hne) rfl hle) ?_
    simp [World.move, Ne.symm hne]
    omega
  · simp [whenPositive, if_neg hpos, World.refund]

/-- The burn of one installment goes through. -/
theorem run_burnEscrow {amount : Nat} (hle : amount ≤ w.stx currentContract) :
    whenPositive amount (asContract amount fun txSender =>
      stxBurn txSender amount currentContract) w = .ok () (w.burnEscrow amount) := by
  by_cases hpos : 0 < amount
  · simp only [whenPositive, if_pos hpos, World.burnEscrow]
    refine run_asContract (run_stxBurn hpos rfl hle) ?_
    simp
    omega
  · simp [whenPositive, if_neg hpos, World.burnEscrow]

/-- The fee of a registration or a top-up. -/
def registrationFee (r : Registry) (sender : Principal) (numClaims : Nat) : Nat :=
  if isAdmin r sender then 0 else numClaims * r.feePerClaim

/-- The fee is taken from the sender in full, or the call fails untouched. -/
theorem escrowRegistrationFee_spec (ctx : Ctx) (numClaims : Nat) {void : Prop}
    (hvoid : Tx.uintBound ≤ numClaims * w.registry.feePerClaim → void) :
    Tx.wp (escrowRegistrationFee ctx numClaims) w
      (fun amount w' => amount = registrationFee w.registry ctx.txSender numClaims ∧
        w' = w.escrow amount ctx.txSender)
      (fun _ w' => w' = w) void := by
  have hpay : ∀ amount, Tx.wp
      (whenPositive amount (stxTransfer ctx.txSender amount ctx.txSender currentContract)) w
      (fun _ w' => w' = w.escrow amount ctx.txSender) (fun _ w' => w' = w) void := by
    intro amount
    by_cases hpos : 0 < amount
    · simp only [whenPositive, if_pos hpos, World.escrow]
      exact wp_stxTransfer (fun _ _ => rfl) fun _ => rfl
    · simp [whenPositive, if_neg hpos, World.escrow]
  simp only [escrowRegistrationFee, Tx.wp_bind, Tx.wp_get]
  by_cases hadmin : isAdmin w.registry ctx.txSender = true
  · rw [if_pos hadmin, Tx.wp_pure]
    exact (hpay 0).mono (fun _ _ h => ⟨by simp [registrationFee, hadmin], h⟩)
      (fun _ _ h => h) id
  · rw [if_neg hadmin, Tx.wp_mul]
    refine ⟨fun _ => ?_, hvoid⟩
    exact (hpay _).mono (fun _ _ h => ⟨by simp [registrationFee, hadmin], h⟩)
      (fun _ _ h => h) id

/-! ## Registering and topping up -/

theorem initialNextClaimDistribution_spec (start : Nat) (oneClaim : Bool) :
    Tx.wp (initialNextClaimDistribution start oneClaim) w
      (fun n w' => n = scheduleStart start oneClaim ∧ w' = w) (fun _ _ => False) True := by
  simp [initialNextClaimDistribution, scheduleStart]

theorem registerForClaimsImpl_spec (ctx : Ctx) (staker : Principal) (sm : ContractId)
    (start : Nat) (oneClaim : Bool) (numClaims : Nat) :
    Tx.wp (registerForClaimsImpl views ctx staker (.contract sm) start oneClaim numClaims) w
      (fun _ w' => Change views R (.register ⟨staker, .contract sm⟩ ctx.txSender) w w')
      (fun _ w' => w' = w) True := by
  simp only [registerForClaimsImpl, Tx.wp_bind, Tx.wp_get, Tx.wp_unwrap, Tx.wp_asserts]
  refine ⟨fun position _ => ⟨fun hpos => ⟨fun _ => ⟨fun hfree => ⟨fun _ => ⟨fun _ => ?_,
    fun _ => trivial⟩, fun _ => trivial⟩, fun _ => trivial⟩, fun _ => trivial⟩,
    fun _ => trivial⟩, fun _ => trivial⟩
  refine (escrowRegistrationFee_spec ctx numClaims (fun _ => trivial)).mono ?_
    (fun _ _ h => h) id
  intro escrowed _ hpost
  obtain ⟨-, rfl⟩ := hpost
  refine (initialNextClaimDistribution_spec start oneClaim).mono ?_
    (fun _ _ h => h.elim) id
  intro next _ hpost
  obtain ⟨rfl, rfl⟩ := hpost
  exact Change.register w ⟨staker, .contract sm⟩
    { bondIndex := position.bondIndex
      remainingClaims := numClaims
      oneClaimPerRewardCycle := oneClaim
      nextClaimDistribution := scheduleStart start oneClaim
      prepaidUstx := escrowed
      sponsor := ctx.txSender }
    start ⟨hpos, ctx.txSender_ne, sm, rfl⟩ hfree rfl

theorem addClaims_spec (ctx : Ctx) (staker signerManager : Principal) (numClaims : Nat) :
    Tx.wp (addClaims ctx staker signerManager numClaims) w
      (fun _ w' => Change views R (.addClaims ⟨staker, signerManager⟩ ctx.txSender) w w')
      (fun _ w' => w' = w) True := by
  simp only [addClaims, Tx.wp_bind, wp_validateNoReentrancy, Tx.wp_get, Tx.wp_unwrap,
    Tx.wp_asserts]
  refine ⟨fun _ => ⟨fun _ => ⟨fun _ => ⟨fun existing hrow => ⟨fun hsponsor => ?_,
    fun _ => trivial⟩, fun _ => trivial⟩, fun _ => trivial⟩, fun _ => trivial⟩,
    fun _ => trivial⟩
  refine (escrowRegistrationFee_spec ctx numClaims (fun _ => trivial)).mono ?_
    (fun _ _ h => h) id
  intro escrowed _ hpost
  obtain ⟨-, rfl⟩ := hpost
  simp only [Tx.wp_add, Tx.wp_modify, wp_print, Tx.wp_pure]
  refine ⟨fun _ => ⟨fun _ => ?_, fun _ => trivial⟩, fun _ => trivial⟩
  rw [hsponsor]
  exact Change.addClaims w ⟨staker, signerManager⟩ existing numClaims escrowed hrow

/-! ## Cancelling -/

/-- Cancelling never aborts, and fails only if there is nothing to cancel or
the sender may not. -/
theorem cancelRegistrationImpl_spec (hinv : Inv base w) (ctx : Ctx)
    (staker signerManager : Principal) :
    Tx.wp (cancelRegistrationImpl ctx staker signerManager) w
      (fun refund w' => ∃ row,
        w.registry.registrations ⟨staker, signerManager⟩ = some row ∧
        (ctx.txSender = staker ∨ ctx.txSender = row.sponsor) ∧
        refund = row.prepaidUstx ∧ w' = w.cancelled ⟨staker, signerManager⟩ row)
      (fun code w' => w' = w ∧
        ((code = errNotRegistered ∧
            w.registry.registrations ⟨staker, signerManager⟩ = none) ∨
          (code = errUnauthorized ∧ ∃ row,
            w.registry.registrations ⟨staker, signerManager⟩ = some row ∧
            ¬ (ctx.txSender = staker ∨ ctx.txSender = row.sponsor)))) False := by
  simp only [cancelRegistrationImpl, Tx.wp_bind, Tx.wp_get, Tx.wp_unwrap, Tx.wp_asserts,
    Tx.wp_modify, llRemove, Tx.wp_pure]
  refine ⟨fun row hrow => ⟨fun hauth => ?_, fun hauth => ?_⟩, fun hnone => ?_⟩
  · refine Tx.wp_of_run (run_refund (hinv.rows _ row hrow).sponsor ?_) ?_
    · exact hinv.prepaid_le hrow
    · exact ⟨row, hrow, hauth, rfl, rfl⟩
  · exact ⟨trivial, .inr ⟨trivial, row, hrow, hauth⟩⟩
  · exact ⟨trivial, .inl ⟨trivial, hnone⟩⟩

/-! ## Advancing -/

theorem nextClaimAfter_spec (d : Nat) (oneClaim : Bool) (cycle : Nat) {void : Prop}
    (hvoid : Tx.uintBound ≤ d + 2 → void) :
    Tx.wp (nextClaimAfter d oneClaim cycle) w
      (fun n w' => n = scheduleNext d oneClaim cycle ∧ w' = w) (fun _ _ => False) void := by
  cases oneClaim with
  | true =>
      simp only [nextClaimAfter, if_true, Tx.wp_add]
      exact ⟨fun _ => ⟨rfl, trivial⟩, hvoid⟩
  | false =>
      simp only [nextClaimAfter, Bool.false_eq_true, if_false, Tx.wp_bind, Tx.wp_mul, Tx.wp_add]
      refine ⟨fun _ => ⟨fun _ => ?_, fun h => hvoid (by omega)⟩, fun h => hvoid (by omega)⟩
      by_cases hlate : 2 * (d / 2) + 1 < cycle
      · simp only [if_pos hlate, Tx.wp_bind, Tx.wp_add, Tx.wp_mul]
        refine ⟨fun _ => ⟨fun _ => ?_, fun h => hvoid (by omega)⟩, fun h => hvoid (by omega)⟩
        simp [scheduleNext, hlate]
      · simp only [if_neg hlate, Tx.wp_add]
        refine ⟨fun _ => ?_, fun h => hvoid (by omega)⟩
        simp [scheduleNext, hlate]

/-- Advancing a live registration always consumes exactly one installment;
it aborts only where the next distribution does not fit. -/
theorem advanceRegistration_spec (hinv : Inv base w) {key : RegistrationKey}
    {row : Registration} (hrow : w.registry.registrations key = some row) (cycle : Nat)
    {void : Prop} (hvoid : Tx.uintBound ≤ row.nextClaimDistribution + 2 → void) :
    Tx.wp (advanceRegistration key row cycle) w (fun _ w' => w' = w.advanced key row cycle)
      (fun _ _ => False) void := by
  have hle : burnAmount row ≤ w.stx currentContract :=
    (burnAmount_le row).trans (hinv.prepaid_le hrow)
  simp only [advanceRegistration, recordMaxProcessedDistribution, Tx.wp_bind, Tx.wp_modify]
  refine Tx.wp_of_run (run_burnEscrow (by simpa using hle)) ?_
  have hcomm : ∀ (v : World σ) (amount : Nat) (f : Registry → Registry),
      (v.burnEscrow amount).onRegistry f = (v.onRegistry f).burnEscrow amount := by
    intro v amount f
    unfold World.burnEscrow
    split <;> rfl
  by_cases hlast : row.remainingClaims ≤ 1
  · simp only [if_pos hlast, Tx.wp_bind, Tx.wp_modify, llRemove, Tx.wp_get, Tx.wp_pure]
    rw [World.advanced, hcomm, hcomm]
    simp only [consume, if_pos hlast]
    rfl
  · simp only [if_neg hlast, Tx.wp_bind, Tx.wp_sub]
    refine ⟨fun _ => ⟨fun _ => ?_, fun h => absurd (burnAmount_le row) (by omega)⟩,
      fun h => absurd hlast (by omega)⟩
    refine (nextClaimAfter_spec row.nextClaimDistribution row.oneClaimPerRewardCycle cycle
      hvoid).mono ?_ (fun _ _ h => h) id
    intro next _ hpost
    obtain ⟨rfl, rfl⟩ := hpost
    rw [Tx.wp_modify, hcomm, World.advanced]
    simp only [consume, if_neg hlast]
    rfl

/-! ## Claiming -/

theorem appendPendingWithdrawal_spec (key : RegistrationKey) (id : Nat) :
    Tx.wp (appendPendingWithdrawal views key id) w
      (fun stored w' => Tracked views key w stored w') (fun _ _ => False) False := by
  simp only [appendPendingWithdrawal, Tx.wp_bind, Tx.wp_get]
  by_cases htrack : isTrackableWithdrawal views w.ext id = true
  · have hstatus : views.getWithdrawalRequest w.ext id = some ⟨none⟩ := by
      unfold isTrackableWithdrawal at htrack
      split at htrack
      · next request hrequest =>
          rw [hrequest]
          obtain ⟨status⟩ := request
          cases status
          · rfl
          · simp at htrack
      · simp at htrack
    rw [if_pos htrack]
    by_cases hindexed : (w.registry.pendingWithdrawals
        ⟨key.staker, key.signerManager, id⟩).isSome = true
    · rw [if_pos hindexed]
      exact .known w id hstatus hindexed
    · rw [if_neg hindexed]
      exact .fresh w id hstatus (by simpa using hindexed)
  · rw [if_neg htrack]
    exact .none w

/-- What a claim that is due leads to, up to its history: the calls on the
signer-manager, the withdrawal it asked for, the advanced row and the print. -/
def Claimed (views : Views σ) (R : σ → σ → Prop) (key : RegistrationKey)
    (row : Registration) (cycle : Nat) (w : World σ) (stored : Option Nat)
    (w' : World σ) : Prop :=
  ∃ w₁ w₂ earned claimError, Outside R w w₁ ∧ Tracked views key w₁ stored w₂ ∧
    (stored ≠ none → claimError = none) ∧
    w' = (w₂.advanced key row cycle).emit
      [.processRewardClaim key (row.nextClaimDistribution / 2) row.nextClaimDistribution
        row.bondIndex earned claimError stored]

section Claim

variable {managers : SignerManagers σ} {void : Prop} {key : RegistrationKey}
  {row : Registration} {cycle : Nat}

/-- After the signer-manager was called the row is still the live one, so
advancing it goes through. -/
theorem advance_and_print_spec {w₁ w₂ : World σ} {stored claimError : Option Nat}
    (hinv : Inv base w) (hrow : w.registry.registrations key = some row)
    (hvoid : Tx.uintBound ≤ row.nextClaimDistribution + 2 → void)
    (hcall : Outside R w w₁) (htracked : Tracked views key w₁ stored w₂)
    (hpaid : stored ≠ none → claimError = none) (earned : Nat) :
    Tx.wp (do
      let _ ← advanceRegistration key row cycle
      print (.processRewardClaim key (row.nextClaimDistribution / 2)
        row.nextClaimDistribution row.bondIndex earned claimError stored)
      pure stored) w₂
      (fun stored w' => Claimed views R key row cycle w stored w') (fun _ _ => False)
      void := by
  rw [Tx.wp_bind]
  refine (advanceRegistration_spec (htracked.inv (hcall.inv hinv)) ?_ cycle hvoid).mono
    ?_ (fun _ _ h => h) id
  · rw [htracked.registrations, hcall.registrations, hrow]
  · rintro _ _ rfl
    exact ⟨w₁, w₂, earned, claimError, hcall, htracked, hpaid, rfl⟩

theorem claimStakerAndAdvance_spec (hinv : Inv base w)
    (hidle : w.registry.signerManagerCallActive = false)
    {sm : ContractId} (hframes : managers.Frames sm R void) {staker : Principal}
    (hrow : w.registry.registrations key = some row)
    (hvoid : Tx.uintBound ≤ row.nextClaimDistribution + 2 → void) :
    Tx.wp (claimStakerAndAdvance views managers staker sm key row
        (row.nextClaimDistribution / 2) row.nextClaimDistribution row.bondIndex cycle) w
      (fun stored w' => Claimed views R key row cycle w stored w') (fun _ _ => False)
      void := by
  simp only [claimStakerAndAdvance, signerManagerClaimStakerRewards]
  rw [Tx.wp_bind, Tx.wp_attempt]
  refine (guardedCall_outside (hframes.claimStakerRewards _ _ _) hidle).mono
    (fun claimResult w₁ hcall => ?_) (fun code w₁ hcall => ?_) id
  · rw [Tx.wp_bind]
    cases hrequest : claimResult.withdrawalRequest with
    | none => exact advance_and_print_spec hinv hrow hvoid hcall (.none w₁) (absurd rfl) _
    | some id =>
        refine (appendPendingWithdrawal_spec key id).mono (fun stored w₂ htracked => ?_)
          (fun _ _ h => h.elim) False.elim
        exact advance_and_print_spec hinv hrow hvoid hcall htracked (fun _ => rfl) _
  · exact advance_and_print_spec hinv hrow hvoid hcall (.none w₁) (absurd rfl) _

theorem pullAndClaim_spec (hinv : Inv base w)
    (hidle : w.registry.signerManagerCallActive = false)
    {sm : ContractId} (hframes : managers.Frames sm R void) {staker : Principal}
    (hrow : w.registry.registrations key = some row)
    (hvoid : Tx.uintBound ≤ row.nextClaimDistribution + 2 → void) :
    Tx.wp (pullAndClaim views managers staker sm key row cycle) w
      (fun stored w' => Claimed views R key row cycle w stored w') (fun _ _ => False)
      void := by
  simp only [pullAndClaim, signerManagerClaimRewards]
  rw [Tx.wp_bind, Tx.wp_get]
  split
  · rw [Tx.wp_bind, Tx.wp_attempt]
    refine (guardedCall_outside (hframes.claimRewards _ _) hidle).mono
      (fun _ w₁ hpull => ?_) (fun code w₁ hpull => ?_) id
    · -- the pull went through: the claim starts from where it left the world
      refine (claimStakerAndAdvance_spec (hpull.inv hinv) (hpull.active.trans hidle) hframes
        (by rw [hpull.registrations, hrow]) hvoid).mono ?_ (fun _ _ h => h) id
      intro stored _ hpost
      obtain ⟨w₂, w₃, earned, claimError, hcall, htracked, hpaid, rfl⟩ := hpost
      exact ⟨w₂, w₃, earned, claimError, hpull.trans hcall, htracked, hpaid, rfl⟩
    · -- the pull failed: the installment is consumed all the same
      exact advance_and_print_spec hinv hrow hvoid hpull (.none w₁) (absurd rfl) _
  · exact claimStakerAndAdvance_spec hinv hidle hframes hrow hvoid

/-- **A claim** either consumes one installment of a due registration,
whatever the signer-manager answered, or fails with nothing changed because
there is no registration or it is not due. -/
theorem processRewardClaimImpl_spec (views : Views σ) (hinv : Inv base w)
    (hidle : w.registry.signerManagerCallActive = false)
    (staker : Principal) (sm : ContractId) (hframes : managers.Frames sm R void)
    (covered : Option Nat) (hvoid : Tx.uintBound ≤ cycle + 1 → void) :
    Tx.wp (processRewardClaimImpl views managers staker sm cycle covered) w
      (fun stored w' => ∃ row w₁ w₂ earned claimError,
        w.registry.registrations ⟨staker, .contract sm⟩ = some row ∧
        isPending row cycle covered = true ∧ Outside R w w₁ ∧
        Tracked views ⟨staker, .contract sm⟩ w₁ stored w₂ ∧
        (stored ≠ none → claimError = none) ∧
        w' = w₂.claimed ⟨staker, .contract sm⟩ row cycle covered earned claimError stored)
      (fun _ w' => w' = w ∧ ∀ row,
        w.registry.registrations ⟨staker, .contract sm⟩ = some row →
        isPending row cycle covered = false) void := by
  simp only [processRewardClaimImpl, Tx.wp_bind, Tx.wp_get, Tx.wp_unwrap, Tx.wp_asserts]
  refine ⟨fun row hrow => ⟨fun hlt => ⟨fun hcovered => ?_, fun hcovered => ?_⟩,
    fun hlt => ?_⟩, fun hnone => ?_⟩
  · refine (pullAndClaim_spec hinv hidle hframes hrow fun h => hvoid (by omega)).mono ?_
      (fun _ _ h => h.elim) id
    intro stored _ hpost
    obtain ⟨w₁, w₂, earned, claimError, hcall, htracked, hpaid, rfl⟩ := hpost
    refine ⟨row, w₁, w₂, earned, claimError, hrow, by simp [isPending, hlt, hcovered],
      hcall, htracked, hpaid, ?_⟩
    simp [World.claimed, World.advanced]
  · simp [hrow, isPending, hcovered]
  · simp [hrow, isPending, hlt]
  · simp [hnone]

end Claim

/-! ## Settling -/

/-- What settling an indexed withdrawal that is no longer pending leads to. -/
inductive Settled (views : Views σ) (R : σ → σ → Prop) (key : WithdrawalKey) :
    World σ → World σ → Prop
  | called (w w₁ : World σ) (accepted : Bool)
      (hindexed : (w.registry.pendingWithdrawals key).isSome = true)
      (hstatus : views.getWithdrawalRequest w.ext key.requestId = some ⟨some accepted⟩)
      (hcall : Outside R (w.emit [.invoked key accepted]) w₁) :
      Settled views R key w ((w₁.unindexed key).emit [.settlePendingWithdrawal key accepted])
  | pruned (w : World σ) (hindexed : (w.registry.pendingWithdrawals key).isSome = true)
      (hstatus : views.getWithdrawalRequest w.ext key.requestId = none) :
      Settled views R key w ((w.unindexed key).emit [.prunePendingWithdrawal key])

theorem Settled.change {key : WithdrawalKey} (h : Settled views R key w w') :
    Change views R (.settle key) w w' := by
  cases h with
  | called w₁ accepted hindexed hstatus hcall =>
      exact .settle w w₁ key accepted hindexed hstatus hcall
  | pruned hindexed hstatus => exact .prune w key hindexed hstatus

/-- **Settling** drops the entry if the request is resolved or unknown, does
nothing while it is pending, and fails with nothing changed if the entry is
not indexed. -/
theorem settlePendingWithdrawalImpl_spec {managers : SignerManagers σ} {void : Prop}
    (hidle : w.registry.signerManagerCallActive = false)
    (staker : Principal) (sm : ContractId) (hframes : managers.Frames sm R void)
    (requestId : Nat) :
    Tx.wp (settlePendingWithdrawalImpl views managers staker sm requestId) w
      (fun didResolve w' =>
        (didResolve = true ∧ Settled views R ⟨staker, .contract sm, requestId⟩ w w') ∨
        (didResolve = false ∧ w' = w ∧
          views.getWithdrawalRequest w.ext requestId = some ⟨none⟩))
      (fun _ w' => w' = w ∧
        w.registry.pendingWithdrawals ⟨staker, .contract sm, requestId⟩ = none) void := by
  simp only [settlePendingWithdrawalImpl, Tx.wp_bind, Tx.wp_get, Tx.wp_asserts]
  refine ⟨fun hindexed => ?_, fun hindexed => ⟨trivial, by simpa using hindexed⟩⟩
  cases hrequest : views.getWithdrawalRequest w.ext requestId with
  | none => exact .inl ⟨rfl, .pruned w hindexed hrequest⟩
  | some request =>
      obtain ⟨status⟩ := request
      cases status with
      | none => exact .inr ⟨rfl, rfl, rfl⟩
      | some accepted =>
          have hinvoked : (w.emit [.invoked ⟨staker, .contract sm, requestId⟩ accepted]
            ).registry.signerManagerCallActive = false := hidle
          have hcall : Tx.wp (if accepted then
                signerManagerSettleAcceptedWithdrawal managers staker sm requestId
              else
                signerManagerReclaimFailedWithdrawal managers staker sm requestId) w
              (fun _ w₁ =>
                Outside R (w.emit [.invoked ⟨staker, .contract sm, requestId⟩ accepted]) w₁)
              (fun _ w₁ =>
                Outside R (w.emit [.invoked ⟨staker, .contract sm, requestId⟩ accepted]) w₁)
              void := by
            cases accepted
            · exact guardedCall_outside (hframes.reclaimFailedWithdrawal _) hinvoked
            · exact guardedCall_outside (hframes.settleAcceptedWithdrawal _) hinvoked
          simp only [Tx.wp_bind, Tx.wp_attempt]
          exact hcall.mono
            (fun _ w₁ h => .inl ⟨rfl, .called w w₁ accepted hindexed hrequest h⟩)
            (fun _ w₁ h => .inl ⟨rfl, .called w w₁ accepted hindexed hrequest h⟩) id

end Spox.RewardClaims
