import Spox.Contract.Invariant

/-!
# Reward claim registry — the reentrancy guard

A signer-manager that is being called may call the registry back, at any
depth and as often as it likes. While the guard is up such a call is refused
or is one of the two admin functions (`exec_while_active`), so a whole
signer-manager call is an `Outside` step (`interpret_frames`), and so is the
wrapper that raises and lowers the guard around it (`guardedCall_outside`).
-/

namespace Spox.RewardClaims

open Spox.Lib

variable {σ : Type} {views : Views σ} {R : σ → σ → Prop} {w w' : World σ}

/-! ## The outside -/

theorem Outside.refl (w : World σ) : Outside R w w :=
  ⟨rfl, rfl, rfl, rfl, rfl, rfl, .refl, [], by simp, by simp, rfl⟩

theorem Outside.trans {w'' : World σ} (h : Outside R w w') (h' : Outside R w' w'') :
    Outside R w w'' := by
  obtain ⟨es, hlog, hes, hstx⟩ := h.log
  obtain ⟨es', hlog', hes', hstx'⟩ := h'.log
  refine ⟨h'.registrations.trans h.registrations, h'.registrationLl.trans h.registrationLl,
    h'.maxProcessedDistribution.trans h.maxProcessedDistribution,
    h'.pendingWithdrawals.trans h.pendingWithdrawals,
    h'.pendingWithdrawalLl.trans h.pendingWithdrawalLl, h'.active.trans h.active,
    h.ext.trans h'.ext, es ++ es', by simp [hlog', hlog], ?_, ?_⟩
  · intro e he
    rcases List.mem_append.mp he with he | he
    · exact hes e he
    · exact hes' e he
  · rw [hstx', hstx, received_append]
    omega

theorem outside_emit {e : Event} (he : e.isOutside = true) (hr : e.donation = 0) :
    Outside R w (w.emit [e]) :=
  ⟨rfl, rfl, rfl, rfl, rfl, rfl, .refl, [e], rfl, by simpa using he, by simp [hr]⟩

/-- A change of the chain around the registry. -/
theorem outside_step {ext : σ} {stx : Principal → Nat} {amount : Nat}
    (hext : R w.ext ext) : Outside R w (w.outside ext stx amount) :=
  ⟨rfl, rfl, rfl, rfl, rfl, rfl, .single hext, [.received amount], rfl, by simp [Event.isOutside],
    by simp [World.outside, Event.donation]⟩

/-! ## Guards -/

theorem wp_validateNoReentrancy {ok : Unit → World σ → Prop} {err : Nat → World σ → Prop}
    {void : Prop} :
    Tx.wp validateNoReentrancy w ok err void ↔
      (w.registry.signerManagerCallActive = false → ok () w) ∧
      (w.registry.signerManagerCallActive = true → err errReentrantCall w) := by
  simp [validateNoReentrancy]

/-- The two admin functions touch the fee and the admins only. -/
theorem setFeePerClaim_outside (ctx : Ctx) (newFee : Nat) (void : Prop) :
    Tx.wp (setFeePerClaim ctx newFee) w (fun _ w' => Outside R w w')
      (fun _ w' => w' = w) void := by
  simp only [setFeePerClaim, authorizeAdmin, Tx.wp_bind, Tx.wp_get, Tx.wp_asserts,
    Tx.wp_modify, Tx.wp_pure]
  exact ⟨fun _ => ⟨rfl, rfl, rfl, rfl, rfl, rfl, .refl, [], by simp, by simp, rfl⟩,
    fun _ => trivial⟩

theorem updateAdmin_outside (ctx : Ctx) (admin : Principal) (enabled : Bool) (void : Prop) :
    Tx.wp (updateAdmin ctx admin enabled) w (fun _ w' => Outside R w w')
      (fun _ w' => w' = w) void := by
  simp only [updateAdmin, authorizeAdmin, Tx.wp_bind, Tx.wp_get, Tx.wp_asserts,
    Tx.wp_modify, Tx.wp_pure, wp_print]
  exact ⟨fun _ => ⟨rfl, rfl, rfl, rfl, rfl, rfl, .refl, [.updateAdmin admin enabled],
    rfl, by simp [Event.isOutside], rfl⟩, fun _ => trivial⟩

/-! ## Calls made while a signer-manager is being called -/

/-- **The guard**: while a signer-manager call is in flight, a public call
either is refused and changes nothing or is one of the two admin functions. -/
theorem exec_while_active (code : Code σ) (depth : Nat) (ctx : Ctx) (c : Call)
    (hactive : w.registry.signerManagerCallActive = true) :
    Tx.wp (exec views code depth ctx c) w (fun _ w' => Outside R w w')
      (fun _ w' => w' = w) True := by
  cases depth with
  | zero => trivial
  | succ depth =>
      refine Tx.wp_atomic_of ?_
      cases c with
      | setFeePerClaim newFee =>
          simp only [dispatch, Tx.wp_bind, Tx.wp_pure]
          exact (setFeePerClaim_outside ctx newFee True).weaken fun _ _ h => h
      | updateAdmin admin enabled =>
          simp only [dispatch, Tx.wp_bind, Tx.wp_pure]
          exact (updateAdmin_outside ctx admin enabled True).weaken fun _ _ h => h
      | _ =>
          -- every other public function is refused by the guard
          simp [dispatch, registerForClaims, registerManyForClaims, addClaims,
            cancelRegistration, cancelManyRegistrations, processRewardClaim,
            processRewardClaims, settlePendingWithdrawal, settlePendingWithdrawals,
            wp_validateNoReentrancy, hactive]

/-! ## Signer-manager calls -/

/-- What the registry relies on about a signer-manager: during a call the
registrations, the withdrawals and the escrow stay as they are, an error
leaves nothing behind, and the call aborts only if `void` holds. -/
structure SignerManagers.Frames (managers : SignerManagers σ) (sm : ContractId)
    (R : σ → σ → Prop) (void : Prop) : Prop where
  claimStakerRewards : ∀ staker cycle bond (w : World σ),
    w.registry.signerManagerCallActive = true →
    Tx.wp (managers.claimStakerRewards sm staker cycle bond) w
      (fun _ w' => Outside R w w') (fun _ w' => w' = w) void
  claimRewards : ∀ bonds cycle (w : World σ),
    w.registry.signerManagerCallActive = true →
    Tx.wp (managers.claimRewards sm bonds cycle) w
      (fun _ w' => Outside R w w') (fun _ w' => w' = w) void
  settleAcceptedWithdrawal : ∀ id (w : World σ),
    w.registry.signerManagerCallActive = true →
    Tx.wp (managers.settleAcceptedWithdrawal sm id) w
      (fun _ w' => Outside R w w') (fun _ w' => w' = w) void
  reclaimFailedWithdrawal : ∀ id (w : World σ),
    w.registry.signerManagerCallActive = true →
    Tx.wp (managers.reclaimFailedWithdrawal sm id) w
      (fun _ w' => Outside R w w') (fun _ w' => w' = w) void

/-- One action of a signer-manager that is being called. -/
theorem runAction_outside (code : Code σ) (depth : Nat) {a : Action σ} (ha : a.Respects R)
    (hactive : w.registry.signerManagerCallActive = true) :
    Tx.wp (runAction (exec views code depth) a) w (fun _ w' => Outside R w w')
      (fun _ w' => w' = w) True := by
  cases a with
  | call ctx c =>
      simp only [runAction, Tx.wp_bind, Tx.wp_attempt, Tx.wp_pure]
      exact (exec_while_active code depth ctx c hactive).mono (fun _ _ h => h)
        (fun _ _ h => h ▸ Outside.refl _) id
  | outside change stx amount =>
      simp only [runAction, Tx.wp_modify]
      exact outside_step (ha w.ext)

/-- A whole call of a signer-manager, whatever its script does. -/
theorem runScript_outside {ρ : Type} (code : Code σ) (depth : Nat)
    {script : World σ → Script σ ρ} (hscript : ∀ w, (script w).Respects R)
    (hactive : w.registry.signerManagerCallActive = true) :
    Tx.wp (runScript (exec views code depth) script) w (fun _ w' => Outside R w w')
      (fun _ w' => w' = w) True := by
  simp only [runScript, Tx.wp_atomic, Tx.wp_bind, Tx.wp_get]
  have hactions : Tx.wp ((script w).actions.forM (runAction (exec views code depth))) w
      (fun _ w' => Outside R w w') (fun _ _ => True) True := by
    refine Tx.wp_forM (Outside R w) (Outside.refl w) fun s a ha hs => ?_
    exact (runAction_outside code depth (hscript w a ha) (hs.active.trans hactive)).mono
      (fun _ _ h => hs.trans h) (fun _ _ _ => trivial) id
  -- an error response undoes the actions, an ok response keeps them
  refine hactions.mono ?_ (fun _ _ _ => trivial) id
  · intro _ s hs
    cases (script w).response with
    | none => trivial
    | some response => cases response <;> simp [hs]

theorem interpret_frames {code : Code σ} (hcode : code.Respects R) (depth : Nat)
    (sm : ContractId) : (interpret code (exec views code depth)).Frames sm R True where
  claimStakerRewards staker cycle bond _ h :=
    runScript_outside code depth (hcode.claimStakerRewards sm staker cycle bond) h
  claimRewards bonds cycle _ h :=
    runScript_outside code depth (hcode.claimRewards sm bonds cycle) h
  settleAcceptedWithdrawal id _ h :=
    runScript_outside code depth (hcode.settleAcceptedWithdrawal sm id) h
  reclaimFailedWithdrawal id _ h :=
    runScript_outside code depth (hcode.reclaimFailedWithdrawal sm id) h

/-- A signer-manager that returns never voids the transaction. -/
theorem SignerManagers.Frames.total {managers : SignerManagers σ} {sm : ContractId}
    {void : Prop} (h : managers.Frames sm R void) (hreturns : managers.Returns sm) :
    managers.Frames sm R False where
  claimStakerRewards staker cycle bond w hactive :=
    (h.claimStakerRewards staker cycle bond w hactive).of_returns
      (hreturns.claimStakerRewards staker cycle bond w)
  claimRewards bonds cycle w hactive :=
    (h.claimRewards bonds cycle w hactive).of_returns (hreturns.claimRewards bonds cycle w)
  settleAcceptedWithdrawal id w hactive :=
    (h.settleAcceptedWithdrawal id w hactive).of_returns
      (hreturns.settleAcceptedWithdrawal id w)
  reclaimFailedWithdrawal id w hactive :=
    (h.reclaimFailedWithdrawal id w hactive).of_returns
      (hreturns.reclaimFailedWithdrawal id w)

theorem outside_flag (w : World σ) (active : Bool) {w' : World σ}
    (h : Outside R (w.onRegistry fun r => { r with signerManagerCallActive := active }) w')
    {active' : Bool} (hactive : w.registry.signerManagerCallActive = active') :
    Outside R w (w'.onRegistry fun r => { r with signerManagerCallActive := active' }) :=
  ⟨h.registrations, h.registrationLl, h.maxProcessedDistribution, h.pendingWithdrawals,
    h.pendingWithdrawalLl, hactive.symm, h.ext, h.log⟩

/-- A wrapper raises the guard for the call and lowers it again. -/
theorem guardedCall_outside {ρ : Type} {call : M σ ρ} {void : Prop}
    (hcall : ∀ w : World σ, w.registry.signerManagerCallActive = true →
      Tx.wp call w (fun _ w' => Outside R w w') (fun _ w' => w' = w) void)
    (hidle : w.registry.signerManagerCallActive = false) :
    Tx.wp (guardedCall call) w (fun _ w' => Outside R w w')
      (fun _ w' => Outside R w w') void := by
  simp only [guardedCall, Tx.wp_bind, Tx.wp_get, Tx.wp_asserts, Tx.wp_modify, Tx.wp_attempt]
  -- an error response of the call leaves nothing behind but the lowered guard
  refine ⟨fun _ => ?_, fun h => absurd hidle h⟩
  refine (hcall _ rfl).mono (fun _ w' h => ?_) (fun _ w' h => ?_) id
  · exact outside_flag w true h hidle
  · exact outside_flag w true (h ▸ Outside.refl _) hidle

/-! ## Where signer-managers are called -/

/-- A computation that voids the transaction unless the guard is up. -/
def whileActive {ρ : Type} (call : M σ ρ) : M σ ρ := do
  let w ← Tx.get
  if w.registry.signerManagerCallActive = true then call else Tx.abort

/-- The same signer-managers, callable only while the guard is up. -/
def SignerManagers.whileActive (managers : SignerManagers σ) : SignerManagers σ where
  claimStakerRewards sm staker cycle bond :=
    RewardClaims.whileActive (managers.claimStakerRewards sm staker cycle bond)
  claimRewards sm bonds cycle := RewardClaims.whileActive (managers.claimRewards sm bonds cycle)
  settleAcceptedWithdrawal sm id :=
    RewardClaims.whileActive (managers.settleAcceptedWithdrawal sm id)
  reclaimFailedWithdrawal sm id :=
    RewardClaims.whileActive (managers.reclaimFailedWithdrawal sm id)

theorem guardedCall_whileActive {ρ : Type} (call : M σ ρ) :
    guardedCall (whileActive call) = guardedCall call := by
  funext w
  simp only [guardedCall, whileActive, Tx.run_bind, Tx.get, Tx.modify, Tx.attempt]
  rfl

section Guarded

variable (managers : SignerManagers σ)

theorem signerManagerClaimRewards_whileActive :
    signerManagerClaimRewards managers.whileActive = signerManagerClaimRewards managers := by
  funext sm bonds cycle
  exact guardedCall_whileActive _

theorem signerManagerClaimStakerRewards_whileActive :
    signerManagerClaimStakerRewards managers.whileActive =
      signerManagerClaimStakerRewards managers := by
  funext sm staker cycle bond
  exact guardedCall_whileActive _

theorem signerManagerSettleAcceptedWithdrawal_whileActive :
    signerManagerSettleAcceptedWithdrawal managers.whileActive =
      signerManagerSettleAcceptedWithdrawal managers := by
  funext staker sm id
  exact congrArg (history _ >>= fun _ => ·) (guardedCall_whileActive _)

theorem signerManagerReclaimFailedWithdrawal_whileActive :
    signerManagerReclaimFailedWithdrawal managers.whileActive =
      signerManagerReclaimFailedWithdrawal managers := by
  funext staker sm id
  exact congrArg (history _ >>= fun _ => ·) (guardedCall_whileActive _)

theorem processRewardClaimImpl_whileActive :
    processRewardClaimImpl views managers.whileActive = processRewardClaimImpl views managers := by
  funext staker sm cycle covered
  simp only [processRewardClaimImpl, pullAndClaim, claimStakerAndAdvance,
    signerManagerClaimRewards_whileActive, signerManagerClaimStakerRewards_whileActive]

theorem settlePendingWithdrawalImpl_whileActive :
    settlePendingWithdrawalImpl views managers.whileActive =
      settlePendingWithdrawalImpl views managers := by
  funext staker sm id
  simp only [settlePendingWithdrawalImpl, signerManagerSettleAcceptedWithdrawal_whileActive,
    signerManagerReclaimFailedWithdrawal_whileActive]

theorem countClaim_whileActive :
    countClaim views managers.whileActive = countClaim views managers := by
  funext sm cycle covered claimed staker
  simp only [countClaim, processRewardClaimImpl_whileActive]

theorem countSettlement_whileActive :
    countSettlement views managers.whileActive = countSettlement views managers := by
  funext sm resolved item
  simp only [countSettlement, settlePendingWithdrawalImpl_whileActive]

/-- Every public function calls a signer-manager only while the guard is up. -/
theorem dispatch_whileActive (ctx : Ctx) (c : Call) :
    dispatch views managers.whileActive ctx c = dispatch views managers ctx c := by
  cases c with
  | processRewardClaim =>
      simp only [dispatch, processRewardClaim, processRewardClaimImpl_whileActive]
  | processRewardClaims =>
      simp only [dispatch, processRewardClaims, countClaim_whileActive]
  | settlePendingWithdrawal =>
      simp only [dispatch, settlePendingWithdrawal, settlePendingWithdrawalImpl_whileActive]
  | settlePendingWithdrawals =>
      simp only [dispatch, settlePendingWithdrawals, countSettlement_whileActive]
  | _ => rfl

end Guarded

end Spox.RewardClaims
