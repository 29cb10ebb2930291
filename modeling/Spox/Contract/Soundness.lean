import Spox.Contract.Specs

/-!
# Reward claim registry — the code refines the abstract machine

From a world that satisfies the invariant and has no signer-manager call in
flight, a public call that answers ok is a run of the abstract machine that
uses only the labels the call permits, and a call that answers an error
changes nothing (`exec_runs`). Hence every run of the system is a run of the
abstract machine (`Run.changes`), and what every `Change` keeps holds of
every reachable world.
-/

namespace Spox.RewardClaims

open Spox.Lib

variable {σ : Type} {views : Views σ} {R : σ → σ → Prop} {base : Nat} {w w' : World σ}

/-! ## What a call is allowed to do -/

/-- The business events a public call may cause. -/
def Call.permits (ctx : Ctx) : Call → Label → Prop
  | _, .outside => True
  | .registerForClaims staker sm .., .register key sender =>
      key = ⟨staker, .contract sm⟩ ∧ sender = ctx.txSender
  | .registerManyForClaims sm stakers, .register key sender =>
      key.signerManager = .contract sm ∧ (∃ entry ∈ stakers, entry.staker = key.staker) ∧
        sender = ctx.txSender
  | .addClaims staker signerManager _, .addClaims key sender =>
      key = ⟨staker, signerManager⟩ ∧ sender = ctx.txSender
  | .cancelRegistration staker signerManager, .cancel key sender =>
      key = ⟨staker, signerManager⟩ ∧ sender = ctx.txSender
  | .cancelManyRegistrations signerManager stakers, .cancel key sender =>
      key.signerManager = signerManager ∧ key.staker ∈ stakers ∧ sender = ctx.txSender
  | .processRewardClaim staker sm, .claim key => key = ⟨staker, .contract sm⟩
  | .processRewardClaims sm stakers, .claim key =>
      key.signerManager = .contract sm ∧ key.staker ∈ stakers
  | .settlePendingWithdrawal staker sm id, .settle key => key = ⟨staker, .contract sm, id⟩
  | .settlePendingWithdrawals sm items, .settle key =>
      key.signerManager = .contract sm ∧ ⟨key.staker, key.requestId⟩ ∈ items
  | _, _ => False

/-! ## The guard is down between calls -/

theorem Tracked.active {key : RegistrationKey} {stored : Option Nat}
    (h : Tracked views key w stored w') :
    w'.registry.signerManagerCallActive = w.registry.signerManagerCallActive := by
  cases h <;> rfl

theorem Change.active {l : Label} (h : Change views R l w w') :
    w'.registry.signerManagerCallActive = w.registry.signerManagerCallActive := by
  cases h with
  | outside h => exact h.active
  | register => exact (escrowOnly_registered _ _ _ _).active
  | addClaims => exact (escrowOnly_toppedUp _ _ _ _ _).active
  | cancel => exact (escrowOnly_cancelled _ _ _).active
  | claim w w₁ key row cycle covered earned claimError stored htracked =>
      simpa [World.claimed, World.advanced] using htracked.active
  | settle w w₁ key accepted hindexed hstatus hcall => exact hcall.active
  | prune => rfl

theorem runs_active {allowed : Label → Prop} (h : Runs (Change views R) allowed w w') :
    w'.registry.signerManagerCallActive = w.registry.signerManagerCallActive :=
  h.invariant
    (fun s => s.registry.signerManagerCallActive = w.registry.signerManagerCallActive)
    (fun _ _ _ _ hs h => hs.active.trans h) rfl

/-! ## Batches -/

section Batch

variable {γ : Type} (allowed : Label → Prop)

/-- A batch whose items are runs of the abstract machine is one. The item
may assume what holds between items. -/
theorem wp_batch {f : Nat → γ → M σ Nat} {l : List γ} (n : Nat) (hinv : Inv base w)
    (hidle : w.registry.signerManagerCallActive = false)
    (hitem : ∀ n c (s : World σ), c ∈ l → Inv base s →
      s.registry.signerManagerCallActive = false →
      Tx.wp (f n c) s (fun _ s' => Runs (Change views R) allowed s s')
        (fun _ _ => False) True) :
    Tx.wp (l.foldlM f n) w (fun _ w' => Runs (Change views R) allowed w w')
      (fun _ w' => w' = w) True := by
  refine Tx.wp_foldlM (fun _ s => Runs (Change views R) allowed w s) .refl ?_
  intro n s c hc hs
  exact (hitem n c s hc (hinv.runs hs) ((runs_active hs).trans hidle)).mono
    (fun _ _ h => hs.trans h) (fun _ _ h => h.elim) id

theorem countRegistrations_spec (ctx : Ctx) (sm : ContractId) (n : Nat)
    (entry : RegistrationEntry) (hout : allowed .outside)
    (hreg : allowed (.register ⟨entry.staker, .contract sm⟩ ctx.txSender)) :
    Tx.wp (countRegistrations views ctx (.contract sm) n entry) w
      (fun _ w' => Runs (Change views R) allowed w w') (fun _ _ => False) True := by
  simp only [countRegistrations, Tx.wp_bind, Tx.wp_attempt]
  refine (registerForClaimsImpl_spec ctx entry.staker sm _ _ _).mono
    (fun _ _ h => .single hreg h) ?_ id
  rintro code _ rfl
  exact .single hout (.outside (outside_emit rfl rfl))

theorem countCancellations_spec (hinv : Inv base w) (ctx : Ctx) (signerManager : Principal)
    (n : Nat) (staker : Principal) (hout : allowed .outside)
    (hcancel : allowed (.cancel ⟨staker, signerManager⟩ ctx.txSender)) :
    Tx.wp (countCancellations ctx signerManager n staker) w
      (fun _ w' => Runs (Change views R) allowed w w') (fun _ _ => False) True := by
  simp only [countCancellations, Tx.wp_bind, Tx.wp_attempt]
  refine (cancelRegistrationImpl_spec hinv ctx staker signerManager).mono ?_ ?_ False.elim
  · intro _ _ hpost
    obtain ⟨row, hrow, hauth, -, rfl⟩ := hpost
    exact .single hcancel (.cancel w _ row ctx.txSender hrow hauth)
  · intro code _ hpost
    obtain ⟨rfl, -⟩ := hpost
    exact .single hout (.outside (outside_emit rfl rfl))

variable {managers : SignerManagers σ}

/-- A claim as a run. -/
theorem processRewardClaimImpl_runs (hinv : Inv base w)
    (hidle : w.registry.signerManagerCallActive = false)
    (staker : Principal) (sm : ContractId) (hframes : managers.Frames sm R True) (cycle : Nat)
    (covered : Option Nat) (hout : allowed .outside)
    (hclaim : allowed (.claim ⟨staker, .contract sm⟩)) :
    Tx.wp (processRewardClaimImpl views managers staker sm cycle covered) w
      (fun _ w' => Runs (Change views R) allowed w w') (fun _ w' => w' = w) True := by
  refine (processRewardClaimImpl_spec views hinv hidle staker sm hframes covered
    fun _ => trivial).mono ?_ (fun _ _ h => h.1) id
  intro stored _ hpost
  obtain ⟨row, w₁, w₂, earned, claimError, hrow, hdue, hcall, htracked, hpaid, rfl⟩ := hpost
  exact .trans (.single hout (.outside hcall)) (.single hclaim
    (.claim w₁ w₂ _ row cycle covered earned claimError stored htracked hpaid
      (hcall.registrations ▸ hrow) hdue))

theorem settlePendingWithdrawalImpl_runs
    (hidle : w.registry.signerManagerCallActive = false)
    (staker : Principal) (sm : ContractId) (hframes : managers.Frames sm R True)
    (requestId : Nat) (hsettle : allowed (.settle ⟨staker, .contract sm, requestId⟩)) :
    Tx.wp (settlePendingWithdrawalImpl views managers staker sm requestId) w
      (fun _ w' => Runs (Change views R) allowed w w') (fun _ w' => w' = w) True := by
  refine (settlePendingWithdrawalImpl_spec hidle staker sm hframes requestId).mono ?_
    (fun _ _ h => h.1) id
  intro didResolve _ hpost
  rcases hpost with ⟨-, hsettled⟩ | ⟨-, rfl, -⟩
  · exact .single hsettle hsettled.change
  · exact .refl

end Batch

/-! ## The refinement -/

/-- **Every public call is a run of the abstract machine**, and one that
answers an error changes nothing. -/
theorem exec_runs {code : Code σ} (hcode : code.Respects R) (hinv : Inv base w)
    (hidle : w.registry.signerManagerCallActive = false) (depth : Nat) (ctx : Ctx)
    (c : Call) :
    Tx.wp (exec views code depth ctx c) w
      (fun _ w' => Runs (Change views R) (c.permits ctx) w w') (fun _ w' => w' = w)
      True := by
  cases depth with
  | zero => trivial
  | succ depth =>
      have hframes : ∀ sm, (interpret code (exec views code depth)).Frames sm R True :=
        interpret_frames hcode depth
      refine Tx.wp_atomic_of ?_
      cases c with
      | registerForClaims staker sm start oneClaim numClaims =>
          simp only [dispatch, registerForClaims, Tx.wp_bind, wp_validateNoReentrancy,
            Tx.wp_pure]
          refine ⟨fun _ => ?_, fun _ => trivial⟩
          exact (registerForClaimsImpl_spec ctx staker sm start oneClaim numClaims).weaken
            fun _ _ h => .single (l := .register ⟨staker, .contract sm⟩ ctx.txSender) ⟨rfl, rfl⟩ h
      | registerManyForClaims sm stakers =>
          simp only [dispatch, registerManyForClaims, Tx.wp_bind, wp_withMaxLen,
            wp_validateNoReentrancy, Tx.wp_pure]
          refine ⟨fun _ => ⟨fun _ => ?_, fun _ => trivial⟩, fun _ => trivial⟩
          refine (wp_batch _ 0 hinv hidle fun n entry s hentry _ _ => ?_).weaken fun _ _ h => h
          exact countRegistrations_spec _ ctx sm n entry trivial ⟨rfl, ⟨entry, hentry, rfl⟩, rfl⟩
      | addClaims staker signerManager numClaims =>
          simp only [dispatch, Tx.wp_bind, Tx.wp_pure]
          exact (addClaims_spec ctx staker signerManager numClaims).weaken
            fun _ _ h => .single (l := .addClaims ⟨staker, signerManager⟩ ctx.txSender) ⟨rfl, rfl⟩ h
      | cancelRegistration staker signerManager =>
          simp only [dispatch, cancelRegistration, Tx.wp_bind, wp_validateNoReentrancy,
            Tx.wp_pure]
          refine ⟨fun _ => ?_, fun _ => trivial⟩
          refine (cancelRegistrationImpl_spec hinv ctx staker signerManager).mono ?_
            (fun _ _ _ => trivial) False.elim
          intro _ _ hpost
          obtain ⟨row, hrow, hauth, -, rfl⟩ := hpost
          exact .single (l := .cancel ⟨staker, signerManager⟩ ctx.txSender) ⟨rfl, rfl⟩
            (.cancel w _ row ctx.txSender hrow hauth)
      | cancelManyRegistrations signerManager stakers =>
          simp only [dispatch, cancelManyRegistrations, Tx.wp_bind, wp_withMaxLen,
            wp_validateNoReentrancy, Tx.wp_pure]
          refine ⟨fun _ => ⟨fun _ => ?_, fun _ => trivial⟩, fun _ => trivial⟩
          refine (wp_batch _ 0 hinv hidle fun n staker s hstaker hs _ => ?_).weaken fun _ _ h => h
          exact countCancellations_spec _ hs ctx signerManager n staker trivial
            ⟨rfl, hstaker, rfl⟩
      | processRewardClaim staker sm =>
          simp only [dispatch, processRewardClaim, Tx.wp_bind, wp_validateNoReentrancy,
            Tx.wp_get, Tx.wp_pure]
          refine ⟨fun _ => ?_, fun _ => trivial⟩
          exact (processRewardClaimImpl_runs ((Call.processRewardClaim staker sm).permits ctx)
              hinv hidle staker sm (hframes sm) _ _ trivial rfl).weaken fun _ _ h => h
      | processRewardClaims sm stakers =>
          simp only [dispatch, processRewardClaims, Tx.wp_bind, wp_withMaxLen,
            wp_validateNoReentrancy, Tx.wp_get, Tx.wp_pure]
          refine ⟨fun _ => ⟨fun _ => ?_, fun _ => trivial⟩, fun _ => trivial⟩
          refine (wp_batch _ 0 hinv hidle fun n staker s hstaker hs hsidle => ?_).weaken
            fun _ _ h => h
          simp only [countClaim, Tx.wp_bind, Tx.wp_attempt]
          exact (processRewardClaimImpl_runs _ hs hsidle staker sm (hframes sm) _ _ trivial
            ⟨rfl, hstaker⟩).mono (fun _ _ h => h) (fun _ _ h => h ▸ .refl) id
      | settlePendingWithdrawal staker sm requestId =>
          simp only [dispatch, settlePendingWithdrawal, Tx.wp_bind, wp_validateNoReentrancy,
            Tx.wp_pure]
          refine ⟨fun _ => ?_, fun _ => trivial⟩
          exact (settlePendingWithdrawalImpl_runs
              ((Call.settlePendingWithdrawal staker sm requestId).permits ctx)
              hidle staker sm (hframes sm) requestId rfl).weaken fun _ _ h => h
      | settlePendingWithdrawals sm items =>
          simp only [dispatch, settlePendingWithdrawals, Tx.wp_bind, wp_withMaxLen,
            wp_validateNoReentrancy, Tx.wp_pure]
          refine ⟨fun _ => ⟨fun _ => ?_, fun _ => trivial⟩, fun _ => trivial⟩
          refine (wp_batch _ 0 hinv hidle fun n item s hitem _ hsidle => ?_).weaken
            fun _ _ h => h
          simp only [countSettlement, Tx.wp_bind, Tx.wp_attempt]
          exact (settlePendingWithdrawalImpl_runs _ hsidle item.staker sm
            (hframes sm) item.requestId ⟨rfl, hitem⟩).mono (fun _ _ h => h)
            (fun _ _ h => h ▸ .refl) id
      | setFeePerClaim newFee =>
          simp only [dispatch, Tx.wp_bind, Tx.wp_pure]
          exact (setFeePerClaim_outside ctx newFee True).weaken
            fun _ _ h => .single (l := .outside) trivial (.outside h)
      | updateAdmin admin enabled =>
          simp only [dispatch, Tx.wp_bind, Tx.wp_pure]
          exact (updateAdmin_outside ctx admin enabled True).weaken
            fun _ _ h => .single (l := .outside) trivial (.outside h)

/-- Any step of the system is a run of the abstract machine. -/
theorem Step.changes (h : Step views R w w') (hinv : Inv base w)
    (hidle : w.registry.signerManagerCallActive = false) :
    Runs (Change views R) (fun _ => True) w w' := by
  cases h with
  | call code depth ctx c hcode hexec =>
      exact ((exec_runs hcode hinv hidle depth ctx c).of_ok hexec).mono fun _ _ => trivial
  | outside ext stx amount hext => exact .single trivial (.outside (outside_step hext))

/-- **Every run of the system is a run of the abstract machine.** -/
theorem Run.changes (h : Run views R w w') (hinv : Inv base w)
    (hidle : w.registry.signerManagerCallActive = false) :
    Runs (Change views R) (fun _ => True) w w' := by
  induction h with
  | refl => exact .refl
  | tail _ hstep ih =>
      exact ih.trans (hstep.changes (hinv.runs ih) ((runs_active ih).trans hidle))

/-! ## Reachable worlds -/

theorem Run.changes_of_deployed {stx : Principal → Nat} {ext : σ}
    (h : Run views R (.deployed stx ext) w) :
    Runs (Change views R) (fun _ => True) (.deployed stx ext) w :=
  Run.changes h (inv_deployed stx ext) rfl

theorem Run.inv {stx : Principal → Nat} {ext : σ} (h : Run views R (.deployed stx ext) w) :
    Inv (stx currentContract) w :=
  (inv_deployed stx ext).runs h.changes_of_deployed

theorem Reachable.inv (h : Reachable views R w) : ∃ base, Inv base w := by
  obtain ⟨stx, ext, hrun⟩ := h
  exact ⟨stx currentContract, Run.inv hrun⟩

/-- The guard never sticks. -/
theorem Reachable.idle (h : Reachable views R w) :
    w.registry.signerManagerCallActive = false := by
  obtain ⟨stx, ext, hrun⟩ := h
  exact runs_active (Run.changes_of_deployed hrun)

end Spox.RewardClaims
