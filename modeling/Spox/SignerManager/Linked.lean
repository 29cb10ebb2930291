import Spox.Contract.Soundness
import Spox.Contract.Withdrawals
import Spox.SignerManager.Authority
import Spox.SignerManager.Lifecycle
import Spox.SignerManager.Solvency

/-!
# The registry and a signer-manager together

The reward claim registry dispatches on signer-managers and trusts none of
them. Here one of them is the contract `signer-manager.clar`, deployed next to
the registry, and every other one stays an adversary. The rest of the chain of
the registry is then the world of that signer-manager, and a call on it is a
call of its public function.

What holds of the pair: a row of the registry's withdrawal index that names
this signer-manager is a request the signer-manager opened for that very
staker, and settling it through the registry pays that staker.
-/

namespace Spox.Linked

open Spox.Lib
open Spox.RewardClaims (Principal ContractId ClaimResult Views Script Code Call Value Ctx)

variable {τ : Type}

/-! ## Deployment -/

/-- A signer-manager next to the registry, what the registry reads of the
chain they share, and the code of the other signer-managers. -/
structure Deployment (τ : Type) where
  id : ContractId
  ext : SignerManager.Externals τ
  views : Views (SignerManager.World τ)
  other : Code (SignerManager.World τ)

/-- The contract's own principal is the one the registry dispatches on, both
contracts read the same sbtc-registry, and nobody else changes the chain but
by calls of the signer-manager and as documented. -/
structure Deployment.Sound (d : Deployment τ) : Prop where
  documented : d.ext.Documented
  currentContract : d.ext.currentContract = .contract d.id
  getWithdrawalRequest : ∀ v id, d.views.getWithdrawalRequest v id =
    (d.ext.getWithdrawalRequest v.chain id).map fun r => ⟨r.status⟩
  other : d.other.Respects (SignerManager.Run d.ext)

/-- The world of the pair. -/
abbrev World (τ : Type) : Type := RewardClaims.World (SignerManager.World τ)

/-- A public function of the signer-manager, called by the registry: it runs
on the signer-manager's world and never calls back. -/
def answer {ρ : Type} (run : SignerManager.M τ ρ) (w : World τ) :
    Script (SignerManager.World τ) ρ :=
  match Tx.atomic run w.ext with
  | .ok a _ => ⟨[.outside (Tx.atomic run).commit w.stx 0], some (.ok a)⟩
  | .err code _ => ⟨[], some (.error code)⟩
  | .abort => ⟨[], none⟩

/-- The code of every signer-manager. -/
def Deployment.code (d : Deployment τ) : Code (SignerManager.World τ) where
  claimStakerRewards sm staker rewardCycle bondIndex :=
    if sm = d.id then
      answer (SignerManager.claimStakerRewards d.ext staker ⟨rewardCycle, bondIndex⟩)
    else d.other.claimStakerRewards sm staker rewardCycle bondIndex
  claimRewards sm bondPeriods rewardCycle :=
    if sm = d.id then
      answer (do
        let _ ← SignerManager.claimRewards d.ext bondPeriods rewardCycle
        pure ())
    else d.other.claimRewards sm bondPeriods rewardCycle
  settleAcceptedWithdrawal sm requestId :=
    if sm = d.id then answer (SignerManager.settleAcceptedWithdrawal d.ext requestId)
    else d.other.settleAcceptedWithdrawal sm requestId
  reclaimFailedWithdrawal sm requestId :=
    if sm = d.id then answer (SignerManager.reclaimFailedWithdrawal d.ext requestId)
    else d.other.reclaimFailedWithdrawal sm requestId

/-- One step of the pair: a public call of the registry, or anything that
happens to the signer-manager and around both. -/
inductive Step (d : Deployment τ) : World τ → World τ → Prop
  | call {w w' : World τ} {value : Value} (depth : Nat) (ctx : Ctx) (c : Call)
      (hexec : RewardClaims.exec d.views d.code depth ctx c w = .ok value w') : Step d w w'
  | outside {w : World τ} (ext : SignerManager.World τ) (stx : Principal → Nat) (amount : Nat)
      (hext : SignerManager.Run d.ext w.ext ext) : Step d w (w.outside ext stx amount)

/-- The worlds the pair can reach: the signer-manager was deployed by
`deployer` and may have been used, then the registry was deployed. -/
def Reachable (d : Deployment τ) (deployer : Principal) (w : World τ) : Prop :=
  ∃ (stx : Principal → Nat) (ext : SignerManager.World τ),
    SignerManager.Reachable d.ext deployer ext ∧
      Relation.ReflTransGen (Step d) (.deployed stx ext) w

section Deployment

variable {d : Deployment τ} {w w' : World τ}

/-! ## A call on the signer-manager is a step of its own -/

theorem answer_respects {ρ : Type} {run : SignerManager.M τ ρ}
    (hrun : ∀ v, SignerManager.Run d.ext v ((Tx.atomic run).commit v)) (w : World τ) :
    (answer run w).Respects (SignerManager.Run d.ext) := by
  intro a ha
  unfold answer at ha
  cases hexec : Tx.atomic run w.ext with
  | ok value v =>
      rw [hexec] at ha
      simp only [List.mem_singleton] at ha
      subst ha
      exact hrun
  | err code v => simp [hexec] at ha
  | abort => simp [hexec] at ha

/-- A caller of functions that anyone may call. -/
def anyone : SignerManager.Ctx := ⟨RewardClaims.currentContract, RewardClaims.currentContract⟩

/-- A function that a public call dispatches to commits what the call does. -/
theorem run_commit {ρ : Type} {run : SignerManager.M τ ρ} {f : ρ → SignerManager.Value}
    (ctx : SignerManager.Ctx) (c : SignerManager.Call)
    (hdispatch : SignerManager.dispatch d.ext ctx c = do let a ← run; pure (f a))
    (v : SignerManager.World τ) :
    SignerManager.Run d.ext v ((Tx.atomic run).commit v) := by
  have hcommit : (Tx.atomic run).commit v = (SignerManager.exec d.ext ctx c).commit v := by
    simp only [SignerManager.exec, hdispatch, Tx.commit, Tx.atomic, Tx.run_bind]
    cases run v <;> rfl
  rw [hcommit]
  exact SignerManager.run_call ctx c v

/-- A call whose payload nobody reads. -/
theorem answer_unit_respects {ρ : Type} {run : SignerManager.M τ ρ}
    (hrun : ∀ v, SignerManager.Run d.ext v ((Tx.atomic run).commit v)) (w : World τ) :
    (answer (do let _ ← run; pure ()) w).Respects (SignerManager.Run d.ext) := by
  refine answer_respects (fun v => ?_) w
  have hcommit : (Tx.atomic (do let _ ← run; pure () : SignerManager.M τ Unit)).commit v =
      (Tx.atomic run).commit v := by
    simp only [Tx.commit, Tx.atomic, Tx.run_bind]
    cases run v <;> rfl
  rw [hcommit]
  exact hrun v

theorem code_respects (hd : d.Sound) : d.code.Respects (SignerManager.Run d.ext) where
  claimStakerRewards sm staker cycle bond w := by
    by_cases hsm : sm = d.id
    · simp only [Deployment.code, if_pos hsm]
      exact answer_respects (run_commit (f := .claim) anyone
        (.claimStakerRewards staker ⟨cycle, bond⟩) rfl) w
    · simp only [Deployment.code, if_neg hsm]
      exact hd.other.claimStakerRewards sm staker cycle bond w
  claimRewards sm bonds cycle w := by
    by_cases hsm : sm = d.id
    · simp only [Deployment.code, if_pos hsm]
      exact answer_unit_respects (run_commit (f := .rewards) anyone
        (.claimRewards bonds cycle) rfl) w
    · simp only [Deployment.code, if_neg hsm]
      exact hd.other.claimRewards sm bonds cycle w
  settleAcceptedWithdrawal sm id w := by
    by_cases hsm : sm = d.id
    · simp only [Deployment.code, if_pos hsm]
      exact answer_respects (run_commit (f := .bool) anyone
        (.settleAcceptedWithdrawal id) rfl) w
    · simp only [Deployment.code, if_neg hsm]
      exact hd.other.settleAcceptedWithdrawal sm id w
  reclaimFailedWithdrawal sm id w := by
    by_cases hsm : sm = d.id
    · simp only [Deployment.code, if_pos hsm]
      exact answer_respects (run_commit (f := .bool) anyone
        (.reclaimFailedWithdrawal id) rfl) w
    · simp only [Deployment.code, if_neg hsm]
      exact hd.other.reclaimFailedWithdrawal sm id w

/-- The registry relies on no more than this about any signer-manager. -/
theorem frames (hd : d.Sound) (depth : Nat) (sm : ContractId) :
    (RewardClaims.interpret d.code (RewardClaims.exec d.views d.code depth)).Frames sm
      (SignerManager.Run d.ext) True :=
  RewardClaims.interpret_frames (code_respects hd) depth sm

/-- A step of the pair is a step of the registry against adversaries. -/
theorem Step.registry (hd : d.Sound) (h : Step d w w') :
    RewardClaims.Step d.views (SignerManager.Run d.ext) w w' := by
  cases h with
  | call depth ctx c hexec => exact .call d.code depth ctx c (code_respects hd) hexec
  | outside ext stx amount hext => exact .outside ext stx amount hext

/-! ## Opened requests -/

/-- The log of the signer-manager says that the request was opened for the
staker. -/
def Opened (v : SignerManager.World τ) (id : Nat) (staker : Principal) : Prop :=
  ∃ total rest, SignerManager.phases id v.log = .requested staker total :: rest

theorem Opened.run (hd : d.Sound) {v v' : SignerManager.World τ}
    (hrun : SignerManager.Run d.ext v v') {id : Nat} {staker : Principal}
    (h : Opened v id staker) : Opened v' id staker := by
  obtain ⟨total, rest, hphases⟩ := h
  obtain ⟨events, hlog, -⟩ := SignerManager.run_log hd.documented hrun
  refine ⟨total, rest ++ events.filterMap (SignerManager.Event.phase id), ?_⟩
  rw [SignerManager.phases, hlog, List.filterMap_append, ← SignerManager.phases, hphases,
    List.cons_append]

/-- What the signer-manager keeps about itself. -/
abbrev Kept (d : Deployment τ) (v : SignerManager.World τ) : Prop :=
  SignerManager.Inv d.ext v ∧ SignerManager.Lives d.ext v

theorem kept_run (hd : d.Sound) {v v' : SignerManager.World τ}
    (hrun : SignerManager.Run d.ext v v') (h : Kept d v) : Kept d v' := by
  induction hrun with
  | refl => exact h
  | tail _ hstep ih =>
      exact ⟨SignerManager.inv_step hd.documented hstep ih.1,
        SignerManager.lives_step hd.documented hstep ih.1 ih.2⟩

/-- A claim that answers with a request id has opened that request. -/
theorem opened_of_claim (hd : d.Sound) {v v' : SignerManager.World τ} (hkept : Kept d v)
    {staker : Principal} {key : SignerManager.FeeKey} {result : ClaimResult}
    (hclaim : SignerManager.claimStakerRewards d.ext staker key v = .ok result v') {id : Nat}
    (hid : result.withdrawalRequest = some id) : Opened v' id staker := by
  have hchange := (SignerManager.claimStakerRewards_does hd.documented anyone staker key).of_ok
    hclaim
  have hlives := hchange.lives hkept.1 hkept.2
  have htracks := (SignerManager.claimStakerRewards_tracks staker key).of_ok hclaim id hid
  exact (hlives id).of_tracked htracks

/-! ## The index names opened requests -/

/-- A row of the index that names the signer-manager is a request it opened for
the row's staker. -/
def Indexed (d : Deployment τ) (w : World τ) : Prop :=
  ∀ staker id, (w.registry.pendingWithdrawals ⟨staker, .contract d.id, id⟩).isSome = true →
    Opened w.ext id staker

/-- A step that adds no row keeps it. -/
theorem Indexed.frame (hd : d.Sound) (h : Indexed d w)
    (hrows : ∀ key, (w'.registry.pendingWithdrawals key).isSome = true →
      (w.registry.pendingWithdrawals key).isSome = true)
    (hext : SignerManager.Run d.ext w.ext w'.ext) : Indexed d w' :=
  fun staker id hrow => (h staker id (hrows _ hrow)).run hd hext

/-- Runs one after the other are one run. -/
theorem run_of_runs {v v' : SignerManager.World τ}
    (h : Relation.ReflTransGen (SignerManager.Run d.ext) v v') :
    SignerManager.Run d.ext v v' := by
  induction h with
  | refl => exact .refl
  | tail _ hrun ih => exact ih.trans hrun

theorem Indexed.outside (hd : d.Sound)
    (hout : RewardClaims.Outside (SignerManager.Run d.ext) w w') (h : Indexed d w) :
    Indexed d w' :=
  h.frame hd (fun _ hrow => hout.pendingWithdrawals ▸ hrow) (run_of_runs hout.ext)

/-- A claim may add a row, for a request that was opened. -/
theorem Indexed.indexedAt (h : Indexed d w) {key : RewardClaims.WithdrawalKey} (height : Nat)
    (hopened : key.signerManager = .contract d.id → Opened w.ext key.requestId key.staker) :
    Indexed d (w.indexedAt key height) := by
  intro staker id hrow
  by_cases hkey : (⟨staker, .contract d.id, id⟩ : RewardClaims.WithdrawalKey) = key
  · subst hkey
    exact hopened rfl
  · refine h staker id ?_
    simpa [RewardClaims.World.indexedAt, Function.update_of_ne hkey] using hrow

/-- A business event other than a claim on the signer-manager adds no row that
names it. -/
theorem Indexed.change (hd : d.Sound) {l : RewardClaims.Label}
    (hstep : RewardClaims.Change d.views (SignerManager.Run d.ext) l w w')
    (hl : ∀ key, l = .claim key → key.signerManager ≠ .contract d.id) (h : Indexed d w) :
    Indexed d w' := by
  have hremove : ∀ (v : World τ) (key key' : RewardClaims.WithdrawalKey),
      ((v.unindexed key).registry.pendingWithdrawals key').isSome = true →
        (v.registry.pendingWithdrawals key').isSome = true := by
    intro v key key' hrow
    by_cases hkey : key' = key
    · simp [hkey, RewardClaims.World.unindexed] at hrow
    · simpa [RewardClaims.World.unindexed, Function.update_of_ne hkey] using hrow
  have hescrow : ∀ {v : World τ}, RewardClaims.EscrowOnly w v → Indexed d v := by
    intro v hv
    exact h.frame hd (fun _ hrow => hv.pendingWithdrawals ▸ hrow) (hv.ext ▸ .refl)
  cases hstep with
  | outside hout => exact h.outside hd hout
  | register => exact hescrow (RewardClaims.escrowOnly_registered _ _ _ _)
  | addClaims => exact hescrow (RewardClaims.escrowOnly_toppedUp _ _ _ _ _)
  | cancel => exact hescrow (RewardClaims.escrowOnly_cancelled _ _ _)
  | claim w w₁ key row cycle covered earned claimError stored htracked =>
      have hne := hl key rfl
      have hw₁ : Indexed d w₁ := by
        cases htracked with
        | none => exact h
        | known => exact h
        | fresh id => exact h.indexedAt _ fun hsm => absurd hsm hne
      exact hw₁.frame hd (fun _ hrow => by simpa [RewardClaims.World.claimed,
        RewardClaims.World.advanced] using hrow) (by simpa [RewardClaims.World.claimed,
        RewardClaims.World.advanced] using .refl)
  | settle w w₁ key accepted hindexed hstatus hcall =>
      have hinvoked : Indexed d (w.emit [.invoked key accepted]) :=
        h.frame hd (fun _ hrow => hrow) .refl
      have hw₁ : Indexed d w₁ := hinvoked.outside hd hcall
      exact hw₁.frame hd (fun key' hrow => hremove w₁ key key' hrow) .refl
  | prune w key => exact h.frame hd (fun key' hrow => hremove w key key' hrow) .refl

/-! ## The pair between calls -/

/-- What holds of the pair between public calls. -/
structure Pair (d : Deployment τ) (base : Nat) (w : World τ) : Prop where
  registry : RewardClaims.Inv base w
  idle : w.registry.signerManagerCallActive = false
  kept : Kept d w.ext
  indexed : Indexed d w

variable {base : Nat}

theorem Pair.outside (hd : d.Sound) (h : Pair d base w)
    (hout : RewardClaims.Outside (SignerManager.Run d.ext) w w') : Pair d base w' where
  registry := hout.inv h.registry
  idle := hout.active.trans h.idle
  kept := kept_run hd (run_of_runs hout.ext) h.kept
  indexed := h.indexed.outside hd hout

/-- The business events of the registry keep what only concerns one of the
two. -/
theorem Pair.of_runs (hd : d.Sound) (h : Pair d base w) {allowed : RewardClaims.Label → Prop}
    (hruns : Runs (RewardClaims.Change d.views (SignerManager.Run d.ext)) allowed w w')
    (hindexed : Indexed d w') : Pair d base w' where
  registry := h.registry.runs hruns
  idle := (RewardClaims.runs_active hruns).trans h.idle
  kept := hruns.invariant (fun s => Kept d s.ext)
    (fun _ _ _ _ hstep hs => kept_run hd (run_of_runs hstep.ext_steps) hs) h.kept
  indexed := hindexed

/-! ## Calls of the registry on the signer-manager -/

section Interpret

variable (d) (reenter : Ctx → Call → RewardClaims.M (SignerManager.World τ) Value)

theorem interpret_settleAcceptedWithdrawal (id : Nat) :
    (RewardClaims.interpret d.code reenter).settleAcceptedWithdrawal d.id id =
      RewardClaims.runScript reenter
        (answer (SignerManager.settleAcceptedWithdrawal d.ext id)) := by
  simp only [RewardClaims.interpret, Deployment.code, if_true]

theorem interpret_reclaimFailedWithdrawal (id : Nat) :
    (RewardClaims.interpret d.code reenter).reclaimFailedWithdrawal d.id id =
      RewardClaims.runScript reenter
        (answer (SignerManager.reclaimFailedWithdrawal d.ext id)) := by
  simp only [RewardClaims.interpret, Deployment.code, if_true]

end Interpret

/-- What calling a public function of the signer-manager does. -/
theorem run_answer {ρ : Type} (run : SignerManager.M τ ρ)
    (reenter : Ctx → Call → RewardClaims.M (SignerManager.World τ) Value) (w : World τ) :
    RewardClaims.runScript reenter (answer run) w =
      match run w.ext with
      | .ok a v => .ok a (w.outside v w.stx 0)
      | .err code _ => .err code w
      | .abort => .abort := by
  cases hrun : run w.ext with
  | ok a v =>
      have hcommit : (Tx.atomic run).commit w.ext = v :=
        Tx.commit_of_ok (show Tx.atomic run w.ext = .ok a v by rw [Tx.atomic, hrun])
      have hscript : answer run w =
          ⟨[.outside (Tx.atomic run).commit w.stx 0], some (.ok a)⟩ := by
        simp [answer, Tx.atomic, hrun]
      simp [RewardClaims.runScript, RewardClaims.runAction, hscript, hcommit, Tx.atomic,
        Tx.run_bind]
  | err code v => simp [RewardClaims.runScript, answer, Tx.atomic, Tx.run_bind, hrun]
  | abort => simp [RewardClaims.runScript, answer, Tx.atomic, Tx.run_bind, hrun]

/-- A wrapper of the registry around a public function of the signer-manager
runs that function on the world of the signer-manager. -/
theorem guardedCall_answer {ρ : Type} {run : SignerManager.M τ ρ}
    {reenter : Ctx → Call → RewardClaims.M (SignerManager.World τ) Value}
    {ok : ρ → World τ → Prop} {err : Nat → World τ → Prop} {void : Prop}
    (hrun : ∀ v, SignerManager.Run d.ext v ((Tx.atomic run).commit v))
    (hidle : w.registry.signerManagerCallActive = false)
    (hanswer : Tx.wp run w.ext
      (fun a v => ∀ w', RewardClaims.Outside (SignerManager.Run d.ext) w w' → w'.ext = v →
        ok a w')
      (fun code _ => ∀ w', RewardClaims.Outside (SignerManager.Run d.ext) w w' →
        w'.ext = w.ext → err code w')
      void) :
    Tx.wp (RewardClaims.guardedCall (RewardClaims.runScript reenter (answer run))) w ok err
      void := by
  simp only [RewardClaims.guardedCall, Tx.wp_bind, Tx.wp_get, Tx.wp_asserts, Tx.wp_modify,
    Tx.wp_attempt]
  refine ⟨fun _ => ?_, fun h => absurd hidle h⟩
  have hcommit := hrun w.ext
  unfold Tx.wp
  rw [run_answer]
  simp only [RewardClaims.World.onRegistry_ext]
  cases hexec : run w.ext with
  | ok a v =>
      rw [Tx.commit_of_ok (show Tx.atomic run w.ext = .ok a v by rw [Tx.atomic, hexec])]
        at hcommit
      exact hanswer.of_ok hexec _ (RewardClaims.outside_flag w true
        (RewardClaims.outside_step hcommit) hidle) rfl
  | err code v =>
      exact hanswer.of_err hexec _ (RewardClaims.outside_flag w true
        (RewardClaims.Outside.refl _) hidle) rfl
  | abort => exact hanswer.of_abort hexec

/-! ## A claim indexes what it opened -/

section Claim

open RewardClaims (interpret Registration RegistrationKey)

variable {staker : Principal} {sm : ContractId} {key : RegistrationKey} {row : Registration}
  {cycle : Nat}

/-- The claim on the signer-manager: a request id it answers with was opened. -/
theorem signerManagerClaimStakerRewards_opens (hd : d.Sound) (h : Pair d base w) (depth : Nat)
    (staker : Principal) (sm : ContractId) (rewardCycle : Nat) (bondIndex : Option Nat) :
    Tx.wp (RewardClaims.signerManagerClaimStakerRewards
        (interpret d.code (RewardClaims.exec d.views d.code depth)) sm staker rewardCycle
        bondIndex) w
      (fun result w' => RewardClaims.Outside (SignerManager.Run d.ext) w w' ∧
        ∀ id, sm = d.id → result.withdrawalRequest = some id → Opened w'.ext id staker)
      (fun _ w' => RewardClaims.Outside (SignerManager.Run d.ext) w w') True := by
  unfold RewardClaims.signerManagerClaimStakerRewards
  by_cases hsm : sm = d.id
  · have hcode : (interpret d.code (RewardClaims.exec d.views d.code depth)).claimStakerRewards sm
        staker rewardCycle bondIndex = RewardClaims.runScript (RewardClaims.exec d.views d.code
          depth) (answer (SignerManager.claimStakerRewards d.ext staker
            ⟨rewardCycle, bondIndex⟩)) := by
      simp [interpret, Deployment.code, hsm]
    rw [hcode]
    refine guardedCall_answer (run_commit (f := .claim) anyone
      (.claimStakerRewards staker ⟨rewardCycle, bondIndex⟩) rfl) h.idle ?_
    have hopens : ∀ result v, SignerManager.claimStakerRewards d.ext staker
        ⟨rewardCycle, bondIndex⟩ w.ext = .ok result v →
        ∀ id, result.withdrawalRequest = some id → Opened v id staker :=
      fun result v hclaim id hid => opened_of_claim hd h.kept hclaim hid
    unfold Tx.wp
    cases hclaim : SignerManager.claimStakerRewards d.ext staker ⟨rewardCycle, bondIndex⟩
        w.ext with
    | ok result v =>
        intro w' hout hext
        exact ⟨hout, fun id _ hid => hext ▸ hopens result v hclaim id hid⟩
    | err code v => exact fun w' hout _ => hout
    | abort => trivial
  · have hframes := frames hd depth sm
    exact (RewardClaims.guardedCall_outside (hframes.claimStakerRewards _ _ _) h.idle).mono
      (fun _ _ hout => ⟨hout, fun _ hid => absurd hid hsm⟩) (fun _ _ hout => hout) id

theorem appendPendingWithdrawal_indexed (h : Indexed d w) (key : RegistrationKey) (id : Nat)
    (hopened : key.signerManager = .contract d.id → Opened w.ext id key.staker) :
    Tx.wp (RewardClaims.appendPendingWithdrawal d.views key id) w
      (fun _ w' => Indexed d w') (fun _ _ => False) False := by
  simp only [RewardClaims.appendPendingWithdrawal, RewardClaims.withdrawalLlAppend, Tx.wp_bind,
    Tx.wp_get]
  split
  · split
    · exact h
    · exact h.indexedAt _ hopened
  · exact h

/-- Consuming the installment adds no row. -/
theorem advanceRegistration_indexed (hd : d.Sound) (hinv : RewardClaims.Inv base w)
    (h : Indexed d w) (hrow : w.registry.registrations key = some row)
    {event : RewardClaims.Event} {stored : Option Nat} :
    Tx.wp (do
      let _ ← RewardClaims.advanceRegistration key row cycle
      RewardClaims.print event
      pure stored) w
      (fun _ w' => Indexed d w') (fun _ _ => True) True := by
  rw [Tx.wp_bind]
  refine (RewardClaims.advanceRegistration_spec hinv hrow cycle fun _ => trivial).mono ?_
    (fun _ _ h => h.elim) id
  rintro _ _ rfl
  exact h.frame hd (fun _ hrow => by simpa [RewardClaims.World.advanced] using hrow)
    (by simpa [RewardClaims.World.advanced] using .refl)

theorem claimStakerAndAdvance_indexed (hd : d.Sound) (h : Pair d base w) (depth : Nat)
    (hrow : w.registry.registrations ⟨staker, .contract sm⟩ = some row)
    {rewardCycle claimDistribution : Nat} {bondIndex : Option Nat} :
    Tx.wp (RewardClaims.claimStakerAndAdvance d.views
        (interpret d.code (RewardClaims.exec d.views d.code depth)) staker sm
        ⟨staker, .contract sm⟩ row rewardCycle claimDistribution bondIndex cycle) w
      (fun _ w' => Indexed d w') (fun _ _ => True) True := by
  simp only [RewardClaims.claimStakerAndAdvance]
  rw [Tx.wp_bind, Tx.wp_attempt]
  refine (signerManagerClaimStakerRewards_opens hd h depth staker sm _ _).mono
    (fun result w₁ hpost => ?_) (fun code w₁ hcall => ?_) id
  · obtain ⟨hcall, hopens⟩ := hpost
    have h₁ := h.outside hd hcall
    have hrow₁ : w₁.registry.registrations ⟨staker, .contract sm⟩ = some row := by
      rw [hcall.registrations, hrow]
    rw [Tx.wp_bind]
    cases hrequest : result.withdrawalRequest with
    | none => exact advanceRegistration_indexed hd h₁.registry h₁.indexed hrow₁
    | some id =>
        have hopened : (Principal.contract sm = .contract d.id) → Opened w₁.ext id staker :=
          fun hsm => hopens id (by simpa using hsm) hrequest
        have hindexed := appendPendingWithdrawal_indexed h₁.indexed ⟨staker, .contract sm⟩ id
          hopened
        refine ((RewardClaims.appendPendingWithdrawal_spec _ id).and hindexed).mono
          (fun stored w₂ hpost => ?_)
          (fun _ _ hpost => hpost.1.elim) (fun hpost => hpost.1.elim)
        have hrow₂ := hpost.1.registrations ▸ hrow₁
        exact advanceRegistration_indexed hd (hpost.1.inv h₁.registry) hpost.2 hrow₂
  · have h₁ := h.outside hd hcall
    exact advanceRegistration_indexed hd h₁.registry h₁.indexed
      (by rw [hcall.registrations, hrow])

theorem pullAndClaim_indexed (hd : d.Sound) (h : Pair d base w) (depth : Nat)
    (hrow : w.registry.registrations ⟨staker, .contract sm⟩ = some row) :
    Tx.wp (RewardClaims.pullAndClaim d.views
        (interpret d.code (RewardClaims.exec d.views d.code depth)) staker sm
        ⟨staker, .contract sm⟩ row cycle) w
      (fun _ w' => Indexed d w') (fun _ _ => True) True := by
  simp only [RewardClaims.pullAndClaim, RewardClaims.signerManagerClaimRewards]
  rw [Tx.wp_bind, Tx.wp_get]
  split
  · have hframes := frames hd depth sm
    rw [Tx.wp_bind, Tx.wp_attempt]
    refine (RewardClaims.guardedCall_outside (hframes.claimRewards _ _) h.idle).mono
      (fun _ w₁ hpull => ?_) (fun code w₁ hpull => ?_) id
    · exact claimStakerAndAdvance_indexed hd (h.outside hd hpull) depth
        (by rw [hpull.registrations, hrow])
    · have h₁ := h.outside hd hpull
      exact advanceRegistration_indexed hd h₁.registry h₁.indexed
        (by rw [hpull.registrations, hrow])
  · exact claimStakerAndAdvance_indexed hd h depth hrow

/-- A claim keeps what holds of the pair. -/
theorem processRewardClaimImpl_pair (hd : d.Sound) (h : Pair d base w) (depth : Nat)
    (staker : Principal) (sm : ContractId) (cycle : Nat) (covered : Option Nat) :
    Tx.wp (RewardClaims.processRewardClaimImpl d.views
        (interpret d.code (RewardClaims.exec d.views d.code depth)) staker sm cycle covered) w
      (fun _ w' => Pair d base w') (fun _ w' => w' = w) True := by
  have hindexed : Tx.wp (RewardClaims.processRewardClaimImpl d.views
      (interpret d.code (RewardClaims.exec d.views d.code depth)) staker sm cycle covered) w
      (fun _ w' => Indexed d w') (fun _ _ => True) True := by
    simp only [RewardClaims.processRewardClaimImpl, Tx.wp_bind, Tx.wp_get, Tx.wp_unwrap,
      Tx.wp_asserts]
    refine ⟨fun row hrow => ⟨fun _ => ⟨fun _ => ?_, fun _ => trivial⟩, fun _ => trivial⟩,
      fun _ => trivial⟩
    exact (pullAndClaim_indexed hd h depth hrow).mono
      (fun _ w' hpost => hpost.frame hd (fun _ hrow => hrow) .refl) (fun _ _ h => h) id
  exact ((RewardClaims.processRewardClaimImpl_runs (fun _ => True) h.registry h.idle staker sm
    (frames hd depth sm) cycle covered trivial trivial).and hindexed).mono
    (fun _ _ hpost => h.of_runs hd hpost.1 hpost.2) (fun _ _ hpost => hpost.1) fun _ => trivial

end Claim

/-! ## Runs of the pair -/

/-- A public call that claims for nobody at the signer-manager. -/
theorem exec_of_no_claim (hd : d.Sound) (h : Pair d base w) {depth : Nat} {ctx : Ctx} {c : Call}
    (hc : ∀ key, c.permits ctx (.claim key) → key.signerManager ≠ .contract d.id) :
    Tx.wp (RewardClaims.exec d.views d.code depth ctx c) w (fun _ w' => Pair d base w')
      (fun _ _ => True) True := by
  refine (RewardClaims.exec_runs (code_respects hd) h.registry h.idle depth ctx c).mono
    (fun _ w' hruns => h.of_runs hd hruns ?_) (fun _ _ _ => trivial) id
  exact hruns.invariant (Indexed d)
    (fun l _ _ hl hstep hs => hs.change hd hstep fun key hkey => hc key (hkey ▸ hl)) h.indexed

/-- **Every public call of the registry** keeps what holds of the pair. -/
theorem exec_pair (hd : d.Sound) (h : Pair d base w) (depth : Nat) (ctx : Ctx) (c : Call) :
    Tx.wp (RewardClaims.exec d.views d.code depth ctx c) w (fun _ w' => Pair d base w')
      (fun _ _ => True) True := by
  cases depth with
  | zero => trivial
  | succ depth =>
      cases c with
      | processRewardClaim staker sm =>
          simp only [RewardClaims.exec, Tx.wp_atomic, RewardClaims.dispatch,
            RewardClaims.processRewardClaim, Tx.wp_bind, RewardClaims.wp_validateNoReentrancy,
            Tx.wp_get, Tx.wp_pure]
          refine ⟨fun _ => ?_, fun _ => trivial⟩
          exact (processRewardClaimImpl_pair hd h depth staker sm _ _).weaken fun _ _ h => h
      | processRewardClaims sm stakers =>
          simp only [RewardClaims.exec, Tx.wp_atomic, RewardClaims.dispatch,
            RewardClaims.processRewardClaims, Tx.wp_bind, RewardClaims.wp_withMaxLen,
            RewardClaims.wp_validateNoReentrancy, Tx.wp_get, Tx.wp_pure]
          refine ⟨fun _ => ⟨fun _ => ?_, fun _ => trivial⟩, fun _ => trivial⟩
          refine Tx.wp_foldlM (fun _ s => Pair d base s) h ?_
          intro n s staker _ hs
          simp only [RewardClaims.countClaim, Tx.wp_bind, Tx.wp_attempt]
          exact (processRewardClaimImpl_pair hd hs depth staker sm _ _).mono
            (fun _ _ h => h) (fun _ _ heq => heq ▸ hs) id
      | _ => exact exec_of_no_claim hd h fun _ hclaim => hclaim.elim

theorem pair_step (hd : d.Sound) (hstep : Step d w w') (h : Pair d base w) : Pair d base w' := by
  cases hstep with
  | call depth ctx c hexec => exact (exec_pair hd h depth ctx c).of_ok hexec
  | outside ext stx amount hext => exact h.outside hd (RewardClaims.outside_step hext)

theorem Reachable.pair (hd : d.Sound) {deployer : Principal} (h : Reachable d deployer w) :
    ∃ base, Pair d base w := by
  obtain ⟨stx, ext, hext, hrun⟩ := h
  refine ⟨stx RewardClaims.currentContract, ?_⟩
  induction hrun with
  | refl =>
      exact ⟨RewardClaims.inv_deployed stx ext, rfl,
        SignerManager.reachable_lives hd.documented hext, fun _ _ hrow => by cases hrow⟩
  | tail _ hstep ih => exact pair_step hd hstep ih

theorem runs_call (depth : Nat) (ctx : Ctx) (c : Call) (w : World τ) :
    Relation.ReflTransGen (Step d) w (w.call d.views d.code depth ctx c) := by
  unfold RewardClaims.World.call Tx.commit
  cases hexec : RewardClaims.exec d.views d.code depth ctx c w with
  | ok value w' => exact .single (.call depth ctx c hexec)
  | err => exact .refl
  | abort => exact .refl

/-! ## The small chain, with a registry -/

namespace Chain

open SignerManager.Chain (staker externals staked rejecting)

/-- Two distributions pass when pox-5 pays. -/
def deployment : Deployment SignerManager.Chain where
  id := ⟨2, "signer-manager"⟩
  ext := externals
  views :=
    { currentDistributionCycle := fun v => if v.chain.rewards = 0 then 4 else 2
      getLastRewardComputeHeight := fun v => if v.chain.rewards = 0 then 2 else 0
      burnHeightToDistributionIndex := fun _ height => height
      getEarned := fun v _ _ _ => v.chain.rewards
      getBondMembership := fun _ _ => none
      bondPeriodToRewardCycle := fun _ bondIndex => bondIndex
      getStakerInfo := fun _ _ => some ⟨SignerManager.Chain.signerManager, 1⟩
      getWithdrawalRequest := fun v id =>
        (externals.getWithdrawalRequest v.chain id).map fun r => ⟨r.status⟩
      burnBlockHeight := fun _ => 100 }
  other :=
    { claimStakerRewards := fun _ _ _ _ _ => ⟨[], some (.error 1)⟩
      claimRewards := fun _ _ _ _ => ⟨[], some (.error 1)⟩
      settleAcceptedWithdrawal := fun _ _ _ => ⟨[], some (.error 1)⟩
      reclaimFailedWithdrawal := fun _ _ _ => ⟨[], some (.error 1)⟩ }

theorem deployment_sound : deployment.Sound where
  documented := SignerManager.Chain.externals_documented
  currentContract := rfl
  getWithdrawalRequest _ _ := rfl
  other := ⟨fun _ _ _ _ _ _ h => by simp [deployment] at h,
    fun _ _ _ _ _ h => by simp [deployment] at h,
    fun _ _ _ _ h => by simp [deployment] at h,
    fun _ _ _ _ h => by simp [deployment] at h⟩

/-- The staker as sender. -/
def byStaker : Ctx := ⟨staker, staker, by decide⟩

/-- A transaction of the staker's. -/
def send (c : Call) (w : World SignerManager.Chain) : World SignerManager.Chain :=
  w.call deployment.views deployment.code 2 byStaker c

/-- The staker has set an L1 address. -/
def start : World SignerManager.Chain :=
  .deployed (Function.update (fun _ => 0) staker 1000000) staked

/-- Three claims are registered. -/
def registered : World SignerManager.Chain :=
  send (.registerForClaims staker deployment.id 1 false 3) start

/-- The first claim is due, and its rewards are pulled in. -/
def due : World SignerManager.Chain :=
  registered.outside (SignerManager.Chain.send (.claimRewards [] 5) registered.ext)
    registered.stx 0

/-- It is processed. -/
def claimed : World SignerManager.Chain := send (.processRewardClaim staker deployment.id) due

/-- The signers rejected the request it opened. -/
def rejected : World SignerManager.Chain :=
  claimed.outside ((claimed.ext.onChain (rejecting claimed.ext.chain)).emit [.rejected 7 600])
    claimed.stx 0

theorem runs_send (c : Call) (w : World SignerManager.Chain) :
    Relation.ReflTransGen (Step deployment) w (send c w) := runs_call 2 byStaker c w

theorem claimed_request : (externals.account claimed.ext.chain).requests 7 =
    some SignerManager.Chain.pendingRequest := by
  decide +kernel

theorem reachable_rejected : Reachable deployment SignerManager.Chain.admin rejected := by
  have hregistered : Relation.ReflTransGen (Step deployment) start registered := runs_send _ _
  have hdue : Step deployment registered due :=
    .outside _ _ _ (SignerManager.Chain.run_send _ _)
  have hrejected : Step deployment claimed rejected :=
    .outside _ _ _ (SignerManager.Chain.run_rejecting claimed_request)
  have hclaimed : Relation.ReflTransGen (Step deployment) due claimed := runs_send _ _
  exact ⟨_, staked, SignerManager.Chain.reachable_staked,
    ((hregistered.tail hdue).trans hclaimed).tail hrejected⟩

theorem rejected_row :
    (rejected.registry.pendingWithdrawals ⟨staker, .contract deployment.id, 7⟩).isSome =
      true := by
  decide +kernel

end Chain

/-! ## What a row means -/

/-- In every state the pair can reach, a row of the registry's index that names
the signer-manager is a request that the signer-manager opened for the row's
staker: no other staker has a row for it, and while the signer-manager tracks
the request it is for that staker. -/
theorem reachable_row (hd : d.Sound) {deployer : Principal} (h : Reachable d deployer w)
    {staker : Principal} {id : Nat}
    (hrow : (w.registry.pendingWithdrawals ⟨staker, .contract d.id, id⟩).isSome = true) :
    (∃ total rest, SignerManager.phases id w.ext.log = .requested staker total :: rest) ∧
      (∀ other, (w.registry.pendingWithdrawals ⟨other, .contract d.id, id⟩).isSome = true →
        other = staker) ∧
      ∀ tracked, w.ext.manager.withdrawalRequests id = some tracked → tracked = staker := by
  obtain ⟨base, hpair⟩ := h.pair hd
  obtain ⟨total, rest, hphases⟩ := hpair.indexed staker id hrow
  refine ⟨⟨total, rest, hphases⟩, fun other hother => ?_, fun tracked htracked => ?_⟩
  · obtain ⟨total', rest', hphases'⟩ := hpair.indexed other id hother
    rw [hphases] at hphases'
    cases hphases'
    rfl
  · obtain ⟨total', rest', hphases'⟩ := (hpair.kept.2 id).of_tracked htracked
    rw [hphases] at hphases'
    cases hphases'
    rfl

theorem rejected_row_opened :
    (∃ total rest, SignerManager.phases 7 Chain.rejected.ext.log =
        .requested SignerManager.Chain.staker total :: rest) ∧
      (∀ other, (Chain.rejected.registry.pendingWithdrawals
        ⟨other, .contract Chain.deployment.id, 7⟩).isSome = true →
          other = SignerManager.Chain.staker) ∧
      ∀ tracked, Chain.rejected.ext.manager.withdrawalRequests 7 = some tracked →
        tracked = SignerManager.Chain.staker :=
  reachable_row Chain.deployment_sound Chain.reachable_rejected Chain.rejected_row

/-! ## What settling a row does -/

section Settle

variable {v v' : SignerManager.World τ} {staker : Principal} {id : Nat}
  {r : SignerManager.WithdrawalRequest} {accepted : Bool}

/-- The request has come to the end its status asks for, and if it had not
before, the staker has just been paid what was rejected. -/
structure Closed (d : Deployment τ) (staker : Principal) (id : Nat)
    (r : SignerManager.WithdrawalRequest) (accepted : Bool) (v v' : SignerManager.World τ) :
    Prop where
  phases : SignerManager.phases id v'.log =
    [.requested staker (r.amount + r.maxFee), .resolved accepted,
      if accepted then .retired staker (r.amount + r.maxFee)
      else .refunded staker (r.amount + r.maxFee)]
  paid : d.ext.getBalanceAvailable v'.chain staker = d.ext.getBalanceAvailable v.chain staker +
    if accepted = false ∧ (v.manager.withdrawalRequests id).isSome = true
    then r.amount + r.maxFee else 0

/-- Closing a resolved request of the signer-manager: if it is still tracked
the call goes through, and if it is not it was closed before. -/
theorem close_resolved (hd : d.Sound) (hkept : Kept d v) (hopened : Opened v id staker)
    (hr : d.ext.getWithdrawalRequest v.chain id = some r) (hstatus : r.status = some accepted)
    (hstaker : accepted = false → staker ≠ d.ext.currentContract) :
    Tx.wp (if accepted then SignerManager.settleAcceptedWithdrawal d.ext id
        else SignerManager.reclaimFailedWithdrawal d.ext id) v
      (fun _ v' => Closed d staker id r accepted v v')
      (fun _ _ => Closed d staker id r accepted v v) False := by
  obtain ⟨hinv, hlives⟩ := hkept
  obtain ⟨total, rest, hphases⟩ := hopened
  have hlife := hlives id
  rw [hphases] at hlife
  -- sbtc-registry tells one thing about the request
  have hsame : ∀ {r' : SignerManager.WithdrawalRequest},
      (d.ext.account v.chain).requests id = some r' → r' = r := by
    intro r' hr'
    exact Option.some.inj ((d.ext.getWithdrawalRequest_of_account hr').symm.trans hr)
  cases hlife with
  | pending _ r' hs hr' hpending =>
      cases hsame hr'
      simp [hpending] at hstatus
  | resolved _ r' accepted' hs hr' hstatus' =>
      cases hsame hr'
      cases hstatus'.symm.trans hstatus
      cases accepted with
      | true =>
          refine Tx.wp_of_run (SignerManager.run_settleAcceptedWithdrawal hinv hs hr hstatus) ?_
          refine ⟨?_, by simp [SignerManager.World.closeRequest]⟩
          show SignerManager.phases id (v.log ++ _) = _
          rw [SignerManager.phases, List.filterMap_append, ← SignerManager.phases, hphases]
          simp [SignerManager.Event.phase, SignerManager.WithdrawalRequest.total]
      | false =>
          obtain ⟨s, hrun, hpaid⟩ :=
            SignerManager.run_reclaimFailedWithdrawal hd.documented hinv hs hr hstatus
              (hstaker rfl)
          refine Tx.wp_of_run hrun ⟨?_, ?_⟩
          · show SignerManager.phases id (v.log ++ _) = _
            rw [SignerManager.phases, List.filterMap_append, ← SignerManager.phases, hphases]
            simp [SignerManager.Event.phase, SignerManager.WithdrawalRequest.total]
          · simpa [hs, SignerManager.WithdrawalRequest.total] using hpaid
  | refunded _ r' hs hr' hstatus' =>
      cases hsame hr'
      cases hstatus'.symm.trans hstatus
      simp only [Bool.false_eq_true, if_false, SignerManager.reclaimFailedWithdrawal, Tx.wp_bind,
        Tx.wp_get, Tx.wp_unwrap, hs]
      exact ⟨fun _ h => (Option.some_ne_none _ h.symm).elim, fun _ => ⟨hphases, by simp [hs]⟩⟩
  | retired _ r' hs hr' hstatus' =>
      cases hsame hr'
      cases hstatus'.symm.trans hstatus
      simp only [if_true, SignerManager.settleAcceptedWithdrawal, Tx.wp_bind, Tx.wp_get,
        Tx.wp_unwrap, hs]
      exact ⟨fun _ h => (Option.some_ne_none _ h.symm).elim, fun _ => ⟨hphases, by simp⟩⟩

/-- What settling an indexed request through the registry leads to. -/
theorem exec_settles (hd : d.Sound) (h : Pair d base w) (depth : Nat) (ctx : Ctx)
    (hrow : (w.registry.pendingWithdrawals ⟨staker, .contract d.id, id⟩).isSome = true)
    (hr : d.ext.getWithdrawalRequest w.ext.chain id = some r) (hstatus : r.status = some accepted)
    (hstaker : accepted = false → staker ≠ d.ext.currentContract) :
    Tx.wp (RewardClaims.exec d.views d.code (depth + 1) ctx
        (.settlePendingWithdrawal staker d.id id)) w
      (fun value w' => value = .bool true ∧
        w'.registry.pendingWithdrawals ⟨staker, .contract d.id, id⟩ = none ∧
        Closed d staker id r accepted w.ext w'.ext)
      (fun _ _ => False) False := by
  have hview : d.views.getWithdrawalRequest w.ext id = some ⟨some accepted⟩ := by
    rw [hd.getWithdrawalRequest, hr, Option.map_some, hstatus]
  have hclosed := close_resolved hd h.kept (h.indexed staker id hrow) hr hstatus hstaker
  have hcall : Tx.wp (if accepted then
        RewardClaims.signerManagerSettleAcceptedWithdrawal
          (RewardClaims.interpret d.code (RewardClaims.exec d.views d.code depth)) staker d.id id
      else
        RewardClaims.signerManagerReclaimFailedWithdrawal
          (RewardClaims.interpret d.code (RewardClaims.exec d.views d.code depth)) staker d.id
          id) w
      (fun _ w₁ => Closed d staker id r accepted w.ext w₁.ext)
      (fun _ w₁ => Closed d staker id r accepted w.ext w₁.ext) False := by
    cases accepted with
    | true =>
        rw [if_pos rfl, RewardClaims.signerManagerSettleAcceptedWithdrawal, Tx.wp_bind,
          RewardClaims.wp_history, interpret_settleAcceptedWithdrawal]
        exact guardedCall_answer
          (run_commit (f := .bool) anyone (.settleAcceptedWithdrawal id) rfl) h.idle
          (hclosed.mono (fun _ _ hpost w₁ _ hext => hext.symm ▸ hpost)
            (fun _ _ hpost w₁ _ hext => hext.symm ▸ hpost) False.elim)
    | false =>
        rw [if_neg Bool.false_ne_true, RewardClaims.signerManagerReclaimFailedWithdrawal,
          Tx.wp_bind, RewardClaims.wp_history, interpret_reclaimFailedWithdrawal]
        exact guardedCall_answer
          (run_commit (f := .bool) anyone (.reclaimFailedWithdrawal id) rfl) h.idle
          (hclosed.mono (fun _ _ hpost w₁ _ hext => hext.symm ▸ hpost)
            (fun _ _ hpost w₁ _ hext => hext.symm ▸ hpost) False.elim)
  simp only [RewardClaims.exec, Tx.wp_atomic, RewardClaims.dispatch,
    RewardClaims.settlePendingWithdrawal, Tx.wp_bind, RewardClaims.wp_validateNoReentrancy]
  refine ⟨fun _ => ?_, fun hactive => absurd hactive (by simp [h.idle])⟩
  simp only [RewardClaims.settlePendingWithdrawalImpl, Tx.wp_bind, Tx.wp_get, Tx.wp_asserts,
    hview, Tx.wp_attempt]
  refine ⟨fun _ => ?_, fun hnone => absurd hrow hnone⟩
  exact hcall.mono
    (fun _ w₁ hpost => ⟨rfl, Function.update_self _ _ _, hpost⟩)
    (fun _ w₁ hpost => ⟨rfl, Function.update_self _ _ _, hpost⟩) False.elim

/-- In every state the pair can reach, anyone can settle any row of a resolved
request through the registry: the row goes, and the request has then come to
the one end its status asks for, a rejected one with its staker, who is not
the contract itself, paid the whole amount and fee budget. -/
theorem reachable_row_settles (hd : d.Sound) {deployer : Principal} (h : Reachable d deployer w)
    (hrow : (w.registry.pendingWithdrawals ⟨staker, .contract d.id, id⟩).isSome = true)
    (hr : d.ext.getWithdrawalRequest w.ext.chain id = some r) (hstatus : r.status = some accepted)
    (hstaker : accepted = false → staker ≠ d.ext.currentContract) (depth : Nat) (ctx : Ctx) :
    ∃ w', RewardClaims.exec d.views d.code (depth + 1) ctx
        (.settlePendingWithdrawal staker d.id id) w = .ok (.bool true) w' ∧
      w'.registry.pendingWithdrawals ⟨staker, .contract d.id, id⟩ = none ∧
      Closed d staker id r accepted w.ext w'.ext := by
  obtain ⟨base, hpair⟩ := h.pair hd
  rcases (exec_settles hd hpair depth ctx hrow hr hstatus hstaker).total with
    ⟨value, w', hexec, rfl, hgone, hclosed⟩ | ⟨_, _, _, hfalse⟩
  · exact ⟨w', hexec, hgone, hclosed⟩
  · exact hfalse.elim

theorem rejected_row_settles :
    ∃ w', RewardClaims.exec Chain.deployment.views Chain.deployment.code 1 Chain.byStaker
        (.settlePendingWithdrawal SignerManager.Chain.staker Chain.deployment.id 7)
        Chain.rejected = .ok (.bool true) w' ∧
      w'.registry.pendingWithdrawals
        ⟨SignerManager.Chain.staker, .contract Chain.deployment.id, 7⟩ = none ∧
      Closed Chain.deployment SignerManager.Chain.staker 7 SignerManager.Chain.rejectedRequest
        false Chain.rejected.ext w'.ext := by
  have hr : Chain.deployment.ext.getWithdrawalRequest Chain.rejected.ext.chain 7 =
      some SignerManager.Chain.rejectedRequest := by decide +kernel
  exact reachable_row_settles Chain.deployment_sound Chain.reachable_rejected
    Chain.rejected_row hr rfl (fun _ => by decide) 0 Chain.byStaker

end Settle

end Deployment

end Spox.Linked
