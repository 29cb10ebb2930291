import Mathlib.Logic.Relation
import Spox.Contract.Claims
import Spox.Lib.Sequence

/-!
# Reward claim registry — calls and runs

The public functions as one dispatcher, the signer-managers as adversaries
that may call it back, and runs of the whole system.

A signer-manager is a program that sees the whole world when it is called
and then performs any finite list of actions before it answers: calls to
any public function of the registry under principals of its choice, and
changes to the rest of the chain. `exec` interprets it by recursion on the
number of nested calls the VM still allows, so reentrancy is part of the
model and is not assumed away.
-/

namespace Spox.RewardClaims

open Spox.Lib

/-! ## Public calls -/

/-- A call of a public function. -/
inductive Call where
  | registerForClaims (staker : Principal) (signerManager : ContractId)
      (startRewardCycle : Nat) (oneClaimPerRewardCycle : Bool) (numClaims : Nat)
  | registerManyForClaims (signerManager : ContractId) (stakers : List RegistrationEntry)
  | addClaims (staker signerManager : Principal) (numClaims : Nat)
  | cancelRegistration (staker signerManager : Principal)
  | cancelManyRegistrations (signerManager : Principal) (stakers : List Principal)
  | processRewardClaim (staker : Principal) (signerManager : ContractId)
  | processRewardClaims (signerManager : ContractId) (stakers : List Principal)
  | settlePendingWithdrawal (staker : Principal) (signerManager : ContractId)
      (requestId : Nat)
  | settlePendingWithdrawals (signerManager : ContractId) (items : List WithdrawalItem)
  | setFeePerClaim (newFee : Nat)
  | updateAdmin (admin : Principal) (enabled : Bool)

/-- The ok value of a public function. -/
inductive Value where
  | uint (n : Nat)
  | bool (b : Bool)
  | optional (n : Option Nat)
  | principal (p : Principal)
deriving DecidableEq

/-- The declared maximum length of a list argument; the VM refuses a longer
list before the function runs. -/
def withMaxLen {σ α β : Type} (bound : Nat) (l : List α) (body : M σ β) : M σ β :=
  if l.length ≤ bound then body else Tx.abort

@[simp] theorem wp_withMaxLen {σ α β : Type} {w : World σ} {ok : β → World σ → Prop}
    {err : Nat → World σ → Prop} {void : Prop} (bound : Nat) (l : List α) (body : M σ β) :
    Tx.wp (withMaxLen bound l body) w ok err void ↔
      (l.length ≤ bound → Tx.wp body w ok err void) ∧ (bound < l.length → void) := by
  by_cases h : l.length ≤ bound
  · simp [withMaxLen, h, Nat.not_lt_of_le h]
  · simp [withMaxLen, h, Nat.lt_of_not_le h]

variable {σ : Type}

/-- The body of the public function a call names. -/
def dispatch (views : Views σ) (managers : SignerManagers σ) (ctx : Ctx) :
    Call → M σ Value
  | .registerForClaims staker signerManager start oneClaim numClaims => do
      let n ← registerForClaims views ctx staker signerManager start oneClaim numClaims
      pure (.uint n)
  | .registerManyForClaims signerManager stakers => do
      let n ← withMaxLen 50 stakers (registerManyForClaims views ctx signerManager stakers)
      pure (.uint n)
  | .addClaims staker signerManager numClaims => do
      let n ← addClaims ctx staker signerManager numClaims
      pure (.uint n)
  | .cancelRegistration staker signerManager => do
      let n ← cancelRegistration ctx staker signerManager
      pure (.uint n)
  | .cancelManyRegistrations signerManager stakers => do
      let n ← withMaxLen 50 stakers (cancelManyRegistrations ctx signerManager stakers)
      pure (.uint n)
  | .processRewardClaim staker signerManager => do
      let stored ← processRewardClaim views managers staker signerManager
      pure (.optional stored)
  | .processRewardClaims signerManager stakers => do
      let n ← withMaxLen 100 stakers
        (processRewardClaims views managers signerManager stakers)
      pure (.uint n)
  | .settlePendingWithdrawal staker signerManager requestId => do
      let b ← settlePendingWithdrawal views managers staker signerManager requestId
      pure (.bool b)
  | .settlePendingWithdrawals signerManager items => do
      let n ← withMaxLen 100 items
        (settlePendingWithdrawals views managers signerManager items)
      pure (.uint n)
  | .setFeePerClaim newFee => do
      let b ← setFeePerClaim ctx newFee
      pure (.bool b)
  | .updateAdmin admin enabled => do
      let p ← updateAdmin ctx admin enabled
      pure (.principal p)

/-! ## Signer-managers as adversaries -/

/-- One action of a signer-manager while it is being called. -/
inductive Action (σ : Type) where
  /-- Call the registry; the answer is ignored. -/
  | call (ctx : Ctx) (c : Call)
  /-- Change the rest of the chain and the balances of the other accounts,
  and send `amount` to the registry. -/
  | outside (change : σ → σ) (stx : Principal → Nat) (amount : Nat)

/-- What a signer-manager function does in one call: its actions, then its
response, `none` for a runtime error. -/
structure Script (σ ρ : Type) where
  actions : List (Action σ)
  response : Option (Except Nat ρ)

/-- The code of every signer-manager: its script as a function of the
arguments and of the world it is called in. -/
structure Code (σ : Type) where
  claimStakerRewards : ContractId → Principal → Nat → Option Nat → World σ →
    Script σ ClaimResult
  claimRewards : ContractId → List Nat → Nat → World σ → Script σ Unit
  settleAcceptedWithdrawal : ContractId → Nat → World σ → Script σ Bool
  reclaimFailedWithdrawal : ContractId → Nat → World σ → Script σ Bool

/-- STX reaches the registry from outside while everything that is not the
registry's changes freely. -/
def World.outside (ext : σ) (stx : Principal → Nat) (amount : Nat) (w : World σ) :
    World σ :=
  { w with
    ext := ext,
    stx := Function.update stx currentContract (w.stx currentContract + amount),
    log := w.log ++ [.received amount] }

/-- Perform one action; `reenter` is the registry as the signer-manager
can reach it. -/
def runAction (reenter : Ctx → Call → M σ Value) : Action σ → M σ Unit
  | .call ctx c => do
      let _ ← Tx.attempt (reenter ctx c)
      pure ()
  | .outside change stx amount =>
      Tx.modify (fun w => w.outside (change w.ext) stx amount)

/-- A `contract-call?` on a signer-manager: an error response undoes what
it did. -/
def runScript {ρ : Type} (reenter : Ctx → Call → M σ Value)
    (code : World σ → Script σ ρ) : M σ ρ :=
  Tx.atomic do
    let w ← Tx.get
    let script := code w
    script.actions.forM (runAction reenter)
    match script.response with
    | some (.ok value) => pure value
    | some (.error code) => Tx.fail code
    | none => Tx.abort

/-- The signer-managers the registry dispatches on. -/
def interpret (code : Code σ) (reenter : Ctx → Call → M σ Value) : SignerManagers σ where
  claimStakerRewards signerManager staker rewardCycle bondIndex :=
    runScript reenter (code.claimStakerRewards signerManager staker rewardCycle bondIndex)
  claimRewards signerManager bondPeriods rewardCycle :=
    runScript reenter (code.claimRewards signerManager bondPeriods rewardCycle)
  settleAcceptedWithdrawal signerManager requestId :=
    runScript reenter (code.settleAcceptedWithdrawal signerManager requestId)
  reclaimFailedWithdrawal signerManager requestId :=
    runScript reenter (code.reclaimFailedWithdrawal signerManager requestId)

/-- A public call under a bound on nested calls: the dispatched body, with
its writes undone if it answers an error. -/
def exec (views : Views σ) (code : Code σ) : Nat → Ctx → Call → M σ Value
  | 0, _, _ => Tx.abort
  | depth + 1, ctx, c =>
      Tx.atomic (dispatch views (interpret code (exec views code depth)) ctx c)

/-- The world after a transaction: unchanged if the call fails. -/
def World.call (views : Views σ) (code : Code σ) (depth : Nat) (ctx : Ctx) (c : Call)
    (w : World σ) : World σ :=
  (exec views code depth ctx c).commit w

/-! ## Runs -/

/-- Every change of the rest of the chain an action makes is one `R` allows. -/
def Action.Respects (R : σ → σ → Prop) : Action σ → Prop
  | .call _ _ => True
  | .outside change _ _ => ∀ ext, R ext (change ext)

def Script.Respects {ρ : Type} (R : σ → σ → Prop) (s : Script σ ρ) : Prop :=
  ∀ a ∈ s.actions, a.Respects R

/-- No signer-manager changes the rest of the chain in a way `R` forbids. -/
structure Code.Respects (code : Code σ) (R : σ → σ → Prop) : Prop where
  claimStakerRewards : ∀ sm staker cycle bond w,
    (code.claimStakerRewards sm staker cycle bond w).Respects R
  claimRewards : ∀ sm bonds cycle w, (code.claimRewards sm bonds cycle w).Respects R
  settleAcceptedWithdrawal : ∀ sm id w, (code.settleAcceptedWithdrawal sm id w).Respects R
  reclaimFailedWithdrawal : ∀ sm id w, (code.reclaimFailedWithdrawal sm id w).Respects R

theorem Code.respects_true (code : Code σ) : code.Respects fun _ _ => True := by
  have haction : ∀ a : Action σ, a.Respects fun _ _ => True := by
    intro a
    cases a with
    | call => trivial
    | outside => exact fun _ => trivial
  exact ⟨fun _ _ _ _ _ a _ => haction a, fun _ _ _ _ a _ => haction a,
    fun _ _ _ a _ => haction a, fun _ _ _ a _ => haction a⟩

/-- One step of the system: a public call that answers ok, against any
signer-manager code, or a change outside the registry. A call that answers
an error or aborts leaves the world as it was. -/
inductive Step (views : Views σ) (R : σ → σ → Prop) : World σ → World σ → Prop
  | call {w w' : World σ} {value : Value} (code : Code σ) (depth : Nat) (ctx : Ctx)
      (c : Call) (hcode : code.Respects R)
      (hexec : exec views code depth ctx c w = .ok value w') : Step views R w w'
  | outside {w : World σ} (ext : σ) (stx : Principal → Nat) (amount : Nat)
      (hext : R w.ext ext) : Step views R w (w.outside ext stx amount)

/-- A run: any finite sequence of steps. -/
abbrev Run (views : Views σ) (R : σ → σ → Prop) : World σ → World σ → Prop :=
  Relation.ReflTransGen (Step views R)

/-- The worlds a run can reach from deployment, whatever the balances and
the rest of the chain were then. -/
def Reachable (views : Views σ) (R : σ → σ → Prop) (w : World σ) : Prop :=
  ∃ (stx : Principal → Nat) (ext : σ), Run views R (.deployed stx ext) w

theorem run_call {views : Views σ} {R : σ → σ → Prop} {code : Code σ}
    (hcode : code.Respects R) (depth : Nat) (ctx : Ctx) (c : Call) (w : World σ) :
    Run views R w (w.call views code depth ctx c) := by
  unfold World.call Tx.commit
  cases hexec : exec views code depth ctx c w with
  | ok value w' => exact .single (.call code depth ctx c hcode hexec)
  | err => exact .refl
  | abort => exact .refl

/-! ## A small chain

Concrete code to run the contract against: one staker, one signer-manager
that pays, and a chain that is a handful of readings. -/

/-- The readings of a small chain. -/
structure Chain where
  cycle : Nat
  covered : Nat
  request : Option WithdrawalRequest

namespace Chain

def staker : Principal := .standard 1

def signerManager : ContractId := ⟨2, "signer-manager"⟩

def key : RegistrationKey := ⟨staker, .contract signerManager⟩

/-- One burn block for each distribution; the staker's position starts in
cycle 1. -/
def views : Views Chain where
  currentDistributionCycle chain := chain.cycle
  getLastRewardComputeHeight chain := chain.covered
  burnHeightToDistributionIndex _ height := height
  getEarned _ _ _ _ := 1
  getBondMembership _ _ := none
  bondPeriodToRewardCycle _ bondIndex := bondIndex
  getStakerInfo _ _ := some ⟨.contract signerManager, 1⟩
  getWithdrawalRequest chain id := if id = 7 then chain.request else none
  burnBlockHeight chain := chain.cycle

/-- A signer-manager that pays out and routes the payout to request 7. -/
def paying : Code Chain where
  claimStakerRewards _ _ _ _ _ := ⟨[], some (.ok ⟨5, some 7⟩)⟩
  claimRewards _ _ _ _ := ⟨[], some (.ok ())⟩
  settleAcceptedWithdrawal _ _ _ := ⟨[], some (.ok true)⟩
  reclaimFailedWithdrawal _ _ _ := ⟨[], some (.ok true)⟩

theorem paying_respects (R : Chain → Chain → Prop) : paying.Respects R where
  claimStakerRewards := fun _ _ _ _ _ _ h => by simp [paying] at h
  claimRewards := fun _ _ _ _ _ h => by simp [paying] at h
  settleAcceptedWithdrawal := fun _ _ _ _ h => by simp [paying] at h
  reclaimFailedWithdrawal := fun _ _ _ _ h => by simp [paying] at h

theorem paying_returns (reenter : Ctx → Call → M Chain Value) (sm : ContractId) :
    (interpret paying reenter).Returns sm where
  claimStakerRewards _ _ _ _ := by simp [interpret, runScript, paying, Tx.atomic, Tx.run_bind]
  claimRewards _ _ _ := by simp [interpret, runScript, paying, Tx.atomic, Tx.run_bind]
  settleAcceptedWithdrawal _ _ := by simp [interpret, runScript, paying, Tx.atomic, Tx.run_bind]
  reclaimFailedWithdrawal _ _ := by simp [interpret, runScript, paying, Tx.atomic, Tx.run_bind]

/-- The staker as sender. -/
def byStaker : Ctx := ⟨staker, staker, by decide⟩

/-- What a hostile signer-manager tries under the staker's name: to buy one
more claim, to cancel the registration and to claim out of turn in a batch. -/
def intrusion : List (Action Chain) :=
  [.call byStaker (.addClaims staker (.contract signerManager) 1),
    .call byStaker (.cancelRegistration staker (.contract signerManager)),
    .call byStaker (.processRewardClaims signerManager [staker])]

/-- A signer-manager that calls the registry back before it answers. -/
def reentrant : Code Chain where
  claimStakerRewards _ _ _ _ _ := ⟨intrusion, some (.ok ⟨5, none⟩)⟩
  claimRewards _ _ _ _ := ⟨intrusion, some (.ok ())⟩
  settleAcceptedWithdrawal _ _ _ := ⟨intrusion, some (.ok true)⟩
  reclaimFailedWithdrawal _ _ _ := ⟨intrusion, some (.error 1)⟩

theorem intrusion_respects (R : Chain → Chain → Prop) {a : Action Chain} (h : a ∈ intrusion) :
    a.Respects R := by
  simp only [intrusion, List.mem_cons, List.not_mem_nil, or_false] at h
  rcases h with rfl | rfl | rfl <;> trivial

theorem reentrant_respects (R : Chain → Chain → Prop) : reentrant.Respects R where
  claimStakerRewards := fun _ _ _ _ _ _ h => intrusion_respects R h
  claimRewards := fun _ _ _ _ _ h => intrusion_respects R h
  settleAcceptedWithdrawal := fun _ _ _ _ h => intrusion_respects R h
  reclaimFailedWithdrawal := fun _ _ _ _ h => intrusion_respects R h

/-- Deployment with a million micro-STX in the staker's hands. -/
def start (chain : Chain) : World Chain :=
  .deployed (Function.update (fun _ => 0) staker 1000000) chain

/-- A transaction of the staker's. -/
def send (c : Call) (w : World Chain) : World Chain := w.call views paying 2 byStaker c

/-- Time passes. -/
def become (chain : Chain) (w : World Chain) : World Chain := w.outside chain w.stx 0

variable {R : Chain → Chain → Prop} {w : World Chain} {v : World Chain}

theorem run_send (c : Call) (h : Run views R v w) : Run views R v (send c w) :=
  h.trans (run_call (paying_respects R) 2 byStaker c w)

theorem run_become {chainViews : Views Chain} (chain : Chain) (h : Run chainViews R v w)
    (hext : R w.ext chain) : Run chainViews R v (become chain w) :=
  h.tail (.outside chain w.stx 0 hext)

/-- Three claims from cycle 1 on are registered. -/
def registered : World Chain :=
  send (.registerForClaims staker signerManager 1 false 3) (start ⟨2, 0, none⟩)

theorem run_registered : Run views R (start ⟨2, 0, none⟩) registered := run_send _ .refl

/-- The first of them is due, and request 7 is pending at sbtc-registry. -/
def due : World Chain := become ⟨4, 2, some ⟨none⟩⟩ registered

theorem run_due (h : R ⟨2, 0, none⟩ ⟨4, 2, some ⟨none⟩⟩) :
    Run views R (start ⟨2, 0, none⟩) due :=
  run_become _ run_registered h

/-- It is claimed. -/
def claimed : World Chain := send (.processRewardClaim staker signerManager) due

theorem run_claimed (h : R ⟨2, 0, none⟩ ⟨4, 2, some ⟨none⟩⟩) :
    Run views R (start ⟨2, 0, none⟩) claimed :=
  run_send _ (run_due h)

/-- A second staker, who buys one claim. -/
def neighbour : Principal := .standard 3

/-- A third one, whose first claim is further off. -/
def latecomer : Principal := .standard 4

def keyOf (staker : Principal) : RegistrationKey := ⟨staker, .contract signerManager⟩

/-- All three are registered, by the first staker as their sponsor. -/
def crowded : World Chain :=
  send (.registerForClaims latecomer signerManager 3 false 2)
    (send (.registerForClaims neighbour signerManager 1 false 1) registered)

theorem run_crowded : Run views R (start ⟨2, 0, none⟩) crowded :=
  run_send _ (run_send _ run_registered)

/-- The second of them, in the middle of the list, is cancelled. -/
def thinned : World Chain :=
  send (.cancelRegistration neighbour (.contract signerManager)) crowded

theorem run_thinned : Run views R (start ⟨2, 0, none⟩) thinned := run_send _ run_crowded

end Chain

end Spox.RewardClaims
