import Mathlib.Data.List.Dedup
import Spox.Lib.DList
import Spox.Lib.Tx

/-!
# Reward claim registry — data

The data of `reward-claim-registry.clar`: principals, the two kinds of key,
registration rows, the maps and variables of the contract, and the world
around it (balances and the rest of the chain).

The world carries a log. Its print and token events are the ones the
contract emits; `claimed`, `indexed` and `invoked` are history variables
that no code reads, so that a statement about a whole run can speak of what
happened in it.
-/

namespace Spox.RewardClaims

open Spox.Lib

/-! ## Principals and keys -/

/-- A contract: the address that deployed it and its name. -/
structure ContractId where
  issuer : Nat
  name : String
deriving DecidableEq, Repr

/-- A Clarity principal. -/
inductive Principal where
  | standard (address : Nat)
  | contract (id : ContractId)
deriving DecidableEq, Repr

/-- The account that deployed the registry. -/
def deployer : Principal := .standard 0

/-- `current-contract`: the registry's own principal. -/
def currentContract : Principal := .contract ⟨0, "reward-claim-registry"⟩

structure RegistrationKey where
  staker : Principal
  signerManager : Principal
deriving DecidableEq, Repr

structure WithdrawalKey where
  staker : Principal
  signerManager : Principal
  requestId : Nat
deriving DecidableEq, Repr

/-- A value of the `registrations` map. -/
structure Registration where
  bondIndex : Option Nat
  remainingClaims : Nat
  oneClaimPerRewardCycle : Bool
  nextClaimDistribution : Nat
  prepaidUstx : Nat
  sponsor : Principal
deriving DecidableEq, Repr

/-! ## Constants -/

def maxClaimInstallments : Nat := 192
def withdrawalMinBurnAge : Nat := 7

def errNotRegistered : Nat := 600
def errMaxNumClaimsExceeded : Nat := 601
def errNotAdmin : Nat := 602
def errNoCurrentPosition : Nat := 603
def errZeroNumClaims : Nat := 604
def errAlreadyClaimed : Nat := 605
def errRewardsNotCalculated : Nat := 606
def errUnknownPendingWithdrawal : Nat := 607
def errInvalidStartRewardCycle : Nat := 608
def errUnauthorized : Nat := 609
def errAlreadyRegistered : Nat := 610
def errSignerManagerMismatch : Nat := 611
def errReentrantCall : Nat := 612

/-! ## Events -/

/-- One successful claim: the row it consumed an installment of, the row it
left, and the two pox-5 readings it was decided on. -/
structure Claim where
  key : RegistrationKey
  before : Registration
  after : Option Registration
  currentDistributionCycle : Nat
  lastComputeDistribution : Option Nat
deriving DecidableEq, Repr

/-- What the log records. -/
inductive Event where
  -- print events, one constructor for each topic
  | registerForClaims (key : RegistrationKey) (sponsor : Principal)
      (startRewardCycle : Nat) (oneClaimPerRewardCycle : Bool) (numClaims escrowed : Nat)
  | registerForClaimsSkipped (key : RegistrationKey) (startRewardCycle : Nat)
      (oneClaimPerRewardCycle : Bool) (numClaims error : Nat)
  | addClaims (key : RegistrationKey) (sponsor : Principal) (numClaims escrowed : Nat)
  | cancelRegistration (key : RegistrationKey) (sponsor : Principal) (refund : Nat)
  | cancelRegistrationSkipped (key : RegistrationKey) (error : Nat)
  | processRewardClaim (key : RegistrationKey) (rewardCycle claimDistribution : Nat)
      (bondIndex : Option Nat) (earned : Nat) (claimError withdrawalRequest : Option Nat)
  | settlePendingWithdrawal (key : WithdrawalKey) (accepted : Bool)
  | prunePendingWithdrawal (key : WithdrawalKey)
  | updateAdmin (admin : Principal) (enabled : Bool)
  -- movements of STX made by the contract's own code
  | stxTransfer (amount : Nat) (sender recipient : Principal)
  | stxBurn (amount : Nat) (sender : Principal)
  -- STX that reached the contract from outside its functions
  | received (amount : Nat)
  -- history variables
  | claimed (claim : Claim)
  | indexed (key : WithdrawalKey)
  | invoked (key : WithdrawalKey) (accepted : Bool)
deriving DecidableEq, Repr

/-! ## State -/

/-- The maps and variables of the contract. -/
structure Registry where
  admins : Principal → Option Bool
  feePerClaim : Nat
  signerManagerCallActive : Bool
  registrationLl : DList RegistrationKey
  registrations : RegistrationKey → Option Registration
  maxProcessedDistribution : Principal → Option Nat
  pendingWithdrawals : WithdrawalKey → Option Nat
  pendingWithdrawalLl : DList WithdrawalKey

/-- The contract's state after deployment. -/
def Registry.deployed : Registry where
  admins := Function.update (fun _ => none) deployer (some true)
  feePerClaim := 10000
  signerManagerCallActive := false
  registrationLl := DList.empty
  registrations := fun _ => none
  maxProcessedDistribution := fun _ => none
  pendingWithdrawals := fun _ => none
  pendingWithdrawalLl := DList.empty

/-- The registry, the STX balances, the rest of the chain and the log. -/
structure World (σ : Type) where
  registry : Registry
  stx : Principal → Nat
  ext : σ
  log : List Event

/-- A world in which the registry has just been deployed. -/
def World.deployed {σ : Type} (stx : Principal → Nat) (ext : σ) : World σ :=
  ⟨Registry.deployed, stx, ext, []⟩

namespace World

variable {σ : Type}

/-- Append to the log. -/
def emit (w : World σ) (events : List Event) : World σ :=
  { w with log := w.log ++ events }

/-- Rewrite the contract's state. -/
def onRegistry (f : Registry → Registry) (w : World σ) : World σ :=
  { w with registry := f w.registry }

/-- `amount` moves from `sender` to `recipient`. -/
def move (amount : Nat) (sender recipient : Principal) (w : World σ) : World σ :=
  { w with
    stx := Function.update (Function.update w.stx sender (w.stx sender - amount))
      recipient (w.stx recipient + amount),
    log := w.log ++ [.stxTransfer amount sender recipient] }

/-- `amount` of `sender` is destroyed. -/
def burn (amount : Nat) (sender : Principal) (w : World σ) : World σ :=
  { w with
    stx := Function.update w.stx sender (w.stx sender - amount),
    log := w.log ++ [.stxBurn amount sender] }

section Simp

variable (w : World σ)

@[simp] theorem emit_registry (es : List Event) : (w.emit es).registry = w.registry := rfl
@[simp] theorem emit_stx (es : List Event) : (w.emit es).stx = w.stx := rfl
@[simp] theorem emit_ext (es : List Event) : (w.emit es).ext = w.ext := rfl
@[simp] theorem emit_log (es : List Event) : (w.emit es).log = w.log ++ es := rfl

@[simp] theorem onRegistry_registry (f : Registry → Registry) :
    (w.onRegistry f).registry = f w.registry := rfl
@[simp] theorem onRegistry_stx (f : Registry → Registry) :
    (w.onRegistry f).stx = w.stx := rfl
@[simp] theorem onRegistry_ext (f : Registry → Registry) :
    (w.onRegistry f).ext = w.ext := rfl
@[simp] theorem onRegistry_log (f : Registry → Registry) :
    (w.onRegistry f).log = w.log := rfl

variable (amount : Nat) (sender recipient : Principal)

@[simp] theorem move_registry : (w.move amount sender recipient).registry = w.registry := rfl
@[simp] theorem move_ext : (w.move amount sender recipient).ext = w.ext := rfl
@[simp] theorem move_log :
    (w.move amount sender recipient).log =
      w.log ++ [.stxTransfer amount sender recipient] := rfl

@[simp] theorem burn_registry : (w.burn amount sender).registry = w.registry := rfl
@[simp] theorem burn_ext : (w.burn amount sender).ext = w.ext := rfl
@[simp] theorem burn_log :
    (w.burn amount sender).log = w.log ++ [.stxBurn amount sender] := rfl
@[simp] theorem burn_stx :
    (w.burn amount sender).stx = Function.update w.stx sender (w.stx sender - amount) := rfl

end Simp

end World

end Spox.RewardClaims
