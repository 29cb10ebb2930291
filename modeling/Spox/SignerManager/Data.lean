import Spox.Contract.Env

/-!
# Signer-manager — data

The data of `signer-manager.clar`: the L1 addresses of the stakers, the maps
and variables of the contract, its errors and what its log records.

The print events of the log are the ones the contract emits. The other
events are history variables that no code reads: what the functions that
print nothing moved, and what reached the contract from outside.
-/

namespace Spox.SignerManager

open Spox.Lib
open Spox.RewardClaims (Principal ContractId)

/-! ## Addresses -/

/-- `(buff n)`. -/
abbrev Buff (n : Nat) : Type := { bytes : List UInt8 // bytes.length ≤ n }

/-- `buff-to-uint-be`. -/
def buffToUintBe (bytes : List UInt8) : Nat :=
  bytes.foldl (fun n b => n * 256 + b.toNat) 0

structure PoxAddr where
  version : Buff 1
  hashbytes : Buff 32
deriving DecidableEq

/-- A value of the `pox-addrs` map. -/
structure L1Info where
  poxAddr : PoxAddr
  maxFee : Nat
deriving DecidableEq

/-- A key of the `fee-bips-for-cycle` map. -/
structure FeeKey where
  rewardCycle : Nat
  bondIndex : Option Nat
deriving DecidableEq

/-! ## Constants -/

def maxBips : Nat := 10000
def maxAddressVersion : Nat := 6
def maxAddressVersionBuff20 : Nat := 4

def errNoClaimableRewards : Nat := 1001
def errUnauthorizedAdmin : Nat := 1002
def errInvalidCalldata : Nat := 1003
def errInvalidPoxAddr : Nat := 1004
def errInvalidFeesBips : Nat := 1005
def errUnauthorizedCaller : Nat := 1006
def errInsufficientFees : Nat := 1007
def errUnknownWithdrawalRequest : Nat := 1008
def errWithdrawalNotRejected : Nat := 1009
def errNoRefunds : Nat := 1010
def errWithdrawalNotAccepted : Nat := 1011

/-! ## Events -/

/-- The `l1-withdrawal` field of a claim event. -/
structure L1Withdrawal where
  poxAddr : PoxAddr
  maxFee : Nat
  withdrawalRequest : Nat
  amount : Nat
deriving DecidableEq

/-- What the log records. -/
inductive Event where
  -- print events, one constructor for each topic
  | claimStakerRewards (amountSats : Nat) (l1Withdrawal : Option L1Withdrawal)
      (staker : Principal) (key : FeeKey)
  | reclaimFailedWithdrawal (requestId : Nat) (staker : Principal) (amountSats : Nat)
  | settleAcceptedWithdrawal (requestId : Nat) (staker : Principal) (liabilityReleased : Nat)
  | updateAdmin (admin : Principal) (enabled : Bool)
  | updateFees (oldFees newFees : Nat)
  | sweepFeeRefunds (amountSats : Nat) (recipient : Principal)
  -- history variables: what the functions moved
  | claimedRewards (totalRewards : Nat)
  | distributed (staker : Principal) (key : FeeKey) (gross fees : Nat)
  | withdrewFees (amount : Nat) (recipient : Principal)
  -- history variables: what came from outside
  | received (amount : Nat)
  | accepted (requestId total dust : Nat)
  | rejected (requestId refund : Nat)
deriving DecidableEq

/-! ## State -/

/-- The maps and variables of the contract. -/
structure Manager where
  admins : Principal → Option Bool
  feesBips : Nat
  earnedFees : Nat
  feeBipsForCycle : FeeKey → Option Nat
  poxAddrs : Principal → Option L1Info
  withdrawalRequests : Nat → Option Principal
  withdrawalLiability : Nat
  unclaimedStakerRewards : Nat

/-- The contract's state after deployment by `deployer`. -/
def Manager.deployed (deployer : Principal) : Manager where
  admins := Function.update (fun _ => none) deployer (some true)
  feesBips := 0
  earnedFees := 0
  feeBipsForCycle := fun _ => none
  poxAddrs := fun _ => none
  withdrawalRequests := fun _ => none
  withdrawalLiability := 0
  unclaimedStakerRewards := 0

/-- `is-admin`. -/
def Manager.isAdmin (m : Manager) (caller : Principal) : Bool :=
  (m.admins caller).getD false

/-- `get-fee-bips-for-cycle`. -/
def Manager.getFeeBipsForCycle (m : Manager) (key : FeeKey) : Nat :=
  (m.feeBipsForCycle key).getD 0

/-- `(map-insert fee-bips-for-cycle key bips)`: an entry that is there
stays. -/
def Manager.insertFeeBips (m : Manager) (key : FeeKey) (bips : Nat) : Manager :=
  { m with
    feeBipsForCycle := Function.update m.feeBipsForCycle key
      (some ((m.feeBipsForCycle key).getD bips)) }

/-- The contract, the rest of the chain and the log. -/
structure World (σ : Type) where
  manager : Manager
  chain : σ
  log : List Event

namespace World

variable {σ : Type}

/-- Append to the log. -/
def emit (w : World σ) (events : List Event) : World σ :=
  { w with log := w.log ++ events }

/-- Rewrite the contract's state. -/
def onManager (f : Manager → Manager) (w : World σ) : World σ :=
  { w with manager := f w.manager }

/-- Replace the rest of the chain. -/
def onChain (w : World σ) (chain : σ) : World σ := { w with chain := chain }

section Simp

variable (w : World σ)

@[simp] theorem emit_manager (es : List Event) : (w.emit es).manager = w.manager := rfl
@[simp] theorem emit_chain (es : List Event) : (w.emit es).chain = w.chain := rfl
@[simp] theorem emit_log (es : List Event) : (w.emit es).log = w.log ++ es := rfl

@[simp] theorem onManager_manager (f : Manager → Manager) :
    (w.onManager f).manager = f w.manager := rfl
@[simp] theorem onManager_chain (f : Manager → Manager) :
    (w.onManager f).chain = w.chain := rfl
@[simp] theorem onManager_log (f : Manager → Manager) : (w.onManager f).log = w.log := rfl

@[simp] theorem onChain_manager (s : σ) : (w.onChain s).manager = w.manager := rfl
@[simp] theorem onChain_chain (s : σ) : (w.onChain s).chain = s := rfl
@[simp] theorem onChain_log (s : σ) : (w.onChain s).log = w.log := rfl

end Simp

end World

end Spox.SignerManager
