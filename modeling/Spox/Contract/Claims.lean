import Spox.Contract.Lifecycle

/-!
# Reward claim registry — claims and withdrawals

The claim path of `reward-claim-registry.clar` (`process-reward-claim` and
what it calls) and the settlement path of indexed withdrawals.

Each call on a signer-manager goes through one of four wrappers that raise
and lower `signer-manager-call-active`. A wrapper answers with a response,
so an error of it, the reentrancy error included, reaches its caller as the
error branch of a match (`Tx.attempt`).
-/

namespace Spox.RewardClaims

open Spox.Lib

variable {σ : Type}

/-! ## pox-5 readings -/

/-- `get-last-rewards-compute-distribution`. -/
def getLastRewardsComputeDistribution (views : Views σ) (ext : σ) : Option Nat :=
  let height := views.getLastRewardComputeHeight ext
  if height = 0 then none else some (views.burnHeightToDistributionIndex ext height)

/-- `rewards-calculated-for-claim-distribution`. -/
def rewardsCalculatedForClaimDistribution (claimDistribution : Nat)
    (lastComputeDistribution : Option Nat) : Bool :=
  match lastComputeDistribution with
  | some covered => decide (claimDistribution ≤ covered)
  | none => false

/-- `is-pending`. -/
def isPending (registration : Registration) (currentDistributionCycle : Nat)
    (lastComputeDistribution : Option Nat) : Bool :=
  decide (registration.nextClaimDistribution < currentDistributionCycle) &&
    rewardsCalculatedForClaimDistribution registration.nextClaimDistribution
      lastComputeDistribution

/-! ## Withdrawal index -/

/-- `withdrawal-ll-append`. -/
def withdrawalLlAppend (key : WithdrawalKey) : M σ Bool := do
  Tx.modify (World.onRegistry fun r =>
    { r with pendingWithdrawalLl := r.pendingWithdrawalLl.append key })
  pure true

/-- `withdrawal-ll-remove`. -/
def withdrawalLlRemove (key : WithdrawalKey) : M σ Bool := do
  let w ← Tx.get
  Tx.modify (World.onRegistry fun r =>
    { r with pendingWithdrawalLl := r.pendingWithdrawalLl.remove key })
  pure (w.registry.pendingWithdrawalLl.nodes key).isSome

/-- `is-trackable-withdrawal`: known to sbtc-registry and still pending. -/
def isTrackableWithdrawal (views : Views σ) (ext : σ) (requestId : Nat) : Bool :=
  match views.getWithdrawalRequest ext requestId with
  | some request => request.status.isNone
  | none => false

/-- `append-pending-withdrawal`. -/
def appendPendingWithdrawal (views : Views σ) (key : RegistrationKey) (requestId : Nat) :
    M σ (Option Nat) := do
  let fullKey : WithdrawalKey := ⟨key.staker, key.signerManager, requestId⟩
  let w ← Tx.get
  if isTrackableWithdrawal views w.ext requestId then
    if (w.registry.pendingWithdrawals fullKey).isSome then
      pure (some requestId)
    else do
      Tx.modify (World.onRegistry fun r =>
        { r with
          pendingWithdrawals := Function.update r.pendingWithdrawals fullKey
            (some (views.burnBlockHeight w.ext)) })
      let _ ← withdrawalLlAppend fullKey
      history (.indexed fullKey)
      pure (some requestId)
  else
    pure none

/-- `remove-pending-withdrawal`. -/
def removePendingWithdrawal (key : WithdrawalKey) : M σ Bool := do
  Tx.modify (World.onRegistry fun r =>
    { r with pendingWithdrawals := Function.update r.pendingWithdrawals key none })
  withdrawalLlRemove key

/-! ## Signer-manager wrappers -/

/-- The body the four wrappers share. -/
def guardedCall {ρ : Type} (contractCall : M σ ρ) : M σ ρ := do
  let w ← Tx.get
  Tx.asserts (w.registry.signerManagerCallActive = false) errReentrantCall
  Tx.modify (World.onRegistry fun r => { r with signerManagerCallActive := true })
  let result ← Tx.attempt contractCall
  Tx.modify (World.onRegistry fun r => { r with signerManagerCallActive := false })
  match result with
  | .ok value => pure value
  | .error code => Tx.fail code

/-- `signer-manager-claim-rewards`. -/
def signerManagerClaimRewards (managers : SignerManagers σ) (signerManager : ContractId)
    (bondPeriods : List Nat) (rewardCycle : Nat) : M σ Unit :=
  guardedCall (managers.claimRewards signerManager bondPeriods rewardCycle)

/-- `signer-manager-claim-staker-rewards`. -/
def signerManagerClaimStakerRewards (managers : SignerManagers σ)
    (signerManager : ContractId) (staker : Principal) (rewardCycle : Nat)
    (bondIndex : Option Nat) : M σ ClaimResult :=
  guardedCall (managers.claimStakerRewards signerManager staker rewardCycle bondIndex)

/-- `signer-manager-settle-accepted-withdrawal`. The history variable
`invoked` marks the call, under the staker whose withdrawal is settled. -/
def signerManagerSettleAcceptedWithdrawal (managers : SignerManagers σ)
    (staker : Principal) (signerManager : ContractId) (requestId : Nat) : M σ Bool := do
  history (.invoked ⟨staker, .contract signerManager, requestId⟩ true)
  guardedCall (managers.settleAcceptedWithdrawal signerManager requestId)

/-- `signer-manager-reclaim-failed-withdrawal`, marked in the same way. -/
def signerManagerReclaimFailedWithdrawal (managers : SignerManagers σ)
    (staker : Principal) (signerManager : ContractId) (requestId : Nat) : M σ Bool := do
  history (.invoked ⟨staker, .contract signerManager, requestId⟩ false)
  guardedCall (managers.reclaimFailedWithdrawal signerManager requestId)

/-! ## Claiming -/

/-- `record-max-processed-distribution`. -/
def recordMaxProcessedDistribution (staker : Principal) (distribution : Nat) : M σ Unit :=
  Tx.modify (World.onRegistry fun r =>
    { r with
      maxProcessedDistribution := Function.update r.maxProcessedDistribution staker
        (some (match r.maxProcessedDistribution staker with
          | some existing => if existing < distribution then distribution else existing
          | none => distribution)) })

/-- The amount `advance-registration` burns for one installment. -/
def burnAmount (registration : Registration) : Nat :=
  if registration.remainingClaims ≤ 1 then registration.prepaidUstx
  else registration.prepaidUstx / registration.remainingClaims

/-- `advance-registration`. -/
def advanceRegistration (key : RegistrationKey) (registration : Registration)
    (currentDistributionCycle : Nat) : M σ Bool := do
  let remaining := registration.remainingClaims
  let prepaid := registration.prepaidUstx
  let burned := burnAmount registration
  recordMaxProcessedDistribution key.staker registration.nextClaimDistribution
  whenPositive burned
    (asContract burned fun txSender => stxBurn txSender burned currentContract)
  if remaining ≤ 1 then do
    Tx.modify (World.onRegistry fun r =>
      { r with registrations := Function.update r.registrations key none })
    let _ ← llRemove key
    pure true
  else do
    let remainingClaims ← Tx.sub remaining 1
    let prepaidUstx ← Tx.sub prepaid burned
    let nextClaimDistribution ← nextClaimAfter registration.nextClaimDistribution
      registration.oneClaimPerRewardCycle currentDistributionCycle
    Tx.modify (World.onRegistry fun r =>
      { r with registrations := Function.update r.registrations key (some
          { registration with
            remainingClaims := remainingClaims
            prepaidUstx := prepaidUstx
            nextClaimDistribution := nextClaimDistribution }) })
    pure true

/-- `claim-staker-and-advance`. -/
def claimStakerAndAdvance (views : Views σ) (managers : SignerManagers σ)
    (staker : Principal) (signerManager : ContractId) (key : RegistrationKey)
    (registration : Registration) (rewardCycle claimDistribution : Nat)
    (bondIndex : Option Nat) (currentDistributionCycle : Nat) : M σ (Option Nat) := do
  match ← Tx.attempt (signerManagerClaimStakerRewards managers signerManager staker
      rewardCycle bondIndex) with
  | .ok claimResult => do
      let stored ←
        (match claimResult.withdrawalRequest with
        | some id => appendPendingWithdrawal views key id
        | none => pure none)
      let _ ← advanceRegistration key registration currentDistributionCycle
      print (.processRewardClaim key rewardCycle claimDistribution bondIndex
        claimResult.earned none stored)
      pure stored
  | .error code => do
      let _ ← advanceRegistration key registration currentDistributionCycle
      print (.processRewardClaim key rewardCycle claimDistribution bondIndex 0
        (some code) none)
      pure none

/-- What `process-reward-claim-impl` does once the claim is known to be due. -/
def pullAndClaim (views : Views σ) (managers : SignerManagers σ) (staker : Principal)
    (signerManager : ContractId) (key : RegistrationKey) (registration : Registration)
    (currentDistributionCycle : Nat) : M σ (Option Nat) := do
  let claimDistribution := registration.nextClaimDistribution
  let rewardCycle := claimDistribution / 2
  let bondIndex := registration.bondIndex
  let w ← Tx.get
  if 0 < views.getEarned w.ext (.contract signerManager) rewardCycle bondIndex then
    match ← Tx.attempt (signerManagerClaimRewards managers signerManager
        bondIndex.toList rewardCycle) with
    | .ok _ =>
        claimStakerAndAdvance views managers staker signerManager key registration
          rewardCycle claimDistribution bondIndex currentDistributionCycle
    | .error code => do
        let _ ← advanceRegistration key registration currentDistributionCycle
        print (.processRewardClaim key rewardCycle claimDistribution bondIndex 0
          (some code) none)
        pure none
  else
    claimStakerAndAdvance views managers staker signerManager key registration
      rewardCycle claimDistribution bondIndex currentDistributionCycle

/-- `process-reward-claim-impl`. Its last act here is to write the history
variable `claimed`. -/
def processRewardClaimImpl (views : Views σ) (managers : SignerManagers σ)
    (staker : Principal) (signerManager : ContractId) (currentDistributionCycle : Nat)
    (lastComputeDistribution : Option Nat) : M σ (Option Nat) := do
  let key : RegistrationKey := ⟨staker, .contract signerManager⟩
  let w ← Tx.get
  let registration ← Tx.unwrap (w.registry.registrations key) errNotRegistered
  let claimDistribution := registration.nextClaimDistribution
  Tx.asserts (claimDistribution < currentDistributionCycle) errAlreadyClaimed
  Tx.asserts (rewardsCalculatedForClaimDistribution claimDistribution
    lastComputeDistribution = true) errRewardsNotCalculated
  let stored ← pullAndClaim views managers staker signerManager key registration
    currentDistributionCycle
  let after ← Tx.get
  history (.claimed ⟨key, registration, after.registry.registrations key,
    currentDistributionCycle, lastComputeDistribution⟩)
  pure stored

/-- `process-reward-claim`. -/
def processRewardClaim (views : Views σ) (managers : SignerManagers σ)
    (staker : Principal) (signerManager : ContractId) : M σ (Option Nat) := do
  validateNoReentrancy
  let w ← Tx.get
  processRewardClaimImpl views managers staker signerManager
    (views.currentDistributionCycle w.ext)
    (getLastRewardsComputeDistribution views w.ext)

/-- `count-claim`. -/
def countClaim (views : Views σ) (managers : SignerManagers σ) (signerManager : ContractId)
    (currentDistributionCycle : Nat) (lastComputeDistribution : Option Nat)
    (claimed : Nat) (staker : Principal) : M σ Nat := do
  match ← Tx.attempt (processRewardClaimImpl views managers staker signerManager
      currentDistributionCycle lastComputeDistribution) with
  | .ok _ => pure (claimed + 1)
  | .error _ => pure claimed

/-- `process-reward-claims`: both pox-5 readings are taken once. -/
def processRewardClaims (views : Views σ) (managers : SignerManagers σ)
    (signerManager : ContractId) (stakers : List Principal) : M σ Nat := do
  validateNoReentrancy
  let w ← Tx.get
  stakers.foldlM (countClaim views managers signerManager
    (views.currentDistributionCycle w.ext)
    (getLastRewardsComputeDistribution views w.ext)) 0

/-! ## Settling -/

/-- `settle-pending-withdrawal-impl`. -/
def settlePendingWithdrawalImpl (views : Views σ) (managers : SignerManagers σ)
    (staker : Principal) (signerManager : ContractId) (requestId : Nat) : M σ Bool := do
  let key : WithdrawalKey := ⟨staker, .contract signerManager, requestId⟩
  let w ← Tx.get
  Tx.asserts ((w.registry.pendingWithdrawals key).isSome = true)
    errUnknownPendingWithdrawal
  match views.getWithdrawalRequest w.ext requestId with
  | some request =>
      match request.status with
      | some accepted => do
          let _ ← Tx.attempt
            (if accepted then
              signerManagerSettleAcceptedWithdrawal managers staker signerManager requestId
            else
              signerManagerReclaimFailedWithdrawal managers staker signerManager requestId)
          let _ ← removePendingWithdrawal key
          print (.settlePendingWithdrawal key accepted)
          pure true
      | none => pure false
  | none => do
      let _ ← removePendingWithdrawal key
      print (.prunePendingWithdrawal key)
      pure true

/-- `settle-pending-withdrawal`. -/
def settlePendingWithdrawal (views : Views σ) (managers : SignerManagers σ)
    (staker : Principal) (signerManager : ContractId) (requestId : Nat) : M σ Bool := do
  validateNoReentrancy
  settlePendingWithdrawalImpl views managers staker signerManager requestId

/-- An item of `settle-pending-withdrawals`. -/
structure WithdrawalItem where
  staker : Principal
  requestId : Nat
deriving DecidableEq, Repr

/-- `count-settlement`. -/
def countSettlement (views : Views σ) (managers : SignerManagers σ)
    (signerManager : ContractId) (resolved : Nat) (item : WithdrawalItem) : M σ Nat := do
  match ← Tx.attempt (settlePendingWithdrawalImpl views managers item.staker
      signerManager item.requestId) with
  | .ok didResolve => pure (resolved + if didResolve then 1 else 0)
  | .error _ => pure resolved

/-- `settle-pending-withdrawals`. -/
def settlePendingWithdrawals (views : Views σ) (managers : SignerManagers σ)
    (signerManager : ContractId) (items : List WithdrawalItem) : M σ Nat := do
  validateNoReentrancy
  items.foldlM (countSettlement views managers signerManager) 0

end Spox.RewardClaims
