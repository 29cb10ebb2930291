import Spox.Contract.Env

/-!
# Reward claim registry — registrations

The private and public functions of `reward-claim-registry.clar` that
create, top up and cancel registrations, and the admin functions.

A trait argument is a `ContractId`: only contracts implement a trait.
-/

namespace Spox.RewardClaims

open Spox.Lib

variable {σ : Type}

/-! ## Schedule arithmetic -/

/-- `claim-step`: two distribution cycles when claiming at most once per
reward cycle. -/
def claimStep (oneClaimPerRewardCycle : Bool) : Nat :=
  if oneClaimPerRewardCycle then 2 else 1

/-- `initial-next-claim-distribution`: the second half of the start cycle
for the slow cadence, its first half for the fast one. -/
def initialNextClaimDistribution (startRewardCycle : Nat) (oneClaimPerRewardCycle : Bool) :
    M σ Nat := do
  let doubled ← Tx.mul 2 startRewardCycle
  let offset ← Tx.sub (claimStep oneClaimPerRewardCycle) 1
  Tx.add doubled offset

/-- `next-claim-after`. -/
def nextClaimAfter (claimDistribution : Nat) (oneClaimPerRewardCycle : Bool)
    (currentDistributionCycle : Nat) : M σ Nat :=
  if oneClaimPerRewardCycle then
    Tx.add claimDistribution 2
  else do
    let rewardCycle := claimDistribution / 2
    let firstHalf ← Tx.mul 2 rewardCycle
    let secondHalf ← Tx.add firstHalf 1
    if secondHalf < currentDistributionCycle then do
      let next ← Tx.add rewardCycle 1
      Tx.mul 2 next
    else
      Tx.add claimDistribution 1

/-! ## Linked list of registrations -/

/-- `ll-append`; the answer is that of its last `var-set`. -/
def llAppend (key : RegistrationKey) : M σ Bool := do
  Tx.modify (World.onRegistry fun r =>
    { r with registrationLl := r.registrationLl.append key })
  pure true

/-- `ll-remove`; the answer is whether the key was in the list. -/
def llRemove (key : RegistrationKey) : M σ Bool := do
  let w ← Tx.get
  Tx.modify (World.onRegistry fun r =>
    { r with registrationLl := r.registrationLl.remove key })
  pure (w.registry.registrationLl.nodes key).isSome

/-! ## Positions, admins, the reentrancy guard -/

/-- What `get-position` answers. -/
structure Position where
  signer : Principal
  firstRewardCycle : Nat
  bondIndex : Option Nat

/-- `get-position`: a live bond first, then an STX-only stake. -/
def getPosition (views : Views σ) (ext : σ) (staker : Principal) : Option Position :=
  match views.getBondMembership ext staker with
  | some membership =>
      some ⟨membership.signer,
        views.bondPeriodToRewardCycle ext membership.bondIndex,
        some membership.bondIndex⟩
  | none =>
      match views.getStakerInfo ext staker with
      | some info => some ⟨info.signer, info.firstRewardCycle, none⟩
      | none => none

/-- `is-admin`. -/
def isAdmin (r : Registry) (caller : Principal) : Bool :=
  (r.admins caller).getD false

/-- `authorize-admin`. -/
def authorizeAdmin (ctx : Ctx) : M σ Unit := do
  let w ← Tx.get
  Tx.asserts (ctx.contractCaller = ctx.txSender ∧ isAdmin w.registry ctx.txSender = true)
    errNotAdmin

/-- `validate-no-reentrancy`. -/
def validateNoReentrancy : M σ Unit := do
  let w ← Tx.get
  Tx.asserts (w.registry.signerManagerCallActive = false) errReentrantCall

/-! ## Registering -/

/-- `escrow-registration-fee`. -/
def escrowRegistrationFee (ctx : Ctx) (numClaims : Nat) : M σ Nat := do
  let w ← Tx.get
  let price := w.registry.feePerClaim
  let amount ←
    (if isAdmin w.registry ctx.txSender then pure 0 else Tx.mul numClaims price)
  whenPositive amount (stxTransfer ctx.txSender amount ctx.txSender currentContract)
  pure amount

/-- `register-for-claims-impl`. -/
def registerForClaimsImpl (views : Views σ) (ctx : Ctx) (staker signerManager : Principal)
    (startRewardCycle : Nat) (oneClaimPerRewardCycle : Bool) (numClaims : Nat) :
    M σ Nat := do
  let key : RegistrationKey := ⟨staker, signerManager⟩
  let w ← Tx.get
  let position ← Tx.unwrap (getPosition views w.ext staker) errNoCurrentPosition
  Tx.asserts (0 < numClaims) errZeroNumClaims
  Tx.asserts (numClaims ≤ maxClaimInstallments) errMaxNumClaimsExceeded
  Tx.asserts (w.registry.registrations key = none) errAlreadyRegistered
  Tx.asserts (signerManager = position.signer) errSignerManagerMismatch
  Tx.asserts (position.firstRewardCycle ≤ startRewardCycle) errInvalidStartRewardCycle
  let escrowed ← escrowRegistrationFee ctx numClaims
  let nextClaimDistribution ←
    initialNextClaimDistribution startRewardCycle oneClaimPerRewardCycle
  Tx.modify (World.onRegistry fun r =>
    { r with registrations := Function.update r.registrations key (some {
        bondIndex := position.bondIndex
        remainingClaims := numClaims
        oneClaimPerRewardCycle := oneClaimPerRewardCycle
        nextClaimDistribution := nextClaimDistribution
        prepaidUstx := escrowed
        sponsor := ctx.txSender }) })
  let _ ← llAppend key
  print (.registerForClaims key ctx.txSender startRewardCycle oneClaimPerRewardCycle
    numClaims escrowed)
  pure numClaims

/-- One entry of `register-many-for-claims`. -/
structure RegistrationEntry where
  staker : Principal
  startRewardCycle : Nat
  oneClaimPerRewardCycle : Bool
  numClaims : Nat

/-- `count-registrations`. The counter stays below the length of the list,
so its addition cannot overflow. -/
def countRegistrations (views : Views σ) (ctx : Ctx) (signer : Principal)
    (registered : Nat) (entry : RegistrationEntry) : M σ Nat := do
  match ← Tx.attempt (registerForClaimsImpl views ctx entry.staker signer
      entry.startRewardCycle entry.oneClaimPerRewardCycle entry.numClaims) with
  | .ok _ => pure (registered + 1)
  | .error code => do
      print (.registerForClaimsSkipped ⟨entry.staker, signer⟩ entry.startRewardCycle
        entry.oneClaimPerRewardCycle entry.numClaims code)
      pure registered

/-- `register-for-claims`. -/
def registerForClaims (views : Views σ) (ctx : Ctx) (staker : Principal)
    (signerManager : ContractId) (startRewardCycle : Nat)
    (oneClaimPerRewardCycle : Bool) (numClaims : Nat) : M σ Nat := do
  validateNoReentrancy
  registerForClaimsImpl views ctx staker (.contract signerManager) startRewardCycle
    oneClaimPerRewardCycle numClaims

/-- `register-many-for-claims`. -/
def registerManyForClaims (views : Views σ) (ctx : Ctx) (signerManager : ContractId)
    (stakers : List RegistrationEntry) : M σ Nat := do
  validateNoReentrancy
  stakers.foldlM (countRegistrations views ctx (.contract signerManager)) 0

/-- `add-claims`. -/
def addClaims (ctx : Ctx) (staker signerManager : Principal) (numClaims : Nat) :
    M σ Nat := do
  let key : RegistrationKey := ⟨staker, signerManager⟩
  validateNoReentrancy
  Tx.asserts (0 < numClaims) errZeroNumClaims
  Tx.asserts (numClaims ≤ maxClaimInstallments) errMaxNumClaimsExceeded
  let w ← Tx.get
  let existing ← Tx.unwrap (w.registry.registrations key) errNotRegistered
  Tx.asserts (ctx.txSender = existing.sponsor) errUnauthorized
  let escrowed ← escrowRegistrationFee ctx numClaims
  let remainingClaims ← Tx.add existing.remainingClaims numClaims
  let prepaidUstx ← Tx.add existing.prepaidUstx escrowed
  Tx.modify (World.onRegistry fun r =>
    { r with registrations := Function.update r.registrations key (some
        { existing with
          remainingClaims := remainingClaims
          prepaidUstx := prepaidUstx }) })
  print (.addClaims key ctx.txSender numClaims escrowed)
  pure numClaims

/-! ## Cancelling -/

/-- `cancel-registration-impl`. -/
def cancelRegistrationImpl (ctx : Ctx) (staker signerManager : Principal) : M σ Nat := do
  let key : RegistrationKey := ⟨staker, signerManager⟩
  let w ← Tx.get
  let registration ← Tx.unwrap (w.registry.registrations key) errNotRegistered
  let refund := registration.prepaidUstx
  let sponsor := registration.sponsor
  Tx.asserts (ctx.txSender = staker ∨ ctx.txSender = sponsor) errUnauthorized
  Tx.modify (World.onRegistry fun r =>
    { r with registrations := Function.update r.registrations key none })
  let _ ← llRemove key
  whenPositive refund
    (asContract refund fun txSender => stxTransfer txSender refund txSender sponsor)
  print (.cancelRegistration key sponsor refund)
  pure refund

/-- `count-cancellations`. -/
def countCancellations (ctx : Ctx) (signerManager : Principal) (cancelled : Nat)
    (staker : Principal) : M σ Nat := do
  match ← Tx.attempt (cancelRegistrationImpl ctx staker signerManager) with
  | .ok _ => pure (cancelled + 1)
  | .error code => do
      print (.cancelRegistrationSkipped ⟨staker, signerManager⟩ code)
      pure cancelled

/-- `cancel-registration`. -/
def cancelRegistration (ctx : Ctx) (staker signerManager : Principal) : M σ Nat := do
  validateNoReentrancy
  cancelRegistrationImpl ctx staker signerManager

/-- `cancel-many-registrations`. -/
def cancelManyRegistrations (ctx : Ctx) (signerManager : Principal)
    (stakers : List Principal) : M σ Nat := do
  validateNoReentrancy
  stakers.foldlM (countCancellations ctx signerManager) 0

/-! ## Admin functions -/

/-- `set-fee-per-claim`. -/
def setFeePerClaim (ctx : Ctx) (newFee : Nat) : M σ Bool := do
  authorizeAdmin ctx
  Tx.modify (World.onRegistry fun r => { r with feePerClaim := newFee })
  pure true

/-- `update-admin`. -/
def updateAdmin (ctx : Ctx) (admin : Principal) (enabled : Bool) : M σ Principal := do
  authorizeAdmin ctx
  print (.updateAdmin admin enabled)
  Tx.modify (World.onRegistry fun r =>
    { r with admins := Function.update r.admins admin (some enabled) })
  pure admin

end Spox.RewardClaims
