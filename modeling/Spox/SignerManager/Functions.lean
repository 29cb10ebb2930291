import Mathlib.Logic.Relation
import Spox.Lib.Sequence
import Spox.SignerManager.Env

/-!
# Signer-manager — functions

The functions of `signer-manager.clar` and its public calls as one
dispatcher. The arguments of `validate-stake!` other than the staker and the
calldata are bound and not used by the contract.
-/

namespace Spox.SignerManager

open Spox.Lib
open Spox.RewardClaims (Principal ContractId ClaimResult)

variable {σ : Type} (ext : Externals σ)

/-! ## Authorization and checks -/

/-- `authorize-admin`. -/
def authorizeAdmin (ctx : Ctx) : M σ Unit := do
  let w ← Tx.get
  Tx.asserts (ctx.contractCaller = ctx.txSender ∧ w.manager.isAdmin ctx.txSender = true)
    errUnauthorizedAdmin

/-- `authorize-pox-5`. -/
def authorizePox5 (ctx : Ctx) : M σ Unit :=
  Tx.asserts (ctx.contractCaller = ext.pox5) errUnauthorizedCaller

/-- The condition `check-pox-addr` asserts. -/
def PoxAddr.Valid (poxAddr : PoxAddr) : Prop :=
  let version := buffToUintBe poxAddr.version.val
  let expectedLen := if version ≤ maxAddressVersionBuff20 then 20 else 32
  version ≤ maxAddressVersion ∧ poxAddr.hashbytes.val.length = expectedLen ∧
    poxAddr.version.val.length = 1

instance (poxAddr : PoxAddr) : Decidable poxAddr.Valid :=
  inferInstanceAs (Decidable (_ ∧ _ ∧ _))

/-- `check-pox-addr`. -/
def checkPoxAddr (poxAddr : PoxAddr) : M σ Unit :=
  Tx.asserts poxAddr.Valid errInvalidPoxAddr

/-! ## Staking callback -/

/-- `validate-stake!`. -/
def validateStake (ctx : Ctx) (staker : Principal) (signerCalldata : Option (Buff 500)) :
    M σ Bool := do
  authorizePox5 ext ctx
  match signerCalldata with
  | some calldata => do
      let poxAddr ← Tx.unwrap (ext.fromConsensusBuff calldata) errInvalidCalldata
      checkPoxAddr poxAddr.poxAddr
      Tx.modify (World.onManager fun m =>
        { m with poxAddrs := Function.update m.poxAddrs staker (some poxAddr) })
      pure true
  | none => do
      let w ← Tx.get
      Tx.modify (World.onManager fun m =>
        { m with poxAddrs := Function.update m.poxAddrs staker none })
      pure (w.manager.poxAddrs staker).isSome

/-! ## Rewards -/

/-- `snapshot-bond-fee`. -/
def snapshotBondFee (rewardCycle : Nat) (m : Manager) (bondInfo : BondReward) : Manager :=
  m.insertFeeBips ⟨rewardCycle, some bondInfo.bondIndex⟩ m.feesBips

/-- The fee entries `claim-rewards` takes a snapshot of. -/
def snapshotFees (rewardCycle : Nat) (bondRewards : List BondReward) (m : Manager) : Manager :=
  bondRewards.foldl (snapshotBondFee rewardCycle)
    (m.insertFeeBips ⟨rewardCycle, none⟩ m.feesBips)

/-- `claim-rewards`. -/
def claimRewards (bondPeriods : List Nat) (rewardCycle : Nat) : M σ RewardsClaimed := do
  let result ← contractCall (ext.claimRewards ext.currentContract bondPeriods rewardCycle)
  let w ← Tx.get
  let unclaimed ← Tx.add w.manager.unclaimedStakerRewards result.totalRewards
  Tx.modify (World.onManager fun m => { m with unclaimedStakerRewards := unclaimed })
  Tx.modify (World.onManager (snapshotFees rewardCycle result.bondRewards))
  history (.claimedRewards result.totalRewards)
  pure result

/-- What `get-earned-staker-rewards` tells. -/
structure EarnedRewards where
  earned : Nat
  fees : Nat
deriving DecidableEq

/-- The split of a gross reward into what the staker earns and the fee. -/
def splitFees (gross bips : Nat) : M σ EarnedRewards := do
  let scaled ← Tx.mul gross bips
  let fees := scaled / maxBips
  let earned ← Tx.sub gross fees
  pure ⟨earned, fees⟩

/-- `get-earned-staker-rewards`. -/
def getEarnedStakerRewards (staker : Principal) (key : FeeKey) : M σ EarnedRewards := do
  let w ← Tx.get
  splitFees (ext.getEarnedStakerRewards w.chain ext.currentContract key staker)
    (w.manager.getFeeBipsForCycle key)

/-- The payout of `claim-staker-rewards`, inside its `as-contract?`: through
an sBTC withdrawal if the staker set an L1 address, else in sBTC. -/
def payStaker (staker : Principal) (key : FeeKey) (earned : Nat) (txSender : Principal) :
    M σ (Option Nat) := do
  let w ← Tx.get
  match w.manager.poxAddrs staker with
  | some l1Info => do
      let amount ← if l1Info.maxFee ≤ earned then pure (earned - l1Info.maxFee)
        else Tx.fail errNoClaimableRewards
      let withdrawalRequest ← contractCall
        (ext.initiateWithdrawalRequest txSender amount l1Info.poxAddr l1Info.maxFee)
      print (.claimStakerRewards earned
        (some ⟨l1Info.poxAddr, l1Info.maxFee, withdrawalRequest, amount⟩) staker key)
      Tx.modify (World.onManager fun m =>
        { m with
          withdrawalRequests :=
            Function.update m.withdrawalRequests withdrawalRequest (some staker) })
      let w ← Tx.get
      let withAmount ← Tx.add w.manager.withdrawalLiability amount
      let liability ← Tx.add withAmount l1Info.maxFee
      Tx.modify (World.onManager fun m => { m with withdrawalLiability := liability })
      pure (some withdrawalRequest)
  | none => do
      print (.claimStakerRewards earned none staker key)
      contractCall (ext.transfer txSender earned txSender staker)
      pure none

/-- `claim-staker-rewards`. -/
def claimStakerRewards (staker : Principal) (key : FeeKey) : M σ ClaimResult := do
  let gross ← unwrapPanic
    (contractCall (ext.claimStakerRewardsForSigner ext.currentContract staker key))
  let w ← Tx.get
  let prevFees := w.manager.earnedFees
  let split ← splitFees gross (w.manager.getFeeBipsForCycle key)
  let fees := split.fees
  let earned := split.earned
  let unclaimedRewards := w.manager.unclaimedStakerRewards
  Tx.asserts (0 < earned) errNoClaimableRewards
  Tx.asserts (gross ≤ unclaimedRewards) errNoClaimableRewards
  Tx.asserts (0 < ext.getBalance w.chain ext.currentContract) errNoClaimableRewards
  let earnedFees ← Tx.add prevFees fees
  Tx.modify (World.onManager fun m => { m with earnedFees := earnedFees })
  let unclaimed ← Tx.sub unclaimedRewards gross
  Tx.modify (World.onManager fun m => { m with unclaimedStakerRewards := unclaimed })
  history (.distributed staker key gross fees)
  let withdrawalRequest ← asContract ext earned (payStaker ext staker key earned)
  pure ⟨earned, withdrawalRequest⟩

/-! ## Withdrawals -/

/-- `reclaim-failed-withdrawal`. -/
def reclaimFailedWithdrawal (requestId : Nat) : M σ Bool := do
  let w ← Tx.get
  let staker ← Tx.unwrap (w.manager.withdrawalRequests requestId) errUnknownWithdrawalRequest
  let request ← Tx.unwrap (ext.getWithdrawalRequest w.chain requestId)
    errUnknownWithdrawalRequest
  let refund ← Tx.add request.amount request.maxFee
  Tx.asserts (request.status = some false) errWithdrawalNotRejected
  Tx.modify (World.onManager fun m =>
    { m with withdrawalRequests := Function.update m.withdrawalRequests requestId none })
  let liability ← Tx.sub w.manager.withdrawalLiability refund
  Tx.modify (World.onManager fun m => { m with withdrawalLiability := liability })
  print (.reclaimFailedWithdrawal requestId staker refund)
  asContract ext refund fun txSender => do
    contractCall (ext.transfer txSender refund txSender staker)
    pure true

/-- `settle-accepted-withdrawal`. -/
def settleAcceptedWithdrawal (requestId : Nat) : M σ Bool := do
  let w ← Tx.get
  let staker ← Tx.unwrap (w.manager.withdrawalRequests requestId) errUnknownWithdrawalRequest
  let request ← Tx.unwrap (ext.getWithdrawalRequest w.chain requestId)
    errUnknownWithdrawalRequest
  let released ← Tx.add request.amount request.maxFee
  Tx.asserts (request.status = some true) errWithdrawalNotAccepted
  Tx.modify (World.onManager fun m =>
    { m with withdrawalRequests := Function.update m.withdrawalRequests requestId none })
  let liability ← Tx.sub w.manager.withdrawalLiability released
  Tx.modify (World.onManager fun m => { m with withdrawalLiability := liability })
  print (.settleAcceptedWithdrawal requestId staker released)
  pure true

/-! ## Admin functions -/

/-- `update-admin`. -/
def updateAdmin (ctx : Ctx) (admin : Principal) (enabled : Bool) : M σ Principal := do
  authorizeAdmin ctx
  print (.updateAdmin admin enabled)
  Tx.modify (World.onManager fun m =>
    { m with admins := Function.update m.admins admin (some enabled) })
  pure admin

/-- `update-fees`. -/
def updateFees (ctx : Ctx) (newFees : Nat) : M σ Bool := do
  authorizeAdmin ctx
  Tx.asserts (newFees < maxBips) errInvalidFeesBips
  let w ← Tx.get
  print (.updateFees w.manager.feesBips newFees)
  Tx.modify (World.onManager fun m => { m with feesBips := newFees })
  pure true

/-- `withdraw-fees`. -/
def withdrawFees (ctx : Ctx) (amount : Nat) (recipient : Principal) : M σ Nat := do
  let w ← Tx.get
  let fees := w.manager.earnedFees
  authorizeAdmin ctx
  Tx.asserts (amount ≤ fees) errInsufficientFees
  let left ← Tx.sub fees amount
  Tx.modify (World.onManager fun m => { m with earnedFees := left })
  history (.withdrewFees amount recipient)
  let _ ← asContract ext amount fun txSender =>
    contractCall (ext.transfer txSender amount txSender recipient)
  pure amount

/-- `sweep-fee-refunds`. -/
def sweepFeeRefunds (ctx : Ctx) (recipient : Principal) : M σ Nat := do
  let w ← Tx.get
  let balance := ext.getBalance w.chain ext.currentContract
  let withLiability ← Tx.add w.manager.earnedFees w.manager.withdrawalLiability
  let reserved ← Tx.add withLiability w.manager.unclaimedStakerRewards
  let sweepable := if reserved ≤ balance then balance - reserved else 0
  authorizeAdmin ctx
  Tx.asserts (0 < sweepable) errNoRefunds
  print (.sweepFeeRefunds sweepable recipient)
  let _ ← asContract ext sweepable fun txSender =>
    contractCall (ext.transfer txSender sweepable txSender recipient)
  pure sweepable

/-- `register-self`. -/
def registerSelf (ctx : Ctx) (signerManager : ContractId) (signerKey : Buff 33)
    (authId : Nat) (signerSig : Buff 65) : M σ Bool := do
  authorizeAdmin ctx
  contractCall
    (ext.grantSignerKey ctx.txSender signerKey ext.currentContract authId signerSig)
  contractCall (ext.registerSigner ctx.txSender signerManager signerKey)

/-! ## Calls -/

/-- A call of a public function. -/
inductive Call where
  | validateStake (staker : Principal) (signerCalldata : Option (Buff 500))
  | claimRewards (bondPeriods : List Nat) (rewardCycle : Nat)
  | claimStakerRewards (staker : Principal) (key : FeeKey)
  | reclaimFailedWithdrawal (requestId : Nat)
  | settleAcceptedWithdrawal (requestId : Nat)
  | updateAdmin (admin : Principal) (enabled : Bool)
  | updateFees (newFees : Nat)
  | withdrawFees (amount : Nat) (recipient : Principal)
  | sweepFeeRefunds (recipient : Principal)
  | registerSelf (signerManager : ContractId) (signerKey : Buff 33) (authId : Nat)
      (signerSig : Buff 65)

/-- The ok value of a public function. -/
inductive Value where
  | bool (b : Bool)
  | uint (n : Nat)
  | principal (p : Principal)
  | rewards (result : RewardsClaimed)
  | claim (result : ClaimResult)

/-- The body of the public function a call names. -/
def dispatch (ctx : Ctx) : Call → M σ Value
  | .validateStake staker signerCalldata => do
      let b ← validateStake ext ctx staker signerCalldata
      pure (.bool b)
  | .claimRewards bondPeriods rewardCycle => do
      let result ← claimRewards ext bondPeriods rewardCycle
      pure (.rewards result)
  | .claimStakerRewards staker key => do
      let result ← claimStakerRewards ext staker key
      pure (.claim result)
  | .reclaimFailedWithdrawal requestId => do
      let b ← reclaimFailedWithdrawal ext requestId
      pure (.bool b)
  | .settleAcceptedWithdrawal requestId => do
      let b ← settleAcceptedWithdrawal ext requestId
      pure (.bool b)
  | .updateAdmin admin enabled => do
      let p ← updateAdmin ctx admin enabled
      pure (.principal p)
  | .updateFees newFees => do
      let b ← updateFees ctx newFees
      pure (.bool b)
  | .withdrawFees amount recipient => do
      let n ← withdrawFees ext ctx amount recipient
      pure (.uint n)
  | .sweepFeeRefunds recipient => do
      let n ← sweepFeeRefunds ext ctx recipient
      pure (.uint n)
  | .registerSelf signerManager signerKey authId signerSig => do
      let b ← registerSelf ext ctx signerManager signerKey authId signerSig
      pure (.bool b)

/-- A public call: an error undoes its writes. -/
def exec (ctx : Ctx) (c : Call) : M σ Value :=
  Tx.atomic (dispatch ext ctx c)

/-! ## Runs -/

/-- A world in which the contract has just been deployed: what it holds
already was given to it. -/
def World.deployed (deployer : Principal) (s : σ) : World σ :=
  ⟨.deployed deployer, s, [.received (ext.account s).available]⟩

/-- One step of the system: a public call that answers ok, or something
that happens to the contract's account from outside. A call that fails leaves
the world as it was. -/
inductive Step : World σ → World σ → Prop
  | call {w w' : World σ} {value : Value} (ctx : Ctx) (c : Call)
      (hexec : exec ext ctx c w = .ok value w') : Step w w'
  | outside {w : World σ} {s : σ} {event : Event} (h : ext.Outside w.chain s event) :
      Step w ((w.onChain s).emit [event])

/-- A run: any finite sequence of steps. -/
abbrev Run : World σ → World σ → Prop := Relation.ReflTransGen (Step ext)

/-- The worlds a run can reach from deployment. A contract that is deployed
has no withdrawal request yet and nothing locked. -/
def Reachable (deployer : Principal) (w : World σ) : Prop :=
  ∃ s : σ, (∀ id, (ext.account s).requests id = none) ∧ (ext.account s).locked = 0 ∧
    Run ext (.deployed ext deployer s) w

theorem run_call {ext : Externals σ} (ctx : Ctx) (c : Call) (w : World σ) :
    Run ext w ((exec ext ctx c).commit w) := by
  unfold Tx.commit
  cases hexec : exec ext ctx c w with
  | ok value w' => exact .single (.call ctx c hexec)
  | err => exact .refl
  | abort => exact .refl

theorem Reachable.run {ext : Externals σ} {deployer : Principal} {w w' : World σ}
    (h : Reachable ext deployer w) (hrun : Run ext w w') : Reachable ext deployer w' := by
  obtain ⟨s, hrequests, hlocked, hreach⟩ := h
  exact ⟨s, hrequests, hlocked, hreach.trans hrun⟩

/-! ## A small chain

Concrete contracts that behave as documented, to run the contract against. -/

/-- The state of a small chain: sBTC balances and requests, and the rewards
pox-5 owes to the signer and to each staker. -/
structure Chain where
  available : Principal → Nat
  locked : Principal → Nat
  requests : Nat → Option WithdrawalRequest
  nextId : Nat
  rewards : Nat
  earned : FeeKey → Principal → Nat

namespace Chain

def signerManager : Principal := .contract ⟨2, "signer-manager"⟩

def admin : Principal := .standard 1

def staker : Principal := .standard 2

/-- A second staker, without an L1 address. -/
def other : Principal := .standard 3

def transfer (sender : Principal) (amount : Nat) (source recipient : Principal) :
    Tx Chain Unit := fun chain =>
  if sender = source ∧ 0 < amount ∧ amount ≤ chain.available source ∧ recipient ≠ source then
    .ok () { chain with
      available := Function.update (Function.update chain.available source
        (chain.available source - amount)) recipient (chain.available recipient + amount) }
  else .err 1 chain

def initiateWithdrawalRequest (sender : Principal) (amount : Nat) (recipient : PoxAddr)
    (maxFee : Nat) : Tx Chain Nat := fun chain =>
  if amount + maxFee ≤ chain.available sender ∧ chain.requests chain.nextId = none then
    .ok chain.nextId { chain with
      available := Function.update chain.available sender
        (chain.available sender - (amount + maxFee))
      locked := Function.update chain.locked sender
        (chain.locked sender + (amount + maxFee))
      requests := Function.update chain.requests chain.nextId
        (some ⟨amount, maxFee, sender, recipient, none⟩)
      nextId := chain.nextId + 1 }
  else .err 1 chain

def claimRewards (sender : Principal) (_ : List Nat) (_ : Nat) : Tx Chain RewardsClaimed :=
  fun chain =>
    .ok ⟨chain.rewards, []⟩ { chain with
      available := Function.update chain.available sender
        (chain.available sender + chain.rewards)
      rewards := 0 }

def claimStakerRewardsForSigner (_ staker : Principal) (key : FeeKey) : Tx Chain Nat :=
  fun chain =>
    .ok (chain.earned key staker) { chain with
      earned := Function.update chain.earned key
        (Function.update (chain.earned key) staker 0) }

/-- An L1 address whose budget for the withdrawal fee is 10. -/
def l1Info : L1Info :=
  ⟨⟨⟨[0], by decide⟩, ⟨List.replicate 20 0, by decide⟩⟩, 10⟩

def externals : Externals Chain where
  currentContract := signerManager
  pox5 := .standard 9
  getBalance chain p := chain.available p + chain.locked p
  getBalanceAvailable chain p := chain.available p
  getBalanceLocked chain p := chain.locked p
  transfer := transfer
  getWithdrawalRequest chain id := chain.requests id
  initiateWithdrawalRequest := initiateWithdrawalRequest
  getEarnedStakerRewards chain _ key staker := chain.earned key staker
  claimRewards := claimRewards
  claimStakerRewardsForSigner := claimStakerRewardsForSigner
  grantSignerKey _ _ _ _ _ := fun chain => .ok () chain
  registerSigner _ _ _ := fun chain => .ok true chain
  fromConsensusBuff calldata := if calldata.val = [] then none else some l1Info

theorem externals_documented : externals.Documented where
  available_le_balance _ := Nat.le_add_right _ _
  balance_le _ := Nat.le_refl _
  transfer {s s' amount recipient} h := by
    simp only [externals, transfer] at h
    split at h
    · rename_i hguard
      obtain ⟨-, -, hle, hne⟩ := hguard
      cases h
      refine ⟨hle, hne, ?_, ?_⟩
      · simp [Externals.account, externals, Account.spend, Function.update_of_ne hne.symm]
      · simp [externals]
    · cases h
  transfer_succeeds hpos hle hne := ⟨_, if_pos ⟨rfl, hpos, hle, hne⟩⟩
  initiate {s s' amount poxAddr maxFee id} h := by
    simp only [externals, initiateWithdrawalRequest] at h
    split at h
    · rename_i hguard
      cases h
      refine ⟨hguard.1, ?_, ?_⟩
      · simp [Externals.account, externals, hguard.2]
      · simp only [Externals.account, externals, Account.lock, WithdrawalRequest.total,
          Function.update_self]
        congr 1
        funext id
        by_cases hid : id = s.nextId
        · subst hid
          simp
        · simp [Function.update_of_ne hid]
    · cases h
  claimRewards {s s' bonds cycle result} h := by
    cases h
    simp [Externals.account, externals, Account.receive]
  claimStakerRewards {s s' staker key earned} h := by
    cases h
    exact ⟨rfl, rfl⟩
  grantSignerKey {s s' sender key authId sig} h := by
    cases h
    rfl
  registerSigner {s s' sender manager key b} h := by
    cases h
    rfl

/-- A chain on which pox-5 owes the signer 1000 sats, 600 of them to the
staker and 300 to the other one. -/
def start : Chain where
  available _ := 0
  locked _ := 0
  requests _ := none
  nextId := 7
  rewards := 1000
  earned _ p := if p = staker then 600 else if p = other then 300 else 0

/-- A transaction of anyone's. -/
def send (c : Call) (w : World Chain) : World Chain :=
  (exec externals ⟨staker, staker⟩ c).commit w

def deployed : World Chain := .deployed externals admin start

/-- The admin has set the fee to five percent. -/
def priced : World Chain := (exec externals ⟨admin, admin⟩ (.updateFees 500)).commit deployed

/-- The rewards have been pulled in at that fee, and the staker has no L1
address. -/
def funded : World Chain := send (.claimRewards [] 5) priced

/-- The staker has set an L1 address. -/
def staked : World Chain :=
  (exec externals ⟨staker, .standard 9⟩
    (.validateStake staker (some ⟨[1], by decide⟩))).commit deployed

/-- The rewards have been pulled in. -/
def pulled : World Chain := send (.claimRewards [] 5) staked

/-- The staker's rewards have gone into a withdrawal request. -/
def requested : World Chain := send (.claimStakerRewards staker ⟨5, none⟩) pulled

/-- The request as sbtc-registry has it while it is pending. -/
def pendingRequest : WithdrawalRequest := ⟨590, 10, signerManager, l1Info.poxAddr, none⟩

/-- The request once the signers rejected it. -/
def rejectedRequest : WithdrawalRequest := { pendingRequest with status := some false }

/-- The chain after the sBTC signers rejected request 7. -/
def rejecting (chain : Chain) : Chain :=
  { chain with
    available := Function.update chain.available signerManager
      (chain.available signerManager + 600)
    locked := Function.update chain.locked signerManager (chain.locked signerManager - 600)
    requests := Function.update chain.requests 7 (some rejectedRequest) }

def rejected : World Chain :=
  (requested.onChain (rejecting requested.chain)).emit [.rejected 7 600]

theorem reachable_deployed : Reachable externals admin deployed :=
  ⟨start, fun _ => rfl, rfl, .refl⟩

theorem reachable_staked : Reachable externals admin staked :=
  reachable_deployed.run (run_call _ _ _)

theorem run_send (c : Call) (w : World Chain) : Run externals w (send c w) := run_call _ c w

theorem reachable_funded : Reachable externals admin funded :=
  (reachable_deployed.run (run_call _ _ _)).run (run_send _ _)

theorem reachable_pulled : Reachable externals admin pulled :=
  reachable_staked.run (run_send _ _)

theorem reachable_requested : Reachable externals admin requested :=
  reachable_pulled.run (run_send _ _)

theorem requested_request :
    (externals.account requested.chain).requests 7 = some pendingRequest := by
  decide +kernel

theorem account_rejecting (chain : Chain) : externals.account (rejecting chain) =
    (externals.account chain).resolve 7 pendingRequest false 600 := by
  simp only [Externals.account, externals, rejecting, Account.resolve, Function.update_self]
  congr 1
  funext id
  by_cases hid : id = 7
  · subst hid
    simp [rejectedRequest, pendingRequest]
  · simp [Function.update_of_ne hid]

/-- The signers may reject request 7 wherever it is pending. -/
theorem run_rejecting {w : World Chain}
    (h : (externals.account w.chain).requests 7 = some pendingRequest) :
    Run externals w ((w.onChain (rejecting w.chain)).emit [.rejected 7 600]) :=
  .single (.outside (.rejected 7 _ h rfl (account_rejecting w.chain)))

theorem reachable_rejected : Reachable externals admin rejected :=
  reachable_requested.run (run_rejecting requested_request)

end Chain

end Spox.SignerManager
