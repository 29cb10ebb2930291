import Spox.SignerManager.Data

/-!
# Signer-manager — environment

The contracts `signer-manager.clar` calls, as parameters over the rest of the
chain: sbtc-token, sbtc-withdrawal, sbtc-registry and pox-5 (`Externals`).
None of them calls the contract back while it runs.

`Documented` is what the contract relies on: the effect of each call on the
contract's account at sBTC, which is its balances and the withdrawal requests
it made. `Outside` is what can happen to that account between two calls.
-/

namespace Spox.SignerManager

open Spox.Lib
open Spox.RewardClaims (Principal ContractId)

/-- Contract code over the world. -/
abbrev M (σ α : Type) : Type := Tx (World σ) α

/-! ## Other contracts -/

/-- What sbtc-registry `get-withdrawal-request` tells about a request: its
status is `none` while pending, then whether it was accepted. The contract
does not read the sender and the recipient. -/
structure WithdrawalRequest where
  amount : Nat
  maxFee : Nat
  sender : Principal
  recipient : PoxAddr
  status : Option Bool
deriving DecidableEq

/-- What a request has taken from its sender. -/
def WithdrawalRequest.total (r : WithdrawalRequest) : Nat := r.amount + r.maxFee

/-- An element of the `bond-rewards` of pox-5 `claim-rewards`. -/
structure BondReward where
  bondIndex : Nat
  earned : Nat
  rewardsPerToken : Nat

/-- The ok value of pox-5 `claim-rewards`. -/
structure RewardsClaimed where
  totalRewards : Nat
  bondRewards : List BondReward

/-- The contracts the signer-manager calls. A function that is not read-only
takes the principal it sees as its sender; the `grant-signer-key` payload is
read by nobody. -/
structure Externals (σ : Type) where
  currentContract : Principal
  pox5 : Principal
  -- sbtc-token
  getBalance : σ → Principal → Nat
  getBalanceAvailable : σ → Principal → Nat
  getBalanceLocked : σ → Principal → Nat
  transfer : Principal → Nat → Principal → Principal → Tx σ Unit
  -- sbtc-registry and sbtc-withdrawal
  getWithdrawalRequest : σ → Nat → Option WithdrawalRequest
  initiateWithdrawalRequest : Principal → Nat → PoxAddr → Nat → Tx σ Nat
  -- pox-5
  getEarnedStakerRewards : σ → Principal → FeeKey → Principal → Nat
  claimRewards : Principal → List Nat → Nat → Tx σ RewardsClaimed
  claimStakerRewardsForSigner : Principal → Principal → FeeKey → Tx σ Nat
  grantSignerKey : Principal → Buff 33 → Principal → Nat → Buff 65 → Tx σ Unit
  registerSigner : Principal → ContractId → Buff 33 → Tx σ Bool
  -- the VM's `from-consensus-buff?` at the type of `L1Info`
  fromConsensusBuff : Buff 500 → Option L1Info

/-- What the contract has at sBTC: what it can spend, what its pending
withdrawals lock, and the requests it made. -/
structure Account where
  available : Nat
  locked : Nat
  requests : Nat → Option WithdrawalRequest

section Externals

variable {σ : Type} (ext : Externals σ)

/-- The contract's account. -/
def Externals.account (s : σ) : Account where
  available := ext.getBalanceAvailable s ext.currentContract
  locked := ext.getBalanceLocked s ext.currentContract
  requests id :=
    (ext.getWithdrawalRequest s id).filter fun r => r.sender = ext.currentContract

/-- A request the contract made is the one sbtc-registry tells about. -/
theorem Externals.getWithdrawalRequest_of_account {s : σ} {id : Nat} {r : WithdrawalRequest}
    (h : (ext.account s).requests id = some r) : ext.getWithdrawalRequest s id = some r :=
  (Option.filter_eq_some_iff.mp h).1

/-- Money the contract can spend arrives, or leaves. -/
def Account.receive (a : Account) (amount : Nat) : Account :=
  { a with available := a.available + amount }

def Account.spend (a : Account) (amount : Nat) : Account :=
  { a with available := a.available - amount }

/-- A withdrawal request is opened: its total is locked. -/
def Account.lock (a : Account) (id : Nat) (r : WithdrawalRequest) : Account where
  available := a.available - r.total
  locked := a.locked + r.total
  requests := Function.update a.requests id (some r)

/-- A pending request is resolved: what was locked is released, and `back`
of it can be spent again. -/
def Account.resolve (a : Account) (id : Nat) (r : WithdrawalRequest) (accepted : Bool)
    (back : Nat) : Account where
  available := a.available + back
  locked := a.locked - r.total
  requests := Function.update a.requests id (some { r with status := some accepted })

/-- The documented behaviour of sBTC and pox-5 the contract relies on. -/
structure Externals.Documented : Prop where
  /-- `get-balance` counts what can be spent, and at most what is locked
  besides. -/
  available_le_balance : ∀ s,
    (ext.account s).available ≤ ext.getBalance s ext.currentContract
  balance_le : ∀ s,
    ext.getBalance s ext.currentContract ≤ (ext.account s).available + (ext.account s).locked
  /-- A transfer of the contract's sBTC is covered, goes to another account
  and moves the amount. -/
  transfer : ∀ {s s' amount recipient},
    ext.transfer ext.currentContract amount ext.currentContract recipient s = .ok () s' →
      amount ≤ (ext.account s).available ∧ recipient ≠ ext.currentContract ∧
      ext.account s' = (ext.account s).spend amount ∧
      ext.getBalanceAvailable s' recipient = ext.getBalanceAvailable s recipient + amount
  /-- A covered transfer of a positive amount to another account succeeds. -/
  transfer_succeeds : ∀ {s amount recipient},
    0 < amount → amount ≤ (ext.account s).available → recipient ≠ ext.currentContract →
      ∃ s', ext.transfer ext.currentContract amount ext.currentContract recipient s = .ok () s'
  /-- A withdrawal request to an address gets a fresh id and locks its amount
  and fee budget. -/
  initiate : ∀ {s s' amount poxAddr maxFee id},
    ext.initiateWithdrawalRequest ext.currentContract amount poxAddr maxFee s = .ok id s' →
      amount + maxFee ≤ (ext.account s).available ∧ (ext.account s).requests id = none ∧
      ext.account s' =
        (ext.account s).lock id ⟨amount, maxFee, ext.currentContract, poxAddr, none⟩
  /-- `claim-rewards` sends the signer the rewards it reports. -/
  claimRewards : ∀ {s s' bonds cycle result},
    ext.claimRewards ext.currentContract bonds cycle s = .ok result s' →
      ext.account s' = (ext.account s).receive result.totalRewards
  /-- Crystallizing a staker's rewards moves no sBTC, and the amount is the
  one the read-only function tells. -/
  claimStakerRewards : ∀ {s s' staker key earned},
    ext.claimStakerRewardsForSigner ext.currentContract staker key s = .ok earned s' →
      ext.account s' = ext.account s ∧
      earned = ext.getEarnedStakerRewards s ext.currentContract key staker
  /-- Registering a signer moves no sBTC. -/
  grantSignerKey : ∀ {s s' sender key authId sig},
    ext.grantSignerKey sender key ext.currentContract authId sig s = .ok () s' →
      ext.account s' = ext.account s
  registerSigner : ∀ {s s' sender manager key b},
    ext.registerSigner sender manager key s = .ok b s' → ext.account s' = ext.account s

/-- What happens to the account between two calls of the contract: it is
given sBTC, or the sBTC signers resolve one of its pending requests. On
acceptance the unused part of the fee budget is minted to the contract, on
rejection the whole request is unlocked. -/
inductive Externals.Outside (s s' : σ) : Event → Prop
  | received (amount : Nat) (h : ext.account s' = (ext.account s).receive amount) :
      Outside s s' (.received amount)
  | accepted (id : Nat) (r : WithdrawalRequest) (dust : Nat)
      (hrequest : (ext.account s).requests id = some r) (hpending : r.status = none)
      (hdust : dust ≤ r.maxFee)
      (h : ext.account s' = (ext.account s).resolve id r true dust) :
      Outside s s' (.accepted id r.total dust)
  | rejected (id : Nat) (r : WithdrawalRequest)
      (hrequest : (ext.account s).requests id = some r) (hpending : r.status = none)
      (h : ext.account s' = (ext.account s).resolve id r false r.total) :
      Outside s s' (.rejected id r.total)

end Externals

/-! ## Contract calls -/

/-- `tx-sender` and `contract-caller` of a public call. -/
structure Ctx where
  txSender : Principal
  contractCaller : Principal

variable {σ α : Type}

/-- `contract-call?`: an error undoes what the callee did. -/
def contractCall (m : Tx σ α) : M σ α := fun w =>
  match m w.chain with
  | .ok a s => .ok a (w.onChain s)
  | .err code _ => .err code w
  | .abort => .abort

/-- `unwrap-panic` of a response. -/
def unwrapPanic (m : M σ α) : M σ α := do
  let result ← Tx.attempt m
  match result with
  | .ok a => pure a
  | .error _ => Tx.abort

/-- `as-contract?` with a `with-ft` allowance of sBTC: the body runs with the
contract as `tx-sender`, and is undone if it let more than the allowance go. -/
def asContract (ext : Externals σ) (withFt : Nat) (body : Principal → M σ α) : M σ α := do
  let before ← Tx.get
  let a ← body ext.currentContract
  let after ← Tx.get
  if (ext.account before.chain).available - (ext.account after.chain).available ≤ withFt then
    pure a
  else do
    Tx.modify (fun _ => before)
    Tx.fail 0

/-- `print`. -/
def print (event : Event) : M σ Unit := Tx.modify (fun w => w.emit [event])

/-- Write a history variable: no part of the contract. -/
def history (event : Event) : M σ Unit := Tx.modify (fun w => w.emit [event])

section Specs

variable {w : World σ} {ok : α → World σ → Prop} {err : Nat → World σ → Prop} {void : Prop}

@[simp] theorem wp_print {ok : Unit → World σ → Prop} (event : Event) :
    Tx.wp (print event) w ok err void ↔ ok () (w.emit [event]) := Iff.rfl

@[simp] theorem wp_history {ok : Unit → World σ → Prop} (event : Event) :
    Tx.wp (history event) w ok err void ↔ ok () (w.emit [event]) := Iff.rfl

/-- A `contract-call?` meets what holds of the callee's successful runs. -/
theorem wp_contractCall {m : Tx σ α} (hok : ∀ a s, m w.chain = .ok a s → ok a (w.onChain s))
    (herr : ∀ code, err code w) (hvoid : void) :
    Tx.wp (contractCall m) w ok err void := by
  unfold Tx.wp contractCall
  cases hm : m w.chain with
  | ok a s => exact hok a s hm
  | err code s => exact herr code
  | abort => exact hvoid

theorem run_contractCall {m : Tx σ α} {a : α} {s : σ} (h : m w.chain = .ok a s) :
    contractCall m w = .ok a (w.onChain s) := by
  simp only [contractCall, h]

@[simp] theorem wp_unwrapPanic (m : M σ α) :
    Tx.wp (unwrapPanic m) w ok err void ↔ Tx.wp m w ok (fun _ _ => void) void := by
  simp only [unwrapPanic, Tx.wp_bind, Tx.wp_attempt]
  rfl

/-- An `as-contract?` meets what its body leaves, if errors do not matter. -/
theorem wp_asContract {ext : Externals σ} {withFt : Nat} {body : Principal → M σ α}
    (h : Tx.wp (body ext.currentContract) w ok (fun _ _ => True) void) :
    Tx.wp (asContract ext withFt body) w ok (fun _ _ => True) void := by
  simp only [asContract, Tx.wp_bind, Tx.wp_get]
  refine h.mono (fun a w' hok => ?_) (fun _ _ _ => trivial) id
  split
  · exact hok
  · trivial

/-- A body that lets no more than the allowance go is not undone. -/
theorem run_asContract {ext : Externals σ} {withFt : Nat} {body : Principal → M σ α}
    {a : α} {w' : World σ} (hbody : body ext.currentContract w = .ok a w')
    (hle : (ext.account w.chain).available - (ext.account w'.chain).available ≤ withFt) :
    asContract ext withFt body w = .ok a w' := by
  simp only [asContract, Tx.run_bind, Tx.run_get, hbody, if_pos hle, Tx.run_pure]

end Specs

end Spox.SignerManager
