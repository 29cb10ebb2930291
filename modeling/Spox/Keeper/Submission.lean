import Spox.Keeper.Settlement
import Spox.Lib.Counter

/-!
# Keeper — submitting the batches

The loop of `reward_claim_process.rs` and the wallet of `wallet.rs`. On each
chain tip the wallet takes the account's nonce from the node, then
`process_claims` and `process_withdrawals` sign and submit their batches with
it. The nonce is bumped only when the node accepts; a list that cannot be
fetched ends its own half of the tick.

The node's answers are arbitrary: the answer to the `i`-th submission is
`node i`, applied to the transaction.
-/

namespace Spox.Keeper

open Spox.Lib Spox.RewardClaims Spox.Client

/-! ## Transactions -/

/-- `TransactionVersion`. -/
inductive TransactionVersion where
  | mainnet
  | testnet
deriving DecidableEq

/-- `SinglesigSpendingCondition`; its hash mode and key encoding are fixed. -/
structure SpendingCondition where
  signer : Nat
  nonce : UInt64
  txFee : UInt64
  signature : Option (List UInt8)
deriving DecidableEq

/-- `StacksTransaction`; its anchor mode and post-conditions are fixed. -/
structure StacksTransaction where
  version : TransactionVersion
  chainId : UInt32
  auth : SpendingCondition
  payload : Call

/-- `SubmitTxResponse`, with the reason of a rejection. -/
inductive SubmitTxResponse where
  | acceptance (txid : List UInt8)
  | rejection (reason : String)

/-! ## The wallet -/

/-- `CHAIN_ID_MAINNET`. -/
def chainIdMainnet : UInt32 := 1

/-- `StacksWallet`. -/
structure StacksWallet where
  secretKey : List UInt8
  address : Nat
  chainId : UInt32
  nonce : UInt64

namespace StacksWallet

/-- `is_mainnet`. -/
def isMainnet (wallet : StacksWallet) : Bool := wallet.chainId == chainIdMainnet

/-- `set_nonce`. -/
def setNonce (wallet : StacksWallet) (value : UInt64) : StacksWallet :=
  { wallet with nonce := value }

/-- `increment_nonce`: `fetch_add` wraps around. -/
def incrementNonce (wallet : StacksWallet) : StacksWallet :=
  { wallet with nonce := wallet.nonce + 1 }

/-- `as_unsigned_tx_auth`. -/
def asUnsignedTxAuth (wallet : StacksWallet) (txFee : UInt64) : SpendingCondition :=
  { signer := wallet.address, nonce := wallet.nonce, txFee := txFee, signature := none }

/-- `sign_tx`, with `sign` for the signature of a secret key over the digest
of the unsigned transaction. -/
def signTx (sign : List UInt8 → StacksTransaction → List UInt8) (wallet : StacksWallet)
    (payload : Call) (txFee : UInt64) : StacksTransaction :=
  let version := if wallet.isMainnet then .mainnet else .testnet
  let tx : StacksTransaction :=
    { version := version, chainId := wallet.chainId,
      auth := wallet.asUnsignedTxAuth txFee, payload := payload }
  { tx with auth := { tx.auth with signature := some (sign wallet.secretKey tx) } }

end StacksWallet

/-! ## A tick -/

/-- A transaction and what submitting it led to. -/
structure Submission where
  tx : StacksTransaction
  response : Except Error SubmitTxResponse

/-- The nonce it was signed with. -/
def Submission.nonce (submission : Submission) : Nat := submission.tx.auth.nonce.toNat

/-- The call it makes. -/
def Submission.payload (submission : Submission) : Call := submission.tx.payload

/-- Whether the node answered with an acceptance. -/
def Submission.accepted (submission : Submission) : Bool :=
  match submission.response with
  | .ok (.acceptance _) => true
  | _ => false

/-- `RewardClaimState`, with what its client has submitted so far. -/
structure RewardClaimState where
  wallet : StacksWallet
  submitted : List Submission

/-- What the node answers to the submissions, by their position. -/
abbrev Node := Nat → StacksTransaction → Except Error SubmitTxResponse

/-- `PER_ITEM_TX_FEE`. -/
def perItemTxFee : UInt64 := 2000

/-- `BASE_TX_FEE`. -/
def baseTxFee : UInt64 := 3000

/-- `num_stakers`. -/
def RewardClaimsBatch.numStakers (batch : RewardClaimsBatch) : Nat := batch.stakers.length

/-- `num_withdrawals`. -/
def WithdrawalsBatch.numWithdrawals (batch : WithdrawalsBatch) : Nat := batch.items.length

section Process

variable (sign : List UInt8 → StacksTransaction → List UInt8) (node : Node)

/-- The body of both loops: sign the call of a batch, submit it and bump the
nonce if it was accepted. -/
def submitCall (payload : Call) (items : Nat) (state : RewardClaimState) : RewardClaimState :=
  let txFee := UInt64.ofNat items * perItemTxFee + baseTxFee
  let tx := state.wallet.signTx sign payload txFee
  let response := node state.submitted.length tx
  let submitted := state.submitted ++ [⟨tx, response⟩]
  match response with
  | .ok (.acceptance _) => ⟨state.wallet.incrementNonce, submitted⟩
  | .ok (.rejection _) => ⟨state.wallet, submitted⟩
  | .error _ => ⟨state.wallet, submitted⟩

/-- `update_wallet_nonce`, with the account the node answers with. -/
def updateWalletNonce (account : Except Error UInt64) (state : RewardClaimState) :
    Except Error RewardClaimState :=
  match account with
  | .ok nonce => .ok { state with wallet := state.wallet.setNonce nonce }
  | .error error => .error error

/-- `process_claims`, with what `get_pending_claim_batches` returns. -/
def processClaims (fetched : Except Error (List RewardClaimsBatch)) (state : RewardClaimState) :
    Except Error Unit × RewardClaimState :=
  match fetched with
  | .error error => (.error error, state)
  | .ok batches =>
      if batches.isEmpty then (.ok (), state)
      else (.ok (), batches.foldl
        (fun state batch => submitCall sign node batch.call batch.numStakers state) state)

/-- `process_withdrawals`, with what `get_pending_withdrawal_batches` returns. -/
def processWithdrawals (fetched : Except Error (List WithdrawalsBatch))
    (state : RewardClaimState) : Except Error Unit × RewardClaimState :=
  match fetched with
  | .error error => (.error error, state)
  | .ok batches =>
      if batches.isEmpty then (.ok (), state)
      else (.ok (), batches.foldl
        (fun state batch => submitCall sign node batch.call batch.numWithdrawals state) state)

/-- What the node answers to the three fetches of a tick. -/
structure Tick where
  account : Except Error UInt64
  claims : Except Error (List RewardClaimsBatch)
  withdrawals : Except Error (List WithdrawalsBatch)

/-- The body of the loop of `process_reward_claims`: without the account's
nonce the tick is skipped, the errors of its halves are only logged. -/
def tick (t : Tick) (state : RewardClaimState) : RewardClaimState :=
  match updateWalletNonce t.account state with
  | .error _ => state
  | .ok state =>
      let (_, state) := processClaims sign node t.claims state
      let (_, state) := processWithdrawals sign node t.withdrawals state
      state

end Process

/-! ## Nonces -/

section Nonces

variable {sign : List UInt8 → StacksTransaction → List UInt8} {node : Node}
  {start state : RewardClaimState} {n : UInt64} {calls : List Call}

/-- Since `start`, whose nonce was `n`, the calls have been submitted one by
one, each with the nonce the acceptances before it lead to; so is the next. -/
structure Submits (n : UInt64) (start : RewardClaimState) (calls : List Call)
    (state : RewardClaimState) : Prop where
  submitted : ∃ new, state.submitted = start.submitted ++ new ∧
    new.map Submission.payload = calls ∧
    Counted (2 ^ 64) n.toNat Submission.accepted Submission.nonce new ∧
    state.wallet.nonce.toNat = (n.toNat + new.countP Submission.accepted) % 2 ^ 64

/-- **One submission.** -/
theorem Submits.submitCall (h : Submits n start calls state) (call : Call) (items : Nat) :
    Submits n start (calls ++ [call]) (Keeper.submitCall sign node call items state) := by
  obtain ⟨new, hnew, hcalls, hcounted, hnonce⟩ := h.submitted
  generalize htx : state.wallet.signTx sign call
    (UInt64.ofNat items * perItemTxFee + baseTxFee) = tx
  have hsigned : tx.auth.nonce = state.wallet.nonce := by
    rw [← htx]
    rfl
  have hpayload : tx.payload = call := by
    rw [← htx]
    rfl
  generalize hresponse : node state.submitted.length tx = response
  have hread : Counted (2 ^ 64) n.toNat Submission.accepted Submission.nonce
      (new ++ [⟨tx, response⟩]) := by
    refine hcounted.append ?_
    rw [Submission.nonce, hsigned, hnonce]
  have hmap : (new ++ [(⟨tx, response⟩ : Submission)]).map Submission.payload =
      calls ++ [call] := by
    rw [List.map_append, hcalls, List.map_singleton, Submission.payload, hpayload]
  have hsubmitted : (Keeper.submitCall sign node call items state).submitted =
      start.submitted ++ (new ++ [⟨tx, response⟩]) := by
    unfold Keeper.submitCall
    simp only [htx, hresponse]
    split <;> rw [hnew, List.append_assoc]
  refine ⟨new ++ [⟨tx, response⟩], hsubmitted, hmap, hread, ?_⟩
  rw [List.countP_append, List.countP_singleton, Keeper.submitCall]
  simp only [htx, hresponse]
  split
  · next txid =>
      show (state.wallet.nonce + 1).toNat = _
      rw [UInt64.toNat_add, hnonce, show (1 : UInt64).toNat = 1 from rfl, Nat.mod_add_mod]
      rfl
  · next reason => exact hnonce
  · next error => exact hnonce

/-- The loop over the batches. -/
theorem Submits.foldl {B : Type} {call : B → Call} {items : B → Nat} {batches : List B}
    (h : Submits n start calls state) :
    Submits n start (calls ++ batches.map call) (batches.foldl
      (fun state batch => Keeper.submitCall sign node (call batch) (items batch) state)
      state) := by
  induction batches generalizing state calls with
  | nil =>
      rw [List.map_nil, List.append_nil]
      exact h
  | cons batch batches ih =>
      rw [List.map_cons, List.append_cons]
      exact ih (h.submitCall (call batch) (items batch))

/-- The batches of a fetch; none if it failed. -/
def fetched {B : Type} : Except Error (List B) → List B
  | .ok batches => batches
  | .error _ => []

/-- A half of a tick: the loop over what was fetched, if anything was. -/
theorem Submits.loop {B : Type} {call : B → Call} {items : B → Nat} {batches : List B}
    (h : Submits n start calls state) :
    Submits n start (calls ++ batches.map call)
      (if batches.isEmpty then ((.ok (), state) : Except Error Unit × RewardClaimState)
        else (.ok (), batches.foldl (fun state batch =>
          Keeper.submitCall sign node (call batch) (items batch) state) state)).2 := by
  split
  · next hempty =>
      rw [List.isEmpty_iff.mp hempty, List.map_nil, List.append_nil]
      exact h
  · exact h.foldl

variable (sign node)

theorem Submits.processClaims (h : Submits n start calls state)
    (claims : Except Error (List RewardClaimsBatch)) :
    Submits n start (calls ++ (fetched claims).map RewardClaimsBatch.call)
      (Keeper.processClaims sign node claims state).2 := by
  cases claims with
  | error error =>
      rw [fetched, List.map_nil, List.append_nil]
      exact h
  | ok batches => exact h.loop

theorem Submits.processWithdrawals (h : Submits n start calls state)
    (withdrawals : Except Error (List WithdrawalsBatch)) :
    Submits n start (calls ++ (fetched withdrawals).map WithdrawalsBatch.call)
      (Keeper.processWithdrawals sign node withdrawals state).2 := by
  cases withdrawals with
  | error error =>
      rw [fetched, List.map_nil, List.append_nil]
      exact h
  | ok batches => exact h.loop

/-- The start of a tick. -/
theorem submits_setNonce (n : UInt64) (state : RewardClaimState) :
    Submits n state [] { state with wallet := state.wallet.setNonce n } := by
  refine ⟨[], (List.append_nil _).symm, rfl, fun i a ha => ?_, ?_⟩
  · cases ha
  · show n.toNat = (n.toNat + 0) % 2 ^ 64
    rw [Nat.add_zero, Nat.mod_eq_of_lt n.toNat_lt]

/-- **Nonces of a tick.** From any state and whatever the node answers, a tick
submits every batch it could fetch, the claims before the withdrawals, each
with the account's nonce plus the acceptances before it, modulo 2⁶⁴. As long as
that sum stays below 2⁶⁴ the nonces start at the account's and leave no gap,
the accepted transactions carry one each of the next, and a nonce is signed
again only after it was not accepted; a sum that reaches 2⁶⁴ breaks this. -/
theorem tick_nonces (sign : List UInt8 → StacksTransaction → List UInt8) (node : Node)
    (n : UInt64) (claims : Except Error (List RewardClaimsBatch))
    (withdrawals : Except Error (List WithdrawalsBatch)) (state : RewardClaimState) :
    ∃ new, (tick sign node ⟨.ok n, claims, withdrawals⟩ state).submitted =
        state.submitted ++ new ∧
      new.map Submission.payload =
        (fetched claims).map RewardClaimsBatch.call ++
          (fetched withdrawals).map WithdrawalsBatch.call ∧
      Counted (2 ^ 64) n.toNat Submission.accepted Submission.nonce new ∧
      (Disciplined n.toNat Submission.accepted Submission.nonce new ↔
        n.toNat + new.dropLast.countP Submission.accepted < 2 ^ 64) := by
  have hstart := submits_setNonce n state
  have hend := (hstart.processClaims sign node claims).processWithdrawals sign node withdrawals
  obtain ⟨new, hnew, hcalls, hcounted, -⟩ := hend.submitted
  exact ⟨new, hnew, hcalls, hcounted, hcounted.disciplined_iff n.toNat_lt⟩

end Nonces

namespace Sample

/-- A fresh wallet that has submitted nothing. -/
def state : RewardClaimState := ⟨⟨[], 7, 1, 0⟩, []⟩

def sign (_ : List UInt8) (tx : StacksTransaction) : List UInt8 := [tx.auth.nonce.toUInt8]

/-- A node that accepts everything. -/
def accepting : Node := fun _ _ => .ok (.acceptance [])

def batch : RewardClaimsBatch := ⟨⟨1, "signer-manager"⟩, [.standard 7]⟩

end Sample

/-- With the last nonce of all, the second transaction is signed with nonce 0. -/
theorem tick_nonces_wrap :
    (tick Sample.sign Sample.accepting ⟨.ok 0xffffffffffffffff, .ok [Sample.batch, Sample.batch],
        .ok []⟩ Sample.state).submitted.map Submission.nonce = [2 ^ 64 - 1, 0] ∧
      ¬ Disciplined (2 ^ 64 - 1) Submission.accepted Submission.nonce
        (tick Sample.sign Sample.accepting ⟨.ok 0xffffffffffffffff,
          .ok [Sample.batch, Sample.batch], .ok []⟩ Sample.state).submitted := by
  refine ⟨by decide, fun h => ?_⟩
  have hle := h.nondecreasing 0 1 _ _ (Nat.zero_le 1) rfl rfl
  exact absurd hle (by decide)

end Spox.Keeper
