import Spox.Contract.Data

/-!
# Reward claim registry — environment

What the contract is linked against: the read-only functions of pox-5 and
sbtc-registry it calls (`Views`), the signer-managers it dispatches on
(`SignerManagers`), the principals a call runs under (`Ctx`) and the token
primitives of the Clarity VM.
-/

namespace Spox.RewardClaims

open Spox.Lib

/-- Contract code over the world. -/
abbrev M (σ α : Type) : Type := Tx (World σ) α

/-! ## Other contracts -/

/-- What pox-5 `get-bond-membership` tells about a staker. -/
structure BondMembership where
  signer : Principal
  bondIndex : Nat

/-- What pox-5 `get-staker-info` tells about a staker. -/
structure StakerInfo where
  signer : Principal
  firstRewardCycle : Nat

/-- What sbtc-registry `get-withdrawal-request` tells about a request: its
status is `none` while pending, then whether it was accepted. -/
structure WithdrawalRequest where
  status : Option Bool
deriving DecidableEq

/-- The read-only functions of pox-5 and sbtc-registry and the burn chain
height, as readings of the rest of the chain. -/
structure Views (σ : Type) where
  currentDistributionCycle : σ → Nat
  getLastRewardComputeHeight : σ → Nat
  burnHeightToDistributionIndex : σ → Nat → Nat
  getEarned : σ → Principal → Nat → Option Nat → Nat
  getBondMembership : σ → Principal → Option BondMembership
  bondPeriodToRewardCycle : σ → Nat → Nat
  getStakerInfo : σ → Principal → Option StakerInfo
  getWithdrawalRequest : σ → Nat → Option WithdrawalRequest
  burnBlockHeight : σ → Nat

/-- The ok value of `claim-staker-rewards`. -/
structure ClaimResult where
  earned : Nat
  withdrawalRequest : Option Nat

/-- What a `contract-call?` on a signer-manager does, for each function of
the trait. The ok payload of `claim-rewards` is read by nobody. -/
structure SignerManagers (σ : Type) where
  claimStakerRewards : ContractId → Principal → Nat → Option Nat → M σ ClaimResult
  claimRewards : ContractId → List Nat → Nat → M σ Unit
  settleAcceptedWithdrawal : ContractId → Nat → M σ Bool
  reclaimFailedWithdrawal : ContractId → Nat → M σ Bool

/-- Every call on this signer-manager returns some response. -/
structure SignerManagers.Returns {σ : Type} (managers : SignerManagers σ) (sm : ContractId) :
    Prop where
  claimStakerRewards : ∀ staker cycle bond w,
    managers.claimStakerRewards sm staker cycle bond w ≠ .abort
  claimRewards : ∀ bonds cycle w, managers.claimRewards sm bonds cycle w ≠ .abort
  settleAcceptedWithdrawal : ∀ id w, managers.settleAcceptedWithdrawal sm id w ≠ .abort
  reclaimFailedWithdrawal : ∀ id w, managers.reclaimFailedWithdrawal sm id w ≠ .abort

/-- `tx-sender` and `contract-caller`. The registry only ever acts as
`tx-sender` inside its own `as-contract?` blocks, never of a public call. -/
structure Ctx where
  txSender : Principal
  contractCaller : Principal
  txSender_ne : txSender ≠ currentContract

variable {σ : Type}

/-! ## Token primitives -/

/-- `stx-transfer?`. -/
def stxTransfer (txSender : Principal) (amount : Nat) (sender recipient : Principal) :
    M σ Unit := do
  Tx.asserts (0 < amount) 3
  Tx.asserts (sender ≠ recipient) 2
  Tx.asserts (sender = txSender) 4
  let w ← Tx.get
  Tx.asserts (amount ≤ w.stx sender) 1
  Tx.modify (World.move amount sender recipient)

/-- `stx-burn?`. -/
def stxBurn (txSender : Principal) (amount : Nat) (sender : Principal) : M σ Unit := do
  Tx.asserts (0 < amount) 3
  Tx.asserts (sender = txSender) 4
  let w ← Tx.get
  Tx.asserts (amount ≤ w.stx sender) 1
  Tx.modify (World.burn amount sender)

/-- `as-contract?` with a `with-stx` allowance: the body runs with the
contract as `tx-sender`, and is undone if it let more than the allowance go. -/
def asContract (withStx : Nat) (body : Principal → M σ Unit) : M σ Unit := do
  let before ← Tx.get
  body currentContract
  let after ← Tx.get
  if before.stx currentContract - after.stx currentContract ≤ withStx then
    pure ()
  else do
    Tx.modify (fun _ => before)
    Tx.fail 0

/-- `(if (> amount u0) (try! body) true)`. -/
def whenPositive (amount : Nat) (body : M σ Unit) : M σ Unit :=
  if 0 < amount then body else pure ()

/-- `print`. -/
def print (event : Event) : M σ Unit := Tx.modify (fun w => w.emit [event])

/-- Write a history variable: no part of the contract. -/
def history (event : Event) : M σ Unit := Tx.modify (fun w => w.emit [event])

section Specs

variable {w : World σ} {ok : Unit → World σ → Prop} {err : Nat → World σ → Prop}
  {void : Prop}

@[simp] theorem wp_print (event : Event) :
    Tx.wp (print event) w ok err void ↔ ok () (w.emit [event]) := Iff.rfl

@[simp] theorem wp_history (event : Event) :
    Tx.wp (history event) w ok err void ↔ ok () (w.emit [event]) := Iff.rfl

/-- A transfer succeeds exactly when the amount is positive and covered and
the sender is the `tx-sender` and not the recipient. -/
theorem run_stxTransfer {txSender sender recipient : Principal} {amount : Nat}
    (hpos : 0 < amount) (hne : sender ≠ recipient) (hsender : sender = txSender)
    (hle : amount ≤ w.stx sender) :
    stxTransfer txSender amount sender recipient w =
      .ok () (w.move amount sender recipient) := by
  simp [stxTransfer, Tx.asserts, Tx.run_bind, hpos, hne, ← hsender, hle]

theorem wp_stxTransfer {txSender recipient : Principal} {amount : Nat}
    (hok : amount ≤ w.stx txSender → txSender ≠ recipient →
      ok () (w.move amount txSender recipient))
    (herr : ∀ code, err code w) :
    Tx.wp (stxTransfer txSender amount txSender recipient) w ok err void := by
  simp only [stxTransfer, Tx.wp_bind, Tx.wp_asserts, Tx.wp_get, Tx.wp_modify]
  exact ⟨fun _ => ⟨fun hne => ⟨fun _ => ⟨fun hle => hok hle hne, fun _ => herr _⟩,
    fun _ => herr _⟩, fun _ => herr _⟩, fun _ => herr _⟩

/-- A burn succeeds exactly when the amount is positive and covered and the
sender is the `tx-sender`. -/
theorem run_stxBurn {txSender sender : Principal} {amount : Nat}
    (hpos : 0 < amount) (hsender : sender = txSender) (hle : amount ≤ w.stx sender) :
    stxBurn txSender amount sender w = .ok () (w.burn amount sender) := by
  simp [stxBurn, Tx.asserts, Tx.run_bind, hpos, ← hsender, hle]

/-- A body that lets no more than the allowance go is not undone. -/
theorem run_asContract {withStx : Nat} {body : Principal → M σ Unit} {w' : World σ}
    (hbody : body currentContract w = .ok () w')
    (hle : w.stx currentContract - w'.stx currentContract ≤ withStx) :
    asContract withStx body w = .ok () w' := by
  simp only [asContract, Tx.run_bind, Tx.run_get, hbody, if_pos hle, Tx.run_pure]

end Specs

end Spox.RewardClaims
