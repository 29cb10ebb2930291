import Spox.Keeper.Withdrawals
import Spox.Lib.Partition

/-!
# Keeper — how many calls a sweep makes

`batch_claims` and `batch_withdrawals` cut what the client listed into the
`(list 100 ...)` arguments of the contract's batch calls. Both are the one
batching of `Lib.Partition`, so in whatever order a hash map is met no sweep
needs fewer calls.
-/

namespace Spox.Keeper

open Spox.Lib Spox.RewardClaims

/-- A batch as keyed items. -/
def RewardClaimsBatch.group (batch : RewardClaimsBatch) : ContractId × List Principal :=
  (batch.signerManager, batch.stakers)

/-- A batch as keyed items. -/
def WithdrawalsBatch.group (batch : WithdrawalsBatch) : ContractId × List WithdrawalItem :=
  (batch.signerManager, batch.items)

theorem batchClaims_partition {claims : List PendingClaim}
    {iteration : List (ContractId × List Principal)}
    (hiteration : iteration.Perm (claimGroups claims)) :
    Partition maxStakersLength (claims.map fun claim => (claim.signerManager, claim.staker))
      ((batchClaims iteration).map RewardClaimsBatch.group) := by
  rw [claimGroups_eq] at hiteration
  have hgroup : (batchClaims iteration).map RewardClaimsBatch.group =
      batches maxStakersLength iteration := by
    rw [batchClaims, List.map_map]
    exact List.map_id _
  rw [hgroup]
  exact batches_partition (show 0 < maxStakersLength by decide) hiteration

theorem batchWithdrawals_partition {withdrawals : List PendingWithdrawal}
    {iteration : List (ContractId × List WithdrawalItem)}
    (hiteration : iteration.Perm (withdrawalGroups withdrawals)) :
    Partition maxStakersLength
      (withdrawals.map fun withdrawal => (withdrawal.signerManager, withdrawal.item))
      ((batchWithdrawals iteration).map WithdrawalsBatch.group) := by
  rw [withdrawalGroups_eq] at hiteration
  have hgroup : (batchWithdrawals iteration).map WithdrawalsBatch.group =
      batches maxStakersLength iteration := by
    rw [batchWithdrawals, List.map_map]
    exact List.map_id _
  rw [hgroup]
  exact batches_partition (show 0 < maxStakersLength by decide) hiteration

/-- **Batches are as few as the contract's arguments allow**: for all pending
claims and withdrawals and however the hash maps are met, each batch has one
signer-manager and 1 to 100 items, together they hold the input, those of a
signer-manager follow each other in input order with only the last one short,
and no batching into lists of at most 100 has fewer. -/
theorem batches_fit_contract (claims : List PendingClaim) (withdrawals : List PendingWithdrawal) :
    (∀ iteration : List (ContractId × List Principal), iteration.Perm (claimGroups claims) →
      Partition 100 (claims.map fun claim => (claim.signerManager, claim.staker))
        ((batchClaims iteration).map RewardClaimsBatch.group)) ∧
    ∀ iteration : List (ContractId × List WithdrawalItem),
      iteration.Perm (withdrawalGroups withdrawals) →
      Partition 100
        (withdrawals.map fun withdrawal => (withdrawal.signerManager, withdrawal.item))
        ((batchWithdrawals iteration).map WithdrawalsBatch.group) :=
  ⟨fun _ h => batchClaims_partition h, fun _ h => batchWithdrawals_partition h⟩

namespace Sample

def managers : List ContractId := [⟨1, "signer-manager"⟩, ⟨2, "signer-manager"⟩]

/-- 101 claims of each of two signer-managers, in turns. -/
def claims : List PendingClaim :=
  (List.range 101).flatMap fun i => managers.map fun sm => ⟨sm, .standard i, none, i⟩

def withdrawals : List PendingWithdrawal :=
  managers.map fun sm => ⟨sm, ⟨.standard 7, 1⟩⟩

end Sample

theorem batches_fit_contract_sample :
    (Partition 100 (Sample.claims.map fun claim => (claim.signerManager, claim.staker))
        ((batchClaims (claimGroups Sample.claims).reverse).map RewardClaimsBatch.group) ∧
      (batchClaims (claimGroups Sample.claims).reverse).map
        (fun batch => (batch.signerManager.issuer, batch.stakers.length)) =
          [(2, 100), (2, 1), (1, 100), (1, 1)]) ∧
    Partition 100
      (Sample.withdrawals.map fun withdrawal => (withdrawal.signerManager, withdrawal.item))
      ((batchWithdrawals (withdrawalGroups Sample.withdrawals)).map WithdrawalsBatch.group) :=
  ⟨⟨(batches_fit_contract Sample.claims Sample.withdrawals).1 _ (List.reverse_perm _),
      by decide +kernel⟩,
    (batches_fit_contract Sample.claims Sample.withdrawals).2 _ (List.Perm.refl _)⟩

end Spox.Keeper
