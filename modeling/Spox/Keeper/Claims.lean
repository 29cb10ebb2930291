import Spox.Client.Value
import Spox.Contract.Pending
import Spox.Lib.Batching

/-!
# Keeper — fetching and batching claims

The client of the registry in `reward_claim_registry.rs`:
`get_all_pending_claims` pages through `get-pending-claims` at one chain tip,
and `batch_claims` groups what it found by signer-manager into the argument
lists of `process-reward-claims`.

A `HashMap` is met in an arbitrary order, so `batchClaims` takes the order in
which its loop meets the groups.
-/

namespace Spox.Keeper

open Spox.Lib Spox.RewardClaims Spox.Client

variable {σ : Type} {views : Views σ} {R : σ → σ → Prop} {base : Nat} {w : World σ}

/-! ## Answers of the contract -/

/-- A key as the contract writes it. -/
def keyValue (key : RegistrationKey) : ClarityValue :=
  .tuple [("staker", .principal key.staker), ("signer-manager", .principal key.signerManager)]

/-- A row as the contract writes it. -/
def rowValue (row : PendingClaimRow) : ClarityValue :=
  .tuple [("signer-manager", .principal row.signerManager), ("staker", .principal row.staker),
    ("bond-index", .optional (row.bondIndex.map .uint)), ("reward-cycle", .uint row.rewardCycle)]

/-- A page as the contract writes it. -/
def pageValue (page : Page RegistrationKey PendingClaimRow) : ClarityValue :=
  .response true (.tuple [("rows", .list (page.rows.map rowValue)),
    ("next", .optional (page.next.map keyValue))])

/-! ## Parsing them -/

/-- `RegistrationKey::try_from`. -/
def registrationKeyTryFrom (value : ClarityValue) : Except Error RegistrationKey := do
  let fields ← ClarityTuple.tryFrom value
  let (staker, fields) ← fields.removePrincipal "staker"
  let (signerManager, _) ← fields.removePrincipal "signer-manager"
  pure ⟨staker, signerManager⟩

/-- `PendingClaim`. -/
structure PendingClaim where
  signerManager : ContractId
  staker : Principal
  bondIndex : Option Nat
  rewardCycle : Nat
deriving DecidableEq, Repr

/-- `registration_key`. -/
def PendingClaim.registrationKey (claim : PendingClaim) : RegistrationKey :=
  ⟨claim.staker, .contract claim.signerManager⟩

/-- The row it was read from. -/
def PendingClaim.row (claim : PendingClaim) : PendingClaimRow :=
  ⟨.contract claim.signerManager, claim.staker, claim.bondIndex, claim.rewardCycle⟩

/-- A value that should be a uint, as in an optional field. -/
def uintOr (text : String) : ClarityValue → Except Error Nat
  | .uint n => .ok n
  | _ => .error (.invalidStacksResponse text)

/-- `PendingClaim::try_from`. -/
def PendingClaim.tryFrom (value : ClarityValue) : Except Error PendingClaim := do
  let fields ← ClarityTuple.tryFrom value
  let (bondIndex, fields) ← fields.removeOption "bond-index"
  let bondIndex ← bondIndex.mapM (uintOr "bond-index was not a uint")
  let (signerManager, fields) ← fields.removePrincipal "signer-manager"
  match signerManager with
  | .contract signerManager => do
      let (staker, fields) ← fields.removePrincipal "staker"
      let (rewardCycle, _) ← fields.removeUint "reward-cycle"
      pure ⟨signerManager, staker, bondIndex, rewardCycle⟩
  | signerManager => .error (.unexpectedPrincipal signerManager)

/-- `PendingClaimsPage::try_from`: the first row that does not parse fails
the page. -/
def pendingClaimsPage (value : ClarityValue) :
    Except Error (Page RegistrationKey PendingClaim) := do
  let fields ← ClarityTuple.tryFrom value
  let (rows, fields) ← fields.removeList "rows"
  let claims ← rows.mapM PendingClaim.tryFrom
  let (next, _) ← fields.removeOption "next"
  let next ← next.mapM registrationKeyTryFrom
  pure ⟨claims, next⟩

/-- A row parses if its signer-manager is a contract. -/
theorem tryFrom_rowValue {row : PendingClaimRow} {sm : ContractId}
    (h : row.signerManager = .contract sm) :
    PendingClaim.tryFrom (rowValue row) =
      .ok ⟨sm, row.staker, row.bondIndex, row.rewardCycle⟩ := by
  obtain ⟨signerManager, staker, bondIndex, rewardCycle⟩ := row
  have h : signerManager = .contract sm := h
  subst h
  cases bondIndex <;> rfl

/-! ## The client -/

/-- `get_pending_claims` at the chain tip `w`. -/
def getPendingClaims (views : Views σ) (w : World σ) (cursor : Option RegistrationKey) :
    Except Error (Page RegistrationKey PendingClaim) :=
  match pageValue (RewardClaims.getPendingClaims views w cursor) with
  | .response _ data => pendingClaimsPage data
  | _ => .error (.invalidStacksResponse "expected a response")

/-- `get_all_pending_claims`: its loop, within a number of calls. -/
def getAllPendingClaims (views : Views σ) (w : World σ) (fuel : Nat) :
    Option (Except Error (List PendingClaim)) :=
  pageThrough (getPendingClaims views w) fuel [] none

/-- The claim the client makes of a key. -/
def claimAt (views : Views σ) (w : World σ) (key : RegistrationKey) : Option PendingClaim :=
  (pendingRowAt views w key).bind fun row => (PendingClaim.tryFrom (rowValue row)).toOption

/-- Whether the next claim of a key is pending. -/
def pendingAt (views : Views σ) (w : World σ) (key : RegistrationKey) : Bool :=
  match w.registry.registrations key with
  | some registration => isPending registration (views.currentDistributionCycle w.ext)
      (getLastRewardsComputeDistribution views w.ext)
  | none => false

/-- A row of a live registration parses, since its signer-manager is a
contract. -/
theorem tryFrom_pendingRow (hinv : Inv base w) {key : RegistrationKey} {row : PendingClaimRow}
    (hrow : pendingRowAt views w key = some row) :
    ∃ claim, PendingClaim.tryFrom (rowValue row) = .ok claim ∧ claim.row = row := by
  unfold pendingRowAt pendingRow at hrow
  split at hrow
  · next registration hregistration =>
      split at hrow
      · cases hrow
        obtain ⟨sm, hsm⟩ := (hinv.rows key registration hregistration).signerManager
        refine ⟨_, tryFrom_rowValue hsm, ?_⟩
        rw [PendingClaim.row, ← hsm]
      · cases hrow
  · cases hrow

theorem pendingRowAt_map_key (key : RegistrationKey) :
    (pendingRowAt views w key).map PendingClaimRow.key =
      if pendingAt views w key then some key else none := by
  unfold pendingRowAt pendingRow pendingAt
  cases w.registry.registrations key with
  | none => rfl
  | some registration =>
      simp only
      split <;> rfl

theorem claimAt_map_row (hinv : Inv base w) (key : RegistrationKey) :
    (claimAt views w key).map PendingClaim.row = pendingRowAt views w key := by
  cases hrow : pendingRowAt views w key with
  | none => rw [claimAt, hrow]; rfl
  | some row =>
      obtain ⟨claim, htry, hclaim⟩ := tryFrom_pendingRow hinv hrow
      rw [claimAt, hrow, Option.bind_some, htry, ← hclaim]
      rfl

theorem claimAt_map_key (hinv : Inv base w) (key : RegistrationKey) :
    (claimAt views w key).map PendingClaim.registrationKey =
      if pendingAt views w key then some key else none := by
  rw [← pendingRowAt_map_key, ← claimAt_map_row hinv, Option.map_map]
  rfl

/-- A page as the client reads it, from any cursor the walk hands out. -/
theorem getPendingClaims_read (hinv : Inv base w) {cursor : Option RegistrationKey}
    {ks : List RegistrationKey}
    (h : Visits w.registry.registrationLl.next (cursor.or w.registry.registrationLl.head) ks) :
    getPendingClaims views w cursor =
      .ok ⟨(ks.take 100).filterMap (claimAt views w), (ks.drop 100).head?⟩ := by
  have hparse := mapM_parse (pendingRowAt views w) rowValue PendingClaim.tryFrom
    (fun key row hrow => by
      obtain ⟨claim, htry, -⟩ := tryFrom_pendingRow hinv hrow
      exact ⟨claim, htry⟩) (ks.take 100)
  rw [getPendingClaims, getPendingClaims_page h]
  show (do
    let claims ← (((ks.take 100).filterMap (pendingRowAt views w)).map rowValue).mapM
      PendingClaim.tryFrom
    let next ← ((ks.drop 100).head?.map keyValue).mapM registrationKeyTryFrom
    pure (Page.mk claims next) : Except Error (Page RegistrationKey PendingClaim)) = _
  rw [hparse]
  cases (ks.drop 100).head? <;> rfl

/-- **The client finds every pending claim**: the loop ends after exactly as
many calls as the list takes, with one claim for each pending registration. -/
theorem getPendingClaims_readsAll (hinv : Inv base w) :
    ReadsAll 100 (getPendingClaims views w) (liveKeys w) (pendingAt views w)
      PendingClaim.registrationKey ((liveKeys w).filterMap (claimAt views w)) :=
  readsAll_of_pages (by decide) hinv.visits liveKeys_nodup
    (fun _ _ h => getPendingClaims_read hinv h) fun key _ => claimAt_map_key hinv key

/-- It ends as soon as its calls cover the list. -/
theorem getAllPendingClaims_complete (hinv : Inv base w) {fuel : Nat} (hpos : 0 < fuel)
    (hfuel : (liveKeys w).length ≤ 100 * fuel) :
    getAllPendingClaims views w fuel = some (.ok ((liveKeys w).filterMap (claimAt views w))) := by
  have hcount := pageCount_le (show 0 < 100 by decide) hpos hfuel
  rw [getAllPendingClaims, (getPendingClaims_readsAll hinv).loop, if_neg (by omega)]

/-! ## Batches -/

/-- `MAX_STAKERS_LENGTH`. -/
def maxStakersLength : Nat := 100

/-- `RewardClaimsBatch`: the arguments of one `process-reward-claims` call. Its
`registry_contract` is left out: there is one registry, the world it is
executed in. -/
structure RewardClaimsBatch where
  signerManager : ContractId
  stakers : List Principal
deriving DecidableEq, Repr

/-- The hash map `batch_claims` builds. -/
def claimGroups (claims : List PendingClaim) : List (ContractId × List Principal) :=
  claims.foldl (fun groups claim => push claim.signerManager claim.staker groups) []

/-- The loop of `batch_claims` over its hash map, in the order `iteration`. -/
def batchClaims (iteration : List (ContractId × List Principal)) : List RewardClaimsBatch :=
  (batches maxStakersLength iteration).map fun batch => ⟨batch.1, batch.2⟩

/-- The claims a batch is made of. -/
def RewardClaimsBatch.entries (batch : RewardClaimsBatch) : List (ContractId × Principal) :=
  batch.stakers.map fun staker => (batch.signerManager, staker)

theorem claimGroups_eq (claims : List PendingClaim) :
    claimGroups claims =
      groupByKey (claims.map fun claim => (claim.signerManager, claim.staker)) := by
  rw [groupByKey, List.foldl_map, claimGroups]

theorem length_le_of_mem_batchClaims {iteration : List (ContractId × List Principal)}
    {batch : RewardClaimsBatch} (h : batch ∈ batchClaims iteration) :
    batch.stakers.length ≤ 100 := by
  obtain ⟨b, hb, rfl⟩ := List.mem_map.mp h
  exact length_le_of_mem_batches hb

/-- **Batches partition the claims**, in whatever order the groups are met
and the batches are taken. -/
theorem batchClaims_entries {claims : List PendingClaim}
    {iteration : List (ContractId × List Principal)}
    (hiteration : iteration.Perm (claimGroups claims)) {order : List RewardClaimsBatch}
    (horder : order.Perm (batchClaims iteration)) :
    (order.flatMap RewardClaimsBatch.entries).Perm
      (claims.map fun claim => (claim.signerManager, claim.staker)) := by
  rw [claimGroups_eq] at hiteration
  have hentries := flatMap_batches_perm (show 0 < maxStakersLength by decide) hiteration
    (List.Perm.refl _)
  have horder := horder.flatMap_right RewardClaimsBatch.entries
  rw [batchClaims, List.flatMap_map] at horder
  exact horder.trans hentries

end Spox.Keeper
