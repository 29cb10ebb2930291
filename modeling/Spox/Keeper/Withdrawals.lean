import Spox.Contract.Views
import Spox.Keeper.Claims

/-!
# Keeper — fetching and batching withdrawals

The withdrawal half of `reward_claim_registry.rs`:
`get_all_pending_withdrawals` pages through `get-pending-withdrawals` at one
chain tip, and `batch_withdrawals` groups what it found by signer-manager
into the argument lists of `settle-pending-withdrawals`.
-/

namespace Spox.Keeper

open Spox.Lib Spox.RewardClaims Spox.Client

variable {σ : Type} {views : Views σ} {R : σ → σ → Prop} {base : Nat} {w : World σ}

/-! ## Answers of the contract -/

/-- `call_read` at the chain tip `w`: a call the VM aborts is an error. -/
def callRead {α : Type} (w : World σ) (call : M σ α) : Except Error α :=
  match call w with
  | .ok answer _ => .ok answer
  | .err _ _ => .error .readOnlyCallFailed
  | .abort => .error .readOnlyCallFailed

/-- A withdrawal key as the contract writes it, as a row or as a cursor. -/
def withdrawalKeyValue (key : WithdrawalKey) : ClarityValue :=
  .tuple [("staker", .principal key.staker), ("signer-manager", .principal key.signerManager),
    ("request-id", .uint key.requestId)]

/-- A page as the contract writes it. -/
def withdrawalsPageValue (page : Page WithdrawalKey WithdrawalKey) : ClarityValue :=
  .response true (.tuple [("rows", .list (page.rows.map withdrawalKeyValue)),
    ("next", .optional (page.next.map withdrawalKeyValue))])

/-! ## Parsing them -/

/-- `WithdrawalKey::try_from`. -/
def withdrawalKeyTryFrom (value : ClarityValue) : Except Error WithdrawalKey := do
  let fields ← ClarityTuple.tryFrom value
  let (staker, fields) ← fields.removePrincipal "staker"
  let (signerManager, fields) ← fields.removePrincipal "signer-manager"
  let (requestId, _) ← fields.removeUint "request-id"
  pure ⟨staker, signerManager, requestId⟩

/-- `PendingWithdrawal`. -/
structure PendingWithdrawal where
  signerManager : ContractId
  item : WithdrawalItem
deriving DecidableEq, Repr

/-- `withdrawal_key`. -/
def PendingWithdrawal.withdrawalKey (withdrawal : PendingWithdrawal) : WithdrawalKey :=
  ⟨withdrawal.item.staker, .contract withdrawal.signerManager, withdrawal.item.requestId⟩

/-- `PendingWithdrawal::try_from`. -/
def PendingWithdrawal.tryFrom (value : ClarityValue) : Except Error PendingWithdrawal := do
  let fields ← ClarityTuple.tryFrom value
  let (signerManager, fields) ← fields.removePrincipal "signer-manager"
  match signerManager with
  | .contract signerManager => do
      let (staker, fields) ← fields.removePrincipal "staker"
      let (requestId, _) ← fields.removeUint "request-id"
      pure ⟨signerManager, ⟨staker, requestId⟩⟩
  | signerManager => .error (.unexpectedPrincipal signerManager)

/-- `PendingWithdrawalsPage::try_from`: the first row that does not parse
fails the page. -/
def pendingWithdrawalsPage (value : ClarityValue) :
    Except Error (Page WithdrawalKey PendingWithdrawal) := do
  let fields ← ClarityTuple.tryFrom value
  let (rows, fields) ← fields.removeList "rows"
  let withdrawals ← rows.mapM PendingWithdrawal.tryFrom
  let (next, _) ← fields.removeOption "next"
  let next ← next.mapM withdrawalKeyTryFrom
  pure ⟨withdrawals, next⟩

/-- A row parses if its signer-manager is a contract. -/
theorem tryFrom_withdrawalKeyValue {key : WithdrawalKey} {sm : ContractId}
    (h : key.signerManager = .contract sm) :
    PendingWithdrawal.tryFrom (withdrawalKeyValue key) =
      .ok ⟨sm, ⟨key.staker, key.requestId⟩⟩ := by
  obtain ⟨staker, signerManager, requestId⟩ := key
  have h : signerManager = .contract sm := h
  subst h
  rfl

/-! ## The client -/

/-- `get_pending_withdrawals` at the chain tip `w`. -/
def getPendingWithdrawals (views : Views σ) (w : World σ) (cursor : Option WithdrawalKey) :
    Except Error (Page WithdrawalKey PendingWithdrawal) := do
  let page ← callRead w (RewardClaims.getPendingWithdrawals views cursor)
  match withdrawalsPageValue page with
  | .response _ data => pendingWithdrawalsPage data
  | _ => .error (.invalidStacksResponse "expected a response")

/-- `get_all_pending_withdrawals`: its loop, within a number of calls. -/
def getAllPendingWithdrawals (views : Views σ) (w : World σ) (fuel : Nat) :
    Option (Except Error (List PendingWithdrawal)) :=
  pageThrough (getPendingWithdrawals views w) fuel [] none

/-- The withdrawal the client makes of a key. -/
def withdrawalAt (views : Views σ) (w : World σ) (key : WithdrawalKey) :
    Option PendingWithdrawal :=
  (readyRow views w key).bind fun row =>
    (PendingWithdrawal.tryFrom (withdrawalKeyValue row)).toOption

/-- A row of an indexed withdrawal parses, since its signer-manager is a
contract. -/
theorem tryFrom_readyRow (hstored : StoredWithdrawals views w) {key row : WithdrawalKey}
    (hrow : readyRow views w key = some row) :
    ∃ withdrawal, PendingWithdrawal.tryFrom (withdrawalKeyValue row) = .ok withdrawal ∧
      withdrawal.withdrawalKey = row ∧ row = key := by
  unfold readyRow at hrow
  split at hrow
  · next hready =>
      cases hrow
      unfold readyAt at hready
      split at hready
      · next height hheight =>
          obtain ⟨sm, hsm⟩ := (hstored key height hheight).signerManager
          refine ⟨_, tryFrom_withdrawalKeyValue hsm, ?_, rfl⟩
          rw [PendingWithdrawal.withdrawalKey, ← hsm]
      · cases hready
  · cases hrow

theorem withdrawalAt_map_key (hstored : StoredWithdrawals views w) (key : WithdrawalKey) :
    (withdrawalAt views w key).map PendingWithdrawal.withdrawalKey = readyRow views w key := by
  cases hrow : readyRow views w key with
  | none => rw [withdrawalAt, hrow]; rfl
  | some row =>
      obtain ⟨withdrawal, htry, hkey, -⟩ := tryFrom_readyRow hstored hrow
      rw [withdrawalAt, hrow, Option.bind_some, htry, ← hkey]
      rfl

theorem map_filterMap_withdrawalAt (hstored : StoredWithdrawals views w)
    (keys : List WithdrawalKey) :
    (keys.filterMap (withdrawalAt views w)).map PendingWithdrawal.withdrawalKey =
      keys.filterMap (readyRow views w) := by
  rw [List.map_filterMap]
  exact List.filterMap_congr fun key _ => withdrawalAt_map_key hstored key

/-- A page as the client reads it, from any cursor the walk hands out. -/
theorem getPendingWithdrawals_read (hfit : views.HeightsFit)
    (hstored : StoredWithdrawals views w) {cursor : Option WithdrawalKey}
    {ks : List WithdrawalKey}
    (h : Visits w.registry.pendingWithdrawalLl.next
      (cursor.or w.registry.pendingWithdrawalLl.head) ks) :
    getPendingWithdrawals views w cursor =
      .ok ⟨(ks.take 100).filterMap (withdrawalAt views w), (ks.drop 100).head?⟩ := by
  have hparse := mapM_parse (readyRow views w) withdrawalKeyValue PendingWithdrawal.tryFrom
    (fun key row hrow => by
      obtain ⟨withdrawal, htry, -, -⟩ := tryFrom_readyRow hstored hrow
      exact ⟨withdrawal, htry⟩) (ks.take 100)
  rw [getPendingWithdrawals, callRead, getPendingWithdrawals_page hfit hstored h]
  show (do
    let withdrawals ← (((ks.take 100).filterMap (readyRow views w)).map
      withdrawalKeyValue).mapM PendingWithdrawal.tryFrom
    let next ← ((ks.drop 100).head?.map withdrawalKeyValue).mapM withdrawalKeyTryFrom
    pure (Page.mk withdrawals next) : Except Error (Page WithdrawalKey PendingWithdrawal)) = _
  rw [hparse]
  cases (ks.drop 100).head? <;> rfl

/-- **The client finds every withdrawal that is ready to settle.** -/
theorem getPendingWithdrawals_readsAll (hfit : views.HeightsFit) (hinv : Inv base w)
    (hstored : StoredWithdrawals views w) :
    ReadsAll 100 (getPendingWithdrawals views w) (indexedKeys w) (readyAt views w)
      PendingWithdrawal.withdrawalKey ((indexedKeys w).filterMap (withdrawalAt views w)) :=
  readsAll_of_pages (by decide) hinv.visits_index indexedKeys_nodup
    (fun _ _ h => getPendingWithdrawals_read hfit hstored h)
    fun key _ => withdrawalAt_map_key hstored key

/-! ## Batches -/

/-- `WithdrawalsBatch`: the arguments of one `settle-pending-withdrawals`
call, without its `registry_contract`. -/
structure WithdrawalsBatch where
  signerManager : ContractId
  items : List WithdrawalItem
deriving DecidableEq, Repr

/-- The hash map `batch_withdrawals` builds. -/
def withdrawalGroups (withdrawals : List PendingWithdrawal) :
    List (ContractId × List WithdrawalItem) :=
  withdrawals.foldl
    (fun groups withdrawal => push withdrawal.signerManager withdrawal.item groups) []

/-- The loop of `batch_withdrawals` over its hash map, in the order
`iteration`. -/
def batchWithdrawals (iteration : List (ContractId × List WithdrawalItem)) :
    List WithdrawalsBatch :=
  (batches maxStakersLength iteration).map fun batch => ⟨batch.1, batch.2⟩

/-- The withdrawals a batch is made of. -/
def WithdrawalsBatch.entries (batch : WithdrawalsBatch) : List (ContractId × WithdrawalItem) :=
  batch.items.map fun item => (batch.signerManager, item)

theorem withdrawalGroups_eq (withdrawals : List PendingWithdrawal) :
    withdrawalGroups withdrawals = groupByKey
      (withdrawals.map fun withdrawal => (withdrawal.signerManager, withdrawal.item)) := by
  rw [groupByKey, List.foldl_map, withdrawalGroups]

theorem length_le_of_mem_batchWithdrawals {iteration : List (ContractId × List WithdrawalItem)}
    {batch : WithdrawalsBatch} (h : batch ∈ batchWithdrawals iteration) :
    batch.items.length ≤ 100 := by
  obtain ⟨b, hb, rfl⟩ := List.mem_map.mp h
  exact length_le_of_mem_batches hb

theorem ne_nil_of_mem_batchWithdrawals {iteration : List (ContractId × List WithdrawalItem)}
    {batch : WithdrawalsBatch} (h : batch ∈ batchWithdrawals iteration) : batch.items ≠ [] := by
  obtain ⟨b, hb, rfl⟩ := List.mem_map.mp h
  exact ne_nil_of_mem_batches (show 0 < maxStakersLength by decide) hb

/-- **Batches partition the withdrawals**, in whatever order the groups are
met and the batches are taken. -/
theorem batchWithdrawals_entries {withdrawals : List PendingWithdrawal}
    {iteration : List (ContractId × List WithdrawalItem)}
    (hiteration : iteration.Perm (withdrawalGroups withdrawals))
    {order : List WithdrawalsBatch} (horder : order.Perm (batchWithdrawals iteration)) :
    (order.flatMap WithdrawalsBatch.entries).Perm
      (withdrawals.map fun withdrawal => (withdrawal.signerManager, withdrawal.item)) := by
  rw [withdrawalGroups_eq] at hiteration
  have hentries := flatMap_batches_perm (show 0 < maxStakersLength by decide) hiteration
    (List.Perm.refl _)
  have horder := horder.flatMap_right WithdrawalsBatch.entries
  rw [batchWithdrawals, List.flatMap_map] at horder
  exact horder.trans hentries

/-- What holds of the listed signer-managers holds of those of the batches. -/
theorem batchWithdrawals_managers {withdrawals : List PendingWithdrawal}
    {iteration : List (ContractId × List WithdrawalItem)}
    (hiteration : iteration.Perm (withdrawalGroups withdrawals))
    {order : List WithdrawalsBatch} (horder : order.Perm (batchWithdrawals iteration))
    {p : ContractId → Prop} (h : ∀ withdrawal ∈ withdrawals, p withdrawal.signerManager) :
    (∀ entry ∈ order.flatMap WithdrawalsBatch.entries, p entry.1) ∧
      ∀ batch ∈ order, p batch.signerManager := by
  have hentries : ∀ entry ∈ order.flatMap WithdrawalsBatch.entries, p entry.1 := by
    intro entry hentry
    obtain ⟨withdrawal, hmem, rfl⟩ := List.mem_map.mp
      ((batchWithdrawals_entries hiteration horder).mem_iff.mp hentry)
    exact h withdrawal hmem
  refine ⟨hentries, fun batch hbatch => ?_⟩
  -- no batch is empty
  obtain ⟨item, hitem⟩ := List.exists_mem_of_ne_nil _
    (ne_nil_of_mem_batchWithdrawals (horder.mem_iff.mp hbatch))
  exact hentries (batch.signerManager, item)
    (List.mem_flatMap.mpr ⟨batch, hbatch, List.mem_map_of_mem hitem⟩)

end Spox.Keeper
