import Spox.Deposit.Monitor

/-!
# Deposit monitor — the requests

Which requests `get_pending_deposits` makes, and what they carry. Two
invariants meet here. The store maps a script pubkey to a deposit with that
script pubkey; and the transaction cache, which outlives the tick, holds for
a transaction and a block hash what the node answers for the two, so that it
makes no difference whether a transaction is read or found there, and none
whether the block has been reorganized away since.
-/

namespace Spox.Deposit

open Spox.Lib Spox.Client Spox.Sync

variable {δ ρ : Type} {crates : Crates δ ρ} {context : Context δ ρ} {chainTip : BlockRef}
  {raw : Txid → BlockHash → String} {m : DepositMonitor}

/-! ## A UTXO the monitor gets a request of -/

/-- The reads made for the UTXO at position `i` come out, with a deposit, the
hash of its block and its transaction. A transaction that is cached is not
read from the node. -/
structure Obtained (crates : Crates δ ρ) (context : Context δ ρ) (chainTip : BlockRef)
    (m : DepositMonitor) (i : Nat) (utxo : Utxo) (deposit : MonitoredDeposit δ ρ)
    (blockHash : BlockHash) (txHex : String) : Prop where
  monitored : context.storage.store.monitored utxo.scriptPubKey = some deposit
  unexpired : chainTip.blockHeight < (utxo.blockHeight +
    (crates.lockTime deposit.reclaimScriptInputs).toNat) % u64Bound
  block : context.bitcoinClient.getBlockHash i utxo.blockHeight = .ok blockHash
  transaction : m.txHexCache.peek (utxo.txid, blockHash) = some txHex ∨
    m.txHexCache.peek (utxo.txid, blockHash) = none ∧
      context.bitcoinClient.getRawTransactionHex i utxo.txid blockHash = .ok txHex

theorem mapErr_ok {α : Type} {answer : Except RpcError α} {a : α} :
    mapErr answer = .ok a ↔ answer = .ok a := by
  cases answer <;> simp [mapErr]

theorem unexpiredDeposit_ok (hstore : context.storage.poisoned = false) {i : Nat} {utxo : Utxo}
    {deposit : MonitoredDeposit δ ρ} {blockHash : BlockHash} :
    unexpiredDeposit crates context chainTip i utxo = .ok (deposit, blockHash) ↔
      context.storage.store.monitored utxo.scriptPubKey = some deposit ∧
      chainTip.blockHeight < (utxo.blockHeight +
        (crates.lockTime deposit.reclaimScriptInputs).toNat) % u64Bound ∧
      context.bitcoinClient.getBlockHash i utxo.blockHeight = .ok blockHash := by
  have hget : context.storage.getByScript utxo.scriptPubKey =
      .ok (context.storage.store.monitored utxo.scriptPubKey) := by
    rw [SharedStore.getByScript, context.storage.lock_of_not_poisoned hstore]
    rfl
  rw [unexpiredDeposit, hget]
  cases context.storage.store.monitored utxo.scriptPubKey with
  | none => simp [bind, Except.bind]
  | some found =>
      by_cases hexpired : (utxo.blockHeight +
          (crates.lockTime found.reclaimScriptInputs).toNat) % u64Bound ≤ chainTip.blockHeight
      · simp only [bind, Except.bind, if_pos hexpired]
        constructor
        · intro h
          cases h
        · intro h
          obtain ⟨hfound, hunexpired, -⟩ := h
          cases hfound
          omega
      · simp only [bind, Except.bind, if_neg hexpired]
        cases hhash : mapErr (context.bitcoinClient.getBlockHash i utxo.blockHeight) with
        | error error => simp [← mapErr_ok, hhash]
        | ok hash =>
            simp only [pure, Except.pure, Except.ok.injEq, Prod.mk.injEq, Option.some.injEq,
              ← mapErr_ok, hhash]
            constructor
            · intro h
              obtain ⟨rfl, rfl⟩ := h
              exact ⟨rfl, Nat.lt_of_not_le hexpired, rfl⟩
            · intro h
              exact ⟨h.1, h.2.2⟩

/-- **A request is made of what is obtained.** -/
theorem getDepositFromUtxo_ok (hstore : context.storage.poisoned = false) {i : Nat}
    {utxo : Utxo} {request : CreateDepositRequestBody} :
    (getDepositFromUtxo crates context chainTip i utxo m).1 = .ok request ↔
      ∃ deposit blockHash txHex,
        Obtained crates context chainTip m i utxo deposit blockHash txHex ∧
        request = depositRequest crates utxo deposit txHex := by
  have hdeposit : ∀ deposit blockHash,
      unexpiredDeposit crates context chainTip i utxo = .ok (deposit, blockHash) ↔ _ :=
    fun deposit blockHash => unexpiredDeposit_ok hstore
  unfold getDepositFromUtxo
  cases hfound : unexpiredDeposit crates context chainTip i utxo with
  | error error =>
      constructor
      · intro h
        cases h
      · intro h
        obtain ⟨deposit, blockHash, txHex, hobtained, -⟩ := h
        have hok := (hdeposit deposit blockHash).mpr
          ⟨hobtained.monitored, hobtained.unexpired, hobtained.block⟩
        rw [hfound] at hok
        cases hok
  | ok found =>
      obtain ⟨deposit, blockHash⟩ := found
      obtain ⟨hmonitored, hunexpired, hblock⟩ := (hdeposit deposit blockHash).mp hfound
      show Except.map (depositRequest crates utxo deposit)
        (m.txHexCache.tryGetOrInsert (utxo.txid, blockHash) _).1 = .ok request ↔ _
      have hmap : ∀ txHex : Except Error String,
          Except.map (depositRequest crates utxo deposit) txHex = .ok request ↔
            ∃ hex, txHex = .ok hex ∧ request = depositRequest crates utxo deposit hex := by
        intro txHex
        cases txHex <;> simp [Except.map, eq_comm]
      rw [hmap]
      constructor
      · intro h
        obtain ⟨txHex, hread, rfl⟩ := h
        rw [Lru.tryGetOrInsert_ok, mapErr_ok] at hread
        exact ⟨deposit, blockHash, txHex, ⟨hmonitored, hunexpired, hblock, hread⟩, rfl⟩
      · intro h
        obtain ⟨deposit', blockHash', txHex, hobtained, rfl⟩ := h
        have hok := (hdeposit deposit' blockHash').mpr
          ⟨hobtained.monitored, hobtained.unexpired, hobtained.block⟩
        rw [hfound] at hok
        cases hok
        refine ⟨txHex, ?_, rfl⟩
        rw [Lru.tryGetOrInsert_ok, mapErr_ok]
        exact hobtained.transaction

/-! ## One UTXO -/

theorem getDepositFromUtxo_createdDeposits (i : Nat) (utxo : Utxo) (m : DepositMonitor) :
    (getDepositFromUtxo crates context chainTip i utxo m).2.createdDeposits =
      m.createdDeposits := by
  unfold getDepositFromUtxo
  split <;> rfl

/-- Looking at a UTXO only refreshes what was created. -/
theorem pendingDeposit_createdDeposits (i : Nat) (utxo : Utxo) (m : DepositMonitor) :
    (pendingDeposit crates context chainTip i utxo m).2.createdDeposits =
      (m.createdDeposits.get (utxo.txid, utxo.vout)).2 := by
  unfold pendingDeposit
  simp only
  split
  · rfl
  · rw [getDepositFromUtxo_createdDeposits]

theorem pendingDeposit_some (hstore : context.storage.poisoned = false) {i : Nat} {utxo : Utxo}
    {request : CreateDepositRequestBody} :
    (pendingDeposit crates context chainTip i utxo m).1 = some request ↔
      (utxo.txid, utxo.vout) ∉ m.createdDeposits.keys ∧ ∃ deposit blockHash txHex,
        Obtained crates context chainTip m i utxo deposit blockHash txHex ∧
        request = depositRequest crates utxo deposit txHex := by
  rw [← getDepositFromUtxo_ok hstore]
  unfold pendingDeposit
  by_cases hcreated : (utxo.txid, utxo.vout) ∈ m.createdDeposits.keys
  · have hfound : (m.createdDeposits.get (utxo.txid, utxo.vout)).1.isSome = true := by
      rw [Lru.fst_get]
      exact Lru.isSome_peek.mpr hcreated
    simp [hfound, hcreated]
  · rw [Lru.get_of_not_mem hcreated]
    show (getDepositFromUtxo crates context chainTip i utxo m).1.toOption = some request ↔ _
    cases (getDepositFromUtxo crates context chainTip i utxo m).1 <;>
      simp [Except.toOption, hcreated]

/-! ## The transaction cache -/

section Cache

variable {p : Txid × BlockHash → String → Prop}

/-- What the node answers for a transaction and a block satisfies `p`. -/
def BitcoinRpc.Answers (p : Txid × BlockHash → String → Prop) (rpc : BitcoinRpc) : Prop :=
  ∀ i txid blockHash txHex, rpc.getRawTransactionHex i txid blockHash = .ok txHex →
    p (txid, blockHash) txHex

theorem pendingDeposit_cache (h : m.txHexCache.All p)
    (hanswers : context.bitcoinClient.Answers p) (i : Nat) (utxo : Utxo) :
    (pendingDeposit crates context chainTip i utxo m).2.txHexCache.All p := by
  have hread : ∀ blockHash v, mapErr (context.bitcoinClient.getRawTransactionHex i utxo.txid
      blockHash) = .ok v → p (utxo.txid, blockHash) v := fun blockHash v hv =>
    hanswers i _ _ v (mapErr_ok.mp hv)
  unfold pendingDeposit
  simp only
  split
  · exact h
  · unfold getDepositFromUtxo
    split
    · exact h
    · next deposit blockHash _ => exact (h.tryGetOrInsert (hread blockHash)).1

theorem Obtained.cached {i : Nat} {utxo : Utxo} {deposit : MonitoredDeposit δ ρ}
    {blockHash : BlockHash} {txHex : String}
    (h : Obtained crates context chainTip m i utxo deposit blockHash txHex)
    (hcache : m.txHexCache.All p) (hanswers : context.bitcoinClient.Answers p) :
    p (utxo.txid, blockHash) txHex := by
  rcases h.transaction with hcached | ⟨-, hread⟩
  · exact hcache.peek hcached
  · exact hanswers i _ _ _ hread

theorem depositCreated_txHexCache (bitcoinTxid : String) (vout : Nat) (m : DepositMonitor) :
    (m.depositCreated crates bitcoinTxid vout).txHexCache = m.txHexCache := by
  unfold DepositMonitor.depositCreated
  split <;> rfl

theorem createDeposit_txHexCache (emily : Nat → CreateDepositRequestBody → Bool) (i : Nat)
    (deposit : CreateDepositRequestBody) (m : DepositMonitor) :
    (createDeposit crates emily i deposit m).2.txHexCache = m.txHexCache := by
  unfold createDeposit
  split
  · exact depositCreated_txHexCache _ _ m
  · rfl

/-- The states `get_pending_deposits` goes through. -/
theorem pendingDeposits_cache (h : m.txHexCache.All p)
    (hanswers : context.bitcoinClient.Answers p) (utxos : List Utxo) :
    (filterMapFrom (pendingDeposit crates context chainTip) 0 utxos m).2.txHexCache.All p :=
  filterMapFrom_keeps (fun m : DepositMonitor => m.txHexCache.All p)
    (fun k utxo _ _ h => pendingDeposit_cache h hanswers k utxo) h

theorem fetchAndCreateDeposits_cache (h : m.txHexCache.All p)
    (hanswers : context.bitcoinClient.Answers p)
    (emily : Nat → CreateDepositRequestBody → Bool) :
    (fetchAndCreateDeposits crates context chainTip emily m).2.txHexCache.All p := by
  have hpending : (getPendingDeposits crates context chainTip m).2.txHexCache.All p := by
    unfold getPendingDeposits
    split
    · exact h
    · exact h
    · exact pendingDeposits_cache h hanswers _
  unfold fetchAndCreateDeposits
  split
  · next error m' heq =>
      rw [heq] at hpending
      exact hpending
  · next deposits m' heq =>
      rw [heq] at hpending
      refine filterMapFrom_keeps (fun m : DepositMonitor => m.txHexCache.All p) ?_ hpending
      intro k deposit s _ hs
      rw [createDeposit_txHexCache]
      exact hs

end Cache

/-! ## Ticks -/

/-- What a tick meets: the context and the answers of Emily. -/
structure Tick (δ ρ : Type) where
  context : Context δ ρ
  chainTip : BlockRef
  emily : Nat → CreateDepositRequestBody → Bool

/-- One tick. -/
def Tick.run (crates : Crates δ ρ) (tick : Tick δ ρ) (m : DepositMonitor) :
    (Except Error Unit × List (CreateDepositRequestBody × Bool)) × DepositMonitor :=
  fetchAndCreateDeposits crates tick.context tick.chainTip tick.emily m

/-- The monitor after some ticks. -/
def afterTicks (crates : Crates δ ρ) (ticks : List (Tick δ ρ)) : DepositMonitor :=
  ticks.foldl (fun m tick => (tick.run crates m).2) .new

theorem afterTicks_cache {p : Txid × BlockHash → String → Prop} {ticks : List (Tick δ ρ)}
    (hanswers : ∀ tick ∈ ticks, tick.context.bitcoinClient.Answers p) :
    (afterTicks crates ticks).txHexCache.All p := by
  have hfold : ∀ m : DepositMonitor, m.txHexCache.All p →
      (ticks.foldl (fun m tick => (tick.run crates m).2) m).txHexCache.All p := by
    induction ticks with
    | nil => exact fun _ h => h
    | cons tick ticks ih =>
        intro m h
        exact ih (fun tick' htick' => hanswers tick' (List.mem_cons_of_mem tick htick')) _
          (fetchAndCreateDeposits_cache h (hanswers tick List.mem_cons_self) tick.emily)
  exact hfold .new (Lru.All.empty p)

/-! ## The requests of a tick -/

/-- What a scan fetches. -/
structure Scans (context : Context δ ρ) (utxos : List Utxo) : Prop where
  mode : context.nodeWallet = false
  idle : context.bitcoinClient.scanTxOutSetScanning = .ok false
  result : context.bitcoinClient.scanTxOutSetBlocking context.iteration =
    .ok ⟨some true, utxos⟩

/-- The hash map is met key by key. -/
def Context.Iterates (context : Context δ ρ) : Prop :=
  ∀ script, script ∈ context.iteration ↔
    (context.storage.store.monitored script).isSome = true

theorem fetchUtxos_eq (hstore : context.storage.poisoned = false) {utxos : List Utxo}
    (hutxos : getUtxos context chainTip context.iteration = .ok utxos) :
    fetchUtxos context chainTip =
      .ok (if context.iteration.isEmpty then none else some utxos) := by
  rw [fetchUtxos, SharedStore.getScripts, context.storage.lock_of_not_poisoned hstore]
  show (if context.iteration.isEmpty then pure none else do
    let utxos ← getUtxos context chainTip context.iteration
    pure (some utxos) : Except Error (Option (List Utxo))) = _
  rw [hutxos]
  cases context.iteration.isEmpty <;> rfl

theorem fetchUtxos_of_poisoned (hstore : context.storage.poisoned = true) :
    fetchUtxos context chainTip = .error .poisonedMutex := by
  rw [fetchUtxos, SharedStore.getScripts, context.storage.lock_of_poisoned hstore]
  rfl

/-- The node has answered with the output as an unspent one: from its wallet
if there is one, else to the scan for the monitored scripts. -/
def Context.Lists (context : Context δ ρ) (utxo : Utxo) : Prop :=
  if context.nodeWallet then
    ∃ entries, context.bitcoinClient.listUnspent = .ok entries ∧ ∃ entry ∈ entries,
      entry.txid = utxo.txid ∧ entry.vout = utxo.vout ∧
        entry.scriptPubKey = utxo.scriptPubKey ∧ entry.amount = utxo.amount
  else
    ∃ unspents, context.bitcoinClient.scanTxOutSetBlocking context.iteration =
      .ok ⟨some true, unspents⟩ ∧ utxo ∈ unspents

theorem scanTxOutSet_ok {rpc : BitcoinRpc} {addresses : List Script} {utxos : List Utxo}
    (h : scanTxOutSet rpc addresses = .ok utxos) :
    rpc.scanTxOutSetBlocking addresses = .ok ⟨some true, utxos⟩ := by
  unfold scanTxOutSet at h
  split at h
  · split at h <;> cases h
  · next result hresult =>
      split at h
      · next hsuccess =>
          cases h
          rw [hresult, ← hsuccess]
      · cases h

/-- What is fetched is what the node has answered with. -/
theorem getUtxos_lists {utxos : List Utxo}
    (h : getUtxos context chainTip context.iteration = .ok utxos) {utxo : Utxo}
    (hmem : utxo ∈ utxos) : context.Lists utxo := by
  unfold Context.Lists
  rw [getUtxos] at h
  cases hmode : context.nodeWallet with
  | true =>
      rw [hmode, if_pos rfl] at h
      cases hlist : context.bitcoinClient.listUnspent with
      | error error =>
          rw [hlist] at h
          cases h
      | ok entries =>
          rw [hlist] at h
          cases h
          obtain ⟨entry, hentry, hsome⟩ := List.mem_filterMap.mp hmem
          unfold watchedUtxo at hsome
          split at hsome
          · cases hsome
            exact ⟨entries, rfl, entry, hentry, rfl, rfl, rfl, rfl⟩
          · cases hsome
  | false =>
      rw [hmode, if_neg Bool.false_ne_true] at h
      cases hidle : context.bitcoinClient.scanTxOutSetScanning with
      | error error =>
          rw [hidle] at h
          cases h
      | ok scanning =>
          rw [hidle] at h
          cases scanning with
          | true => cases h
          | false => exact ⟨utxos, scanTxOutSet_ok h, hmem⟩

theorem fetchUtxos_lists {utxos : List Utxo}
    (h : fetchUtxos context chainTip = .ok (some utxos)) {utxo : Utxo} (hmem : utxo ∈ utxos) :
    context.Lists utxo := by
  cases hstore : context.storage.poisoned with
  | true =>
      rw [fetchUtxos_of_poisoned hstore] at h
      cases h
  | false =>
      cases hutxos : getUtxos context chainTip context.iteration with
      | ok fetched =>
          rw [fetchUtxos_eq hstore hutxos] at h
          split at h
          · cases h
          · cases h
            exact getUtxos_lists hutxos hmem
      | error error =>
          rw [fetchUtxos, SharedStore.getScripts, context.storage.lock_of_not_poisoned hstore] at h
          revert h
          show (if context.iteration.isEmpty then pure none else do
            let utxos ← getUtxos context chainTip context.iteration
            pure (some utxos) : Except Error (Option (List Utxo))) = _ → _
          rw [hutxos]
          cases context.iteration.isEmpty <;> exact fun h => by cases h

theorem Scans.getUtxos {utxos : List Utxo} (h : Scans context utxos) :
    Deposit.getUtxos context chainTip context.iteration = .ok utxos := by
  rw [Deposit.getUtxos, h.mode, h.idle]
  show scanTxOutSet context.bitcoinClient context.iteration = .ok utxos
  rw [scanTxOutSet, h.result]
  rfl

/-- A store that monitors nothing has no script to meet. -/
theorem Context.Iterates.monitored_of_isEmpty (h : context.Iterates)
    (hempty : context.iteration.isEmpty = true) (script : Script) :
    context.storage.store.monitored script = none := by
  rw [← Option.not_isSome_iff_eq_none, ← h script, List.isEmpty_iff.mp hempty]
  exact List.not_mem_nil

/-- A UTXO that a request is made of: it is monitored, has not been created
and is not expired, and the reads of its block hash and of its transaction
come out. The monitor is `m₀` when the tick starts and `m` when it comes to
the UTXO, at position `i`. -/
structure Eligible (crates : Crates δ ρ) (context : Context δ ρ) (chainTip : BlockRef)
    (m₀ m : DepositMonitor) (i : Nat) (utxo : Utxo) : Prop where
  fresh : (utxo.txid, utxo.vout) ∉ m₀.createdDeposits.keys
  unexpired : ∃ deposit, context.storage.store.monitored utxo.scriptPubKey = some deposit ∧
    chainTip.blockHeight <
      utxo.blockHeight + (crates.lockTime deposit.reclaimScriptInputs).toNat
  reads : ∃ blockHash, context.bitcoinClient.getBlockHash i utxo.blockHeight = .ok blockHash ∧
    ((m.txHexCache.peek (utxo.txid, blockHash)).isSome = true ∨
      ∃ txHex, context.bitcoinClient.getRawTransactionHex i utxo.txid blockHash = .ok txHex)

/-- What the request of a UTXO carries: its outpoint, its transaction in the
block of that hash, and two scripts of an added deposit that make its script
pubkey. -/
structure Carries (crates : Crates δ ρ) (raw : Txid → BlockHash → String)
    (deposits : List (MonitoredDeposit δ ρ)) (rpc : BitcoinRpc) (i : Nat) (utxo : Utxo)
    (request : CreateDepositRequestBody) : Prop where
  txid : request.bitcoinTxid = crates.txidToString utxo.txid
  vout : request.bitcoinTxOutputIndex = utxo.vout
  transaction : ∃ blockHash, rpc.getBlockHash i utxo.blockHeight = .ok blockHash ∧
    request.transactionHex = raw utxo.txid blockHash
  scripts : ∃ deposit ∈ deposits,
    request.depositScript = crates.toHexString
      (crates.depositScript deposit.depositScriptInputs) ∧
    request.reclaimScript = crates.toHexString
      (crates.reclaimScript deposit.reclaimScriptInputs) ∧
    crates.toScriptPubkey (crates.depositScript deposit.depositScriptInputs)
      (crates.reclaimScript deposit.reclaimScriptInputs) = utxo.scriptPubKey

/-- The monitor when it comes to the UTXO at position `i`. -/
def monitorAt (crates : Crates δ ρ) (context : Context δ ρ) (chainTip : BlockRef)
    (utxos : List Utxo) (m : DepositMonitor) (i : Nat) : DepositMonitor :=
  stateAt (pendingDeposit crates context chainTip) 0 utxos m i

/-- Looking at UTXOs forgets nothing that was created. -/
theorem mem_created_monitorAt {utxos : List Utxo} {i : Nat} {outpoint : Txid × Nat} :
    outpoint ∈ (monitorAt crates context chainTip utxos m i).createdDeposits.keys ↔
      outpoint ∈ m.createdDeposits.keys :=
  stateAt_keeps (fun s : DepositMonitor => outpoint ∈ s.createdDeposits.keys ↔
      outpoint ∈ m.createdDeposits.keys)
    (fun k utxo s _ h => by
      rw [pendingDeposit_createdDeposits, Lru.mem_keys_get]
      exact h) Iff.rfl i

/-- Nor does it put anything into the transaction cache that the node does not
answer. -/
theorem monitorAt_cache {p : Txid × BlockHash → String → Prop} (h : m.txHexCache.All p)
    (hanswers : context.bitcoinClient.Answers p) {utxos : List Utxo} (i : Nat) :
    (monitorAt crates context chainTip utxos m i).txHexCache.All p :=
  stateAt_keeps (fun s : DepositMonitor => s.txHexCache.All p)
    (fun k utxo _ _ hs => pendingDeposit_cache hs hanswers k utxo) h i

theorem unexpired_iff {utxo : Utxo} (hheight : utxo.blockHeight < 2 ^ 32) (lockTime : UInt32) :
    chainTip.blockHeight < (utxo.blockHeight + lockTime.toNat) % u64Bound ↔
      chainTip.blockHeight < utxo.blockHeight + lockTime.toNat := by
  have hlock : lockTime.toNat < 2 ^ 32 := lockTime.toNat_lt
  have hbound : u64Bound = 2 ^ 64 := rfl
  rw [Nat.mod_eq_of_lt (by omega)]

theorem isSome_pendingDeposit (hstore : context.storage.poisoned = false)
    {m₀ : DepositMonitor} {i : Nat} {utxo : Utxo} (hheight : utxo.blockHeight < 2 ^ 32)
    (hcreated : (utxo.txid, utxo.vout) ∈ m.createdDeposits.keys ↔
      (utxo.txid, utxo.vout) ∈ m₀.createdDeposits.keys) :
    (pendingDeposit crates context chainTip i utxo m).1.isSome = true ↔
      Eligible crates context chainTip m₀ m i utxo := by
  rw [Option.isSome_iff_exists]
  constructor
  · intro h
    obtain ⟨request, hrequest⟩ := h
    obtain ⟨hfresh, deposit, blockHash, txHex, hobtained, -⟩ :=
      (pendingDeposit_some hstore).mp hrequest
    refine ⟨fun hmem => hfresh (hcreated.mpr hmem), ⟨deposit, hobtained.monitored,
      (unexpired_iff hheight _).mp hobtained.unexpired⟩, blockHash, hobtained.block, ?_⟩
    rcases hobtained.transaction with hcached | ⟨-, hread⟩
    · exact .inl (by rw [hcached]; rfl)
    · exact .inr ⟨txHex, hread⟩
  · intro h
    obtain ⟨deposit, hmonitored, hunexpired⟩ := h.unexpired
    obtain ⟨blockHash, hblock, hread⟩ := h.reads
    have htransaction : ∃ txHex, m.txHexCache.peek (utxo.txid, blockHash) = some txHex ∨
        m.txHexCache.peek (utxo.txid, blockHash) = none ∧
          context.bitcoinClient.getRawTransactionHex i utxo.txid blockHash = .ok txHex := by
      cases hpeek : m.txHexCache.peek (utxo.txid, blockHash) with
      | some txHex => exact ⟨txHex, .inl rfl⟩
      | none =>
          rw [hpeek] at hread
          obtain ⟨txHex, hread⟩ := hread.resolve_left (by simp)
          exact ⟨txHex, .inr ⟨rfl, hread⟩⟩
    obtain ⟨txHex, htransaction⟩ := htransaction
    refine ⟨_, (pendingDeposit_some hstore).mpr ⟨fun hmem => h.fresh (hcreated.mp hmem),
      deposit, blockHash, txHex, ⟨hmonitored, ?_, hblock, htransaction⟩, rfl⟩⟩
    exact (unexpired_iff hheight _).mpr hunexpired

theorem Obtained.carries {deposits : List (MonitoredDeposit δ ρ)} {i : Nat} {utxo : Utxo}
    {deposit : MonitoredDeposit δ ρ} {blockHash : BlockHash} {txHex : String}
    (h : Obtained crates context chainTip m i utxo deposit blockHash txHex)
    (hstore : ∀ script, context.storage.store.monitored script =
      deposits.find? fun deposit => deposit.toScriptPubkey crates.sbtc = script)
    (htx : txHex = raw utxo.txid blockHash) :
    Carries crates raw deposits context.bitcoinClient i utxo
      (depositRequest crates utxo deposit txHex) := by
  have hfind := h.monitored
  rw [hstore] at hfind
  refine ⟨rfl, rfl, ⟨blockHash, h.block, htx⟩, deposit, List.mem_of_find?_eq_some hfind, rfl,
    rfl, ?_⟩
  exact of_decide_eq_true (List.find?_some hfind :)

/-- **The requests of a tick are exactly the right ones.** In a scan, after
any ticks against a node that answers with the transaction of the block or
fails, there is one request for each eligible UTXO, in the order of the
UTXOs, and no other; and it carries what its UTXO says. -/
theorem exact_deposit_requests {deposits : List (MonitoredDeposit δ ρ)}
    (hstore : deposits.foldlM (fun (shared : SharedStore δ ρ) deposit =>
      shared.add crates.sbtc deposit) SharedStore.newShared = .ok context.storage)
    (hiteration : context.Iterates) {ticks : List (Tick δ ρ)}
    (hticks : ∀ tick ∈ ticks, tick.context.bitcoinClient.Answers
      fun key txHex => txHex = raw key.1 key.2)
    (hnode : context.bitcoinClient.Answers fun key txHex => txHex = raw key.1 key.2)
    (chainTip : BlockRef) {utxos : List Utxo} (hscan : Scans context utxos)
    (hheights : ∀ utxo ∈ utxos, utxo.blockHeight < 2 ^ 32) :
    ∃ requests m', getPendingDeposits crates context chainTip (afterTicks crates ticks) =
        (.ok requests, m') ∧
      ∃ answer : Nat → Option CreateDepositRequestBody,
        requests = (List.range utxos.length).filterMap answer ∧
        ∀ i utxo, utxos[i]? = some utxo →
          ((answer i).isSome = true ↔
            Eligible crates context chainTip (afterTicks crates ticks)
              (monitorAt crates context chainTip utxos (afterTicks crates ticks) i) i utxo) ∧
          ∀ request, answer i = some request →
            Carries crates raw deposits context.bitcoinClient i utxo request := by
  obtain ⟨hfree, hmonitored⟩ := SharedStore.monitored_of_adds _ hstore rfl
  simp only [SharedStore.newShared, Option.none_or] at hmonitored
  have hfetch : fetchUtxos context chainTip = _ := fetchUtxos_eq hfree hscan.getUtxos
  generalize hm : afterTicks crates ticks = m
  have hcache : m.txHexCache.All fun key txHex => txHex = raw key.1 key.2 :=
    hm ▸ afterTicks_cache hticks
  cases hempty : context.iteration.isEmpty with
  | true =>
      -- nothing is fetched, and nothing is monitored
      rw [hempty, if_pos rfl] at hfetch
      refine ⟨[], m, by rw [getPendingDeposits, hfetch], fun _ => none,
        (List.filterMap_eq_nil_iff.mpr fun _ _ => rfl).symm,
        fun i utxo _ => ⟨⟨fun h => Bool.noConfusion h, ?_⟩, ?_⟩⟩
      · intro h
        obtain ⟨deposit, hdeposit, -⟩ := h.unexpired
        rw [hiteration.monitored_of_isEmpty hempty] at hdeposit
        cases hdeposit
      · intro request hrequest
        cases hrequest
  | false =>
      rw [hempty, if_neg (by simp)] at hfetch
      refine ⟨_, _, by rw [getPendingDeposits, hfetch], _, fst_filterMapFrom 0 utxos m, ?_⟩
      intro i utxo hutxo
      rw [Nat.zero_add, hutxo, Option.bind_some]
      refine ⟨isSome_pendingDeposit hfree (hheights utxo (List.mem_of_getElem? hutxo))
        mem_created_monitorAt, ?_⟩
      intro request hrequest
      obtain ⟨-, deposit, blockHash, txHex, hobtained, rfl⟩ :=
        (pendingDeposit_some hfree).mp hrequest
      exact hobtained.carries hmonitored
        (hobtained.cached (monitorAt_cache hcache hnode i) hnode)

namespace Sample

/-- The transaction as the block of a fork has it, and as the chain has it. -/
def rawForked : Txid → BlockHash → String := fun _ blockHash =>
  if blockHash = 2000 then "01" else "02"

/-- The node while it follows the fork. -/
def forkedNode : BitcoinRpc :=
  { node with
    getBlockHash := fun _ height => .ok (BitVec.ofNat 256 (height + 1000))
    getRawTransactionHex := fun _ txid blockHash =>
      if txid = 7 ∧ blockHash = 2000 then .ok (rawForked txid blockHash)
      else .error ⟨some (-5)⟩ }

/-- The node when it finds no transaction any more. -/
def prunedNode : BitcoinRpc := { node with getRawTransactionHex := fun _ _ _ => .error ⟨none⟩ }

def prunedContext : Context Script Script := { Sample.context with bitcoinClient := prunedNode }

/-- One tick on the fork and one after the reorg; Emily takes nothing. -/
def forkTicks : List (Tick Script Script) :=
  [⟨{ Sample.context with bitcoinClient := forkedNode }, Sample.chainTip, fun _ _ => false⟩,
    ⟨Sample.context, Sample.chainTip, fun _ _ => false⟩]

theorem forkTicks_answer : ∀ tick ∈ forkTicks, tick.context.bitcoinClient.Answers
    fun key txHex => txHex = rawForked key.1 key.2 := by
  intro tick htick i txid blockHash txHex hread
  simp only [forkTicks, List.mem_cons, List.not_mem_nil, or_false] at htick
  rcases htick with rfl | rfl
  · simp only [forkedNode] at hread
    split at hread
    · cases hread
      rfl
    · cases hread
  · simp only [Sample.context, node] at hread
    split at hread
    · next h =>
        cases hread
        rw [h.2]
        rfl
    · cases hread

theorem iterates : prunedContext.Iterates := by
  intro script
  show script ∈ [scriptPubkey] ↔ (Function.update (fun _ => none)
    scriptPubkey (some deposit) script).isSome = true
  by_cases hscript : script = scriptPubkey
  · subst hscript
    simp
  · simp [hscript]

end Sample

/-- Two ticks have read the output's transaction, on a fork and after the
reorg. The third cannot read it, and its request carries the cached text of
the block in the chain. -/
theorem exact_deposit_requests_reorg :
    (afterTicks Sample.crates Sample.forkTicks).txHexCache.peek (7, 2000) = some "01" ∧
    ∃ requests m', getPendingDeposits Sample.crates
        Sample.prunedContext Sample.chainTip (afterTicks Sample.crates Sample.forkTicks) =
          (.ok requests, m') ∧
      ∃ request ∈ requests, request.transactionHex = "02" ∧
        Carries Sample.crates Sample.rawForked [Sample.deposit] Sample.prunedNode 0
          Sample.utxo request := by
  have hpruned : Sample.prunedNode.Answers
      fun key txHex => txHex = Sample.rawForked key.1 key.2 := by
    intro i txid blockHash txHex hread
    cases hread
  have hstore : [Sample.deposit].foldlM (fun (shared : SharedStore Script Script) deposit =>
      shared.add Sample.crates.sbtc deposit) SharedStore.newShared =
      .ok Sample.prunedContext.storage := rfl
  have hscan : Scans Sample.prunedContext [Sample.utxo] := ⟨rfl, rfl, rfl⟩
  obtain ⟨requests, m', hrun, answer, rfl, hanswer⟩ :=
    exact_deposit_requests hstore Sample.iterates Sample.forkTicks_answer hpruned Sample.chainTip
      hscan (by decide)
  obtain ⟨hiff, hcarries⟩ := hanswer 0 Sample.utxo rfl
  have heligible : (answer 0).isSome = true := by
    refine hiff.mpr ⟨by decide, ⟨Sample.deposit, ?_, by decide⟩, 1000, rfl, .inl rfl⟩
    exact Function.update_self Sample.scriptPubkey (some Sample.deposit) fun _ => none
  obtain ⟨request, hrequest⟩ := Option.isSome_iff_exists.mp heligible
  have hcarried := hcarries request hrequest
  obtain ⟨blockHash, hblock, htext⟩ := hcarried.transaction
  cases hblock
  refine ⟨rfl, _, m', hrun, request, ?_, htext, hcarried⟩
  exact List.mem_filterMap.mpr ⟨0, List.mem_range.mpr Nat.one_pos, hrequest⟩

end Spox.Deposit
