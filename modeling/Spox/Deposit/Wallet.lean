import Spox.Deposit.Requests

/-!
# Deposit monitor — the wallet

With a node wallet, `get_utxos` lists the unspent outputs of the wallet and
puts their heights together from the confirmations and a chain tip that was
fetched earlier. Against a node that serves a chain (`Chain.Serves`), a height
that is off by any lag is harmless: the transaction is not in the block at
that height, so that no request comes of it.
-/

namespace Spox.Deposit

open Spox.Lib Spox.Client Spox.Sync

/-! ## The chain -/

/-- A chain up to `height`: its blocks, the one that each transaction lies in,
and the outputs that are unspent. -/
structure Chain where
  height : Nat
  blockHash : Nat → BlockHash
  heightOf : Txid → Option Nat
  rawTransaction : Txid → String
  unspents : List Utxo
  blockHash_inj : ∀ h ≤ height, ∀ k ≤ height, blockHash h = blockHash k → h = k
  heightOf_le : ∀ txid h, heightOf txid = some h → h ≤ height
  confirmed : ∀ utxo ∈ unspents, heightOf utxo.txid = some utxo.blockHeight

namespace Chain

variable (chain : Chain)

/-- The wallet's entry for an output, with `height - h + 1` confirmations. -/
def entry (utxo : Utxo) : ListUnspentResultEntry where
  txid := utxo.txid
  vout := utxo.vout
  scriptPubKey := utxo.scriptPubKey
  amount := utxo.amount
  confirmations := chain.height - utxo.blockHeight + 1

/-- The hex of a transaction for one of the blocks of the chain is right: the
transaction lies in that block. -/
def Correct (key : Txid × BlockHash) (txHex : String) : Prop :=
  ∀ h ≤ chain.height, key.2 = chain.blockHash h →
    chain.heightOf key.1 = some h ∧ txHex = chain.rawTransaction key.1

/-- The node serves the chain: a scan finds the outputs of the scripts it is
asked for, the wallet those of the scripts `imported`, and a transaction is
found in its block only. -/
structure Serves (imported scripts : List Script) (rpc : BitcoinRpc) : Prop where
  idle : rpc.scanTxOutSetScanning = .ok false
  scan : ∃ utxos, rpc.scanTxOutSetBlocking scripts = .ok ⟨some true, utxos⟩ ∧
    utxos.Perm (chain.unspents.filter (·.scriptPubKey ∈ scripts))
  wallet : ∃ entries, rpc.listUnspent = .ok entries ∧
    entries.Perm ((chain.unspents.filter (·.scriptPubKey ∈ imported)).map chain.entry)
  block : ∀ i h blockHash, rpc.getBlockHash i h = .ok blockHash ↔
    h ≤ chain.height ∧ blockHash = chain.blockHash h
  transaction : ∀ i txid h txHex, h ≤ chain.height →
    (rpc.getRawTransactionHex i txid (chain.blockHash h) = .ok txHex ↔
      chain.heightOf txid = some h ∧ txHex = chain.rawTransaction txid)

variable {chain} {imported scripts : List Script} {rpc : BitcoinRpc}

theorem Serves.answers (h : chain.Serves imported scripts rpc) : rpc.Answers chain.Correct := by
  intro i txid blockHash txHex hread k hk hblock
  subst hblock
  exact (h.transaction i txid k txHex hk).mp hread

end Chain

/-! ## A request does not depend on the state -/

section

variable {δ ρ : Type} (crates : Crates δ ρ) (context : Context δ ρ) (chainTip : BlockRef)
  (chain : Chain) (m : DepositMonitor)

/-- The request of a UTXO, as it follows from the chain. -/
def Chain.request (utxo : Utxo) : Option CreateDepositRequestBody := do
  let deposit ← context.storage.store.monitored utxo.scriptPubKey
  if (utxo.txid, utxo.vout) ∉ m.createdDeposits.keys ∧
      chainTip.blockHeight < (utxo.blockHeight +
        (crates.lockTime deposit.reclaimScriptInputs).toNat) % u64Bound ∧
      chain.heightOf utxo.txid = some utxo.blockHeight then
    some (depositRequest crates utxo deposit (chain.rawTransaction utxo.txid))
  else none

variable {crates context chainTip chain m}

theorem Chain.request_eq_some {utxo : Utxo} {request : CreateDepositRequestBody} :
    chain.request crates context chainTip m utxo = some request ↔
      ∃ deposit, context.storage.store.monitored utxo.scriptPubKey = some deposit ∧
        (utxo.txid, utxo.vout) ∉ m.createdDeposits.keys ∧
        chainTip.blockHeight < (utxo.blockHeight +
          (crates.lockTime deposit.reclaimScriptInputs).toNat) % u64Bound ∧
        chain.heightOf utxo.txid = some utxo.blockHeight ∧
        request = depositRequest crates utxo deposit (chain.rawTransaction utxo.txid) := by
  unfold Chain.request
  cases context.storage.store.monitored utxo.scriptPubKey with
  | none => simp
  | some deposit =>
      simp only [Option.bind_eq_bind, Option.bind_some, Option.ite_none_right_eq_some,
        Option.some.injEq, exists_eq_left', and_assoc]
      simp only [eq_comm (a := request)]

/-- The states `get_pending_deposits` goes through: what was created stays
so, and the transaction cache stays correct. -/
def Chain.Consistent (chain : Chain) (m m' : DepositMonitor) : Prop :=
  (∀ outpoint, outpoint ∈ m'.createdDeposits.keys ↔ outpoint ∈ m.createdDeposits.keys) ∧
    m'.txHexCache.All chain.Correct

/-- What is obtained for a UTXO says that its transaction lies in the block
at its height, whether it is found in the cache or read from the node. -/
theorem Chain.Serves.obtained {imported scripts : List Script}
    (hserves : chain.Serves imported scripts context.bitcoinClient)
    (hcache : m.txHexCache.All chain.Correct) {i : Nat} {utxo : Utxo}
    {deposit : MonitoredDeposit δ ρ} {blockHash : BlockHash} {txHex : String}
    (h : Obtained crates context chainTip m i utxo deposit blockHash txHex) :
    chain.heightOf utxo.txid = some utxo.blockHeight ∧
      txHex = chain.rawTransaction utxo.txid := by
  obtain ⟨hheight, hblock⟩ := (hserves.block _ _ _).mp h.block
  exact h.cached hcache hserves.answers utxo.blockHeight hheight hblock

/-- A transaction that lies in the block at the height of the UTXO is found. -/
theorem Chain.Serves.obtains {imported scripts : List Script}
    (hserves : chain.Serves imported scripts context.bitcoinClient)
    (hcache : m.txHexCache.All chain.Correct) (i : Nat) {utxo : Utxo}
    {deposit : MonitoredDeposit δ ρ}
    (hmonitored : context.storage.store.monitored utxo.scriptPubKey = some deposit)
    (hunexpired : chainTip.blockHeight < (utxo.blockHeight +
      (crates.lockTime deposit.reclaimScriptInputs).toNat) % u64Bound)
    (hheight : chain.heightOf utxo.txid = some utxo.blockHeight) :
    Obtained crates context chainTip m i utxo deposit (chain.blockHash utxo.blockHeight)
      (chain.rawTransaction utxo.txid) := by
  have hle := chain.heightOf_le _ _ hheight
  refine ⟨hmonitored, hunexpired, (hserves.block _ _ _).mpr ⟨hle, rfl⟩, ?_⟩
  cases hpeek : m.txHexCache.peek (utxo.txid, chain.blockHash utxo.blockHeight) with
  | some txHex =>
      obtain ⟨-, rfl⟩ := hcache.peek hpeek utxo.blockHeight hle rfl
      exact .inl rfl
  | none => exact .inr ⟨rfl, (hserves.transaction _ _ _ _ hle).mpr ⟨hheight, rfl⟩⟩

variable {imported : List Script} {m' : DepositMonitor}

theorem Chain.Serves.pendingDeposit_eq {scripts : List Script}
    (hserves : chain.Serves imported scripts context.bitcoinClient)
    (hfree : context.storage.poisoned = false) (hm : chain.Consistent m m') (i : Nat)
    (utxo : Utxo) :
    (pendingDeposit crates context chainTip i utxo m').1 =
      chain.request crates context chainTip m utxo := by
  ext request
  rw [pendingDeposit_some hfree, Chain.request_eq_some, hm.1]
  constructor
  · intro h
    obtain ⟨hfresh, deposit, blockHash, txHex, hobtained, rfl⟩ := h
    obtain ⟨hheight, rfl⟩ := hserves.obtained hm.2 hobtained
    exact ⟨deposit, hobtained.monitored, hfresh, hobtained.unexpired, hheight, rfl⟩
  · intro h
    obtain ⟨deposit, hmonitored, hfresh, hunexpired, hheight, rfl⟩ := h
    exact ⟨hfresh, deposit, _, _, hserves.obtains hm.2 i hmonitored hunexpired hheight, rfl⟩

theorem Chain.Serves.pendingDeposit_consistent {scripts : List Script}
    (hserves : chain.Serves imported scripts context.bitcoinClient)
    (hm : chain.Consistent m m') (i : Nat) (utxo : Utxo) :
    chain.Consistent m (pendingDeposit crates context chainTip i utxo m').2 := by
  refine ⟨fun outpoint => ?_, pendingDeposit_cache hm.2 hserves.answers i utxo⟩
  rw [pendingDeposit_createdDeposits, Lru.mem_keys_get]
  exact hm.1 outpoint

/-- The requests of some UTXOs, each by itself, in either mode. -/
theorem Chain.Serves.getPendingDeposits_eq {scripts : List Script}
    (hserves : chain.Serves imported scripts context.bitcoinClient)
    (hfree : context.storage.poisoned = false) (hcache : m.txHexCache.All chain.Correct)
    {nodeWallet : Bool} {utxos : List Utxo}
    (hutxos : getUtxos { context with nodeWallet } chainTip context.iteration = .ok utxos) :
    (getPendingDeposits crates { context with nodeWallet } chainTip m).1 =
      .ok (if context.iteration.isEmpty then []
        else utxos.filterMap (chain.request crates context chainTip m)) := by
  have hfilter : (filterMapFrom (pendingDeposit crates { context with nodeWallet } chainTip)
      0 utxos m).1 = utxos.filterMap (chain.request crates context chainTip m) := by
    refine filterMapFrom_eq_filterMap (chain.Consistent m) (fun k utxo m' _ hm => ?_)
      ⟨fun _ => Iff.rfl, hcache⟩
    exact ⟨Chain.Serves.pendingDeposit_eq hserves hfree hm k utxo,
      Chain.Serves.pendingDeposit_consistent hserves hm k utxo⟩
  have hfetch : fetchUtxos { context with nodeWallet } chainTip =
      .ok (if context.iteration.isEmpty then none else some utxos) :=
    fetchUtxos_eq (by exact hfree) hutxos
  rw [getPendingDeposits, hfetch]
  cases context.iteration.isEmpty with
  | true => rfl
  | false =>
      show Except.ok (filterMapFrom _ 0 utxos m).1 = _
      rw [hfilter]
      rfl

/-! ## The two modes -/

/-- The UTXO that the wallet's entry of an output comes to. -/
def Chain.listed (chain : Chain) (chainTip : BlockRef) (utxo : Utxo) : Utxo :=
  { utxo with blockHeight := chainTip.blockHeight - (chain.height - utxo.blockHeight) }

theorem Chain.watchedUtxo_entry (scripts : List Script) (utxo : Utxo) :
    watchedUtxo chainTip scripts (chain.entry utxo) =
      if utxo.scriptPubKey ∈ scripts then some (chain.listed chainTip utxo) else none := by
  unfold watchedUtxo Chain.entry Chain.listed
  rw [Nat.add_sub_cancel]

/-- What the wallet lists are the outputs that a scan finds, at other heights. -/
theorem Chain.Serves.getUtxos_wallet {scripts : List Script}
    (hserves : chain.Serves imported scripts context.bitcoinClient)
    (himported : ∀ script ∈ scripts, script ∈ imported) (chainTip : BlockRef) :
    ∃ utxos, getUtxos { context with nodeWallet := true } chainTip scripts = .ok utxos ∧
      utxos.Perm ((chain.unspents.filter (·.scriptPubKey ∈ scripts)).map
        (chain.listed chainTip)) := by
  obtain ⟨entries, hlist, hentries⟩ := hserves.wallet
  refine ⟨entries.filterMap (watchedUtxo chainTip scripts), ?_, ?_⟩
  · simp only [getUtxos, if_true, hlist]
    rfl
  · have hwatched : ((chain.unspents.filter (·.scriptPubKey ∈ imported)).map
          chain.entry).filterMap (watchedUtxo chainTip scripts) =
        (chain.unspents.filter (·.scriptPubKey ∈ scripts)).map (chain.listed chainTip) := by
      rw [List.filterMap_map, List.filterMap_filter, ← List.filterMap_eq_map,
        List.filterMap_filter]
      refine List.filterMap_congr fun utxo _ => ?_
      rw [Function.comp_apply, chain.watchedUtxo_entry]
      by_cases hscript : utxo.scriptPubKey ∈ scripts
      · simp [hscript, himported _ hscript]
      · simp [hscript]
    exact hwatched ▸ hentries.filterMap (watchedUtxo chainTip scripts)

theorem Chain.Serves.getUtxos_scan {scripts : List Script}
    (hserves : chain.Serves imported scripts context.bitcoinClient) (chainTip : BlockRef) :
    ∃ utxos, getUtxos { context with nodeWallet := false } chainTip scripts = .ok utxos ∧
      utxos.Perm (chain.unspents.filter (·.scriptPubKey ∈ scripts)) := by
  obtain ⟨utxos, hscan, hutxos⟩ := hserves.scan
  refine ⟨utxos, ?_, hutxos⟩
  simp only [getUtxos, hserves.idle, scanTxOutSet, hscan]
  rfl

/-- A height that is off yields no request. -/
theorem Chain.request_listed {utxo : Utxo} (hutxo : utxo ∈ chain.unspents)
    {request : CreateDepositRequestBody}
    (h : chain.request crates context chainTip m (chain.listed chainTip utxo) = some request) :
    chain.listed chainTip utxo = utxo := by
  obtain ⟨-, -, -, -, hheight, -⟩ := Chain.request_eq_some.mp h
  have htrue := chain.confirmed utxo hutxo
  have heq : (chain.listed chainTip utxo).blockHeight = utxo.blockHeight :=
    Option.some.inj (hheight.symm.trans htrue)
  show { utxo with blockHeight := (chain.listed chainTip utxo).blockHeight } = utxo
  rw [heq]

theorem Chain.listed_eq_iff {utxo : Utxo} (hutxo : utxo ∈ chain.unspents) :
    chain.listed chainTip utxo = utxo ↔
      chain.height = chainTip.blockHeight ∨
        utxo.blockHeight = 0 ∧ chainTip.blockHeight ≤ chain.height := by
  have hle := chain.heightOf_le _ _ (chain.confirmed utxo hutxo)
  have hheight : chain.listed chainTip utxo = utxo ↔
      chainTip.blockHeight - (chain.height - utxo.blockHeight) = utxo.blockHeight := by
    constructor
    · intro h
      exact congrArg Utxo.blockHeight h
    · intro h
      show { utxo with blockHeight := chainTip.blockHeight - _ } = utxo
      rw [h]
  rw [hheight]
  omega

/-- What a request says of its output: it is not expired at the chain tip and
its transaction is that of the output. -/
structure Chain.Right (crates : Crates δ ρ) (context : Context δ ρ) (chainTip : BlockRef)
    (chain : Chain) (utxo : Utxo) (request : CreateDepositRequestBody) : Prop where
  output : utxo ∈ chain.unspents
  unexpired : ∃ deposit, context.storage.store.monitored utxo.scriptPubKey = some deposit ∧
    chainTip.blockHeight < utxo.blockHeight +
      (crates.lockTime deposit.reclaimScriptInputs).toNat ∧
    request = depositRequest crates utxo deposit (chain.rawTransaction utxo.txid)
  height : chain.height = chainTip.blockHeight ∨
    utxo.blockHeight = 0 ∧ chainTip.blockHeight ≤ chain.height

/-- A list that maps `listed` over some outputs has requests for outputs whose
height is not off, and then for the same as the outputs themselves. -/
theorem Chain.requests_listed {outputs : List Utxo} (h : ∀ utxo ∈ outputs, utxo ∈ chain.unspents) :
    ((outputs.map (chain.listed chainTip)).filterMap
        (chain.request crates context chainTip m)).Sublist
      (outputs.filterMap (chain.request crates context chainTip m)) := by
  rw [List.filterMap_map]
  refine filterMap_sublist_filterMap fun utxo hutxo request hrequest => ?_
  rw [Function.comp_apply] at hrequest
  rwa [Chain.request_listed (h utxo hutxo) hrequest] at hrequest

/-- At the tip of the chain no height is off. -/
theorem Chain.map_listed {outputs : List Utxo} (h : ∀ utxo ∈ outputs, utxo ∈ chain.unspents)
    (htip : chain.height = chainTip.blockHeight) :
    outputs.map (chain.listed chainTip) = outputs := by
  refine (List.map_congr_left fun utxo hutxo => ?_).trans (List.map_id outputs)
  exact (Chain.listed_eq_iff (h utxo hutxo)).mpr (.inl htip)

/-- A request for a listed output is right. -/
theorem Chain.right_of_listed {utxo : Utxo} (hutxo : utxo ∈ chain.unspents)
    {request : CreateDepositRequestBody}
    (h : chain.request crates context chainTip m (chain.listed chainTip utxo) = some request) :
    chain.Right crates context chainTip utxo request := by
  have hlisted := Chain.request_listed hutxo h
  rw [hlisted] at h
  obtain ⟨deposit, hmonitored, -, hunexpired, -, rfl⟩ := Chain.request_eq_some.mp h
  exact ⟨hutxo, ⟨deposit, hmonitored, hunexpired.trans_le (Nat.mod_le _ _), rfl⟩,
    (Chain.listed_eq_iff hutxo).mp hlisted⟩

/-- **The two modes agree.** Against a node that serves a chain, whatever the
chain tip says, the requests of the wallet are among those of a scan and they
are the same up to order at the tip of the chain; and each of them is for an
output that is not expired, with its transaction. A poisoned lock fails both
modes alike. -/
theorem wallet_requests_agree (chain : Chain) (context : Context δ ρ) {imported : List Script}
    (hserves : chain.Serves imported context.iteration context.bitcoinClient)
    (himported : ∀ script ∈ context.iteration, script ∈ imported) {m : DepositMonitor}
    (hcache : m.txHexCache.All chain.Correct) (chainTip : BlockRef) :
    ∃ scan wallet : List CreateDepositRequestBody,
      (getPendingDeposits crates { context with nodeWallet := false } chainTip m).1 =
        context.storage.lock.map (fun _ => scan) ∧
      (getPendingDeposits crates { context with nodeWallet := true } chainTip m).1 =
        context.storage.lock.map (fun _ => wallet) ∧
      wallet.Subperm scan ∧
      (chain.height = chainTip.blockHeight → wallet.Perm scan) ∧
      ∀ request ∈ wallet, ∃ utxo, chain.Right crates context chainTip utxo request := by
  cases hfree : context.storage.poisoned with
  | true =>
      rw [context.storage.lock_of_poisoned hfree]
      refine ⟨[], [], ?_, ?_, List.nil_subperm, fun _ => List.Perm.nil, by simp⟩
      · rw [getPendingDeposits, fetchUtxos_of_poisoned (by exact hfree)]
        rfl
      · rw [getPendingDeposits, fetchUtxos_of_poisoned (by exact hfree)]
        rfl
  | false =>
      have hlock := context.storage.lock_of_not_poisoned hfree
      obtain ⟨scanned, hscan, hscanned⟩ : ∃ utxos,
          getUtxos { context with nodeWallet := false } chainTip context.iteration =
            .ok utxos ∧ _ := hserves.getUtxos_scan chainTip
      obtain ⟨listed, hlist, hlisted⟩ : ∃ utxos,
          getUtxos { context with nodeWallet := true } chainTip context.iteration =
            .ok utxos ∧ _ := hserves.getUtxos_wallet himported chainTip
      have houtputs : ∀ utxo ∈ chain.unspents.filter (·.scriptPubKey ∈ context.iteration),
          utxo ∈ chain.unspents := fun utxo hutxo => (List.mem_filter.mp hutxo).1
      -- both lists of requests come from the same outputs
      have hscan' := hscanned.filterMap (chain.request crates context chainTip m)
      have hwallet := hlisted.filterMap (chain.request crates context chainTip m)
      refine ⟨_, _, by rw [hserves.getPendingDeposits_eq hfree hcache hscan, hlock]; rfl,
        by rw [hserves.getPendingDeposits_eq hfree hcache hlist, hlock]; rfl, ?_⟩
      cases context.iteration.isEmpty with
      | true => exact ⟨List.nil_subperm, fun _ => List.Perm.nil, by simp⟩
      | false =>
          refine ⟨?_, ?_, ?_⟩
          · exact (hwallet.subperm.trans (Chain.requests_listed houtputs).subperm).trans
              hscan'.symm.subperm
          · intro htip
            rw [Chain.map_listed houtputs htip] at hwallet
            exact hwallet.trans hscan'.symm
          · intro request hrequest
            obtain ⟨utxo', hutxo', hsome⟩ := List.mem_filterMap.mp (hwallet.mem_iff.mp hrequest)
            obtain ⟨utxo, hutxo, rfl⟩ := List.mem_map.mp hutxo'
            exact ⟨utxo, Chain.right_of_listed (houtputs utxo hutxo) hsome⟩

end

namespace Sample

/-- The chain of the node that has found one output. -/
def chain : Chain where
  height := 1050
  blockHash := BitVec.ofNat 256
  heightOf txid := if txid = 7 then some 1000 else none
  rawTransaction txid := raw txid 1000
  unspents := [utxo]
  blockHash_inj := by
    intro h hh k hk heq
    have hmod := congrArg BitVec.toNat heq
    rw [BitVec.toNat_ofNat, BitVec.toNat_ofNat, Nat.mod_eq_of_lt (by omega),
      Nat.mod_eq_of_lt (by omega)] at hmod
    exact hmod
  heightOf_le := by
    intro txid h hh
    split at hh
    · cases hh
      decide
    · cases hh
  confirmed := by
    intro utxo hutxo
    cases List.mem_singleton.mp hutxo
    rfl

theorem ofNat_eq_thousand {h : Nat} (hle : h ≤ chain.height) :
    BitVec.ofNat 256 h = 1000 ↔ 1000 = h := by
  constructor
  · intro heq
    exact (chain.blockHash_inj h hle 1000 (by decide) heq).symm
  · intro heq
    rw [← heq]
    rfl

theorem chain_serves : chain.Serves [scriptPubkey] [scriptPubkey] node where
  idle := rfl
  scan := ⟨[utxo], rfl, List.Perm.refl _⟩
  wallet := ⟨[⟨7, 1, scriptPubkey, 25000, 51⟩], rfl, List.Perm.refl _⟩
  block := by
    intro i h blockHash
    simp only [node, chain]
    by_cases hle : h ≤ 1050
    · simp [hle, eq_comm]
    · simp [hle]
  transaction := by
    intro i txid h txHex hle
    have hhash := ofNat_eq_thousand hle
    simp only [node, chain, hhash]
    by_cases htxid : txid = 7#256
    · by_cases hheight : 1000 = h
      · simp [htxid, hheight, raw, eq_comm]
      · simp [htxid, hheight]
    · simp [htxid]

end Sample

/-- One output, found in both modes at the tip of the chain. -/
theorem wallet_requests_agree_one : ∃ scan wallet,
    (getPendingDeposits Sample.crates { Sample.context with nodeWallet := false }
      Sample.chainTip .new).1 = .ok scan ∧
    (getPendingDeposits Sample.crates { Sample.context with nodeWallet := true }
      Sample.chainTip .new).1 = .ok wallet ∧ wallet.Perm scan := by
  have hcache : DepositMonitor.new.txHexCache.All Sample.chain.Correct := Lru.All.empty _
  obtain ⟨scan, wallet, hscan, hwallet, -, hperm, -⟩ :=
    wallet_requests_agree Sample.chain Sample.context Sample.chain_serves
      (fun _ hscript => hscript) hcache Sample.chainTip
  exact ⟨scan, wallet, hscan, hwallet, hperm rfl⟩

end Spox.Deposit
