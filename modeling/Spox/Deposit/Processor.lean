import Spox.Deposit.Dedup
import Spox.Deposit.Descriptors
import Spox.Sync.Origins

/-!
# Deposit monitor — the loop

`process_monitored_deposits` with everything it works on: for each chain tip
it syncs with the registry, has the wallet watch the scripts, and submits the
deposits to Emily, and whatever fails is left to the next tip. The registry
and the wallet go on changing around it at any time, and the node may answer
anything, but for two things: what it gives as the transaction of a block is
the one in the block of that hash (`blocks`), and it serves its wallet.

The imports, the ticks and the submissions are history: no code reads them.
-/

namespace Spox.Deposit

open Spox.Lib Spox.Client Spox.Sync

/-! ## The state -/

/-- What the program is configured with; `deposit` in the order that the map
of the config file is met in. -/
structure Settings (δ ρ : Type) where
  crates : Crates δ ρ
  deposit : List (MonitoredDeposit δ ρ)
  registryContract : Bool
  nodeWallet : Option BitcoinCoreWalletConfig

/-- Where the loop stands, and for which chain tip. -/
inductive Phase where
  | waiting
  | syncing (chainTip : BlockRef)
  | updating (chainTip : BlockRef)
  | fetching (chainTip : BlockRef)

/-- The loop and what it works on: the store with the registry and what is
left of the sync, the monitor, and the descriptors of the node's wallet. -/
structure Processor (δ ρ : Type) where
  phase : Phase
  sync : Sync.System δ ρ
  monitor : DepositMonitor
  wallet : List String
  imports : List (ImportDescriptors × Bool)
  ticks : List (Tick δ ρ)
  submissions : List (CreateDepositRequestBody × Bool)

variable {δ ρ : Type}

namespace Settings

variable (settings : Settings δ ρ)

/-- `main`: the configured deposits are added to a new store. -/
def store : Except Error (SharedStore δ ρ) :=
  settings.deposit.foldlM
    (fun (shared : SharedStore δ ρ) deposit => shared.add settings.crates.sbtc deposit)
    SharedStore.newShared

/-- The configured deposit of a script. -/
def configured (script : Script) : Option (MonitoredDeposit δ ρ) :=
  settings.deposit.find? fun deposit =>
    deposit.toScriptPubkey settings.crates.sbtc = script

end Settings

/-- The keys of the store's hash map, in the order it is met in. -/
structure Iteration (storage : SharedStore δ ρ) (iteration : List Script) : Prop where
  nodup : iteration.Nodup
  mem : ∀ script, script ∈ iteration ↔ (storage.store.monitored script).isSome = true

namespace Processor

variable (settings : Settings δ ρ) (p : Processor δ ρ)

/-- The loop when the program starts. -/
def start (shared : SharedStore δ ρ) (wallet : List String) : Processor δ ρ :=
  ⟨.waiting, .initial shared.store.monitored, .new, wallet, [], [], []⟩

/-- The store. -/
def storage : SharedStore δ ρ := p.sync.world.shared

/-- The monitor's context, with the answers of the node. -/
def context (iteration : List Script) (rpc : BitcoinRpc) : Context δ ρ :=
  ⟨p.storage, iteration, settings.nodeWallet.isSome, rpc⟩

/-- What `update_wallet` does. -/
def update (iteration : List Script) (rpc : WalletRpc) (now : Option Nat) :
    Except UpdateError Unit × List ImportDescriptors :=
  updateWallet settings.crates rpc p.storage iteration settings.nodeWallet now

/-- After `update_wallet`. -/
def updated (chainTip : BlockRef) (rpc : WalletRpc) (sent : List ImportDescriptors)
    (wallet' : List String) : Processor δ ρ :=
  { p with
    phase := .fetching chainTip
    wallet := wallet'
    imports := p.imports ++ rpc.outcomes sent }

/-- After `fetch_and_create_deposits`. -/
def fetched (tick : Tick δ ρ) : Processor δ ρ :=
  { p with
    phase := .waiting
    monitor := (tick.run settings.crates p.monitor).2
    ticks := p.ticks ++ [tick]
    submissions := p.submissions ++ (tick.run settings.crates p.monitor).1.2 }

end Processor

/-- What the transaction cache may hold: the transactions of the blocks. -/
def InBlocks (blocks : BlockHash → Txid → Option String) (key : Txid × BlockHash)
    (txHex : String) : Prop :=
  blocks key.2 key.1 = some txHex

/-! ## The steps -/

/-- One step. -/
inductive Processor.Step (settings : Settings δ ρ) (blocks : BlockHash → Txid → Option String) :
    Processor δ ρ → Processor δ ρ → Prop
  /-- A transaction on the registry, or a panic with the lock in hand. -/
  | environment {p : Processor δ ρ} {w : World δ ρ} (h : Rely p.sync.world w) :
      Step settings blocks p { p with sync := { p.sync with world := w } }
  /-- Somebody else imports descriptors. -/
  | imported {p : Processor δ ρ} {wallet' : List String}
      (h : ∀ descriptor ∈ p.wallet, descriptor ∈ wallet') :
      Step settings blocks p { p with wallet := wallet' }
  /-- A chain tip is received, and the sync starts. -/
  | receive {p : Processor δ ρ} {sync' : Sync.System δ ρ} (chainTip : BlockRef)
      (hphase : p.phase = .waiting)
      (h : System.Step settings.crates.sbtc settings.registryContract p.sync sync')
      (hbefore : p.sync.tick = none) (hafter : sync'.tick ≠ none) :
      Step settings blocks p { p with phase := .syncing chainTip, sync := sync' }
  /-- The sync goes on. -/
  | sync {p : Processor δ ρ} {sync' : Sync.System δ ρ} {chainTip : BlockRef}
      (hphase : p.phase = .syncing chainTip)
      (h : System.Step settings.crates.sbtc settings.registryContract p.sync sync')
      (hafter : sync'.tick ≠ none) : Step settings blocks p { p with sync := sync' }
  /-- The sync has ended, with an error or without. -/
  | synced {p : Processor δ ρ} {sync' : Sync.System δ ρ} {chainTip : BlockRef}
      (hphase : p.phase = .syncing chainTip)
      (h : System.Step settings.crates.sbtc settings.registryContract p.sync sync')
      (hbefore : p.sync.tick ≠ none) (hafter : sync'.tick = none) :
      Step settings blocks p { p with phase := .updating chainTip, sync := sync' }
  | updateWallet {p : Processor δ ρ} {chainTip : BlockRef}
      (hphase : p.phase = .updating chainTip) {iteration : List Script}
      (hiteration : Iteration p.storage iteration) {rpc : WalletRpc} (now : Option Nat)
      {wallet' : List String}
      (hserves : rpc.Serves p.wallet (p.update settings iteration rpc now).2 wallet') :
      Step settings blocks p
        (p.updated chainTip rpc (p.update settings iteration rpc now).2 wallet')
  | fetchAndCreateDeposits {p : Processor δ ρ} {chainTip : BlockRef}
      (hphase : p.phase = .fetching chainTip) {iteration : List Script}
      (hiteration : Iteration p.storage iteration) {rpc : BitcoinRpc}
      (hanswers : rpc.Answers (InBlocks blocks))
      (emily : Nat → CreateDepositRequestBody → Bool) :
      Step settings blocks p
        (p.fetched settings ⟨p.context settings iteration rpc, chainTip, emily⟩)

/-- A run: the loop and what happens around it, in any order that the phases
allow. -/
abbrev Processor.Run (settings : Settings δ ρ) (blocks : BlockHash → Txid → Option String) :
    Processor δ ρ → Processor δ ρ → Prop :=
  Relation.ReflTransGen (Step settings blocks)

/-- What the program can come to, from any wallet. -/
def Processor.Reachable (settings : Settings δ ρ) (blocks : BlockHash → Txid → Option String)
    (p : Processor δ ρ) : Prop :=
  ∃ shared wallet, settings.store = .ok shared ∧ Run settings blocks (.start shared wallet) p

section Loop

variable {settings : Settings δ ρ} {blocks : BlockHash → Txid → Option String}
  {p p' : Processor δ ρ}

/-! ## What only grows -/

/-- What no step takes back. -/
structure Processor.Grows (p p' : Processor δ ρ) : Prop where
  monitored : ∀ script deposit, p.sync.world.monitored script = some deposit →
    p'.sync.world.monitored script = some deposit
  wallet : ∀ descriptor ∈ p.wallet, descriptor ∈ p'.wallet
  imports : p.imports <+: p'.imports
  ticks : p.ticks <+: p'.ticks
  submissions : p.submissions <+: p'.submissions

theorem Processor.Grows.refl (p : Processor δ ρ) : p.Grows p :=
  ⟨fun _ _ => id, fun _ => id, List.prefix_rfl, List.prefix_rfl, List.prefix_rfl⟩

theorem Processor.Grows.trans {p'' : Processor δ ρ} (h : p.Grows p') (h' : p'.Grows p'') :
    p.Grows p'' :=
  ⟨fun script deposit hdeposit => h'.monitored script deposit (h.monitored script deposit hdeposit),
    fun descriptor hmem => h'.wallet descriptor (h.wallet descriptor hmem),
    h.imports.trans h'.imports, h.ticks.trans h'.ticks, h.submissions.trans h'.submissions⟩

theorem Processor.Step.sync_step (h : Step settings blocks p p') :
    p'.sync = p.sync ∨
      System.Step settings.crates.sbtc settings.registryContract p.sync p'.sync := by
  cases h with
  | environment h => exact .inr (.environment h)
  | imported => exact .inl rfl
  | receive _ _ h => exact .inr h
  | sync _ h => exact .inr h
  | synced _ h => exact .inr h
  | updateWallet => exact .inl rfl
  | fetchAndCreateDeposits => exact .inl rfl

theorem Processor.Step.grows (h : Step settings blocks p p') : p.Grows p' := by
  have hmonitored : ∀ script deposit, p.sync.world.monitored script = some deposit →
      p'.sync.world.monitored script = some deposit := by
    intro script deposit hdeposit
    rcases h.sync_step with hsame | hstep
    · rw [hsame]
      exact hdeposit
    · exact hstep.monitored hdeposit
  refine ⟨hmonitored, ?_, ?_, ?_, ?_⟩
  · cases h with
    | imported h => exact h
    | updateWallet _ _ _ hserves => exact hserves.kept
    | _ => exact fun _ => id
  · cases h with
    | updateWallet => exact List.prefix_append _ _
    | _ => exact List.prefix_rfl
  · cases h with
    | fetchAndCreateDeposits => exact List.prefix_append _ _
    | _ => exact List.prefix_rfl
  · cases h with
    | fetchAndCreateDeposits => exact List.prefix_append _ _
    | _ => exact List.prefix_rfl

theorem Processor.Run.grows (h : Run settings blocks p p') : p.Grows p' := by
  induction h with
  | refl => exact .refl p
  | tail _ hstep ih => exact ih.trans hstep.grows

theorem Processor.Run.sync_run (h : Run settings blocks p p') :
    System.Run settings.crates.sbtc settings.registryContract p.sync p'.sync := by
  induction h with
  | refl => exact .refl
  | tail _ hstep ih =>
      rcases hstep.sync_step with hsame | hsync
      · rw [hsame]
        exact ih
      · exact ih.tail hsync

/-! ## The submissions of a tick -/

section Tick

variable {crates : Crates δ ρ} {tick : Tick δ ρ} {m : DepositMonitor}
  {emily : Nat → CreateDepositRequestBody → Bool}

theorem fst_createDeposit (i : Nat) (deposit : CreateDepositRequestBody) (m : DepositMonitor) :
    (createDeposit crates emily i deposit m).1 = some (deposit, emily i deposit) := by
  unfold createDeposit
  cases emily i deposit <;> rfl

/-- What is submitted are the requests, each with the answer of Emily. -/
theorem mem_submissions {deposits : List CreateDepositRequestBody}
    {submission : CreateDepositRequestBody × Bool} :
    submission ∈ (filterMapFrom (createDeposit crates emily) 0 deposits m).1 ↔
      ∃ i, deposits[i]? = some submission.1 ∧ submission.2 = emily i submission.1 := by
  rw [mem_filterMapFrom]
  simp only [fst_createDeposit, Nat.zero_add, Option.some.injEq]
  constructor
  · intro h
    obtain ⟨i, deposit, hdeposit, rfl⟩ := h
    exact ⟨i, hdeposit, rfl⟩
  · intro h
    obtain ⟨i, hdeposit, hanswer⟩ := h
    exact ⟨i, submission.1, hdeposit, Prod.ext rfl hanswer.symm⟩

theorem run_submissions (crates : Crates δ ρ) (tick : Tick δ ρ) (m : DepositMonitor) :
    (∃ deposits m', getPendingDeposits crates tick.context tick.chainTip m = (.ok deposits, m') ∧
        (tick.run crates m).1.2 =
          (filterMapFrom (createDeposit crates tick.emily) 0 deposits m').1 ∧
        (tick.run crates m).2 =
          (filterMapFrom (createDeposit crates tick.emily) 0 deposits m').2) ∨
      ∃ error m', getPendingDeposits crates tick.context tick.chainTip m = (.error error, m') ∧
        (tick.run crates m).1.2 = [] ∧ (tick.run crates m).2 = m' := by
  unfold Tick.run fetchAndCreateDeposits
  rcases hpending : getPendingDeposits crates tick.context tick.chainTip m with ⟨result, m'⟩
  cases result with
  | ok deposits => exact .inl ⟨deposits, m', rfl, rfl, rfl⟩
  | error error => exact .inr ⟨error, m', rfl, rfl, rfl⟩

/-- Where a request comes from. -/
theorem getPendingDeposits_mem {deposits : List CreateDepositRequestBody} {m' : DepositMonitor}
    (h : getPendingDeposits crates tick.context tick.chainTip m = (.ok deposits, m')) :
    (∀ outpoint, outpoint ∈ m'.createdDeposits.keys ↔ outpoint ∈ m.createdDeposits.keys) ∧
      ∀ request ∈ deposits, ∃ utxos i utxo deposit blockHash txHex, tick.context.Lists utxo ∧
        Obtained crates tick.context tick.chainTip
          (monitorAt crates tick.context tick.chainTip utxos m i) i utxo deposit blockHash txHex ∧
        request = depositRequest crates utxo deposit txHex := by
  unfold getPendingDeposits at h
  cases hfetch : fetchUtxos tick.context tick.chainTip with
  | error error =>
      rw [hfetch] at h
      cases h
  | ok fetched =>
      rw [hfetch] at h
      cases fetched with
      | none =>
          cases h
          exact ⟨fun _ => Iff.rfl, fun _ hrequest => absurd hrequest List.not_mem_nil⟩
      | some utxos =>
          have hfetches : tick.Fetches utxos := hfetch
          cases h
          refine ⟨(lookups_recent utxos m).2, fun request hrequest => ?_⟩
          obtain ⟨i, utxo, hutxo, hsome⟩ := mem_filterMapFrom.mp hrequest
          rw [Nat.zero_add] at hsome
          obtain ⟨-, deposit, blockHash, txHex, hobtained, rfl⟩ :=
            (pendingDeposit_some hfetches.not_poisoned).mp hsome
          exact ⟨utxos, i, utxo, deposit, blockHash, txHex,
            fetchUtxos_lists hfetch (List.mem_of_getElem? hutxo), hobtained, rfl⟩

/-- What is created after a tick was so before or has been accepted in it,
however much the tick lists. -/
theorem run_created (hreads : crates.ReadsBack) {outpoint : Txid × Nat}
    (h : outpoint ∈ (tick.run crates m).2.createdDeposits.keys) :
    outpoint ∈ m.createdDeposits.keys ∨
      ∃ submission ∈ (tick.run crates m).1.2, Accepts crates outpoint submission := by
  rcases run_submissions crates tick m with
    ⟨deposits, m', hpending, hsubmissions, hstate⟩ | ⟨error, m', hpending, hsubmissions, hstate⟩
  · obtain ⟨hcreated, hrequests⟩ := getPendingDeposits_mem hpending
    rw [hsubmissions]
    rw [hstate] at h
    refine filterMapFrom_invariant (fun _ submissions (s : DepositMonitor) =>
      ∀ q ∈ s.createdDeposits.keys, q ∈ m.createdDeposits.keys ∨
        ∃ submission ∈ submissions, Accepts crates q submission) [] [] ?_
      (fun q hq => .inl ((hcreated q).mp hq)) outpoint h
    intro i seen submissions deposit s hdeposit hs q hq
    obtain ⟨utxos, k, utxo, monitored, blockHash, txHex, -, -, rfl⟩ :=
      hrequests deposit hdeposit
    have hfor : (depositRequest crates utxo monitored txHex).IsFor crates utxo.outpoint :=
      ⟨rfl, rfl⟩
    rw [createDeposit_eq hreads hfor] at hq ⊢
    have hold : q ∈ s.createdDeposits.keys → q ∈ m.createdDeposits.keys ∨
        ∃ submission ∈ submissions ++ [(depositRequest crates utxo monitored txHex,
          tick.emily i (depositRequest crates utxo monitored txHex))],
          Accepts crates q submission := by
      intro hmem
      rcases hs q hmem with hmem | ⟨submission, hmem, haccepts⟩
      · exact .inl hmem
      · exact .inr ⟨submission, List.mem_append_left _ hmem, haccepts⟩
    cases hanswer : tick.emily i (depositRequest crates utxo monitored txHex) with
    | false =>
        rw [hanswer] at hq hold
        exact hold hq
    | true =>
        rw [hanswer] at hq hold
        rcases Lru.mem_keys_of_mem_put hq with rfl | hq
        · exact .inr ⟨_, List.mem_append_right _ List.mem_cons_self, rfl, hfor⟩
        · exact hold hq
  · unfold getPendingDeposits at hpending
    split at hpending
    · cases hpending
      rw [hstate] at h
      exact .inl h
    · cases hpending
    · cases hpending

end Tick

/-! ## What holds of the loop -/

/-- The node has answered in a tick with the output, and with the hash of the
block it stands in. -/
def Processor.Listed (p : Processor δ ρ) (utxo : Utxo) (blockHash : BlockHash) : Prop :=
  ∃ tick ∈ p.ticks, tick.context.Lists utxo ∧
    ∃ i, tick.context.bitcoinClient.getBlockHash i utxo.blockHeight = .ok blockHash

/-- A request is for an output to a monitored deposit that the node listed, and
carries its transaction in its block. -/
def Processor.Genuine (settings : Settings δ ρ) (blocks : BlockHash → Txid → Option String)
    (p : Processor δ ρ) (request : CreateDepositRequestBody) : Prop :=
  ∃ (utxo : Utxo) (deposit : MonitoredDeposit δ ρ) (blockHash : BlockHash) (txHex : String),
    p.Listed utxo blockHash ∧
    p.sync.world.monitored utxo.scriptPubKey = some deposit ∧
    blocks blockHash utxo.txid = some txHex ∧
    request = depositRequest settings.crates utxo deposit txHex

/-- The descriptors whose import succeeded, without their checksums. -/
def Processor.watchedBy (imports : List (ImportDescriptors × Bool)) : List String :=
  (imports.filter (·.2)).map fun entry => stripChecksum entry.1.descriptor

/-- The invariant of the loop. -/
structure Processor.Inv (settings : Settings δ ρ) (blocks : BlockHash → Txid → Option String)
    (p : Processor δ ρ) : Prop where
  cache : p.monitor.txHexCache.All (InBlocks blocks)
  created : ∀ outpoint ∈ p.monitor.createdDeposits.keys,
    ∃ submission ∈ p.submissions, Accepts settings.crates outpoint submission
  genuine : ∀ submission ∈ p.submissions, p.Genuine settings blocks submission.1
  known : ∀ entry ∈ p.imports, ∃ script, (p.sync.world.monitored script).isSome = true ∧
    stripChecksum entry.1.descriptor = settings.crates.descriptor script
  watched : ∀ entry ∈ p.imports, entry.2 = true → entry.1.descriptor ∈ p.wallet
  once : (watchedBy p.imports).Nodup

theorem Processor.Genuine.grows {request : CreateDepositRequestBody}
    (h : p.Genuine settings blocks request) (hgrows : p.Grows p') :
    p'.Genuine settings blocks request := by
  obtain ⟨utxo, deposit, blockHash, txHex, hlisted, hmonitored, hblock, hrequest⟩ := h
  obtain ⟨tick, htick, hlists⟩ := hlisted
  exact ⟨utxo, deposit, blockHash, txHex, ⟨tick, hgrows.ticks.subset htick, hlists⟩,
    hgrows.monitored _ _ hmonitored, hblock, hrequest⟩

/-- A step that leaves the monitor and the history alone keeps the invariant. -/
theorem Processor.Inv.same (h : p.Inv settings blocks) (hgrows : p.Grows p')
    (hmonitor : p'.monitor = p.monitor) (himports : p'.imports = p.imports)
    (hsubmissions : p'.submissions = p.submissions) : p'.Inv settings blocks where
  cache := by
    rw [hmonitor]
    exact h.cache
  created := by
    rw [hmonitor, hsubmissions]
    exact h.created
  genuine := by
    rw [hsubmissions]
    exact fun submission hmem => (h.genuine submission hmem).grows hgrows
  known := by
    rw [himports]
    intro entry hmem
    obtain ⟨script, hscript, htext⟩ := h.known entry hmem
    obtain ⟨deposit, hdeposit⟩ := Option.isSome_iff_exists.mp hscript
    refine ⟨script, ?_, htext⟩
    rw [hgrows.monitored script deposit hdeposit]
    rfl
  watched := by
    rw [himports]
    exact fun entry hmem htrue => hgrows.wallet _ (h.watched entry hmem htrue)
  once := by
    rw [himports]
    exact h.once

/-! ## The steps keep it -/

theorem Processor.Inv.updated (h : p.Inv settings blocks)
    (hhex : Function.Injective settings.crates.toHexString) {iteration : List Script}
    (hiteration : Iteration p.storage iteration) {rpc : WalletRpc} {now : Option Nat}
    {wallet' : List String}
    (hserves : rpc.Serves p.wallet (p.update settings iteration rpc now).2 wallet')
    (chainTip : BlockRef) :
    (p.updated chainTip rpc (p.update settings iteration rpc now).2 wallet').Inv settings
      blocks := by
  have hasked : ∀ entry ∈ rpc.outcomes (p.update settings iteration rpc now).2,
      ∃ script ∈ iteration,
        stripChecksum entry.1.descriptor = settings.crates.descriptor script ∧
        ¬ Watches settings.crates p.wallet script := by
    intro entry hentry
    have hsent : entry.1 ∈ (p.update settings iteration rpc now).2 := by
      rw [← hserves.fst_outcomes]
      exact List.mem_map_of_mem hentry
    exact updateWallet_mem hserves hsent
  refine ⟨h.cache, h.created, h.genuine, ?_, ?_, ?_⟩
  · intro entry hentry
    rcases List.mem_append.mp hentry with hentry | hentry
    · exact h.known entry hentry
    · obtain ⟨script, hscript, htext, -⟩ := hasked entry hentry
      exact ⟨script, (hiteration.mem script).mp hscript, htext⟩
  · intro entry hentry htrue
    rcases List.mem_append.mp hentry with hentry | hentry
    · exact hserves.kept _ (h.watched entry hentry htrue)
    · exact hserves.outcome hentry htrue
  · show (watchedBy (p.imports ++ rpc.outcomes _)).Nodup
    have hnew : (watchedBy (rpc.outcomes (p.update settings iteration rpc now).2)).Nodup := by
      have hall : ((p.update settings iteration rpc now).2.map
          fun request => stripChecksum request.descriptor).Nodup :=
        updateWallet_nodup hhex hiteration.nodup hserves
      refine hall.sublist ?_
      rw [Processor.watchedBy]
      have hsublist := (List.filter_sublist (p := fun entry : ImportDescriptors × Bool => entry.2)
        (l := rpc.outcomes (p.update settings iteration rpc now).2)).map
          fun entry => stripChecksum entry.1.descriptor
      refine hsublist.trans ?_
      have hmap : (rpc.outcomes (p.update settings iteration rpc now).2).map
          (fun entry => stripChecksum entry.1.descriptor) =
          ((rpc.outcomes (p.update settings iteration rpc now).2).map Prod.fst).map
            fun request => stripChecksum request.descriptor := by
        rw [List.map_map]
        rfl
      rw [hmap, hserves.fst_outcomes]
    unfold Processor.watchedBy at hnew ⊢
    rw [List.filter_append, List.map_append]
    refine List.nodup_append'.mpr ⟨h.once, hnew, ?_⟩
    -- what has been imported is watched, and is not asked for again
    intro text hold hmem
    obtain ⟨entry, hentry, rfl⟩ := List.mem_map.mp hold
    obtain ⟨other, hother, htext⟩ := List.mem_map.mp hmem
    obtain ⟨hentry, htrue⟩ := List.mem_filter.mp hentry
    obtain ⟨script, -, hscript, hunwatched⟩ := hasked other (List.mem_filter.mp hother).1
    refine hunwatched (List.mem_map.mpr ⟨_, h.watched entry hentry htrue, ?_⟩)
    rw [← hscript, ← htext]

theorem Processor.Inv.fetched (h : p.Inv settings blocks) (hreads : settings.crates.ReadsBack)
    {iteration : List Script} {rpc : BitcoinRpc} (hanswers : rpc.Answers (InBlocks blocks))
    (emily : Nat → CreateDepositRequestBody → Bool) (chainTip : BlockRef) :
    (p.fetched settings ⟨p.context settings iteration rpc, chainTip, emily⟩).Inv settings
      blocks := by
  refine ⟨fetchAndCreateDeposits_cache h.cache hanswers emily, ?_, ?_, h.known, h.watched,
    h.once⟩
  · intro outpoint hmem
    rcases run_created hreads hmem with hold | ⟨submission, hsubmission, haccepts⟩
    · obtain ⟨submission, hsubmission, haccepts⟩ := h.created outpoint hold
      exact ⟨submission, List.mem_append_left _ hsubmission, haccepts⟩
    · exact ⟨submission, List.mem_append_right _ hsubmission, haccepts⟩
  · have hgrows : p.Grows
        (p.fetched settings ⟨p.context settings iteration rpc, chainTip, emily⟩) :=
      ⟨fun _ _ => id, fun _ => id, List.prefix_rfl, List.prefix_append _ _,
        List.prefix_append _ _⟩
    intro submission hsubmission
    rcases List.mem_append.mp hsubmission with hold | hnew
    · exact (h.genuine submission hold).grows hgrows
    · rcases run_submissions settings.crates
          ⟨p.context settings iteration rpc, chainTip, emily⟩ p.monitor with
        ⟨deposits, m', hpending, hsubmissions, -⟩ | ⟨error, m', -, hnone, -⟩
      · rw [hsubmissions] at hnew
        obtain ⟨i, hdeposit, -⟩ := mem_submissions.mp hnew
        obtain ⟨utxos, k, utxo, deposit, blockHash, txHex, hlists, hobtained, hrequest⟩ :=
          (getPendingDeposits_mem hpending).2 _ (List.mem_of_getElem? hdeposit)
        have hblock : InBlocks blocks (utxo.txid, blockHash) txHex :=
          hobtained.cached (monitorAt_cache h.cache hanswers k) hanswers
        have hlisted : (p.fetched settings
            ⟨p.context settings iteration rpc, chainTip, emily⟩).Listed utxo blockHash :=
          ⟨_, List.mem_append_right _ List.mem_cons_self, hlists, k, hobtained.block⟩
        exact ⟨utxo, deposit, blockHash, txHex, hlisted, hobtained.monitored, hblock, hrequest⟩
      · rw [hnone] at hnew
        exact absurd hnew List.not_mem_nil

theorem Processor.Step.inv (h : Step settings blocks p p')
    (hhex : Function.Injective settings.crates.toHexString)
    (hreads : settings.crates.ReadsBack) (hinv : p.Inv settings blocks) :
    p'.Inv settings blocks := by
  have hgrows := h.grows
  cases h with
  | environment => exact hinv.same hgrows rfl rfl rfl
  | imported => exact hinv.same hgrows rfl rfl rfl
  | receive => exact hinv.same hgrows rfl rfl rfl
  | sync => exact hinv.same hgrows rfl rfl rfl
  | synced => exact hinv.same hgrows rfl rfl rfl
  | updateWallet _ hiteration _ hserves => exact hinv.updated hhex hiteration hserves _
  | fetchAndCreateDeposits _ _ hanswers emily => exact hinv.fetched hreads hanswers emily _

theorem Processor.inv_start (shared : SharedStore δ ρ) (wallet : List String) :
    (Processor.start shared wallet).Inv settings blocks where
  cache := Lru.All.empty _
  created := fun _ hmem => absurd hmem List.not_mem_nil
  genuine := fun _ hmem => absurd hmem List.not_mem_nil
  known := fun _ hmem => absurd hmem List.not_mem_nil
  watched := fun _ hmem => absurd hmem List.not_mem_nil
  once := List.nodup_nil

theorem Processor.Reachable.inv (h : p.Reachable settings blocks)
    (hhex : Function.Injective settings.crates.toHexString)
    (hreads : settings.crates.ReadsBack) : p.Inv settings blocks := by
  obtain ⟨shared, wallet, -, hrun⟩ := h
  induction hrun with
  | refl => exact inv_start shared wallet
  | tail _ hstep ih => exact hstep.inv hhex hreads ih

/-! ## The store -/

theorem Settings.monitored_store {shared : SharedStore δ ρ} (h : settings.store = .ok shared) :
    shared.store.monitored = settings.configured := by
  obtain ⟨-, hmonitored⟩ := SharedStore.monitored_of_adds _ h rfl
  funext script
  rw [hmonitored script]
  exact Option.none_or

theorem Processor.Reachable.keepsOrigins (h : p.Reachable settings blocks) :
    p.sync.KeepsOrigins settings.crates.sbtc settings.configured := by
  obtain ⟨shared, wallet, hstore, hrun⟩ := h
  have hstart : (Processor.start shared wallet).sync = .initial settings.configured := by
    rw [← Settings.monitored_store hstore]
    rfl
  have hsync := hrun.sync_run
  rw [hstart] at hsync
  exact hsync.keepsOrigins keepsOrigins_initial

theorem Processor.Reachable.sync (h : p.Reachable settings blocks) :
    p.sync.Reachable settings.crates.sbtc settings.registryContract := by
  obtain ⟨shared, wallet, -, hrun⟩ := h
  exact ⟨shared.store.monitored, hrun.sync_run⟩

/-! ## What is submitted and what is imported -/

/-- **Descriptors are imported once.** Whatever fails and is tried again, the
wallet is only ever asked to watch scripts that are monitored, watches every
one whose import succeeded, and imports none a second time. -/
theorem descriptors_once (hhex : Function.Injective settings.crates.toHexString)
    (hreads : settings.crates.ReadsBack) (h : p.Reachable settings blocks) :
    (∀ entry ∈ p.imports, ∃ script, (p.sync.world.monitored script).isSome = true ∧
      stripChecksum entry.1.descriptor = settings.crates.descriptor script ∧
      (entry.2 = true → Watches settings.crates p.wallet script)) ∧
    (Processor.watchedBy p.imports).Nodup := by
  have hinv := h.inv hhex hreads
  refine ⟨fun entry hentry => ?_, hinv.once⟩
  obtain ⟨script, hscript, htext⟩ := hinv.known entry hentry
  refine ⟨script, hscript, htext, fun htrue => ?_⟩
  exact List.mem_map.mpr ⟨_, hinv.watched entry hentry htrue, htext⟩

end Loop

/-! ## A run -/

namespace Sample

/-- One configured address, and a wallet. -/
def settings : Settings Script Script := ⟨crates, [deposit], false, some ⟨0⟩⟩

/-- The transaction of the output stands in one block. -/
def blocks (blockHash : BlockHash) (txid : Txid) : Option String :=
  if txid = 7 ∧ blockHash = 1000 then some (raw txid blockHash) else none

/-- A wallet that imports what it is asked to. -/
def walletRpc : WalletRpc where
  listDescriptors := .ok []
  getDescriptorInfo _ descriptor := .ok (descriptor ++ "#" ++ "8fjm2ka0")
  importDescriptors requests := .ok (requests.map fun _ => true)

/-- The descriptor of the address. -/
def request : ImportDescriptors :=
  ⟨crates.descriptor scriptPubkey ++ "#" ++ "8fjm2ka0", 0, some false⟩

/-- The store at the start. -/
def world : World Script Script :=
  { (System.initial context.storage.store.monitored).world with nextRead := none }

/-- The loop when the sync starts. -/
def syncing : Processor Script Script :=
  { Processor.start context.storage [] with
    phase := .syncing chainTip
    sync := ⟨world, some ⟨updateFromRegistry crates.sbtc false, 0⟩, []⟩ }

/-- The loop when the sync is over: no registry is configured. -/
def synced : Processor Script Script :=
  { syncing with
    phase := .updating chainTip
    sync := ⟨world, none, [] ++ [report world 0 (.ok ⟨⟩)]⟩ }

/-- The loop when the wallet is updated. -/
def updated : Processor Script Script :=
  synced.updated chainTip walletRpc (synced.update settings [scriptPubkey] walletRpc none).2
    [request.descriptor]

/-- The loop when the output has been submitted. -/
def fetched : Processor Script Script :=
  updated.fetched settings
    ⟨updated.context settings [scriptPubkey] node, chainTip, fun _ _ => true⟩

theorem synced_reachable : synced.Reachable settings blocks := by
  have hstart : System.Step crates.sbtc false (Processor.start context.storage []).sync
      syncing.sync := .start
  have hfinish : System.Step crates.sbtc false syncing.sync synced.sync := .finish rfl
  have hreceive : Processor.Step settings blocks (.start context.storage []) syncing :=
    .receive chainTip rfl hstart rfl (Option.some_ne_none _)
  have hsynced : Processor.Step settings blocks syncing synced :=
    .synced rfl hfinish (Option.some_ne_none _) rfl
  exact ⟨context.storage, [], rfl, .tail (.single hreceive) hsynced⟩

theorem iteration : Iteration context.storage [scriptPubkey] where
  nodup := List.nodup_singleton _
  mem script := by
    show script ∈ [scriptPubkey] ↔
      (Function.update (fun _ => none) scriptPubkey (some deposit) script).isSome = true
    by_cases hscript : script = scriptPubkey
    · subst hscript
      simp
    · simp [hscript]

theorem sent_eq : (synced.update settings [scriptPubkey] walletRpc none).2 = [request] := rfl

theorem wallet_serves : walletRpc.Serves synced.wallet
    (synced.update settings [scriptPubkey] walletRpc none).2 [request.descriptor] where
  listed := by
    intro descriptors h
    cases h
    rfl
  info := by
    intro i descriptor info h
    cases h
    exact ⟨"8fjm2ka0", by decide, rfl⟩
  kept := fun descriptor hmem => absurd hmem List.not_mem_nil
  results := by
    intro results h
    cases h
    exact List.length_map _
  imported := by
    intro results other _ hmem
    have hsent := (List.of_mem_zip hmem).1
    rw [sent_eq] at hsent
    rw [List.mem_singleton.mp hsent]
    exact List.mem_cons_self

theorem updated_step : Processor.Step settings blocks synced updated := by
  have hiteration : Iteration synced.storage [scriptPubkey] := iteration
  exact .updateWallet rfl hiteration none wallet_serves

theorem node_answers : node.Answers (InBlocks blocks) := by
  intro i txid blockHash txHex hread
  simp only [node] at hread
  split at hread
  · next hblock =>
      cases hread
      exact if_pos hblock
  · cases hread

theorem fetched_reachable : fetched.Reachable settings blocks := by
  obtain ⟨shared, wallet, hstore, hrun⟩ := synced_reachable
  have hiteration : Iteration updated.storage [scriptPubkey] := iteration
  have hfetch : Processor.Step settings blocks updated fetched :=
    .fetchAndCreateDeposits rfl hiteration node_answers fun _ _ => true
  exact ⟨shared, wallet, hstore, (hrun.tail updated_step).tail hfetch⟩

theorem hex_injective : Function.Injective settings.crates.toHexString := hexBytes_injective

theorem readsBack : settings.crates.ReadsBack := txidFromStr_txidToString

end Sample

/-- Its descriptor is imported. -/
theorem descriptors_once_one :
    (∀ entry ∈ Sample.fetched.imports, ∃ script,
      (Sample.fetched.sync.world.monitored script).isSome = true ∧
      stripChecksum entry.1.descriptor = Sample.settings.crates.descriptor script ∧
      (entry.2 = true → Watches Sample.settings.crates Sample.fetched.wallet script)) ∧
    (Processor.watchedBy Sample.fetched.imports).Nodup :=
  descriptors_once Sample.hex_injective Sample.readsBack Sample.fetched_reachable

end Spox.Deposit
