import Spox.Deposit.Processor
import Spox.Deposit.Wallet

/-!
# Deposit monitor — every deposit is created

The three parts of a tick together, from the registry to Emily. A tick in
which the wallet is updated cleanly makes it watch every script that is
monitored, and it goes on watching them; so a later tick that sees a chain up
to the tip finds every output to an address that had been synced by then, and
what Emily has not accepted before it is submitted to it.
-/

namespace Spox.Deposit

open Spox.Lib Spox.Client Spox.Sync

section

variable {δ ρ : Type} {settings : Settings δ ρ} {blocks : BlockHash → Txid → Option String}
  {p p₀ : Processor δ ρ} {chain : Chain}

/-! ## Addresses -/

/-- The script of a configured deposit, or of an address of the registry that
the sync has passed and that parsed when it was read. -/
def Processor.Address (settings : Settings δ ρ) (p : Processor δ ρ) (script : Script) : Prop :=
  (∃ deposit ∈ settings.deposit, deposit.toScriptPubkey settings.crates.sbtc = script) ∨
    ∃ f ∈ p.sync.world.fetches, ∃ id ∈ f.ids, id < p.sync.world.cursor ∧ ∃ deposit,
      registered settings.crates.sbtc (p.sync.world.states f.index) id = .ok deposit ∧
      deposit.toScriptPubkey settings.crates.sbtc = script

theorem Processor.Address.monitored {script : Script} (h : p.Address settings script)
    (hreach : p.Reachable settings blocks) :
    ∃ deposit, p.sync.world.monitored script = some deposit := by
  rcases h with ⟨deposit, hmem, hscript⟩ | ⟨f, hf, id, hid, hpassed, deposit, hdeposit, hscript⟩
  · have hconfigured : (settings.configured script).isSome = true := by
      rw [Settings.configured, List.find?_isSome]
      exact ⟨deposit, hmem, decide_eq_true hscript⟩
    obtain ⟨first, hfirst⟩ := Option.isSome_iff_exists.mp hconfigured
    exact ⟨first, hreach.keepsOrigins.origins.kept script first hfirst⟩
  · have hsome := hreach.sync.inv.world.monitored f hf id hid hpassed deposit hdeposit
    rw [hscript] at hsome
    exact Option.isSome_iff_exists.mp hsome

/-! ## One tick against a chain -/

/-- The blocks of the chain hold the transactions that the chain says. -/
def Chain.In (chain : Chain) (blocks : BlockHash → Txid → Option String) : Prop :=
  ∀ h ≤ chain.height, ∀ txid txHex, blocks (chain.blockHash h) txid = some txHex →
    chain.heightOf txid = some h ∧ txHex = chain.rawTransaction txid

/-- A cache that was filled along other chains too is right for this one. -/
theorem Chain.In.correct (h : chain.In blocks) {m : DepositMonitor}
    (hcache : m.txHexCache.All (InBlocks blocks)) : m.txHexCache.All chain.Correct := by
  intro key txHex hentry k hk hblock
  have hin : blocks key.2 key.1 = some txHex := hcache key txHex hentry
  rw [hblock] at hin
  exact h k hk _ _ hin

section Fetch

variable {imported iteration : List Script} {rpc : BitcoinRpc} {chainTip : BlockRef} {utxo : Utxo}

/-- An output at the tip of the chain is fetched in either mode, if its script
is watched. -/
theorem Chain.Serves.fetched (hserves : chain.Serves imported iteration rpc)
    {context : Context δ ρ} (hrpc : context.bitcoinClient = rpc)
    (htip : chain.height = chainTip.blockHeight) (hutxo : utxo ∈ chain.unspents)
    (hscript : utxo.scriptPubKey ∈ iteration)
    (hwatched : context.nodeWallet = true → utxo.scriptPubKey ∈ imported) :
    ∃ utxos, getUtxos context chainTip iteration = .ok utxos ∧ utxo ∈ utxos := by
  subst hrpc
  unfold getUtxos
  cases hmode : context.nodeWallet with
  | false =>
      obtain ⟨utxos, hscan, hutxos⟩ := hserves.scan
      refine ⟨utxos, ?_, ?_⟩
      · simp only [Bool.false_eq_true, if_false, hserves.idle, scanTxOutSet, hscan]
        rfl
      · rw [hutxos.mem_iff, List.mem_filter]
        exact ⟨hutxo, decide_eq_true hscript⟩
  | true =>
      obtain ⟨entries, hlist, hentries⟩ := hserves.wallet
      refine ⟨entries.filterMap (watchedUtxo chainTip iteration), ?_, ?_⟩
      · simp only [if_true, hlist]
        rfl
      · refine List.mem_filterMap.mpr ⟨chain.entry utxo, ?_, ?_⟩
        · rw [hentries.mem_iff]
          refine List.mem_map_of_mem (List.mem_filter.mpr ⟨hutxo, ?_⟩)
          exact decide_eq_true (hwatched hmode)
        · rw [chain.watchedUtxo_entry, if_pos hscript, (chain.listed_eq_iff hutxo).mpr (.inl htip)]

/-- **A tick that sees the chain up to its tip** submits every unexpired output
that is watched and has not been created. -/
theorem Chain.Serves.submitted (hserves : chain.Serves imported iteration rpc)
    (tick : Tick δ ρ) (crates : Crates δ ρ) (hrpc : tick.context.bitcoinClient = rpc)
    (horder : tick.context.iteration = iteration)
    (hfree : tick.context.storage.poisoned = false) {m : DepositMonitor}
    (hcache : m.txHexCache.All chain.Correct)
    (htip : chain.height = tick.chainTip.blockHeight)
    (hbound : chain.height + 2 ^ 32 ≤ u64Bound) (hutxo : utxo ∈ chain.unspents)
    (hscript : utxo.scriptPubKey ∈ iteration)
    (hwatched : tick.context.nodeWallet = true → utxo.scriptPubKey ∈ imported)
    (hfresh : utxo.outpoint ∉ m.createdDeposits.keys) {deposit : MonitoredDeposit δ ρ}
    (hmonitored : tick.context.storage.store.monitored utxo.scriptPubKey = some deposit)
    (hunexpired : tick.chainTip.blockHeight <
      utxo.blockHeight + (crates.lockTime deposit.reclaimScriptInputs).toNat) :
    ∃ submission ∈ (tick.run crates m).1.2, submission.1.IsFor crates utxo.outpoint ∧
      ∃ i, submission.2 = tick.emily i submission.1 := by
  subst hrpc horder
  obtain ⟨utxos, hutxos, hmem⟩ := hserves.fetched rfl htip hutxo hscript hwatched
  have hpending : (getPendingDeposits crates tick.context tick.chainTip m).1 = _ :=
    hserves.getPendingDeposits_eq hfree hcache hutxos
  have hnonempty : tick.context.iteration.isEmpty = false := by
    rw [List.isEmpty_eq_false_iff]
    exact List.ne_nil_of_mem hscript
  rw [hnonempty, if_neg Bool.false_ne_true] at hpending
  -- the unlocking time does not wrap, since the height is one of the chain
  have hheight : utxo.blockHeight ≤ chain.height :=
    chain.heightOf_le _ _ (chain.confirmed utxo hutxo)
  have hlock := (crates.lockTime deposit.reclaimScriptInputs).toNat_lt
  have hwrap : (utxo.blockHeight + (crates.lockTime deposit.reclaimScriptInputs).toNat) %
      u64Bound = utxo.blockHeight + (crates.lockTime deposit.reclaimScriptInputs).toNat :=
    Nat.mod_eq_of_lt (by omega)
  have hrequest : chain.request crates tick.context tick.chainTip m utxo =
      some (depositRequest crates utxo deposit (chain.rawTransaction utxo.txid)) := by
    refine Chain.request_eq_some.mpr
      ⟨deposit, hmonitored, hfresh, ?_, chain.confirmed utxo hutxo, rfl⟩
    rw [hwrap]
    exact hunexpired
  rcases run_submissions crates tick m with
    ⟨deposits, m', hrun, hsubmissions, -⟩ | ⟨error, m', hrun, -, -⟩
  · have hdeposits : deposits = utxos.filterMap
        (chain.request crates tick.context tick.chainTip m) := by
      have heq : Except.ok deposits = _ := (congrArg Prod.fst hrun).symm.trans hpending
      exact Except.ok.inj heq
    have hin : depositRequest crates utxo deposit (chain.rawTransaction utxo.txid) ∈ deposits := by
      rw [hdeposits]
      exact List.mem_filterMap.mpr ⟨utxo, hmem, hrequest⟩
    obtain ⟨i, hi⟩ := List.mem_iff_getElem?.mp hin
    have hsubmitted : (depositRequest crates utxo deposit (chain.rawTransaction utxo.txid),
        tick.emily i (depositRequest crates utxo deposit (chain.rawTransaction utxo.txid))) ∈
        (tick.run crates m).1.2 := by
      rw [hsubmissions]
      exact mem_submissions.mpr ⟨i, hi, rfl⟩
    exact ⟨_, hsubmitted, ⟨rfl, rfl⟩, i, rfl⟩
  · have heq : Except.error error = _ := (congrArg Prod.fst hrun).symm.trans hpending
    cases heq

end Fetch

/-! ## From the registry to Emily -/

/-- **Every deposit is created.** Say a tick updates the wallet cleanly, and a
later one finds the node serving a chain up to the tip and Emily accepting what
it is sent. Then each unspent output to an address that had been synced before
the update is monitored, and if it is not expired Emily has accepted it by the
end of that tick, whatever failed before and whatever happened in between. -/
theorem deposits_created (hhex : Function.Injective settings.crates.toHexString)
    (hreads : settings.crates.ReadsBack) (hreach : p₀.Reachable settings blocks)
    {chainTip₀ : BlockRef} (hphase₀ : p₀.phase = .updating chainTip₀)
    {iteration₀ : List Script} (hiteration₀ : Iteration p₀.storage iteration₀)
    {walletRpc : WalletRpc} {now : Option Nat} {wallet' : List String}
    (hwallet : walletRpc.Serves p₀.wallet (p₀.update settings iteration₀ walletRpc now).2 wallet')
    (hclean : Clean settings.crates walletRpc (p₀.update settings iteration₀ walletRpc now))
    (hrun : Processor.Run settings blocks
      (p₀.updated chainTip₀ walletRpc (p₀.update settings iteration₀ walletRpc now).2 wallet') p)
    {chainTip : BlockRef} (hphase : p.phase = .fetching chainTip) {iteration : List Script}
    (hiteration : Iteration p.storage iteration) (hfree : p.storage.poisoned = false)
    (hchain : chain.In blocks) {imported : List Script} {rpc : BitcoinRpc}
    (hserves : chain.Serves imported iteration rpc) (hanswers : rpc.Answers (InBlocks blocks))
    (himported : ∀ script, Watches settings.crates p.wallet script → script ∈ imported)
    (htip : chain.height = chainTip.blockHeight) (hbound : chain.height + 2 ^ 32 ≤ u64Bound)
    {emily : Nat → CreateDepositRequestBody → Bool} (haccepts : ∀ i request, emily i request)
    {utxo : Utxo} (hutxo : utxo ∈ chain.unspents)
    (haddress : p₀.Address settings utxo.scriptPubKey) :
    Processor.Step settings blocks p
        (p.fetched settings ⟨p.context settings iteration rpc, chainTip, emily⟩) ∧
      ∃ deposit, p.sync.world.monitored utxo.scriptPubKey = some deposit ∧
        (chainTip.blockHeight <
            utxo.blockHeight + (settings.crates.lockTime deposit.reclaimScriptInputs).toNat →
          ∃ submission ∈ (p.fetched settings
              ⟨p.context settings iteration rpc, chainTip, emily⟩).submissions,
            Accepts settings.crates utxo.outpoint submission) := by
  have hupdate : Processor.Step settings blocks p₀ _ :=
    .updateWallet hphase₀ hiteration₀ now hwallet
  have hreach' : p.Reachable settings blocks := by
    obtain ⟨shared, wallet, hstore, hto⟩ := hreach
    exact ⟨shared, wallet, hstore, (hto.tail hupdate).trans hrun⟩
  have hinv := hreach'.inv hhex hreads
  obtain ⟨deposit, hmonitored₀⟩ := haddress.monitored hreach
  have hmonitored : p.sync.world.monitored utxo.scriptPubKey = some deposit :=
    hrun.grows.monitored _ _ (hupdate.grows.monitored _ _ hmonitored₀)
  refine ⟨.fetchAndCreateDeposits hphase hiteration hanswers emily, deposit, hmonitored,
    fun hunexpired => ?_⟩
  by_cases hcreated : utxo.outpoint ∈ p.monitor.createdDeposits.keys
  · obtain ⟨submission, hsubmission, haccepted⟩ := hinv.created _ hcreated
    exact ⟨submission, List.mem_append_left _ hsubmission, haccepted⟩
  · have hwatched : settings.nodeWallet.isSome = true → utxo.scriptPubKey ∈ imported := by
      intro hmode
      have hsome : settings.nodeWallet ≠ none := by
        rw [← Option.isSome_iff_ne_none]
        exact hmode
      have hscript₀ : utxo.scriptPubKey ∈ iteration₀ := by
        refine (hiteration₀.mem _).mpr ?_
        show (p₀.sync.world.monitored utxo.scriptPubKey).isSome = true
        rw [hmonitored₀]
        rfl
      have hwatches : Watches settings.crates wallet' utxo.scriptPubKey :=
        hclean.watches hwallet hsome hscript₀
      exact himported _ (hwatches.mono hrun.grows.wallet)
    have hscript : utxo.scriptPubKey ∈ iteration := by
      refine (hiteration.mem _).mpr ?_
      show (p.sync.world.monitored utxo.scriptPubKey).isSome = true
      rw [hmonitored]
      rfl
    obtain ⟨submission, hsubmission, hfor, i, hanswer⟩ := hserves.submitted
      (⟨p.context settings iteration rpc, chainTip, emily⟩ : Tick δ ρ) settings.crates rfl rfl
      hfree (hchain.correct hinv.cache) htip hbound hutxo hscript hwatched hcreated hmonitored
      hunexpired
    refine ⟨submission, List.mem_append_right _ hsubmission, ?_, hfor⟩
    rw [hanswer]
    exact haccepts i submission.1

end

namespace Sample

theorem clean : Clean crates walletRpc (synced.update settings [scriptPubkey] walletRpc none) where
  result := rfl
  info i script := ⟨_, rfl⟩
  imported := by
    intro results h
    cases h
    simp

theorem chain_in : chain.In blocks := by
  intro h hle txid txHex hblock
  unfold blocks at hblock
  split at hblock
  · next hin =>
      have hheight : 1000 = h := (ofNat_eq_thousand hle).mp hin.2
      cases hblock
      refine ⟨?_, ?_⟩
      · rw [hin.1, ← hheight]
        rfl
      · rfl
  · cases hblock

/-- What the wallet watches is the address. -/
theorem imported_of_watches (script : Script) (h : Watches crates updated.wallet script) :
    script ∈ [scriptPubkey] := by
  obtain ⟨descriptor, hmem, hstrip⟩ := List.mem_map.mp h
  rw [List.mem_singleton.mp hmem] at hstrip
  have hdescriptor : stripChecksum request.descriptor = crates.descriptor scriptPubkey :=
    stripChecksum_append _ (by decide)
  rw [hdescriptor] at hstrip
  rw [← Crates.descriptor_inj hex_injective hstrip]
  exact List.mem_cons_self

end Sample

/-- The output to the configured address is created. -/
theorem deposits_created_one :
    ∃ submission ∈ Sample.fetched.submissions,
      Accepts Sample.crates Sample.utxo.outpoint submission := by
  have haddress : Sample.synced.Address Sample.settings Sample.utxo.scriptPubKey :=
    .inl ⟨Sample.deposit, List.mem_cons_self, rfl⟩
  have hiteration₀ : Iteration Sample.synced.storage [Sample.scriptPubkey] := Sample.iteration
  have hiteration : Iteration Sample.updated.storage [Sample.scriptPubkey] := Sample.iteration
  obtain ⟨-, deposit, hdeposit, hcreated⟩ := deposits_created Sample.hex_injective
    Sample.readsBack Sample.synced_reachable rfl hiteration₀ Sample.wallet_serves Sample.clean
    (.refl : Processor.Run Sample.settings Sample.blocks Sample.updated Sample.updated) rfl
    hiteration rfl
    Sample.chain_in Sample.chain_serves Sample.node_answers Sample.imported_of_watches rfl
    (by decide) (fun _ _ => rfl) (List.mem_singleton.mpr rfl) haddress
  have hsame : deposit = Sample.deposit := by
    have hsample : Sample.updated.sync.world.monitored Sample.utxo.scriptPubKey =
        some Sample.deposit := by
      show Sample.context.storage.store.monitored Sample.scriptPubkey = some Sample.deposit
      exact Function.update_self Sample.scriptPubkey (some Sample.deposit) fun _ => none
    exact Option.some.inj (hdeposit.symm.trans hsample)
  subst hsame
  exact hcreated (by decide)

end Spox.Deposit
