import Spox.Deposit.Monitor

/-!
# Deposit monitor — the descriptors of the wallet

`bitcoin/wallet.rs` and `update_wallet` of `deposit_monitor.rs`. With a node
wallet, a tick has the wallet watch the monitored scripts that it does not
watch yet, before it lists the unspent outputs. Every call may fail, and of
the descriptors in one call some may fail by themselves; what is missing is
tried again in the next tick.

A script is watched through its descriptor `raw(hex)`. The node lists a
descriptor with its checksum, `raw(hex)#checksum`.
-/

namespace Spox.Deposit

open Spox.Lib Spox.Client Spox.Sync

variable {δ ρ : Type}

/-! ## Text -/

/-- `rsplit_once`. -/
def rsplitOnce (delimiter : Char) : List Char → Option (List Char × List Char)
  | [] => none
  | c :: rest =>
      match rsplitOnce delimiter rest with
      | some (before, after) => some (c :: before, after)
      | none => if c = delimiter then some ([], rest) else none

/-- `strip_checksum`. -/
def stripChecksum (descriptor : String) : String :=
  match rsplitOnce '#' descriptor.toList with
  | some (before, _) => String.ofList before
  | none => descriptor

/-- The descriptor of a script. -/
def Crates.descriptor (crates : Crates δ ρ) (script : Script) : String :=
  "raw(" ++ crates.toHexString script ++ ")"

theorem rsplitOnce_of_not_mem {delimiter : Char} {text : List Char} (h : delimiter ∉ text) :
    rsplitOnce delimiter text = none := by
  induction text with
  | nil => rfl
  | cons c rest ih =>
      have hne : c ≠ delimiter := fun heq => h (heq ▸ List.mem_cons_self)
      have hrest := ih fun hmem => h (List.mem_cons_of_mem c hmem)
      rw [rsplitOnce, hrest]
      exact if_neg hne

theorem rsplitOnce_append {delimiter : Char} (before : List Char) {after : List Char}
    (h : delimiter ∉ after) :
    rsplitOnce delimiter (before ++ delimiter :: after) = some (before, after) := by
  induction before with
  | nil =>
      show rsplitOnce delimiter (delimiter :: after) = _
      rw [rsplitOnce, rsplitOnce_of_not_mem h]
      exact if_pos rfl
  | cons c before ih =>
      show rsplitOnce delimiter (c :: (before ++ delimiter :: after)) = _
      rw [rsplitOnce, ih]

theorem stripChecksum_append (descriptor : String) {checksum : String}
    (h : '#' ∉ checksum.toList) :
    stripChecksum (descriptor ++ "#" ++ checksum) = descriptor := by
  have htext : (descriptor ++ "#" ++ checksum).toList =
      descriptor.toList ++ '#' :: checksum.toList := by
    rw [String.toList_append, String.toList_append, List.append_assoc]
    rfl
  rw [stripChecksum, htext, rsplitOnce_append _ h]
  exact String.ofList_toList

theorem Crates.descriptor_inj {crates : Crates δ ρ}
    (hhex : Function.Injective crates.toHexString) :
    Function.Injective crates.descriptor := by
  intro script other h
  have htext := congrArg String.toList h
  simp only [Crates.descriptor, String.toList_append, List.append_assoc,
    List.append_cancel_left_eq, List.append_cancel_right_eq] at htext
  exact hhex (String.toList_inj.mp htext)

/-! ## The update -/

/-- `BitcoinCoreWalletConfig`. -/
structure BitcoinCoreWalletConfig where
  rescanTimestamp : Int

/-- `ImportDescriptors`. -/
structure ImportDescriptors where
  descriptor : String
  timestamp : Nat
  internal : Option Bool
deriving DecidableEq

/-- The answers of the node's wallet in one tick: the descriptors it lists,
the descriptor it makes of the one asked for, at its position, and for each
descriptor to import whether that succeeded. -/
structure WalletRpc where
  listDescriptors : Except RpcError (List String)
  getDescriptorInfo : Nat → String → Except RpcError String
  importDescriptors : List ImportDescriptors → Except RpcError (List Bool)

/-- What an update may end with: an error of the client, or of the clock. -/
inductive UpdateError where
  | client (error : Error)
  | unexpectedLocalTimestamp

/-- `saturating_add_signed` on `u64`. -/
def saturatingAddSigned (a : Nat) (b : Int) : Nat := min (a + b).toNat (u64Bound - 1)

/-- `get_rescan_timestamp`; the clock may stand before 1970. -/
def BitcoinCoreWalletConfig.getRescanTimestamp (wallet : BitcoinCoreWalletConfig)
    (now : Option Nat) : Except UpdateError Nat :=
  if 0 ≤ wallet.rescanTimestamp then .ok wallet.rescanTimestamp.toNat
  else
    match now with
    | none => .error .unexpectedLocalTimestamp
    | some currentTimestamp =>
        .ok (saturatingAddSigned currentTimestamp wallet.rescanTimestamp)

section Functions

variable (crates : Crates δ ρ) (rpc : WalletRpc)

/-- The body of the loop of `import_descriptors`, for a script with its
position: one that is watched is left out, and so is one that the node has no
descriptor info of. -/
def newDescriptor (descriptors : List String) (rescanTimestamp : Nat) (script : Script × Nat) :
    Option ImportDescriptors :=
  if crates.descriptor script.1 ∈ descriptors then none
  else
    match rpc.getDescriptorInfo script.2 (crates.descriptor script.1) with
    | .ok descriptor => some ⟨descriptor, rescanTimestamp, some false⟩
    | .error _ => none

/-- `import_descriptors`: its result, and the descriptors it sent to the node.
The results of the single imports are only logged. -/
def importDescriptors (scriptPubkeys : List Script) (rescanTimestamp : Nat) :
    Except Error Unit × List ImportDescriptors :=
  match mapErr rpc.listDescriptors with
  | .error error => (.error error, [])
  | .ok listed =>
      let newDescriptors := scriptPubkeys.zipIdx.filterMap
        (newDescriptor crates rpc (listed.map stripChecksum) rescanTimestamp)
      if newDescriptors.isEmpty then (.ok (), [])
      else
        ((mapErr (rpc.importDescriptors newDescriptors)).map fun _ => (), newDescriptors)

/-- `update_wallet`. -/
def updateWallet (storage : SharedStore δ ρ) (iteration : List Script)
    (nodeWallet : Option BitcoinCoreWalletConfig) (now : Option Nat) :
    Except UpdateError Unit × List ImportDescriptors :=
  match nodeWallet with
  | none => (.ok (), [])
  | some wallet =>
      match storage.getScripts iteration with
      | .error error => (.error (.client error), [])
      | .ok scriptPubkeys =>
          if scriptPubkeys.isEmpty then (.ok (), [])
          else
            match wallet.getRescanTimestamp now with
            | .error error => (.error error, [])
            | .ok timestamp =>
                let (result, sent) := importDescriptors crates rpc scriptPubkeys timestamp
                (result.mapError .client, sent)

end Functions

/-! ## The node's wallet -/

/-- The wallet, as the descriptors it lists, watches a script. -/
def Watches (crates : Crates δ ρ) (wallet : List String) (script : Script) : Prop :=
  crates.descriptor script ∈ wallet.map stripChecksum

/-- The node serves a wallet, which `sent` takes from `wallet` to `wallet'`:
it lists the wallet, gives a descriptor its checksum, and has imported what it
says it has. A call may fail, also after some of it is done; the wallet never
forgets a descriptor. -/
structure WalletRpc.Serves (rpc : WalletRpc) (wallet : List String)
    (sent : List ImportDescriptors) (wallet' : List String) : Prop where
  listed : ∀ descriptors, rpc.listDescriptors = .ok descriptors → descriptors = wallet
  info : ∀ i descriptor info, rpc.getDescriptorInfo i descriptor = .ok info →
    ∃ checksum : String, '#' ∉ checksum.toList ∧ info = descriptor ++ "#" ++ checksum
  kept : ∀ descriptor ∈ wallet, descriptor ∈ wallet'
  results : ∀ results, rpc.importDescriptors sent = .ok results → results.length = sent.length
  imported : ∀ results request, rpc.importDescriptors sent = .ok results →
    (request, true) ∈ sent.zip results → request.descriptor ∈ wallet'

/-- Each descriptor with whether its import succeeded. -/
def WalletRpc.outcomes (rpc : WalletRpc) (sent : List ImportDescriptors) :
    List (ImportDescriptors × Bool) :=
  match rpc.importDescriptors sent with
  | .ok results => sent.zip results
  | .error _ => sent.map fun request => (request, false)

theorem Watches.mono {crates : Crates δ ρ} {wallet wallet' : List String} {script : Script}
    (h : Watches crates wallet script) (hkept : ∀ descriptor ∈ wallet, descriptor ∈ wallet') :
    Watches crates wallet' script := by
  obtain ⟨descriptor, hmem, hstrip⟩ := List.mem_map.mp h
  exact List.mem_map.mpr ⟨descriptor, hkept descriptor hmem, hstrip⟩

/-! ## What an update asks for -/

section Updates

variable {crates : Crates δ ρ} {rpc : WalletRpc} {storage : SharedStore δ ρ}
  {iteration : List Script} {nodeWallet : Option BitcoinCoreWalletConfig} {now : Option Nat}
  {wallet wallet' : List String}

/-- What an update does: nothing, as there is no wallet or nothing to watch or
as a read failed; or it has listed the wallet, and asks for a descriptor of
each script that is not watched. -/
inductive Updated (crates : Crates δ ρ) (rpc : WalletRpc) (iteration : List Script)
    (nodeWallet : Option BitcoinCoreWalletConfig) :
    Except UpdateError Unit × List ImportDescriptors → Prop
  | unneeded (h : nodeWallet = none ∨ iteration = []) :
      Updated crates rpc iteration nodeWallet (.ok (), [])
  | failed (error : UpdateError) : Updated crates rpc iteration nodeWallet (.error error, [])
  | asked (listed : List String) (timestamp : Nat) (sent : List ImportDescriptors)
      (result : Except UpdateError Unit) (hlisted : rpc.listDescriptors = .ok listed)
      (hsent : sent = iteration.zipIdx.filterMap
        (newDescriptor crates rpc (listed.map stripChecksum) timestamp))
      (hresult : result = .ok () → sent ≠ [] →
        ∃ results, rpc.importDescriptors sent = .ok results) :
      Updated crates rpc iteration nodeWallet (result, sent)

theorem importDescriptors_updated (timestamp : Nat) :
    Updated crates rpc iteration nodeWallet
      ((importDescriptors crates rpc iteration timestamp).1.mapError .client,
        (importDescriptors crates rpc iteration timestamp).2) := by
  unfold importDescriptors
  cases hlisted : rpc.listDescriptors with
  | error error => exact .failed _
  | ok listed =>
      simp only [mapErr]
      split
      · next hempty =>
          refine .asked listed timestamp _ _ hlisted (List.isEmpty_iff.mp hempty).symm ?_
          exact fun _ hne => absurd rfl hne
      · refine .asked listed timestamp _ _ hlisted rfl fun hresult _ => ?_
        cases hresults : rpc.importDescriptors (iteration.zipIdx.filterMap
            (newDescriptor crates rpc (listed.map stripChecksum) timestamp)) with
        | ok results => exact ⟨results, rfl⟩
        | error error =>
            rw [hresults] at hresult
            cases hresult

theorem updateWallet_updated : Updated crates rpc iteration nodeWallet
    (updateWallet crates rpc storage iteration nodeWallet now) := by
  unfold updateWallet SharedStore.getScripts
  cases nodeWallet with
  | none => exact .unneeded (.inl rfl)
  | some wallet =>
      cases hlock : storage.lock with
      | error error => exact .failed _
      | ok store =>
          show Updated crates rpc iteration _ (if iteration.isEmpty then _ else _)
          by_cases hempty : iteration.isEmpty
          · rw [if_pos hempty]
            exact .unneeded (.inr (List.isEmpty_iff.mp hempty))
          · rw [if_neg hempty]
            cases wallet.getRescanTimestamp now with
            | error error => exact .failed _
            | ok timestamp => exact importDescriptors_updated timestamp

theorem newDescriptor_some {descriptors : List String} {timestamp : Nat}
    {script : Script × Nat} {request : ImportDescriptors} :
    newDescriptor crates rpc descriptors timestamp script = some request ↔
      crates.descriptor script.1 ∉ descriptors ∧
      rpc.getDescriptorInfo script.2 (crates.descriptor script.1) = .ok request.descriptor ∧
      request.timestamp = timestamp ∧ request.internal = some false := by
  unfold newDescriptor
  by_cases hwatched : crates.descriptor script.1 ∈ descriptors
  · simp [hwatched]
  · rw [if_neg hwatched]
    cases rpc.getDescriptorInfo script.2 (crates.descriptor script.1) with
    | error error => simp
    | ok descriptor =>
        obtain ⟨other, timestamp', internal⟩ := request
        simp [hwatched, eq_comm]

/-- A descriptor that is asked for is that of a script which is not watched. -/
theorem mem_sent {sent : List ImportDescriptors}
    (hserves : rpc.Serves wallet sent wallet') {listed : List String} {timestamp : Nat}
    (hlisted : rpc.listDescriptors = .ok listed) {request : ImportDescriptors}
    (h : request ∈ iteration.zipIdx.filterMap
      (newDescriptor crates rpc (listed.map stripChecksum) timestamp)) :
    ∃ script ∈ iteration, stripChecksum request.descriptor = crates.descriptor script ∧
      ¬ Watches crates wallet script := by
  obtain ⟨⟨script, i⟩, hscript, hsome⟩ := List.mem_filterMap.mp h
  obtain ⟨hnew, hinfo, -, -⟩ := newDescriptor_some.mp hsome
  obtain ⟨checksum, hchecksum, hdescriptor⟩ := hserves.info _ _ _ hinfo
  refine ⟨script, List.fst_mem_of_mem_zipIdx hscript, ?_, ?_⟩
  · rw [hdescriptor]
    exact stripChecksum_append _ hchecksum
  · rw [hserves.listed listed hlisted] at hnew
    exact hnew

/-- An update asks for a script once. -/
theorem nodup_sent (hhex : Function.Injective crates.toHexString) (hnodup : iteration.Nodup)
    {sent : List ImportDescriptors} (hserves : rpc.Serves wallet sent wallet')
    (listed : List String) (timestamp : Nat) :
    ((iteration.zipIdx.filterMap
      (newDescriptor crates rpc (listed.map stripChecksum) timestamp)).map
        fun request => stripChecksum request.descriptor).Nodup := by
  have hscripts : (iteration.zipIdx.map fun script => crates.descriptor script.1).Nodup := by
    have hmap : iteration.zipIdx.map (fun script => crates.descriptor script.1) =
        (iteration.zipIdx.map Prod.fst).map crates.descriptor := by
      rw [List.map_map]
      rfl
    rw [hmap, List.zipIdx_map_fst]
    exact hnodup.map (Crates.descriptor_inj hhex)
  refine hscripts.sublist ?_
  rw [List.map_filterMap,
    ← List.filterMap_eq_map (f := fun script : Script × Nat => crates.descriptor script.1)]
  refine filterMap_sublist_filterMap fun script _ text htext => ?_
  obtain ⟨request, hsome, rfl⟩ := Option.map_eq_some_iff.mp htext
  obtain ⟨-, hinfo, -, -⟩ := newDescriptor_some.mp hsome
  obtain ⟨checksum, hchecksum, hdescriptor⟩ := hserves.info _ _ _ hinfo
  rw [hdescriptor, stripChecksum_append _ hchecksum]
  rfl

/-- **What an update asks for**: a descriptor of a script that is monitored and
not watched. -/
theorem updateWallet_mem
    (hserves : rpc.Serves wallet
      (updateWallet crates rpc storage iteration nodeWallet now).2 wallet')
    {request : ImportDescriptors}
    (h : request ∈ (updateWallet crates rpc storage iteration nodeWallet now).2) :
    ∃ script ∈ iteration, stripChecksum request.descriptor = crates.descriptor script ∧
      ¬ Watches crates wallet script := by
  have hupdated : Updated crates rpc iteration nodeWallet
    (updateWallet crates rpc storage iteration nodeWallet now) := updateWallet_updated
  revert h hserves
  generalize updateWallet crates rpc storage iteration nodeWallet now = update at hupdated
  intro hserves h
  cases hupdated with
  | unneeded => exact absurd h List.not_mem_nil
  | failed => exact absurd h List.not_mem_nil
  | asked listed timestamp sent result hlisted hsent =>
      rw [hsent] at h
      exact mem_sent hserves hlisted h

theorem updateWallet_nodup (hhex : Function.Injective crates.toHexString)
    (hnodup : iteration.Nodup)
    (hserves : rpc.Serves wallet
      (updateWallet crates rpc storage iteration nodeWallet now).2 wallet') :
    ((updateWallet crates rpc storage iteration nodeWallet now).2.map
      fun request => stripChecksum request.descriptor).Nodup := by
  have hupdated : Updated crates rpc iteration nodeWallet
    (updateWallet crates rpc storage iteration nodeWallet now) := updateWallet_updated
  revert hserves
  generalize updateWallet crates rpc storage iteration nodeWallet now = update at hupdated
  intro hserves
  cases hupdated with
  | unneeded => exact List.nodup_nil
  | failed => exact List.nodup_nil
  | asked listed timestamp sent result hlisted hsent =>
      rw [hsent]
      exact nodup_sent hhex hnodup hserves listed timestamp

/-! ## The outcomes -/

theorem WalletRpc.Serves.fst_outcomes {sent : List ImportDescriptors}
    (h : rpc.Serves wallet sent wallet') : (rpc.outcomes sent).map Prod.fst = sent := by
  unfold WalletRpc.outcomes
  cases hresults : rpc.importDescriptors sent with
  | ok results =>
      have hlength := h.results results hresults
      exact List.map_fst_zip (Nat.le_of_eq hlength.symm)
  | error error =>
      show (sent.map fun request => (request, false)).map Prod.fst = sent
      rw [List.map_map]
      exact List.map_id _

/-- What the node says it has imported is in the wallet. -/
theorem WalletRpc.Serves.outcome {sent : List ImportDescriptors}
    (h : rpc.Serves wallet sent wallet') {entry : ImportDescriptors × Bool}
    (hentry : entry ∈ rpc.outcomes sent) (htrue : entry.2 = true) :
    entry.1.descriptor ∈ wallet' := by
  obtain ⟨request, outcome⟩ := entry
  subst htrue
  unfold WalletRpc.outcomes at hentry
  cases hresults : rpc.importDescriptors sent with
  | ok results =>
      rw [hresults] at hentry
      exact h.imported results request hresults hentry
  | error error =>
      rw [hresults] at hentry
      obtain ⟨other, -, hother⟩ := List.mem_map.mp hentry
      exact absurd (congrArg Prod.snd hother) Bool.false_ne_true

/-! ## A clean update -/

/-- What a tick needs for all of the monitored scripts to be watched after it:
the update comes out, every descriptor info is got, and every import
succeeds. -/
structure Clean (crates : Crates δ ρ) (rpc : WalletRpc)
    (update : Except UpdateError Unit × List ImportDescriptors) : Prop where
  result : update.1 = .ok ()
  info : ∀ i script, ∃ info, rpc.getDescriptorInfo i (crates.descriptor script) = .ok info
  imported : ∀ results, rpc.importDescriptors update.2 = .ok results → false ∉ results

/-- **After a clean update every monitored script is watched.** -/
theorem Clean.watches
    (h : Clean crates rpc (updateWallet crates rpc storage iteration nodeWallet now))
    (hserves : rpc.Serves wallet
      (updateWallet crates rpc storage iteration nodeWallet now).2 wallet')
    (hwallet : nodeWallet ≠ none) {script : Script} (hscript : script ∈ iteration) :
    Watches crates wallet' script := by
  have hupdated : Updated crates rpc iteration nodeWallet
    (updateWallet crates rpc storage iteration nodeWallet now) := updateWallet_updated
  revert h hserves
  generalize updateWallet crates rpc storage iteration nodeWallet now = update at hupdated
  intro h hserves
  cases hupdated with
  | unneeded hnothing =>
      rcases hnothing with hnone | hempty
      · exact absurd hnone hwallet
      · rw [hempty] at hscript
        exact absurd hscript List.not_mem_nil
  | failed error =>
      have hresult := h.result
      cases hresult
  | asked listed timestamp sent result hlisted hsent hresult =>
      by_cases hwatched : Watches crates wallet script
      · exact hwatched.mono hserves.kept
      · -- it is asked for, and its import succeeds
        obtain ⟨i, hi⟩ := List.mem_iff_getElem?.mp hscript
        obtain ⟨info, hinfo⟩ := h.info i script
        have hmem : ⟨info, timestamp, some false⟩ ∈ sent := by
          rw [hsent]
          refine List.mem_filterMap.mpr
            ⟨(script, i), List.mk_mem_zipIdx_iff_getElem?.mpr hi, ?_⟩
          refine newDescriptor_some.mpr ⟨?_, hinfo, rfl, rfl⟩
          rw [hserves.listed listed hlisted]
          exact hwatched
        obtain ⟨results, himport⟩ := hresult h.result (List.ne_nil_of_mem hmem)
        have hlength := hserves.results results himport
        have hzip : ((⟨info, timestamp, some false⟩ : ImportDescriptors), true) ∈
            sent.zip results := by
          obtain ⟨k, hk⟩ := List.mem_iff_getElem?.mp hmem
          have hlt : k < results.length := by
            rw [hlength]
            exact (List.getElem?_eq_some_iff.mp hk).1
          have htrue : results[k]? = some true := by
            rw [List.getElem?_eq_getElem hlt]
            cases hvalue : results[k] with
            | true => rfl
            | false =>
                have hfalse : false ∈ results := hvalue ▸ List.getElem_mem hlt
                exact absurd hfalse (h.imported results himport)
          refine List.mem_iff_getElem?.mpr ⟨k, ?_⟩
          rw [List.getElem?_zip_eq_some]
          exact ⟨hk, htrue⟩
        have hin := hserves.imported results _ himport hzip
        obtain ⟨checksum, hchecksum, hdescriptor⟩ := hserves.info _ _ _ hinfo
        refine List.mem_map.mpr ⟨info, hin, ?_⟩
        rw [hdescriptor]
        exact stripChecksum_append _ hchecksum

end Updates

end Spox.Deposit
