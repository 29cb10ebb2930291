import Spox.Sync.Runs

/-!
# Address registry — what is fetched is there

A chunk is fetched after the next id has been read, and from a state that is
at least as recent, so no id is fetched before it is registered. An entry that
is in the registry has been there since, so whatever is in the registry below
the cursor has been read and is monitored.
-/

namespace Spox.Sync

open Spox.Lib Spox.RewardClaims Spox.Client

variable {δ ρ : Type} {sbtc : Sbtc δ ρ} {configured : Bool} {w w' : World δ ρ}
  {sys sys' : System δ ρ} {r r' r'' : Registry} {n : Nat}

/-! ## The registry through time -/

/-- A later state of the registry: its ids go on, and an entry of an earlier id
that it still has is the one there was. -/
structure Registry.Leads (r r' : Registry) : Prop where
  next : r.nextAddressId ≤ r'.nextAddressId
  kept : ∀ id address, id < r.nextAddressId → r'.depositAddress id = some address →
    r.depositAddress id = some address

theorem Registry.Leads.refl (r : Registry) : r.Leads r where
  next := Nat.le_refl _
  kept _ _ _ hentry := hentry

theorem Registry.Leads.trans (h : r.Leads r') (h' : r'.Leads r'') : r.Leads r'' where
  next := h.next.trans h'.next
  kept id address hid hentry :=
    h.kept id address hid (h'.kept id address (Nat.lt_of_lt_of_le hid h.next) hentry)

/-- Every entry has an id that was given out. -/
def Registry.Dense (r : Registry) : Prop :=
  ∀ id address, r.depositAddress id = some address → id < r.nextAddressId

/-- The registry after a registration: the address is under the next id, or
there are no more ids. -/
theorem commit_register (r : Registry) (depositScript : Buff 196) (reclaimScript : Buff 2048) :
    Tx.commit (registerAddress depositScript reclaimScript) r =
      if r.nextAddressId + 1 < Tx.uintBound then
        ⟨r.nextAddressId + 1, Function.update r.depositAddress r.nextAddressId
          (some ⟨depositScript, reclaimScript⟩)⟩
      else r := by
  by_cases hfits : r.nextAddressId + 1 < Tx.uintBound
  · simp [Tx.commit, registerAddress, Tx.run_bind, Tx.add, Tx.uint, hfits]
  · simp [Tx.commit, registerAddress, Tx.run_bind, Tx.add, Tx.uint, hfits]

theorem leads_register (r : Registry) (depositScript : Buff 196) (reclaimScript : Buff 2048) :
    r.Leads (Tx.commit (registerAddress depositScript reclaimScript) r) := by
  rw [commit_register]
  split
  · refine ⟨Nat.le_succ _, fun id address hid hentry => ?_⟩
    have hentry : Function.update r.depositAddress r.nextAddressId
        (some ⟨depositScript, reclaimScript⟩) id = some address := hentry
    rw [Function.update_of_ne (by omega)] at hentry
    exact hentry
  · exact Registry.Leads.refl r

theorem Registry.Dense.register (h : r.Dense) (depositScript : Buff 196)
    (reclaimScript : Buff 2048) :
    (Tx.commit (registerAddress depositScript reclaimScript) r).Dense := by
  rw [commit_register]
  split
  · intro id address hentry
    have hentry : Function.update r.depositAddress r.nextAddressId
        (some ⟨depositScript, reclaimScript⟩) id = some address := hentry
    show id < r.nextAddressId + 1
    by_cases hnew : id = r.nextAddressId
    · omega
    · rw [Function.update_of_ne hnew] at hentry
      have hold := h id address hentry
      omega
  · exact h

/-- A removal gives no id out and only clears entries. -/
theorem remove_spec (r : Registry) (txSender : Principal) (addressIds : List Nat) :
    (Tx.commit (removeAddresses txSender addressIds) r).nextAddressId = r.nextAddressId ∧
      ∀ id address,
        (Tx.commit (removeAddresses txSender addressIds) r).depositAddress id = some address →
        r.depositAddress id = some address := by
  have hwp : Tx.wp (removeAddresses txSender addressIds) r
      (fun _ r' => r'.nextAddressId = r.nextAddressId ∧ ∀ id address,
        r'.depositAddress id = some address → r.depositAddress id = some address)
      (fun _ r' => r' = r) False := by
    simp only [removeAddresses, Tx.wp_bind, Tx.wp_asserts]
    refine ⟨fun _ => ?_, fun _ => trivial⟩
    refine Tx.wp_mapEach (fun s : Registry => s.nextAddressId = r.nextAddressId ∧
      ∀ id address, s.depositAddress id = some address → r.depositAddress id = some address) ?_
      ⟨rfl, fun _ _ hentry => hentry⟩
    intro s id hs
    simp only [removeAddress, Tx.wp_bind, Tx.wp_get, Tx.wp_modify, Tx.wp_pure]
    refine ⟨hs.1, fun other address hentry => hs.2 other address ?_⟩
    by_cases hsame : other = id
    · subst hsame
      rw [Function.update_self] at hentry
      cases hentry
    · rw [Function.update_of_ne hsame] at hentry
      exact hentry
  rcases hwp.total with ⟨deleted, r', hok, h⟩ | ⟨code, r', herr, -⟩
  · rw [Tx.commit_of_ok hok]
    exact h
  · rw [Tx.commit_of_err herr]
    exact ⟨rfl, fun _ _ hentry => hentry⟩

theorem leads_remove (r : Registry) (txSender : Principal) (addressIds : List Nat) :
    r.Leads (Tx.commit (removeAddresses txSender addressIds) r) := by
  obtain ⟨hnext, hkept⟩ := remove_spec r txSender addressIds
  exact ⟨Nat.le_of_eq hnext.symm, fun id address _ hentry => hkept id address hentry⟩

theorem Registry.Dense.remove (h : r.Dense) (txSender : Principal) (addressIds : List Nat) :
    (Tx.commit (removeAddresses txSender addressIds) r).Dense := by
  obtain ⟨hnext, hkept⟩ := remove_spec r txSender addressIds
  intro id address hentry
  rw [hnext]
  exact h id address (hkept id address hentry)

/-! ## The invariant -/

/-- The states of the registry lead to one another, and what was fetched had
been registered in the state it was fetched from. -/
structure Fresh (w : World δ ρ) : Prop where
  seen : w.seen ≤ w.now
  leads : ∀ i j, i ≤ j → j ≤ w.now → (w.states i).Leads (w.states j)
  dense : ∀ i ≤ w.now, (w.states i).Dense
  index : ∀ f ∈ w.fetches, f.index ≤ w.now
  there : ∀ f ∈ w.fetches, ∀ id ∈ f.ids, id < (w.states f.index).nextAddressId

/-- The ids below `n` had been registered by the last read. -/
structure Known (n : Nat) (w : World δ ρ) : Prop where
  fresh : Fresh w
  reached : n ≤ (w.states w.seen).nextAddressId

theorem Fresh.advance (h : Fresh w) (hleads : (w.states w.now).Leads r) (hdense : r.Dense) :
    Fresh (w.advance r) := by
  have hold : ∀ i ≤ w.now, (w.advance r).states i = w.states i := by
    intro i hi
    exact Function.update_of_ne (by omega) _ _
  have hnew : (w.advance r).states (w.now + 1) = r := Function.update_self _ _ _
  refine ⟨h.seen.trans (Nat.le_succ _), ?_, ?_,
    fun f hf => (h.index f hf).trans (Nat.le_succ _), ?_⟩
  · intro i j hij hj
    have hj : j ≤ w.now + 1 := hj
    rcases Nat.lt_or_ge w.now j with hlt | hge
    · have hj' : j = w.now + 1 := by omega
      subst hj'
      rw [hnew]
      rcases Nat.lt_or_ge w.now i with hilt | hige
      · have hi : i = w.now + 1 := by omega
        rw [hi, hnew]
        exact Registry.Leads.refl r
      · rw [hold i hige]
        exact (h.leads i w.now hige (Nat.le_refl _)).trans hleads
    · rw [hold i (by omega), hold j hge]
      exact h.leads i j hij hge
  · intro i hi
    have hi : i ≤ w.now + 1 := hi
    rcases Nat.lt_or_ge w.now i with hlt | hge
    · have hi' : i = w.now + 1 := by omega
      rw [hi', hnew]
      exact hdense
    · rw [hold i hge]
      exact h.dense i hge
  · intro f hf id hid
    rw [hold f.index (h.index f hf)]
    exact h.there f hf id hid

theorem Fresh.rely (h : Fresh w) (hrely : Rely w w') : Fresh w' := by
  cases hrely with
  | register depositScript reclaimScript =>
      exact h.advance (leads_register _ depositScript reclaimScript)
        ((h.dense _ (Nat.le_refl _)).register depositScript reclaimScript)
  | remove txSender addressIds hlen =>
      exact h.advance (leads_remove _ txSender addressIds)
        ((h.dense _ (Nat.le_refl _)).remove txSender addressIds)
  | poison => exact ⟨h.seen, h.leads, h.dense, h.index, h.there⟩

theorem Known.rely (h : Known n w) (hrely : Rely w w') : Known n w' where
  fresh := h.fresh.rely hrely
  reached := by
    have hdist := hrely.undisturbed
    rw [hdist.seen, hdist.states _ h.fresh.seen]
    exact h.reached

theorem stable_fresh : Process.Stable (environment sbtc) (Fresh (δ := δ) (ρ := ρ)) Fresh :=
  ⟨fun _ _ h hrely => h.rely hrely, fun _ h => h⟩

theorem stable_known : Process.Stable (environment sbtc) Fresh (Known (δ := δ) (ρ := ρ) n) :=
  ⟨fun _ _ h hrely => h.rely hrely, fun _ h => h.fresh⟩

/-! ## One tick -/

/-- What a part of a tick keeps. -/
abbrev KeepsFresh {α : Type} (sbtc : Sbtc δ ρ) (P : α → World δ ρ → Prop) :
    Update δ ρ α → World δ ρ → Prop :=
  Process.Meets (environment sbtc) Fresh P fun _ => Fresh

/-- The store is not the registry. -/
theorem Known.write (h : Known n w) {result : Except Error Unit} {handled : List Nat}
    {shared : Except Error (SharedStore δ ρ)} (heq : (result, w') = w.write handled shared) :
    Known n w' := by
  cases shared with
  | ok shared =>
      cases heq
      exact ⟨⟨h.fresh.seen, h.fresh.leads, h.fresh.dense, h.fresh.index, h.fresh.there⟩, h.reached⟩
  | error e =>
      cases heq
      exact h

theorem handleAddress_fresh (h : Known n w) (raw : RawRegisteredDeposit) :
    KeepsFresh sbtc (fun _ => Known n) (handleAddress sbtc raw) w := by
  refine Process.meets_bind ?_ fun _ t (ht : Known n t) => ?_
  · cases MonitoredDeposit.tryFrom sbtc raw with
    | ok deposit =>
        refine Process.meets_ask stable_known h ?_ ?_
        · intro t _ t' ht hanswer
          exact stable_known.settles (ht.write hanswer)
        · intro t _ t' ht hanswer
          exact stable_fresh.settles (ht.write hanswer).fresh
    | error e => cases e <;> exact stable_known.settles h
  · refine Process.meets_ask stable_known ht ?_ ?_
    · intro u _ u' hu hanswer
      exact stable_known.settles (hu.write hanswer)
    · intro u _ u' hu hanswer
      exact stable_fresh.settles (hu.write hanswer).fresh

/-- The chunk comes from a state that is no older than the next id. -/
theorem Known.fetch (h : Known n w) {ids : List Nat} (hids : ∀ id ∈ ids, id < n) {i : Nat}
    (hseen : w.seen ≤ i) (hnow : i ≤ w.now) :
    Known n { w with seen := i, fetches := w.fetches ++ [⟨w.cursor, ids, i⟩] } := by
  have hreached := h.reached.trans (h.fresh.leads w.seen i hseen hnow).next
  refine ⟨⟨hnow, h.fresh.leads, h.fresh.dense, ?_, ?_⟩, hreached⟩
  · intro f hf
    rcases List.mem_append.mp hf with hf | hf
    · exact h.fresh.index f hf
    · rw [List.mem_singleton.mp hf]
      exact hnow
  · intro f hf id hid
    rcases List.mem_append.mp hf with hf | hf
    · exact h.fresh.there f hf id hid
    · rw [List.mem_singleton.mp hf] at hid ⊢
      exact Nat.lt_of_lt_of_le (hids id hid) hreached

theorem fetchAddresses_fresh (h : Known n w) {ids : List Nat} (hids : ∀ id ∈ ids, id < n) :
    KeepsFresh sbtc (fun _ => Known n) (fetchAddresses ids) w := by
  have hparsed : ∀ {t : World δ ρ} (value : ClarityValue), Known n t →
      KeepsFresh sbtc (fun _ => Known n) (.ofExcept (parseAddresses value)) t := by
    intro t value ht
    cases parseAddresses value with
    | ok data => exact stable_known.settles ht
    | error e => exact stable_fresh.settles ht.fresh
  unfold fetchAddresses
  split
  · exact stable_known.settles h
  · split
    · exact stable_fresh.settles h.fresh
    · refine Process.meets_ask stable_known h ?_ ?_
      · intro t value t' ht hanswer
        rcases hanswer with ⟨e, hr, -⟩ | ⟨value', hr, ht', -⟩ | ⟨i, hseen, hnow, hr, ht'⟩
        · cases hr
        · cases hr
          subst ht'
          exact hparsed value ht
        · cases hr
          subst ht'
          exact hparsed _ (ht.fetch hids hseen hnow)
      · intro t e t' ht hanswer
        rcases hanswer with ⟨e', -, ht'⟩ | ⟨value', hr, -⟩ | ⟨i, -, -, hr, -⟩
        · subst ht'
          exact stable_fresh.settles ht.fresh
        · cases hr
        · cases hr

theorem syncChunk_fresh (h : Known n w) (start : Nat) :
    KeepsFresh sbtc (fun _ => Known n) (syncChunk sbtc n start) w := by
  have hids : ∀ id ∈ List.range' start (min (saturatingAdd start getAddressesMaxIds) n - start),
      id < n := by
    intro id hid
    obtain ⟨hle, hlt⟩ := List.mem_range'_1.mp hid
    omega
  refine Process.meets_bind (fetchAddresses_fresh h hids) fun data t ht => ?_
  split
  · exact stable_fresh.settles ht.fresh
  · refine Process.meets_forM (fun _ => Known n) (fun u hu => ?_) (fun raw todo u hu => ?_) ht
    · exact stable_known.settles hu
    · exact handleAddress_fresh hu raw

theorem getNextAddressId_fresh (h : Fresh w) :
    KeepsFresh sbtc (fun n => Known n) getNextAddressId w := by
  refine Process.meets_ask stable_fresh h ?_ ?_
  · intro t value t' ht hanswer
    rcases hanswer with ⟨e, hr, -⟩ | ⟨i, -, hnow, hr, ht'⟩
    · cases hr
    · cases hr
      subst ht'
      have hread : Known (t.states i).nextAddressId
          { t with seen := i, nextRead := some (t.states i).nextAddressId } :=
        ⟨⟨hnow, ht.leads, ht.dense, ht.index, ht.there⟩, Nat.le_refl _⟩
      show KeepsFresh sbtc _ (.ofExcept (u64TryFrom (t.states i).nextAddressId)) _
      unfold u64TryFrom
      split
      · exact stable_known.settles hread
      · exact stable_fresh.settles hread.fresh
  · intro t e t' ht hanswer
    rcases hanswer with ⟨e', -, ht'⟩ | ⟨i, -, -, hr, -⟩
    · subst ht'
      exact stable_fresh.settles ht
    · cases hr

/-- **The tick** fetches no id before it is registered. -/
theorem updateFromRegistry_fresh (h : Fresh w) :
    KeepsFresh sbtc (fun _ => Fresh) (updateFromRegistry sbtc configured) w := by
  cases configured with
  | false => exact stable_fresh.settles h
  | true =>
      refine Process.meets_bind ?_ fun lastNextId t (ht : Fresh t) => ?_
      · refine Process.meets_ask stable_fresh h ?_ ?_
        · intro t lastNextId t' ht hanswer
          obtain ⟨rfl, -⟩ := getLast_cases sbtc hanswer
          exact stable_fresh.settles ht
        · intro t e t' ht hanswer
          obtain ⟨rfl, -⟩ := getLast_cases sbtc hanswer
          exact stable_fresh.settles ht
      · refine Process.meets_bind (getNextAddressId_fresh ht) fun n u hu => ?_
        split
        · exact stable_fresh.settles hu.fresh
        · refine Process.meets_forM (fun _ => Known n) (fun v hv => ?_)
            (fun start starts v hv => ?_) hu
          · exact stable_fresh.settles hv.fresh
          · exact syncChunk_fresh hv start

/-! ## Every interleaving -/

theorem System.Reachable.fresh (h : sys.Reachable sbtc configured) : Fresh sys.world := by
  obtain ⟨monitored, hrun⟩ := h
  have hinitial : (System.initial monitored : System δ ρ).Keeps sbtc Fresh :=
    { seen := Nat.le_refl 0
      leads := fun _ _ _ _ => Registry.Leads.refl _
      dense := fun _ _ _ _ hentry => by cases hentry
      index := fun _ hf => by cases hf
      there := fun _ hf => by cases hf }
  refine System.Keeps.holds (System.Run.keeps ?_ ?_ hrun hinitial)
  · intro w w' hfresh hrely
    exact hfresh.rely hrely
  · intro w hfresh
    exact updateFromRegistry_fresh ⟨hfresh.seen, hfresh.leads, hfresh.dense, hfresh.index,
      hfresh.there⟩

/-- The answers leave the history of the registry alone. -/
theorem answer_states {q : Request δ ρ} {result : Except Error q.Answer}
    (h : answer sbtc q w result w') : w'.now = w.now ∧ w'.states = w.states := by
  have hwrite : ∀ {result : Except Error Unit} {handled : List Nat}
      {shared : Except Error (SharedStore δ ρ)},
      (result, w') = w.write handled shared → w'.now = w.now ∧ w'.states = w.states := by
    intro result handled shared heq
    cases shared with
    | ok shared =>
        cases heq
        exact ⟨rfl, rfl⟩
    | error e =>
        cases heq
        exact ⟨rfl, rfl⟩
  cases q with
  | getLastNextAddressId =>
      obtain ⟨-, rfl⟩ := h
      exact ⟨rfl, rfl⟩
  | setLastNextAddressId addressId next => exact hwrite h
  | add deposit => exact hwrite h
  | callNextAddressId =>
      rcases h with ⟨e, -, rfl⟩ | ⟨i, -, -, -, rfl⟩
      · exact ⟨rfl, rfl⟩
      · exact ⟨rfl, rfl⟩
  | callAddresses ids =>
      rcases h with ⟨e, -, rfl⟩ | ⟨value, -, rfl, -⟩ | ⟨i, -, -, -, rfl⟩
      · exact ⟨rfl, rfl⟩
      · exact ⟨rfl, rfl⟩
      · exact ⟨rfl, rfl⟩

/-- A run of the system adds to the history of the registry. -/
structure World.Precedes (w w' : World δ ρ) : Prop where
  now : w.now ≤ w'.now
  states : ∀ i ≤ w.now, w'.states i = w.states i

theorem World.Precedes.refl (w : World δ ρ) : w.Precedes w :=
  ⟨Nat.le_refl _, fun _ _ => rfl⟩

theorem World.Precedes.of_answer {q : Request δ ρ} {result : Except Error q.Answer}
    (h : answer sbtc q w result w') : w.Precedes w' := by
  obtain ⟨hnow, hstates⟩ := answer_states h
  exact ⟨Nat.le_of_eq hnow.symm, fun i _ => congrFun hstates i⟩

theorem World.Precedes.of_rely (h : Rely w w') : w.Precedes w' :=
  ⟨h.undisturbed.now, h.undisturbed.states⟩

theorem System.Step.precedes (h : Step sbtc configured sys sys') :
    sys.world.Precedes sys'.world := by
  cases h with
  | environment hrely => exact .of_rely hrely
  | start => exact ⟨Nat.le_refl _, fun _ _ => rfl⟩
  | run hstep =>
      cases hstep with
      | rely hrely => exact .of_rely hrely
      | answer hanswer => exact .of_answer hanswer
      | error hanswer => exact .of_answer hanswer
  | finish => exact .refl _

theorem System.Run.precedes (h : Run sbtc configured sys sys') :
    sys.world.Precedes sys'.world := by
  induction h with
  | refl => exact .refl _
  | tail _ hstep ih =>
      have hlast := hstep.precedes
      refine ⟨ih.now.trans hlast.now, fun i hi => ?_⟩
      rw [hlast.states i (hi.trans ih.now), ih.states i hi]

theorem registered_congr {id : Nat} (h : r.depositAddress id = r'.depositAddress id) :
    registered sbtc r id = registered sbtc r' id := by
  rw [registered, registered, rawAt, rawAt, h]

/-- **Whatever has been in the registry is monitored.** In every interleaving,
no id is fetched before it is registered; and an address that the registry has
had in any of its states is monitored once the cursor has passed its id, unless
it was removed before it was fetched. -/
theorem registry_covered (h : sys.Reachable sbtc configured) :
    (∀ f ∈ sys.world.fetches, ∀ id ∈ f.ids, id < (sys.world.states f.index).nextAddressId) ∧
    ∀ i ≤ sys.world.now, ∀ id < sys.world.cursor, ∀ deposit,
      registered sbtc (sys.world.states i) id = .ok deposit →
      (sys.world.monitored (deposit.toScriptPubkey sbtc)).isSome = true ∨
        ∃ f ∈ sys.world.fetches, id ∈ f.ids ∧ i < f.index ∧
          (sys.world.states f.index).depositAddress id = none := by
  have hfresh := h.fresh
  have hinv := h.inv.world
  refine ⟨hfresh.there, fun i hi id hid deposit hdeposit => ?_⟩
  obtain ⟨f, hf, hfid⟩ := hinv.fetched id hid
  have hindex := hfresh.index f hf
  -- what parses is an entry
  obtain ⟨address, hentry⟩ : ∃ address, (sys.world.states i).depositAddress id = some address := by
    cases hentry : (sys.world.states i).depositAddress id with
    | some address => exact ⟨address, rfl⟩
    | none =>
        rw [registered, rawAt, hentry] at hdeposit
        cases hdeposit
  rcases Nat.lt_or_ge f.index i with hafter | hbefore
  · have hthere := (hfresh.leads f.index i (by omega) hi).kept id address
      (hfresh.there f hf id hfid) hentry
    rw [registered_congr (hentry.trans hthere.symm)] at hdeposit
    exact .inl (hinv.monitored f hf id hfid hid deposit hdeposit)
  · cases hfetched : (sys.world.states f.index).depositAddress id with
    | some address' =>
        have hsame := (hfresh.leads i f.index hbefore hindex).kept id address'
          (hfresh.dense i hi id address hentry) hfetched
        rw [registered_congr (hsame.trans hfetched.symm)] at hdeposit
        exact .inl (hinv.monitored f hf id hfid hid deposit hdeposit)
    | none =>
        refine .inr ⟨f, hf, hfid, Nat.lt_of_le_of_ne hbefore ?_, hfetched⟩
        intro heq
        rw [heq, hfetched] at hentry
        cases hentry

theorem registry_covered_registered :
    registered sampleSbtc (sampleSynced.states 1) 0 = .ok sampleDeposit ∧
      (sampleSynced.monitored [81, 82]).isSome = true := by
  have hdeposit : registered sampleSbtc (sampleSynced.states 1) 0 = .ok sampleDeposit := rfl
  refine ⟨hdeposit, ?_⟩
  rcases (registry_covered sampleRun).2 1 (Nat.le_refl 1) 0 (by decide) sampleDeposit hdeposit with
    hmonitored | ⟨f, hf, -, hlt, -⟩
  · exact hmonitored
  · rw [List.mem_singleton.mp hf] at hlt
    exact absurd hlt (Nat.lt_irrefl 1)

end Spox.Sync
