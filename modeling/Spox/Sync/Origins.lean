import Spox.Sync.Runs

/-!
# Address registry — where a monitored deposit comes from

The converse of `Coverage`: whatever the interleaving, the store holds what
the configuration put there and, of the registry, what was read from it, each
under the script pubkey that its own scripts make; and it never gives up or
replaces what it holds.
-/

namespace Spox.Sync

open Spox.Lib Spox.RewardClaims Spox.Client

variable {δ ρ : Type} {sbtc : Sbtc δ ρ} {configured : Bool} {w w' : World δ ρ}
  {sys sys' : System δ ρ} {config : List UInt8 → Option (MonitoredDeposit δ ρ)}

/-! ## What the client reads -/

theorem tryFrom_addressValue_ok {r : Registry} {id : Nat} {raw : RawRegisteredDeposit}
    (h : RawRegisteredDeposit.tryFrom (addressValue r id) = .ok raw) : raw = rawAt r id := by
  by_cases hid : id < u64Bound
  · rw [tryFrom_addressValue r hid] at h
    cases h
    rfl
  · -- an id that is no `u64` is refused after its address has been read
    have hrefused : u64TryFrom id = .error (.invalidStacksResponse "uint is too large") :=
      if_neg hid
    unfold addressValue at h
    cases hentry : r.depositAddress id with
    | none =>
        rw [hentry] at h
        have hread : (do
          let id ← u64TryFrom id
          pure (RawRegisteredDeposit.mk id none) : Except Error RawRegisteredDeposit) =
            .ok raw := h
        rw [hrefused] at hread
        cases hread
    | some address =>
        rw [hentry] at h
        have hread : (do
          let id ← u64TryFrom id
          pure (RawRegisteredDeposit.mk id (some ⟨address.depositScript.val,
            address.reclaimScript.val⟩)) : Except Error RawRegisteredDeposit) = .ok raw := h
        rw [hrefused] at hread
        cases hread

/-- What the client reads in an answer of the contract is in the contract. -/
theorem parseAddresses_getAddresses_ok {r : Registry} {ids : List Nat}
    {data : List RawRegisteredDeposit} (h : parseAddresses (getAddresses r ids) = .ok data) :
    data = ids.map (rawAt r) := by
  have hparse : (ids.map (addressValue r)).mapM RawRegisteredDeposit.tryFrom = .ok data := h
  induction ids generalizing data with
  | nil =>
      cases hparse
      rfl
  | cons id ids ih =>
      rw [List.map_cons, List.mapM_cons] at hparse
      cases hraw : RawRegisteredDeposit.tryFrom (addressValue r id) with
      | error e =>
          rw [hraw] at hparse
          cases hparse
      | ok raw =>
          rw [hraw] at hparse
          cases hrest : (ids.map (addressValue r)).mapM RawRegisteredDeposit.tryFrom with
          | error e =>
              rw [hrest] at hparse
              cases hparse
          | ok rest =>
              rw [hrest] at hparse
              cases hparse
              rw [tryFrom_addressValue_ok hraw, ih hrest hrest]
              rfl

/-! ## The invariant -/

/-- An entry of the registry as it was in a state that was read. -/
def World.Read (w : World δ ρ) (raw : RawRegisteredDeposit) : Prop :=
  ∃ f ∈ w.fetches, ∃ id ∈ f.ids, raw = rawAt (w.states f.index) id

/-- Where the deposits of the store come from. -/
structure Origins (sbtc : Sbtc δ ρ) (config : List UInt8 → Option (MonitoredDeposit δ ρ))
    (w : World δ ρ) : Prop where
  index : ∀ f ∈ w.fetches, f.index ≤ w.now
  kept : ∀ script deposit, config script = some deposit → w.monitored script = some deposit
  monitored : ∀ script deposit, w.monitored script = some deposit →
    config script = some deposit ∨ deposit.toScriptPubkey sbtc = script ∧
      ∃ raw, w.Read raw ∧ MonitoredDeposit.tryFrom sbtc raw = .ok deposit

theorem Undisturbed.read (h : Undisturbed w w') (hindex : ∀ f ∈ w.fetches, f.index ≤ w.now)
    {raw : RawRegisteredDeposit} (hread : w.Read raw) : w'.Read raw := by
  obtain ⟨f, hf, id, hid, rfl⟩ := hread
  refine ⟨f, by rw [h.fetches]; exact hf, id, hid, ?_⟩
  rw [h.states f.index (hindex f hf)]

theorem Undisturbed.origins (h : Undisturbed w w') (horigins : Origins sbtc config w) :
    Origins sbtc config w' where
  index := by
    rw [h.fetches]
    exact fun f hf => (horigins.index f hf).trans h.now
  kept := by
    rw [h.monitored]
    exact horigins.kept
  monitored := by
    rw [h.monitored]
    intro script deposit hdeposit
    rcases horigins.monitored script deposit hdeposit with hconfig | ⟨hscript, raw, hread, htry⟩
    · exact .inl hconfig
    · exact .inr ⟨hscript, raw, h.read horigins.index hread, htry⟩

/-- The entries left to handle have been read. -/
def ReadAll (sbtc : Sbtc δ ρ) (config : List UInt8 → Option (MonitoredDeposit δ ρ))
    (todo : List RawRegisteredDeposit) (w : World δ ρ) : Prop :=
  Origins sbtc config w ∧ ∀ raw ∈ todo, w.Read raw

/-- What a part of a tick keeps. -/
abbrev KeepsOrigins {α : Type} (sbtc : Sbtc δ ρ)
    (config : List UInt8 → Option (MonitoredDeposit δ ρ)) (P : α → World δ ρ → Prop) :
    Update δ ρ α → World δ ρ → Prop :=
  Process.Meets (environment sbtc) (Origins sbtc config) P fun _ => Origins sbtc config

theorem stable_origins :
    Process.Stable (environment sbtc) (Origins sbtc config) (Origins sbtc config) :=
  ⟨fun _ _ h hrely => (Rely.undisturbed hrely).origins h, fun _ h => h⟩

theorem stable_readAll {todo : List RawRegisteredDeposit} :
    Process.Stable (environment sbtc) (Origins sbtc config) (ReadAll sbtc config todo) := by
  refine ⟨fun w w' h hrely => ?_, fun _ h => h.1⟩
  have hdist : Undisturbed w w' := Rely.undisturbed hrely
  exact ⟨hdist.origins h.1, fun raw hraw => hdist.read h.1.index (h.2 raw hraw)⟩

/-! ## One entry -/

/-- A deposit that was read may be added. -/
theorem Origins.monitor (h : Origins sbtc config w) {raw : RawRegisteredDeposit}
    (hread : w.Read raw) {deposit : MonitoredDeposit δ ρ}
    (htry : MonitoredDeposit.tryFrom sbtc raw = .ok deposit) :
    Origins sbtc config (w.monitor sbtc deposit) := by
  have hget : ∀ script, (w.monitor sbtc deposit).monitored script =
      if script = deposit.toScriptPubkey sbtc then
        some ((w.monitored script).getD deposit)
      else w.monitored script := by
    intro script
    show Function.update w.monitored (deposit.toScriptPubkey sbtc) _ script = _
    by_cases hscript : script = deposit.toScriptPubkey sbtc
    · subst hscript
      rw [Function.update_self, if_pos rfl]
    · rw [Function.update_of_ne hscript, if_neg hscript]
  refine ⟨h.index, ?_, ?_⟩
  · intro script other hother
    rw [hget, h.kept script other hother, Option.getD_some, ite_self]
  · intro script other hother
    rw [hget] at hother
    by_cases hscript : script = deposit.toScriptPubkey sbtc
    · rw [if_pos hscript] at hother
      cases hold : w.monitored script with
      | some old =>
          rw [hold] at hother
          cases hother
          exact h.monitored script old hold
      | none =>
          rw [hold] at hother
          cases hother
          exact .inr ⟨hscript.symm, raw, hread, htry⟩
    · rw [if_neg hscript] at hother
      exact h.monitored script other hother

theorem handleAddress_origins {raw : RawRegisteredDeposit} {todo : List RawRegisteredDeposit}
    (h : ReadAll sbtc config (raw :: todo) w) :
    KeepsOrigins sbtc config (fun _ => ReadAll sbtc config todo) (handleAddress sbtc raw) w := by
  have hskipped : ReadAll sbtc config todo w :=
    ⟨h.1, fun other hother => h.2 other (List.mem_cons_of_mem raw hother)⟩
  refine Process.meets_bind ?_ fun _ t (ht : ReadAll sbtc config todo t) => ?_
  · cases htry : MonitoredDeposit.tryFrom sbtc raw with
    | ok deposit =>
        refine Process.meets_ask stable_readAll h ?_ ?_
        · intro t _ t' ht hanswer
          rcases add_cases hanswer with ⟨-, hr, -⟩ | ⟨-, ht'⟩
          · cases hr
          · subst ht'
            refine stable_readAll.settles ⟨?_, ?_⟩
            · exact ht.1.monitor (ht.2 raw List.mem_cons_self) htry
            · exact fun other hother => ht.2 other (List.mem_cons_of_mem raw hother)
        · intro t _ t' ht hanswer
          rcases add_cases hanswer with ⟨-, -, ht'⟩ | ⟨hr, -⟩
          · subst ht'
            exact stable_origins.settles ht.1
          · cases hr
    | error e => cases e <;> exact stable_readAll.settles hskipped
  · refine Process.meets_ask stable_readAll ht ?_ ?_
    · intro u _ u' hu hanswer
      rcases setLast_cases sbtc hanswer with ⟨-, hr, -⟩ | ⟨-, hu'⟩
      · cases hr
      · subst hu'
        exact stable_readAll.settles ⟨⟨hu.1.index, hu.1.kept, hu.1.monitored⟩, hu.2⟩
    · intro u _ u' hu hanswer
      rcases setLast_cases sbtc hanswer with ⟨-, -, hu'⟩ | ⟨hr, -⟩
      · subst hu'
        exact stable_origins.settles hu.1
      · cases hr

/-! ## One chunk -/

/-- The state of the registry that answered is a fetch of the history. -/
theorem origins_fetch (h : Origins sbtc config w) {i : Nat} (hnow : i ≤ w.now) (ids : List Nat) :
    ReadAll sbtc config (ids.map (rawAt (w.states i)))
      { w with seen := i, fetches := w.fetches ++ [⟨w.cursor, ids, i⟩] } := by
  have hold : ∀ raw, w.Read raw → World.Read
      { w with seen := i, fetches := w.fetches ++ [⟨w.cursor, ids, i⟩] } raw := by
    intro raw hread
    obtain ⟨f, hf, hraw⟩ := hread
    exact ⟨f, List.mem_append_left _ hf, hraw⟩
  refine ⟨⟨?_, h.kept, ?_⟩, ?_⟩
  · intro f hf
    rcases List.mem_append.mp hf with hf | hf
    · exact h.index f hf
    · rw [List.mem_singleton.mp hf]
      exact hnow
  · intro script deposit hdeposit
    rcases h.monitored script deposit hdeposit with hconfig | ⟨hscript, raw, hread, htry⟩
    · exact .inl hconfig
    · exact .inr ⟨hscript, raw, hold raw hread, htry⟩
  · intro raw hraw
    obtain ⟨id, hid, rfl⟩ := List.mem_map.mp hraw
    exact ⟨_, List.mem_append_right _ List.mem_cons_self, id, hid, rfl⟩

/-- The answer to a chunk has been read, unless its ids are not those asked
for. -/
def Answered (sbtc : Sbtc δ ρ) (config : List UInt8 → Option (MonitoredDeposit δ ρ))
    (ids : List Nat) (data : List RawRegisteredDeposit) (w : World δ ρ) : Prop :=
  Origins sbtc config w ∧ (ids = data.map (·.id) → ∀ raw ∈ data, w.Read raw)

theorem stable_answered {ids : List Nat} {data : List RawRegisteredDeposit} :
    Process.Stable (environment sbtc) (Origins sbtc config)
      (Answered sbtc config ids data) := by
  refine ⟨fun w w' h hrely => ?_, fun _ h => h.1⟩
  have hdist : Undisturbed w w' := Rely.undisturbed hrely
  exact ⟨hdist.origins h.1, fun hids raw hraw => hdist.read h.1.index (h.2 hids raw hraw)⟩

theorem fetchAddresses_origins (h : Origins sbtc config w) (ids : List Nat) :
    KeepsOrigins sbtc config (Answered sbtc config ids) (fetchAddresses ids) w := by
  unfold fetchAddresses
  split
  · exact stable_answered.settles ⟨h, fun _ raw hraw => absurd hraw List.not_mem_nil⟩
  · split
    · exact stable_origins.settles h
    · refine Process.meets_ask stable_origins h ?_ ?_
      · intro t value t' ht hanswer
        rcases hanswer with ⟨e, hr, -⟩ | ⟨value', hr, ht', hmismatch⟩ | ⟨i, -, hnow, hr, ht'⟩
        · cases hr
        · cases hr
          subst ht'
          cases hparse : parseAddresses value with
          | ok data =>
              refine stable_answered.settles ⟨ht, fun hids => ?_⟩
              exact absurd hids.symm (hmismatch data hparse)
          | error e => exact stable_origins.settles ht
        · cases hr
          subst ht'
          have hread := origins_fetch ht hnow ids
          cases hparse : parseAddresses (getAddresses (t.states i) ids) with
          | ok data =>
              rw [← parseAddresses_getAddresses_ok hparse] at hread
              exact stable_answered.settles ⟨hread.1, fun _ => hread.2⟩
          | error e => exact stable_origins.settles hread.1
      · intro t e t' ht hanswer
        rcases hanswer with ⟨e', -, ht'⟩ | ⟨value', hr, -⟩ | ⟨i, -, -, hr, -⟩
        · subst ht'
          exact stable_origins.settles ht
        · cases hr
        · cases hr

theorem syncChunk_origins (h : Origins sbtc config w) (registryNextId start : Nat) :
    KeepsOrigins sbtc config (fun _ => Origins sbtc config)
      (syncChunk sbtc registryNextId start) w := by
  refine Process.meets_bind (fetchAddresses_origins h _) fun data t ht => ?_
  split
  · exact stable_origins.settles ht.1
  · next hids =>
      have hread : ReadAll sbtc config data t := ⟨ht.1, ht.2 (not_not.mp hids)⟩
      refine Process.meets_forM (ReadAll sbtc config) (fun u hu => ?_) (fun raw todo u hu => ?_)
        hread
      · exact stable_origins.settles hu.1
      · exact handleAddress_origins hu

/-! ## One tick -/

theorem getNextAddressId_origins (h : Origins sbtc config w) :
    KeepsOrigins sbtc config (fun _ => Origins sbtc config) getNextAddressId w := by
  refine Process.meets_ask stable_origins h ?_ ?_
  · intro t value t' ht hanswer
    rcases hanswer with ⟨e, hr, -⟩ | ⟨i, -, -, hr, ht'⟩
    · cases hr
    · cases hr
      subst ht'
      have hread : Origins sbtc config
          { t with seen := i, nextRead := some (t.states i).nextAddressId } :=
        ⟨ht.index, ht.kept, ht.monitored⟩
      show KeepsOrigins sbtc config _ (.ofExcept (u64TryFrom (t.states i).nextAddressId)) _
      cases u64TryFrom (t.states i).nextAddressId with
      | ok n => exact stable_origins.settles hread
      | error e => exact stable_origins.settles hread
  · intro t e t' ht hanswer
    rcases hanswer with ⟨e', -, ht'⟩ | ⟨i, -, -, hr, -⟩
    · subst ht'
      exact stable_origins.settles ht
    · cases hr

/-- **The tick** adds nothing that it has not read. -/
theorem updateFromRegistry_origins (h : Origins sbtc config w) :
    KeepsOrigins sbtc config (fun _ => Origins sbtc config)
      (updateFromRegistry sbtc configured) w := by
  cases configured with
  | false => exact stable_origins.settles h
  | true =>
      refine Process.meets_bind ?_ fun lastNextId t (ht : Origins sbtc config t) => ?_
      · refine Process.meets_ask stable_origins h ?_ ?_
        · intro t lastNextId t' ht hanswer
          obtain ⟨rfl, -⟩ := getLast_cases sbtc hanswer
          exact stable_origins.settles ht
        · intro t e t' ht hanswer
          obtain ⟨rfl, -⟩ := getLast_cases sbtc hanswer
          exact stable_origins.settles ht
      · refine Process.meets_bind (getNextAddressId_origins ht) fun n u hu => ?_
        split
        · exact stable_origins.settles hu
        · refine Process.meets_forM (fun _ => Origins sbtc config) (fun v hv => ?_)
            (fun start starts v hv => ?_) hu
          · exact stable_origins.settles hv
          · exact syncChunk_origins hv n start

/-! ## Every interleaving -/

/-- What a tick in progress still keeps. -/
def System.KeepsOrigins (sbtc : Sbtc δ ρ)
    (config : List UInt8 → Option (MonitoredDeposit δ ρ)) (sys : System δ ρ) : Prop :=
  match sys.tick with
  | some tick =>
      Sync.KeepsOrigins sbtc config (fun _ => Origins sbtc config) tick.program sys.world
  | none => Origins sbtc config sys.world

theorem System.KeepsOrigins.origins (h : sys.KeepsOrigins sbtc config) :
    Origins sbtc config sys.world :=
  System.Keeps.holds h

theorem System.Run.keepsOrigins (h : Run sbtc configured sys sys')
    (hkeeps : sys.KeepsOrigins sbtc config) : sys'.KeepsOrigins sbtc config := by
  refine System.Run.keeps ?_ ?_ h hkeeps
  · intro w w' horigins hrely
    exact hrely.undisturbed.origins horigins
  · intro w horigins
    exact updateFromRegistry_origins ⟨horigins.index, horigins.kept, horigins.monitored⟩

theorem keepsOrigins_initial : (System.initial config).KeepsOrigins sbtc config :=
  { index := fun _ hf => by cases hf
    kept := fun _ _ h => h
    monitored := fun _ _ h => .inl h }

/-! ## What is monitored stays so -/

theorem answer_monitored {q : Request δ ρ} {r : Except Error q.Answer}
    (h : answer sbtc q w r w') {script : List UInt8} {deposit : MonitoredDeposit δ ρ}
    (hdeposit : w.monitored script = some deposit) : w'.monitored script = some deposit := by
  cases q with
  | getLastNextAddressId =>
      obtain ⟨-, rfl⟩ := h
      exact hdeposit
  | setLastNextAddressId addressId next =>
      rcases setLast_cases sbtc h with ⟨-, -, rfl⟩ | ⟨-, rfl⟩
      · exact hdeposit
      · exact hdeposit
  | add other =>
      rcases add_cases h with ⟨-, -, rfl⟩ | ⟨-, rfl⟩
      · exact hdeposit
      · show Function.update w.monitored (other.toScriptPubkey sbtc) _ script = _
        by_cases hscript : script = other.toScriptPubkey sbtc
        · subst hscript
          rw [Function.update_self, hdeposit, Option.getD_some]
        · rw [Function.update_of_ne hscript, hdeposit]
  | callNextAddressId =>
      rcases h with ⟨e, -, rfl⟩ | ⟨i, -, -, -, rfl⟩
      · exact hdeposit
      · exact hdeposit
  | callAddresses ids =>
      rcases h with ⟨e, -, rfl⟩ | ⟨value, -, rfl, -⟩ | ⟨i, -, -, -, rfl⟩
      · exact hdeposit
      · exact hdeposit
      · exact hdeposit

theorem System.Step.monitored (h : Step sbtc configured sys sys') {script : List UInt8}
    {deposit : MonitoredDeposit δ ρ} (hdeposit : sys.world.monitored script = some deposit) :
    sys'.world.monitored script = some deposit := by
  cases h with
  | environment hrely =>
      rw [hrely.undisturbed.monitored]
      exact hdeposit
  | start => exact hdeposit
  | run hstep =>
      cases hstep with
      | rely hrely =>
          have hdist := Rely.undisturbed hrely
          rw [hdist.monitored]
          exact hdeposit
      | answer hanswer => exact answer_monitored hanswer hdeposit
      | error hanswer => exact answer_monitored hanswer hdeposit
  | finish => exact hdeposit

end Spox.Sync
