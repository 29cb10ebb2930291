import Spox.Sync.Update

/-!
# Address registry — what a tick keeps

`Inv` is the invariant of the world at every moment, `Settled` what holds in
addition when no fetched chunk is left half handled. The specification of the
updater (`updateFromRegistry_meets`) is put together from one lemma for each
of its parts; the assertions between them are closed under everything the
environment may do (`Undisturbed`).
-/

namespace Spox.Sync

open Spox.Lib Spox.RewardClaims Spox.Client

variable {δ ρ : Type} {sbtc : Sbtc δ ρ} {w w' : World δ ρ} {origin n limit : Nat}

/-! ## Assertions -/

/-- The deposit of an id in a state of the registry, if its entry is present
and parses. -/
def registered (sbtc : Sbtc δ ρ) (r : Registry) (id : Nat) :
    Except Error (MonitoredDeposit δ ρ) :=
  MonitoredDeposit.tryFrom sbtc (rawAt r id)

/-- The invariant. -/
structure Inv (sbtc : Sbtc δ ρ) (w : World δ ρ) : Prop where
  seen : w.seen ≤ w.now
  grows : ∀ i j, i ≤ j → j ≤ w.now → (w.states i).nextAddressId ≤ (w.states j).nextAddressId
  cursor : w.cursor ≤ (w.states w.seen).nextAddressId
  handled : w.handled = List.range w.cursor
  index : ∀ f ∈ w.fetches, f.index ≤ w.now
  resumes : ∀ f ∈ w.fetches, f.ids = List.range' f.cursor f.ids.length
  fetched : ∀ id < w.cursor, ∃ f ∈ w.fetches, id ∈ f.ids
  monitored : ∀ f ∈ w.fetches, ∀ id ∈ f.ids, id < w.cursor → ∀ deposit,
    registered sbtc (w.states f.index) id = .ok deposit →
    (w.monitored (deposit.toScriptPubkey sbtc)).isSome = true

/-- Every id that was fetched has been handled. -/
def Settled (w : World δ ρ) : Prop := ∀ f ∈ w.fetches, ∀ id ∈ f.ids, id < w.cursor

/-- The next id the tick has read: a `u64`, and one the registry had reached
by the last read. -/
structure Target (n : Nat) (w : World δ ρ) : Prop where
  bound : n < u64Bound
  reached : n ≤ (w.states w.seen).nextAddressId
  read : w.nextRead = some n

/-- Between ticks: only a poisoned store leaves a chunk half handled. -/
structure Idle (sbtc : Sbtc δ ρ) (w : World δ ρ) : Prop where
  inv : Inv sbtc w
  resumable : Settled w ∨ w.shared.poisoned = true

/-- Before the chunks are fetched. -/
structure Ready (sbtc : Sbtc δ ρ) (origin : Nat) (w : World δ ρ) : Prop where
  inv : Inv sbtc w
  settled : Settled w
  start : origin ≤ w.cursor

/-- Inside a chunk: `todo` is left to handle, up to the id `limit`. -/
structure Todo (sbtc : Sbtc δ ρ) (origin n limit : Nat) (todo : List RawRegisteredDeposit)
    (w : World δ ρ) : Prop where
  inv : Inv sbtc w
  start : origin ≤ w.cursor
  target : Target n w
  ids : todo.map (·.id) = List.range' w.cursor todo.length
  stop : w.cursor + todo.length = limit
  within : limit ≤ n
  current : ∀ f ∈ w.fetches, ∀ id ∈ f.ids, w.cursor ≤ id →
    rawAt (w.states f.index) id ∈ todo
  fetched : ∀ raw ∈ todo, ∃ f ∈ w.fetches, raw.id ∈ f.ids

/-- The end of a tick that failed and had started at `origin`. -/
structure Failed (sbtc : Sbtc δ ρ) (origin : Nat) (w : World δ ρ) : Prop where
  idle : Idle sbtc w
  start : origin ≤ w.cursor

/-- The end of a tick that succeeded: the cursor is at the next id it read,
or was past it already. -/
structure Succeeded (sbtc : Sbtc δ ρ) (origin : Nat) (w : World δ ρ) : Prop where
  idle : Idle sbtc w
  reached : w.cursor = max origin (w.nextRead.getD origin)

/-! ## Interference -/

/-- What the environment leaves alone. -/
structure Undisturbed (w w' : World δ ρ) : Prop where
  now : w.now ≤ w'.now
  states : ∀ i ≤ w.now, w'.states i = w.states i
  grows : (∀ i j, i ≤ j → j ≤ w.now →
      (w.states i).nextAddressId ≤ (w.states j).nextAddressId) →
    ∀ i j, i ≤ j → j ≤ w'.now → (w'.states i).nextAddressId ≤ (w'.states j).nextAddressId
  store : w'.shared.store = w.shared.store
  poisoned : w.shared.poisoned = true → w'.shared.poisoned = true
  seen : w'.seen = w.seen
  fetches : w'.fetches = w.fetches
  handled : w'.handled = w.handled
  nextRead : w'.nextRead = w.nextRead

theorem undisturbed_advance {r : Registry} (h : (w.states w.now).nextAddressId ≤ r.nextAddressId) :
    Undisturbed w (w.advance r) := by
  have hold : ∀ i ≤ w.now, (w.advance r).states i = w.states i := by
    intro i hi
    exact Function.update_of_ne (by omega) _ _
  have hnew : (w.advance r).states (w.now + 1) = r := Function.update_self _ _ _
  refine ⟨Nat.le_succ _, hold, ?_, rfl, id, rfl, rfl, rfl, rfl⟩
  intro hgrows i j hij hj
  have hj : j ≤ w.now + 1 := hj
  rcases Nat.lt_or_ge w.now j with hlt | hge
  · have hj' : j = w.now + 1 := by omega
    subst hj'
    rw [hnew]
    rcases Nat.lt_or_ge w.now i with hilt | hige
    · have hi : i = w.now + 1 := by omega
      rw [hi, hnew]
    · rw [hold i hige]
      exact (hgrows i w.now hige (Nat.le_refl _)).trans h
  · rw [hold i (by omega), hold j hge]
    exact hgrows i j hij hge

/-- **The environment** commits transactions on the registry, which never
lower its id counter, and may poison the store; it touches nothing else. -/
theorem Rely.undisturbed (h : Rely w w') : Undisturbed w w' := by
  cases h with
  | register depositScript reclaimScript =>
      exact undisturbed_advance (registerAddress_next_le _ depositScript reclaimScript)
  | remove txSender addressIds hlen =>
      exact undisturbed_advance (Nat.le_of_eq (removeAddresses_next _ txSender addressIds).symm)
  | poison => exact ⟨Nat.le_refl _, fun _ _ => rfl, id, rfl, fun _ => rfl, rfl, rfl, rfl, rfl⟩

namespace Undisturbed

variable (h : Undisturbed w w')

include h

theorem cursor : w'.cursor = w.cursor := congrArg Store.lastNextAddressId h.store

theorem monitored : w'.monitored = w.monitored := congrArg Store.monitored h.store

theorem inv (hinv : Inv sbtc w) : Inv sbtc w' where
  seen := by
    rw [h.seen]
    exact hinv.seen.trans h.now
  grows := h.grows hinv.grows
  cursor := by
    rw [h.cursor, h.seen, h.states _ hinv.seen]
    exact hinv.cursor
  handled := by
    rw [h.handled, h.cursor]
    exact hinv.handled
  index := by
    rw [h.fetches]
    exact fun f hf => (hinv.index f hf).trans h.now
  resumes := by
    rw [h.fetches]
    exact hinv.resumes
  fetched := by
    rw [h.cursor, h.fetches]
    exact hinv.fetched
  monitored := by
    rw [h.cursor, h.fetches, h.monitored]
    intro f hf id hid hlt deposit hdeposit
    rw [h.states f.index (hinv.index f hf)] at hdeposit
    exact hinv.monitored f hf id hid hlt deposit hdeposit

theorem settled (hsettled : Settled w) : Settled w' := by
  unfold Settled
  rw [h.fetches, h.cursor]
  exact hsettled

theorem target (hinv : Inv sbtc w) (htarget : Target n w) : Target n w' where
  bound := htarget.bound
  reached := by
    rw [h.seen, h.states _ hinv.seen]
    exact htarget.reached
  read := h.nextRead.trans htarget.read

theorem idle (hidle : Idle sbtc w) : Idle sbtc w' where
  inv := h.inv hidle.inv
  resumable := hidle.resumable.imp h.settled h.poisoned

theorem ready (hready : Ready sbtc origin w) : Ready sbtc origin w' where
  inv := h.inv hready.inv
  settled := h.settled hready.settled
  start := by
    rw [h.cursor]
    exact hready.start

theorem todo {todo : List RawRegisteredDeposit} (htodo : Todo sbtc origin n limit todo w) :
    Todo sbtc origin n limit todo w' where
  inv := h.inv htodo.inv
  start := by
    rw [h.cursor]
    exact htodo.start
  target := h.target htodo.inv htodo.target
  ids := by
    rw [h.cursor]
    exact htodo.ids
  stop := by
    rw [h.cursor]
    exact htodo.stop
  within := htodo.within
  current := by
    rw [h.fetches, h.cursor]
    intro f hf id hid hle
    rw [h.states f.index (htodo.inv.index f hf)]
    exact htodo.current f hf id hid hle
  fetched := by
    rw [h.fetches]
    exact htodo.fetched

theorem failed (hfailed : Failed sbtc origin w) : Failed sbtc origin w' where
  idle := h.idle hfailed.idle
  start := by
    rw [h.cursor]
    exact hfailed.start

theorem succeeded (hsucceeded : Succeeded sbtc origin w) : Succeeded sbtc origin w' where
  idle := h.idle hsucceeded.idle
  reached := by
    rw [h.cursor, h.nextRead]
    exact hsucceeded.reached

end Undisturbed

/-- What `Undisturbed` keeps is stable. -/
theorem stable_of_undisturbed {P : World δ ρ → Prop} (hsafe : ∀ w, P w → Inv sbtc w)
    (h : ∀ w w', Undisturbed w w' → P w → P w') :
    Process.Stable (environment sbtc) (Inv sbtc) P :=
  ⟨fun w w' hP hrely => h w w' (Rely.undisturbed hrely) hP, hsafe⟩

theorem stable_failed : Process.Stable (environment sbtc) (Inv sbtc) (Failed sbtc origin) :=
  stable_of_undisturbed (fun _ h => h.idle.inv) fun _ _ h => h.failed

theorem stable_todo {todo : List RawRegisteredDeposit} :
    Process.Stable (environment sbtc) (Inv sbtc) (Todo sbtc origin n limit todo) :=
  stable_of_undisturbed (fun _ h => h.inv) fun _ _ h => h.todo

/-! ## Writes of the store -/

/-- The world after `add`. -/
def World.monitor (sbtc : Sbtc δ ρ) (deposit : MonitoredDeposit δ ρ) (w : World δ ρ) :
    World δ ρ :=
  { w with shared := { w.shared with store := { w.shared.store with
      monitored := Function.update w.monitored (deposit.toScriptPubkey sbtc)
        (some ((w.monitored (deposit.toScriptPubkey sbtc)).getD deposit)) } } }

/-- The world after the cursor write that ends the handling of an id. -/
def World.moveTo (addressId next : Nat) (w : World δ ρ) : World δ ρ :=
  { w with
    shared := { w.shared with store := { w.shared.store with lastNextAddressId := next } }
    handled := w.handled ++ [addressId] }

theorem getLast_cases (sbtc : Sbtc δ ρ) {r : Except Error Nat}
    (h : answer sbtc .getLastNextAddressId w r w') :
    w' = w ∧ ((w.shared.poisoned = true ∧ r = .error .poisonedMutex) ∨
      (w.shared.poisoned = false ∧ r = .ok w.cursor)) := by
  obtain ⟨hr, hw⟩ := h
  subst hr
  refine ⟨hw, ?_⟩
  cases hpoisoned : w.shared.poisoned with
  | true =>
      refine .inl ⟨rfl, ?_⟩
      rw [SharedStore.getLastNextAddressId, w.shared.lock_of_poisoned hpoisoned]
      rfl
  | false =>
      refine .inr ⟨rfl, ?_⟩
      rw [SharedStore.getLastNextAddressId, w.shared.lock_of_not_poisoned hpoisoned]
      rfl

theorem add_cases {deposit : MonitoredDeposit δ ρ} {r : Except Error Unit}
    (h : answer sbtc (.add deposit) w r w') :
    (w.shared.poisoned = true ∧ r = .error .poisonedMutex ∧ w' = w) ∨
      (r = .ok () ∧ w' = w.monitor sbtc deposit) := by
  have h : (r, w') = w.write [] (w.shared.add sbtc deposit) := h
  cases hpoisoned : w.shared.poisoned with
  | true =>
      have hadd : w.shared.add sbtc deposit = .error .poisonedMutex := by
        rw [SharedStore.add, w.shared.lock_of_poisoned hpoisoned]
        rfl
      rw [hadd] at h
      cases h
      exact .inl ⟨rfl, rfl, rfl⟩
  | false =>
      have hadd : w.shared.add sbtc deposit = .ok (w.monitor sbtc deposit).shared := by
        rw [SharedStore.add, w.shared.lock_of_not_poisoned hpoisoned]
        rfl
      rw [hadd] at h
      simp only [World.write, List.append_nil, Prod.mk.injEq] at h
      exact .inr h

theorem setLast_cases (sbtc : Sbtc δ ρ) {addressId next : Nat} {r : Except Error Unit}
    (h : answer sbtc (.setLastNextAddressId addressId next) w r w') :
    (w.shared.poisoned = true ∧ r = .error .poisonedMutex ∧ w' = w) ∨
      (r = .ok () ∧ w' = w.moveTo addressId next) := by
  have h : (r, w') = w.write [addressId] (w.shared.setLastNextAddressId next) := h
  cases hpoisoned : w.shared.poisoned with
  | true =>
      have hset : w.shared.setLastNextAddressId next = .error .poisonedMutex := by
        rw [SharedStore.setLastNextAddressId, w.shared.lock_of_poisoned hpoisoned]
        rfl
      rw [hset] at h
      cases h
      exact .inl ⟨rfl, rfl, rfl⟩
  | false =>
      have hset : w.shared.setLastNextAddressId next =
          .ok (w.moveTo addressId next).shared := by
        rw [SharedStore.setLastNextAddressId, w.shared.lock_of_not_poisoned hpoisoned]
        rfl
      rw [hset] at h
      simp only [World.write, Prod.mk.injEq] at h
      exact .inr h

/-- Adding a deposit to the store keeps what is there. -/
theorem isSome_monitor {deposit : MonitoredDeposit δ ρ} {script : List UInt8}
    (h : script = deposit.toScriptPubkey sbtc ∨ (w.monitored script).isSome = true) :
    ((w.monitor sbtc deposit).monitored script).isSome = true := by
  show (Function.update w.monitored (deposit.toScriptPubkey sbtc) _ script).isSome = true
  by_cases hscript : script = deposit.toScriptPubkey sbtc
  · subst hscript
    rw [Function.update_self]
    rfl
  · rw [Function.update_of_ne hscript]
    exact h.resolve_left hscript

theorem todo_monitor {todo : List RawRegisteredDeposit} (h : Todo sbtc origin n limit todo w)
    (deposit : MonitoredDeposit δ ρ) :
    Todo sbtc origin n limit todo (w.monitor sbtc deposit) :=
  { h with
    inv := { h.inv with
      monitored := fun f hf id hid hlt d hd =>
        isSome_monitor (.inr (h.inv.monitored f hf id hid hlt d hd)) }
    target := ⟨h.target.bound, h.target.reached, h.target.read⟩ }

section MoveTo

variable {raw : RawRegisteredDeposit} {todo : List RawRegisteredDeposit}

/-- The first entry left is the one at the cursor, and the rest follow it. -/
theorem Todo.ids_cons (h : Todo sbtc origin n limit (raw :: todo) w) :
    raw.id = w.cursor ∧ todo.map (·.id) = List.range' (w.cursor + 1) todo.length := by
  have hids := h.ids
  rw [List.map_cons, List.length_cons, List.range'_succ] at hids
  exact List.cons.inj hids

theorem Todo.length_cons (h : Todo sbtc origin n limit (raw :: todo) w) :
    w.cursor + 1 + todo.length = limit := by
  have hstop := h.stop
  rw [List.length_cons] at hstop
  omega

theorem Todo.cursor_moveTo (h : Todo sbtc origin n limit (raw :: todo) w) :
    (w.moveTo raw.id (saturatingAdd raw.id 1)).cursor = w.cursor + 1 := by
  show saturatingAdd raw.id 1 = w.cursor + 1
  -- the id is a u64 below the target, so its successor does not saturate
  have hlength := h.length_cons
  have hbound := h.target.bound
  have hwithin := h.within
  rw [saturatingAdd, h.ids_cons.1]
  omega

/-- What was fetched from the cursor on is the first entry left, for the id
at the cursor, or one of the rest. -/
theorem Todo.current_cons (h : Todo sbtc origin n limit (raw :: todo) w) {f : Fetch}
    (hf : f ∈ w.fetches) {id : Nat} (hid : id ∈ f.ids) (hle : w.cursor ≤ id) :
    rawAt (w.states f.index) id = raw ∧ id = w.cursor ∨
      rawAt (w.states f.index) id ∈ todo ∧ w.cursor + 1 ≤ id := by
  rcases List.mem_cons.mp (h.current f hf id hid hle) with hhead | htail
  · refine .inl ⟨hhead, ?_⟩
    rw [← h.ids_cons.1]
    exact congrArg RawRegisteredDeposit.id hhead
  · refine .inr ⟨htail, ?_⟩
    have hmem : id ∈ todo.map (·.id) := List.mem_map_of_mem htail
    rw [h.ids_cons.2, List.mem_range'_1] at hmem
    exact hmem.1

/-- The cursor may move past an entry that is monitored if it parses. -/
theorem Todo.inv_moveTo (h : Todo sbtc origin n limit (raw :: todo) w)
    (hraw : ∀ deposit, MonitoredDeposit.tryFrom sbtc raw = .ok deposit →
      (w.monitored (deposit.toScriptPubkey sbtc)).isSome = true) :
    Inv sbtc (w.moveTo raw.id (saturatingAdd raw.id 1)) := by
  have hcursor := h.cursor_moveTo
  refine ⟨h.inv.seen, h.inv.grows, ?_, ?_, h.inv.index, h.inv.resumes, ?_, ?_⟩
  · rw [hcursor]
    have hreached : n ≤ (w.states w.seen).nextAddressId := h.target.reached
    have hlength := h.length_cons
    have hwithin := h.within
    show w.cursor + 1 ≤ (w.states w.seen).nextAddressId
    omega
  · rw [hcursor, List.range_succ]
    show w.handled ++ [raw.id] = _
    rw [h.inv.handled, h.ids_cons.1]
  · rw [hcursor]
    intro id hid
    rcases Nat.lt_succ_iff_lt_or_eq.mp hid with hlt | heq
    · exact h.inv.fetched id hlt
    · obtain ⟨f, hf, hfid⟩ := h.fetched raw List.mem_cons_self
      refine ⟨f, hf, ?_⟩
      rw [heq, ← h.ids_cons.1]
      exact hfid
  · rw [hcursor]
    intro f hf id hid hlt deposit hdeposit
    rcases Nat.lt_succ_iff_lt_or_eq.mp hlt with hlt | heq
    · exact h.inv.monitored f hf id hid hlt deposit hdeposit
    · -- every fetch of this id is the entry just handled
      rcases h.current_cons hf hid (Nat.le_of_eq heq.symm) with ⟨hhead, -⟩ | ⟨-, hge⟩
      · exact hraw deposit (hhead ▸ hdeposit)
      · omega

/-- **One entry handled**: if it parses and is monitored, or does not parse,
the cursor may move past it. -/
theorem todo_moveTo (h : Todo sbtc origin n limit (raw :: todo) w)
    (hraw : ∀ deposit, MonitoredDeposit.tryFrom sbtc raw = .ok deposit →
      (w.monitored (deposit.toScriptPubkey sbtc)).isSome = true) :
    Todo sbtc origin n limit todo (w.moveTo raw.id (saturatingAdd raw.id 1)) := by
  have hcursor := h.cursor_moveTo
  refine ⟨h.inv_moveTo hraw, ?_, ⟨h.target.bound, h.target.reached, h.target.read⟩, ?_, ?_,
    h.within, ?_, ?_⟩
  · rw [hcursor]
    exact h.start.trans (Nat.le_succ _)
  · rw [hcursor]
    exact h.ids_cons.2
  · rw [hcursor]
    exact h.length_cons
  · rw [hcursor]
    intro f hf id hid hle
    rcases h.current_cons hf hid (Nat.le_of_succ_le hle) with ⟨-, heq⟩ | ⟨htail, -⟩
    · omega
    · exact htail
  · intro other hother
    exact h.fetched other (List.mem_cons_of_mem raw hother)

end MoveTo

end Spox.Sync
