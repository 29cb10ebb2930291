import Spox.Sync.Invariant

/-!
# Address registry — no id is skipped

One specification for each part of the updater, from the handling of one
entry to the whole tick, and from them the invariant of the system: whatever
the interleaving, the cursor is just after the last id that was handled, and
every id below it was fetched and, where its entry was there and parsed, is
monitored.
-/

namespace Spox.Sync

open Spox.Lib Spox.RewardClaims Spox.Client

variable {δ ρ : Type} {sbtc : Sbtc δ ρ} {w w' : World δ ρ} {origin n limit : Nat}

/-- What a part of a tick meets: `P` if it goes on, `Failed` if the tick
fails. -/
abbrev TickMeets {α : Type} (sbtc : Sbtc δ ρ) (origin : Nat) (P : α → World δ ρ → Prop) :
    Update δ ρ α → World δ ρ → Prop :=
  Process.Meets (environment sbtc) (Inv sbtc) P fun _ => Failed sbtc origin

/-! ## One entry -/

theorem Todo.failed {todo : List RawRegisteredDeposit} (h : Todo sbtc origin n limit todo w)
    (hpoisoned : w.shared.poisoned = true) : Failed sbtc origin w :=
  ⟨⟨h.inv, .inr hpoisoned⟩, h.start⟩

/-- An entry is ready for the cursor to move past it. -/
structure Stored (sbtc : Sbtc δ ρ) (origin n limit : Nat) (raw : RawRegisteredDeposit)
    (todo : List RawRegisteredDeposit) (w : World δ ρ) : Prop where
  todo : Todo sbtc origin n limit (raw :: todo) w
  monitored : ∀ deposit, MonitoredDeposit.tryFrom sbtc raw = .ok deposit →
    (w.monitored (deposit.toScriptPubkey sbtc)).isSome = true

theorem stable_stored {raw : RawRegisteredDeposit} {todo : List RawRegisteredDeposit} :
    Process.Stable (environment sbtc) (Inv sbtc) (Stored sbtc origin n limit raw todo) :=
  stable_of_undisturbed (fun _ h => h.todo.inv) fun _ _ h hstored =>
    ⟨h.todo hstored.todo, by
      rw [h.monitored]
      exact hstored.monitored⟩

/-- The write that moves the cursor past an entry. -/
theorem moveCursor_meets {raw : RawRegisteredDeposit} {todo : List RawRegisteredDeposit}
    (h : Stored sbtc origin n limit raw todo w) :
    TickMeets sbtc origin (fun _ : PUnit => Todo sbtc origin n limit todo)
      (.ask (.setLastNextAddressId raw.id (saturatingAdd raw.id 1)) fun _ => pure ⟨⟩) w := by
  refine Process.meets_ask stable_stored h ?_ ?_
  · intro t _ t' ht hanswer
    rcases setLast_cases sbtc hanswer with ⟨-, hr, -⟩ | ⟨-, ht'⟩
    · cases hr
    · subst ht'
      exact stable_todo.settles (todo_moveTo ht.todo ht.monitored)
  · intro t _ t' ht hanswer
    rcases setLast_cases sbtc hanswer with ⟨hpoisoned, -, ht'⟩ | ⟨hr, -⟩
    · subst ht'
      exact stable_failed.settles (ht.todo.failed hpoisoned)
    · cases hr

theorem handleAddress_meets {raw : RawRegisteredDeposit} {todo : List RawRegisteredDeposit}
    (h : Todo sbtc origin n limit (raw :: todo) w) :
    TickMeets sbtc origin (fun _ => Todo sbtc origin n limit todo) (handleAddress sbtc raw) w := by
  refine Process.meets_bind ?_ fun _ _ => moveCursor_meets
  cases htry : MonitoredDeposit.tryFrom sbtc raw with
  | ok deposit =>
      refine Process.meets_ask stable_todo h ?_ ?_
      · intro t _ t' ht hanswer
        rcases add_cases hanswer with ⟨-, hr, -⟩ | ⟨-, ht'⟩
        · cases hr
        · subst ht'
          refine stable_stored.settles ⟨todo_monitor ht deposit, ?_⟩
          intro deposit' htry'
          rw [htry] at htry'
          cases htry'
          exact isSome_monitor (.inl rfl)
      · intro t _ t' ht hanswer
        rcases add_cases hanswer with ⟨hpoisoned, -, ht'⟩ | ⟨hr, -⟩
        · subst ht'
          exact stable_failed.settles (ht.failed hpoisoned)
        · cases hr
  | error e =>
      have hstored : Stored sbtc origin n limit raw todo w :=
        ⟨h, fun deposit hdeposit => by rw [htry] at hdeposit; cases hdeposit⟩
      cases e <;> exact stable_stored.settles hstored

/-! ## One chunk -/

/-- Between chunks: `starts` is what is left of the range. -/
structure Chunks (sbtc : Sbtc δ ρ) (origin n : Nat) (starts : List Nat) (w : World δ ρ) :
    Prop where
  ready : Ready sbtc origin w
  target : Target n w
  within : w.cursor ≤ n
  starts : starts = stepBy w.cursor n getAddressesMaxIds

theorem stable_chunks {starts : List Nat} :
    Process.Stable (environment sbtc) (Inv sbtc) (Chunks sbtc origin n starts) :=
  stable_of_undisturbed (fun _ h => h.ready.inv) fun _ _ h hchunks =>
    ⟨h.ready hchunks.ready, h.target hchunks.ready.inv hchunks.target, by
      rw [h.cursor]
      exact hchunks.within, by
      rw [h.cursor]
      exact hchunks.starts⟩

theorem Ready.failed (h : Ready sbtc origin w) : Failed sbtc origin w :=
  ⟨⟨h.inv, .inl h.settled⟩, h.start⟩

/-- The range steps by chunks, and the last one is short. -/
theorem stepBy_cons {c : Nat} {starts : List Nat} {cursor : Nat}
    (h : c :: starts = stepBy cursor n getAddressesMaxIds) :
    c = cursor ∧ cursor < n ∧
      starts = stepBy (min (cursor + getAddressesMaxIds) n) n getAddressesMaxIds := by
  unfold stepBy getAddressesMaxIds at *
  cases hcount : (n - cursor + (400 - 1)) / 400 with
  | zero =>
      rw [hcount] at h
      cases h
  | succ k =>
      rw [hcount, List.range'_succ] at h
      obtain ⟨hc, hstarts⟩ := List.cons.inj h
      refine ⟨hc, by omega, ?_⟩
      rw [hstarts]
      rcases Nat.le_total (cursor + 400) n with hle | hge
      · rw [Nat.min_eq_left hle]
        congr 1
        omega
      · have hk : k = 0 := by omega
        have hcount' : (n - n + (400 - 1)) / 400 = 0 := by omega
        rw [Nat.min_eq_right hge, hcount', hk]
        rfl

theorem stepBy_nil {cursor : Nat} (h : [] = stepBy cursor n getAddressesMaxIds) :
    n ≤ cursor := by
  unfold stepBy getAddressesMaxIds at h
  have hlen := congrArg List.length h
  rw [List.length_range', List.length_nil] at hlen
  omega

/-- The answer to a chunk: the requested entries, or a failed tick. -/
def Fetched (sbtc : Sbtc δ ρ) (origin n limit : Nat) (ids : List Nat)
    (data : List RawRegisteredDeposit) (w : World δ ρ) : Prop :=
  (data.map (·.id) = ids ∧ Todo sbtc origin n limit data w) ∨
    (data.map (·.id) ≠ ids ∧ Failed sbtc origin w)

theorem stable_fetched {ids : List Nat} {data : List RawRegisteredDeposit} :
    Process.Stable (environment sbtc) (Inv sbtc) (Fetched sbtc origin n limit ids data) := by
  refine stable_of_undisturbed ?_ ?_
  · intro w h
    rcases h with ⟨-, h⟩ | ⟨-, h⟩
    · exact h.inv
    · exact h.idle.inv
  · intro w w' h hfetched
    rcases hfetched with ⟨hids, hfetched⟩ | ⟨hids, hfetched⟩
    · exact .inl ⟨hids, h.todo hfetched⟩
    · exact .inr ⟨hids, h.failed hfetched⟩

/-- A chunk answered from a state of the registry is the next one to handle. -/
theorem todo_fetch (h : Ready sbtc origin w) (htarget : Target n w)
    (hcursor : w.cursor ≤ limit) (hwithin : limit ≤ n) {i : Nat} (hseen : w.seen ≤ i)
    (hnow : i ≤ w.now) :
    Todo sbtc origin n limit
      ((List.range' w.cursor (limit - w.cursor)).map (rawAt (w.states i)))
      { w with seen := i, fetches := w.fetches ++
          [⟨w.cursor, List.range' w.cursor (limit - w.cursor), i⟩] } := by
  have hgrows := h.inv.grows w.seen i hseen hnow
  have hlast : ∀ f ∈ w.fetches ++ [⟨w.cursor, List.range' w.cursor (limit - w.cursor), i⟩],
      f ∈ w.fetches ∨ f = ⟨w.cursor, List.range' w.cursor (limit - w.cursor), i⟩ := by
    intro f hf
    rcases List.mem_append.mp hf with hf | hf
    · exact .inl hf
    · exact .inr (List.mem_singleton.mp hf)
  refine ⟨⟨hnow, h.inv.grows, h.inv.cursor.trans hgrows, h.inv.handled, ?_, ?_, ?_, ?_⟩,
    h.start, ⟨htarget.bound, htarget.reached.trans hgrows, htarget.read⟩, ?_, ?_, hwithin,
    ?_, ?_⟩
  · intro f hf
    rcases hlast f hf with hf | rfl
    · exact h.inv.index f hf
    · exact hnow
  · intro f hf
    rcases hlast f hf with hf | rfl
    · exact h.inv.resumes f hf
    · rw [List.length_range']
  · intro id hid
    obtain ⟨f, hf, hfid⟩ := h.inv.fetched id hid
    exact ⟨f, List.mem_append_left _ hf, hfid⟩
  · intro f hf id hid hlt deposit hdeposit
    rcases hlast f hf with hf | rfl
    · exact h.inv.monitored f hf id hid hlt deposit hdeposit
    · have hge : w.cursor ≤ id := (List.mem_range'_1.mp hid).1
      exact absurd hlt (Nat.not_lt_of_le hge)
  · rw [List.length_map, List.length_range', List.map_map]
    exact List.map_id _
  · rw [List.length_map, List.length_range']
    show w.cursor + (limit - w.cursor) = limit
    omega
  · intro f hf id hid hle
    rcases hlast f hf with hf | rfl
    · have hlt := h.settled f hf id hid
      exact absurd hlt (Nat.not_lt_of_le hle)
    · exact List.mem_map_of_mem hid
  · intro raw hraw
    obtain ⟨id, hid, rfl⟩ := List.mem_map.mp hraw
    exact ⟨_, List.mem_append_right _ List.mem_cons_self, hid⟩

theorem fetchAddresses_meets (h : Ready sbtc origin w) (htarget : Target n w)
    (hcursor : w.cursor < limit) (hwithin : limit ≤ n)
    (hsize : limit ≤ w.cursor + getAddressesMaxIds) :
    TickMeets sbtc origin
      (Fetched sbtc origin n limit (List.range' w.cursor (limit - w.cursor)))
      (fetchAddresses (List.range' w.cursor (limit - w.cursor))) w := by
  have hids : ∀ id ∈ List.range' w.cursor (limit - w.cursor), id < u64Bound := by
    intro id hid
    have hlt := (List.mem_range'_1.mp hid).2
    have hbound := htarget.bound
    omega
  have hnonempty : (List.range' w.cursor (limit - w.cursor)).isEmpty = false := by
    rw [List.isEmpty_eq_false_iff]
    intro hnil
    have hlen := congrArg List.length hnil
    rw [List.length_range', List.length_nil] at hlen
    omega
  have hlength : ¬ getAddressesMaxIds < (List.range' w.cursor (limit - w.cursor)).length := by
    rw [List.length_range']
    omega
  rw [fetchAddresses, hnonempty, if_neg (by simp), if_neg hlength]
  -- the chunk is anchored at the cursor, which the environment does not move
  have hstable : Process.Stable (environment sbtc) (Inv sbtc) fun t : World δ ρ =>
      Ready sbtc origin t ∧ Target n t ∧ t.cursor = w.cursor :=
    stable_of_undisturbed (fun _ h => h.1.inv) fun _ _ h ht =>
      ⟨h.ready ht.1, h.target ht.1.inv ht.2.1, h.cursor.trans ht.2.2⟩
  refine Process.meets_ask hstable ⟨h, htarget, rfl⟩ ?_ ?_
  · intro t value t' ht hanswer
    obtain ⟨hready, htarget', hanchor⟩ := ht
    rcases hanswer with ⟨e, hr, -⟩ | ⟨value', hr, ht', hmismatch⟩ | ⟨i, hseen, hnow, hr, ht'⟩
    · cases hr
    · cases hr
      subst ht'
      cases hparse : parseAddresses value with
      -- the ids are not those asked for, so the chunk is refused
      | ok data => exact stable_fetched.settles (.inr ⟨hmismatch data hparse, hready.failed⟩)
      | error e => exact stable_failed.settles hready.failed
    · cases hr
      subst ht'
      -- an honest answer is read back as the state it came from
      rw [parseAddresses_getAddresses _ hids]
      refine stable_fetched.settles (.inl ⟨?_, ?_⟩)
      · rw [List.map_map]
        exact List.map_id _
      · rw [← hanchor]
        exact todo_fetch hready htarget' (by omega) hwithin hseen hnow
  · intro t e t' ht hanswer
    rcases hanswer with ⟨e', -, ht'⟩ | ⟨value', hr, -⟩ | ⟨i, -, -, hr, -⟩
    · subst ht'
      exact stable_failed.settles ht.1.failed
    · cases hr
    · cases hr

theorem Todo.chunks {starts : List Nat} (h : Todo sbtc origin n limit [] w)
    (hstarts : starts = stepBy limit n getAddressesMaxIds) : Chunks sbtc origin n starts w := by
  have hcursor : w.cursor = limit := h.stop
  refine ⟨⟨h.inv, ?_, h.start⟩, h.target, hcursor ▸ h.within, hcursor ▸ hstarts⟩
  intro f hf id hid
  rcases Nat.lt_or_ge id w.cursor with hlt | hge
  · exact hlt
  · cases h.current f hf id hid hge

theorem syncChunk_meets {c : Nat} {starts : List Nat}
    (h : Chunks sbtc origin n (c :: starts) w) :
    TickMeets sbtc origin (fun _ => Chunks sbtc origin n starts) (syncChunk sbtc n c) w := by
  obtain ⟨hc, hlt, hstarts⟩ := stepBy_cons h.starts
  subst hc
  have hbound := h.target.bound
  -- the target is a u64, so the end of the chunk does not saturate below it
  have hstop : min (saturatingAdd w.cursor getAddressesMaxIds) n =
      min (w.cursor + getAddressesMaxIds) n := by
    rw [saturatingAdd]
    omega
  have hpos : 0 < getAddressesMaxIds := by decide
  rw [syncChunk, hstop]
  refine Process.meets_bind (fetchAddresses_meets h.ready h.target (by omega)
    (Nat.min_le_right _ _) (Nat.min_le_left _ _)) fun data t ht => ?_
  rcases ht with ⟨hids, htodo⟩ | ⟨hids, hfailed⟩
  · rw [if_neg (fun hne => hne hids.symm)]
    refine Process.meets_forM (fun todo => Todo sbtc origin n _ todo) ?_ ?_ htodo
    · intro u hu
      exact stable_chunks.settles (hu.chunks hstarts)
    · intro raw todo u hu
      exact handleAddress_meets hu
  · rw [if_pos (fun heq => hids heq.symm)]
    exact stable_failed.settles hfailed

/-! ## One tick -/

/-- The start of a tick. -/
structure Started (sbtc : Sbtc δ ρ) (origin : Nat) (w : World δ ρ) : Prop where
  idle : Idle sbtc w
  start : w.cursor = origin
  read : w.nextRead = none

theorem stable_started : Process.Stable (environment sbtc) (Inv sbtc) (Started sbtc origin) :=
  stable_of_undisturbed (fun _ h => h.idle.inv) fun _ _ h hstarted =>
    ⟨h.idle hstarted.idle, h.cursor.trans hstarted.start, h.nextRead.trans hstarted.read⟩

/-- The cursor has been read, so the store was sound. -/
structure Located (sbtc : Sbtc δ ρ) (origin : Nat) (w : World δ ρ) : Prop where
  ready : Ready sbtc origin w
  start : w.cursor = origin

theorem stable_located : Process.Stable (environment sbtc) (Inv sbtc) (Located sbtc origin) :=
  stable_of_undisturbed (fun _ h => h.ready.inv) fun _ _ h hlocated =>
    ⟨h.ready hlocated.ready, h.cursor.trans hlocated.start⟩

/-- The next id has been read. -/
structure Aimed (sbtc : Sbtc δ ρ) (origin n : Nat) (w : World δ ρ) : Prop where
  located : Located sbtc origin w
  target : Target n w

theorem stable_aimed : Process.Stable (environment sbtc) (Inv sbtc) (Aimed sbtc origin n) :=
  stable_of_undisturbed (fun _ h => h.located.ready.inv) fun _ _ h haimed =>
    ⟨⟨h.ready haimed.located.ready, h.cursor.trans haimed.located.start⟩,
      h.target haimed.located.ready.inv haimed.target⟩

theorem stable_succeeded :
    Process.Stable (environment sbtc) (Inv sbtc) (Succeeded sbtc origin) :=
  stable_of_undisturbed (fun _ h => h.idle.inv) fun _ _ h => h.succeeded

theorem aimed_read (h : Located sbtc origin w) {i : Nat} (hseen : w.seen ≤ i) (hnow : i ≤ w.now)
    (hbound : (w.states i).nextAddressId < u64Bound) :
    Aimed sbtc origin (w.states i).nextAddressId
      { w with seen := i, nextRead := some (w.states i).nextAddressId } where
  located :=
    { ready :=
        { inv := { h.ready.inv with
            seen := hnow
            cursor := h.ready.inv.cursor.trans (h.ready.inv.grows w.seen i hseen hnow) }
          settled := h.ready.settled
          start := h.ready.start }
      start := h.start }
  target := ⟨hbound, Nat.le_refl _, rfl⟩

/-- A read of the next id leaves the rest of the world as it was, also when
the client cannot use it. -/
theorem failed_read (h : Located sbtc origin w) {i : Nat} (hseen : w.seen ≤ i) (hnow : i ≤ w.now)
    (read : Option Nat) : Failed sbtc origin { w with seen := i, nextRead := read } where
  idle :=
    { inv := { h.ready.inv with
        seen := hnow
        cursor := h.ready.inv.cursor.trans (h.ready.inv.grows w.seen i hseen hnow) }
      resumable := .inl h.ready.settled }
  start := h.ready.start

theorem getNextAddressId_meets (h : Located sbtc origin w) :
    TickMeets sbtc origin (fun n => Aimed sbtc origin n) getNextAddressId w := by
  refine Process.meets_ask stable_located h ?_ ?_
  · intro t value t' ht hanswer
    rcases hanswer with ⟨e, hr, -⟩ | ⟨i, hseen, hnow, hr, ht'⟩
    · cases hr
    · cases hr
      subst ht'
      show TickMeets sbtc origin (fun n => Aimed sbtc origin n)
        (.ofExcept (u64TryFrom (t.states i).nextAddressId)) _
      by_cases hbound : (t.states i).nextAddressId < u64Bound
      · rw [u64TryFrom, if_pos hbound]
        exact stable_aimed.settles (aimed_read ht hseen hnow hbound)
      · rw [u64TryFrom, if_neg hbound]
        exact stable_failed.settles (failed_read ht hseen hnow _)
  · intro t e t' ht hanswer
    rcases hanswer with ⟨e', -, ht'⟩ | ⟨i, -, -, hr, -⟩
    · subst ht'
      exact stable_failed.settles ht.ready.failed
    · cases hr

theorem getLast_meets (h : Started sbtc origin w) :
    TickMeets sbtc origin (fun lastNextId t => lastNextId = origin ∧ Located sbtc origin t)
      (.ask .getLastNextAddressId .pure : Update δ ρ Nat) w := by
  refine Process.meets_ask stable_started h ?_ ?_
  · intro t lastNextId t' ht hanswer
    obtain ⟨ht', hread⟩ := getLast_cases sbtc hanswer
    subst ht'
    rcases hread with ⟨-, hr⟩ | ⟨hsound, hr⟩
    · cases hr
    · cases hr
      have hsettled : Settled t' :=
        ht.idle.resumable.resolve_right (by rw [hsound]; exact Bool.false_ne_true)
      have hstable : Process.Stable (environment sbtc) (Inv sbtc) fun u : World δ ρ =>
          t'.cursor = origin ∧ Located sbtc origin u :=
        stable_of_undisturbed (fun u hu => hu.2.ready.inv) fun u u' hdist hu =>
          ⟨hu.1, hdist.ready hu.2.ready, hdist.cursor.trans hu.2.start⟩
      exact hstable.settles
        ⟨ht.start, ⟨ht.idle.inv, hsettled, Nat.le_of_eq ht.start.symm⟩, ht.start⟩
  · intro t e t' ht hanswer
    obtain ⟨ht', hread⟩ := getLast_cases sbtc hanswer
    subst ht'
    exact stable_failed.settles ⟨ht.idle, Nat.le_of_eq ht.start.symm⟩

/-- **The tick.** Whatever happens around it, a tick keeps the invariant at
every moment; if it succeeds the cursor is at the next id it read, and if it
fails the next tick can take up where it left. -/
theorem updateFromRegistry_meets {configured : Bool} (h : Started sbtc origin w) :
    TickMeets sbtc origin (fun _ => Succeeded sbtc origin)
      (updateFromRegistry sbtc configured) w := by
  cases configured with
  | false =>
      refine stable_succeeded.settles ⟨h.idle, ?_⟩
      rw [h.read, h.start, Option.getD_none, Nat.max_self]
  | true =>
      refine Process.meets_bind (getLast_meets h) ?_
      intro lastNextId t ht
      obtain ⟨hlast, hlocated⟩ := ht
      subst hlast
      refine Process.meets_bind (getNextAddressId_meets hlocated) fun n u hu => ?_
      by_cases hpast : n ≤ lastNextId
      · rw [if_pos hpast]
        refine stable_succeeded.settles
          ⟨⟨hu.located.ready.inv, .inl hu.located.ready.settled⟩, ?_⟩
        rw [hu.target.read, Option.getD_some, hu.located.start, Nat.max_eq_left hpast]
      · rw [if_neg hpast]
        refine Process.meets_forM (fun starts => Chunks sbtc lastNextId n starts) ?_ ?_
          ⟨hu.located.ready, hu.target, ?_, ?_⟩
        · intro v hv
          refine stable_succeeded.settles ⟨⟨hv.ready.inv, .inl hv.ready.settled⟩, ?_⟩
          have hreached := stepBy_nil hv.starts
          have hwithin := hv.within
          have horigin := hv.ready.start
          rw [hv.target.read, Option.getD_some]
          omega
        · intro c starts v hv
          exact syncChunk_meets hv
        · rw [hu.located.start]
          omega
        · rw [hu.located.start]

end Spox.Sync
