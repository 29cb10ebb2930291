import Mathlib.Data.Finset.Card
import Mathlib.Data.List.Nodup

/-!
# LRU caches

A bounded map that evicts the entry used longest ago. A cache is the list of
its entries, the most recently used first; looking a key up and writing it
both move it to the front.

Which keys survive a write depends on the order of all the uses before it.
`Recent s c` is the invariant that makes this tractable: the keys of `s` that
the cache holds come before all its other keys. Looking a key up adds it to
`s` (`Recent.get`), and as long as `s` fits the cache, writing a key of `s`
evicts none of them (`Recent.put`).
-/

namespace Spox.Lib

/-- An LRU cache: the entries, the most recently used first. -/
structure Lru (K V : Type) (capacity : Nat) where
  entries : List (K × V)
  nodup : (entries.map Prod.fst).Nodup
  bounded : entries.length ≤ capacity

namespace Lru

variable {K V ε : Type} {capacity : Nat}

/-- The keys, the most recently used first. -/
def keys (c : Lru K V capacity) : List K := c.entries.map Prod.fst

/-- A cache that has not been used. -/
def empty : Lru K V capacity := ⟨[], List.nodup_nil, Nat.zero_le _⟩

@[simp] theorem keys_empty : (empty : Lru K V capacity).keys = [] := rfl

variable [DecidableEq K]

/-- The value of a key; the order of the entries stays as it is. -/
def peek (c : Lru K V capacity) (key : K) : Option V :=
  (c.entries.find? fun entry => entry.1 = key).map Prod.snd

theorem nodup_put (c : Lru K V capacity) (key : K) (value : V) :
    ((((key, value) :: c.entries.filter fun entry => entry.1 ≠ key).take capacity).map
      Prod.fst).Nodup := by
  refine List.Nodup.sublist ((List.take_sublist _ _).map Prod.fst) ?_
  rw [List.map_cons, List.nodup_cons]
  refine ⟨fun hmem => ?_, c.nodup.sublist (List.filter_sublist.map Prod.fst)⟩
  obtain ⟨entry, hentry, hkey⟩ := List.mem_map.mp hmem
  simp only [List.mem_filter, decide_eq_true_eq] at hentry
  exact hentry.2 hkey

/-- Write a key. A new key takes the place of the one used longest ago if
the cache is full. -/
def put (c : Lru K V capacity) (key : K) (value : V) : Lru K V capacity where
  entries := ((key, value) :: c.entries.filter fun entry => entry.1 ≠ key).take capacity
  nodup := c.nodup_put key value
  bounded := List.length_take_le _ _

/-- Look a key up, which counts as a use of it. -/
def get (c : Lru K V capacity) (key : K) : Option V × Lru K V capacity :=
  match c.peek key with
  | some value => (some value, c.put key value)
  | none => (none, c)

/-- Look a key up, and write `value` for it if it is not there and `value` is
not an error. -/
def tryGetOrInsert (c : Lru K V capacity) (key : K) (value : Except ε V) :
    Except ε V × Lru K V capacity :=
  match c.peek key with
  | some found => (.ok found, c.put key found)
  | none =>
      match value with
      | .ok value => (.ok value, c.put key value)
      | .error error => (.error error, c)

/-! ## Entries -/

theorem mem_of_peek {c : Lru K V capacity} {key : K} {value : V}
    (h : c.peek key = some value) : (key, value) ∈ c.entries := by
  obtain ⟨entry, hentry, rfl⟩ := Option.map_eq_some_iff.mp h
  have hkey : entry.1 = key := by simpa using List.find?_some hentry
  rw [← hkey]
  exact List.mem_of_find?_eq_some hentry

theorem isSome_peek {c : Lru K V capacity} {key : K} :
    (c.peek key).isSome = true ↔ key ∈ c.keys := by
  simp [peek, keys, List.find?_isSome]

theorem peek_eq_none {c : Lru K V capacity} {key : K} : c.peek key = none ↔ key ∉ c.keys := by
  rw [← isSome_peek]
  cases c.peek key <;> simp

theorem tryGetOrInsert_ok {c : Lru K V capacity} {key : K} {value : Except ε V} {v : V} :
    (c.tryGetOrInsert key value).1 = .ok v ↔
      c.peek key = some v ∨ c.peek key = none ∧ value = .ok v := by
  unfold tryGetOrInsert
  cases hpeek : c.peek key with
  | some found => simp
  | none => cases value <;> simp

/-- Every entry satisfies `p`. -/
def All (p : K → V → Prop) (c : Lru K V capacity) : Prop :=
  ∀ key value, (key, value) ∈ c.entries → p key value

namespace All

variable {p : K → V → Prop} {c : Lru K V capacity}

omit [DecidableEq K] in
theorem empty (p : K → V → Prop) : (Lru.empty : Lru K V capacity).All p := by
  intro key value hmem
  cases hmem

theorem put (h : c.All p) {key : K} {value : V} (hvalue : p key value) :
    (c.put key value).All p := by
  intro q v hmem
  rcases List.mem_cons.mp (List.mem_of_mem_take hmem) with heq | hmem
  · cases heq
    exact hvalue
  · exact h q v (List.mem_filter.mp hmem).1

theorem peek (h : c.All p) {key : K} {value : V} (hpeek : c.peek key = some value) :
    p key value := h key value (mem_of_peek hpeek)

/-- Both the value handed out and the cache left behind are as `p` says. -/
theorem tryGetOrInsert (h : c.All p) {key : K} {value : Except ε V}
    (hvalue : ∀ v, value = .ok v → p key v) :
    (c.tryGetOrInsert key value).2.All p ∧
      ∀ v, (c.tryGetOrInsert key value).1 = .ok v → p key v := by
  unfold Lru.tryGetOrInsert
  cases hpeek : c.peek key with
  | some found =>
      refine ⟨h.put (h.peek hpeek), fun v hv => ?_⟩
      cases hv
      exact h.peek hpeek
  | none =>
      cases value with
      | error error => exact ⟨h, fun v hv => by cases hv⟩
      | ok value =>
          refine ⟨h.put (hvalue value rfl), fun v hv => ?_⟩
          cases hv
          exact hvalue value rfl

end All

/-! ## Keys -/

theorem keys_put (c : Lru K V capacity) (key : K) (value : V) :
    (c.put key value).keys = (key :: c.keys.filter (· ≠ key)).take capacity := by
  rw [keys, put, List.map_take, List.map_cons, keys, List.filter_map]
  rfl

/-- A key that is there moves to the front and nothing is evicted. -/
theorem keys_put_of_mem {c : Lru K V capacity} {key : K} (h : key ∈ c.keys) (value : V) :
    (c.put key value).keys = key :: c.keys.filter (· ≠ key) := by
  have hlength : (c.keys.filter (· ≠ key)).length < c.keys.length :=
    List.length_filter_lt_length_iff_exists.mpr ⟨key, h, by simp⟩
  have hbounded : c.keys.length ≤ capacity := by
    rw [keys, List.length_map]
    exact c.bounded
  rw [keys_put, List.take_of_length_le]
  rw [List.length_cons]
  omega

theorem keys_get_of_mem {c : Lru K V capacity} {key : K} (h : key ∈ c.keys) :
    (c.get key).2.keys = key :: c.keys.filter (· ≠ key) := by
  unfold get
  cases hpeek : c.peek key with
  | none => exact absurd h (peek_eq_none.mp hpeek)
  | some value => exact keys_put_of_mem h value

theorem get_of_not_mem {c : Lru K V capacity} {key : K} (h : key ∉ c.keys) :
    c.get key = (none, c) := by
  rw [get, peek_eq_none.mpr h]

theorem fst_get (c : Lru K V capacity) (key : K) : (c.get key).1 = c.peek key := by
  unfold get
  cases c.peek key <;> rfl

/-- Looking keys up evicts nothing. -/
theorem mem_keys_get {c : Lru K V capacity} {key q : K} :
    q ∈ (c.get key).2.keys ↔ q ∈ c.keys := by
  by_cases h : key ∈ c.keys
  · rw [keys_get_of_mem h, List.mem_cons, List.mem_filter]
    by_cases hq : q = key
    · simp [hq, h]
    · simp [hq]
  · rw [get_of_not_mem h]

theorem mem_keys_of_mem_put {c : Lru K V capacity} {key q : K} {value : V}
    (h : q ∈ (c.put key value).keys) : q = key ∨ q ∈ c.keys := by
  rw [keys_put] at h
  rcases List.mem_cons.mp (List.mem_of_mem_take h) with rfl | h
  · exact .inl rfl
  · exact .inr (List.mem_filter.mp h).1

/-! ## Recency -/

/-- The keys of `s` were used after all others. -/
def Recent (s : Finset K) (c : Lru K V capacity) : Prop :=
  ∃ recent old, c.keys = recent ++ old ∧ (∀ key ∈ recent, key ∈ s) ∧ ∀ key ∈ old, key ∉ s

namespace Recent

variable {s : Finset K} {c : Lru K V capacity}

omit [DecidableEq K] in
theorem start (c : Lru K V capacity) : Recent ∅ c :=
  ⟨[], c.keys, rfl, by simp, by simp⟩

theorem get (h : Recent s c) (key : K) : Recent (insert key s) (c.get key).2 := by
  obtain ⟨recent, old, hkeys, hrecent, hold⟩ := h
  by_cases hmem : key ∈ c.keys
  · refine ⟨key :: recent.filter (· ≠ key), old.filter (· ≠ key), ?_, ?_, ?_⟩
    · rw [keys_get_of_mem hmem, hkeys, List.filter_append, List.cons_append]
    · intro q hq
      rcases List.mem_cons.mp hq with rfl | hq
      · exact Finset.mem_insert_self q s
      · exact Finset.mem_insert_of_mem (hrecent q (List.mem_filter.mp hq).1)
    · intro q hq
      obtain ⟨hq, hne⟩ := List.mem_filter.mp hq
      rw [Finset.mem_insert, not_or]
      exact ⟨by simpa using hne, hold q hq⟩
  · rw [get_of_not_mem hmem]
    refine ⟨recent, old, hkeys, fun q hq => Finset.mem_insert_of_mem (hrecent q hq), ?_⟩
    intro q hq
    rw [Finset.mem_insert, not_or]
    refine ⟨?_, hold q hq⟩
    intro heq
    exact hmem (hkeys ▸ List.mem_append_right recent (heq ▸ hq))

/-- **A write evicts no recent key**, as long as the recent keys fit. -/
theorem put (h : Recent s c) {key : K} (hkey : key ∈ s) (hfits : s.card ≤ capacity)
    (value : V) : Recent s (c.put key value) ∧
      ∀ q ∈ s, q ∈ (c.put key value).keys ↔ q = key ∨ q ∈ c.keys := by
  obtain ⟨recent, old, hkeys, hrecent, hold⟩ := h
  have hnodup : (recent ++ old).Nodup := hkeys ▸ c.nodup
  -- the key and the recent ones are distinct elements of `s`
  have hlength : (key :: recent.filter (· ≠ key)).length ≤ capacity := by
    have hdistinct : (key :: recent.filter (· ≠ key)).Nodup :=
      List.nodup_cons.mpr ⟨by simp, (List.Nodup.of_append_left hnodup).filter _⟩
    rw [← List.toFinset_card_of_nodup hdistinct]
    refine (Finset.card_le_card fun q hq => ?_).trans hfits
    rcases List.mem_cons.mp (List.mem_toFinset.mp hq) with rfl | hq
    · exact hkey
    · exact hrecent q (List.mem_filter.mp hq).1
  have hput : (c.put key value).keys = (key :: recent.filter (· ≠ key)) ++
      (old.filter (· ≠ key)).take (capacity - (key :: recent.filter (· ≠ key)).length) := by
    rw [keys_put, hkeys, List.filter_append, ← List.cons_append, List.take_append,
      List.take_of_length_le hlength]
  have hlate : ∀ q ∈ (old.filter (· ≠ key)).take
      (capacity - (key :: recent.filter (· ≠ key)).length), q ∉ s := fun q hq =>
    hold q (List.mem_filter.mp (List.mem_of_mem_take hq)).1
  refine ⟨⟨_, _, hput, ?_, hlate⟩, ?_⟩
  · intro q hq
    rcases List.mem_cons.mp hq with rfl | hq
    · exact hkey
    · exact hrecent q (List.mem_filter.mp hq).1
  · intro q hq
    refine ⟨mem_keys_of_mem_put, fun hmem => ?_⟩
    rw [hput]
    refine List.mem_append_left _ (List.mem_cons.mpr ?_)
    by_cases heq : q = key
    · exact .inl heq
    · refine .inr (List.mem_filter.mpr ⟨?_, by simpa using heq⟩)
      have hcached : q ∈ recent ++ old := hkeys ▸ hmem.resolve_left heq
      exact (List.mem_append.mp hcached).resolve_right fun hqold => hold q hqold hq

end Recent

end Lru

end Spox.Lib
