import Spox.Lib.DList

/-!
# Paging through a linked list

A walk follows `next` pointers from a cursor for a bounded number of ticks
and collects a row for each node that has one, into a list of bounded
capacity. A page is what one walk collected together with the node it
stopped before; the client's loop passes that node back as the next cursor
until a page has none.

`Visits next cursor ks` says which nodes there are to visit from a cursor.
A walk of `n` ticks collects the rows of the first `n` of them and stops
before the rest (`Walk.run_visits`), so the loop collects every row once, in
order, and ends after exactly as many pages as the list takes
(`pageThrough_exact`).
-/

namespace Spox.Lib

variable {K ρ ε : Type}

/-! ## The nodes a cursor leads to -/

/-- Following `next` from `cursor` visits exactly `ks`. -/
def Visits (next : K → Option K) : Option K → List K → Prop
  | cursor, [] => cursor = none
  | cursor, k :: ks => cursor = some k ∧ Visits next (next k) ks

section Visits

variable {next : K → Option K} {cursor : Option K} {ks : List K}

theorem Visits.cursor_eq (h : Visits next cursor ks) : cursor = ks.head? := by
  cases ks with
  | nil => exact h
  | cons k ks => exact h.1

/-- A walk that stops halfway leaves the rest to visit. -/
theorem Visits.drop (h : Visits next cursor ks) (n : Nat) :
    Visits next (ks.drop n).head? (ks.drop n) := by
  induction n generalizing cursor ks with
  | zero => rwa [List.drop_zero, ← h.cursor_eq]
  | succ n ih =>
      cases ks with
      | nil => rfl
      | cons k ks => exact ih h.2

/-- The links of a linked list visit it from its head. -/
theorem DList.Represents.visits {l : DList K} (h : l.Represents ks) :
    Visits l.next l.head ks := by
  have hfrom : ∀ a b : List K, ks = a ++ b → Visits l.next b.head? b := by
    intro a b
    induction b generalizing a with
    | nil =>
        intro _
        rfl
    | cons k b ih =>
        intro hks
        have hnext : l.next k = b.head? := by
          rw [DList.next, h.links hks]
        refine ⟨rfl, ?_⟩
        rw [hnext]
        exact ih (a ++ [k]) (by rw [hks, List.append_assoc, List.singleton_append])
  rw [h.head]
  exact hfrom [] ks rfl

end Visits

/-! ## Walks -/

/-- A walk in progress: the node to visit next and the rows collected. -/
structure Walk (K ρ : Type) where
  node : Option K
  rows : List ρ

/-- Append a row, unless that exceeds the capacity. -/
def appendWithin (capacity : Nat) (rows : List ρ) (row : ρ) : List ρ :=
  if (rows ++ [row]).length ≤ capacity then rows ++ [row] else rows

namespace Walk

variable (next : K → Option K) (visit : K → Option ρ) (capacity : Nat)

/-- One tick: visit the node and go on to the next; nothing past the tail. -/
def tick (w : Walk K ρ) : Walk K ρ :=
  match w.node with
  | some key =>
      match visit key with
      | some row => ⟨next key, appendWithin capacity w.rows row⟩
      | none => ⟨next key, w.rows⟩
  | none => w

/-- A number of ticks. -/
def run : Nat → Walk K ρ → Walk K ρ
  | 0, w => w
  | n + 1, w => run n (w.tick next visit capacity)

variable {next visit capacity}

/-- A row fits as long as the ticks that are left do. -/
theorem tick_visits {k : K} {rows : List ρ} (n : Nat)
    (hfits : rows.length + (n + 1) ≤ capacity) :
    tick next visit capacity ⟨some k, rows⟩ = ⟨next k, rows ++ (visit k).toList⟩ ∧
      (rows ++ (visit k).toList).length + n ≤ capacity := by
  cases hk : visit k with
  | none =>
      simp only [tick, hk, Option.toList_none, List.append_nil]
      exact ⟨trivial, by omega⟩
  | some row =>
      have hlen : (rows ++ [row]).length = rows.length + 1 := by simp
      simp only [tick, hk, appendWithin, Option.toList_some]
      rw [if_pos (by omega)]
      exact ⟨rfl, by omega⟩

/-- **A walk** collects the rows of the nodes it has ticks for and stops
before the rest. No row is lost to the capacity. -/
theorem run_visits {n : Nat} {w : Walk K ρ} {ks : List K} (h : Visits next w.node ks)
    (hfits : w.rows.length + n ≤ capacity) :
    run next visit capacity n w =
      ⟨(ks.drop n).head?, w.rows ++ (ks.take n).filterMap visit⟩ := by
  induction n generalizing w ks with
  | zero =>
      show w = _
      rw [List.drop_zero, List.take_zero, ← h.cursor_eq, List.filterMap_nil, List.append_nil]
  | succ n ih =>
      obtain ⟨node, rows⟩ := w
      rw [run]
      cases ks with
      | nil =>
          -- past the tail a tick does nothing
          have hnode : node = none := h
          subst hnode
          rw [show tick next visit capacity ⟨none, rows⟩ = ⟨none, rows⟩ from rfl,
            ih (show Visits next none [] from rfl) (by simp only at hfits ⊢; omega)]
          simp
      | cons k ks =>
          obtain ⟨hnode, hrest⟩ := h
          have hnode : node = some k := hnode
          subst hnode
          obtain ⟨htick, hfits'⟩ :=
            tick_visits n hfits
          rw [htick, ih (w := ⟨next k, rows ++ (visit k).toList⟩) hrest hfits']
          cases hk : visit k <;> simp [hk]

/-- A fold over a list of ticks is a walk with as many. -/
theorem foldl_eq_run {step : Walk K ρ → Nat → Walk K ρ}
    (hstep : ∀ w t, step w t = w.tick next visit capacity) (ticks : List Nat) (w : Walk K ρ) :
    ticks.foldl step w = run next visit capacity ticks.length w := by
  induction ticks generalizing w with
  | nil => rfl
  | cons t ticks ih =>
      rw [List.foldl_cons, ih, hstep]
      rfl

end Walk

/-! ## Pages -/

/-- One answer to a client that pages. -/
structure Page (K ρ : Type) where
  rows : List ρ
  next : Option K

/-- The page a walk ends with. -/
def Walk.page (w : Walk K ρ) : Page K ρ := ⟨w.rows, w.node⟩

/-- A fold from a cursor without rows, over as many ticks as rows fit. -/
theorem Walk.page_foldl {next : K → Option K} {visit : K → Option ρ} {capacity : Nat}
    {step : Walk K ρ → Nat → Walk K ρ}
    (hstep : ∀ w t, step w t = w.tick next visit capacity) {ticks : List Nat}
    (hticks : ticks.length = capacity) {node : Option K} {ks : List K}
    (h : Visits next node ks) :
    (ticks.foldl step ⟨node, []⟩).page =
      ⟨(ks.take capacity).filterMap visit, (ks.drop capacity).head?⟩ := by
  rw [foldl_eq_run hstep, hticks, run_visits h (by simp), List.nil_append]
  rfl

/-- The client's loop: read a page, keep its rows, go on at its cursor. The
answer is `none` if the fuel runs out first. -/
def pageThrough (read : Option K → Except ε (Page K ρ)) :
    Nat → List ρ → Option K → Option (Except ε (List ρ))
  | 0, _, _ => none
  | fuel + 1, all, cursor =>
      match read cursor with
      | .error e => some (.error e)
      | .ok page =>
          match page.next with
          | some next => pageThrough read fuel (all ++ page.rows) (some next)
          | none => some (.ok (all ++ page.rows))

/-- The number of pages a list of `n` nodes takes; an empty list takes one. -/
def pageCount (size n : Nat) : Nat := max 1 ((n + size - 1) / size)

theorem pageCount_of_le {size n : Nat} (h : n ≤ size) : pageCount size n = 1 := by
  rcases Nat.eq_zero_or_pos size with rfl | hsize
  · simp [pageCount]
  · have hdiv : (n + size - 1) / size < 2 := by
      rw [Nat.div_lt_iff_lt_mul hsize]
      omega
    rw [pageCount]
    omega

theorem pageCount_of_lt {size n : Nat} (hsize : 0 < size) (h : size < n) :
    pageCount size n = pageCount size (n - size) + 1 := by
  have hdiv : (n + size - 1) / size = (n - size + size - 1) / size + 1 := by
    rw [← Nat.add_div_right _ hsize]
    congr 1
    omega
  have hone : 1 ≤ (n - size + size - 1) / size := by
    rw [Nat.le_div_iff_mul_le hsize]
    omega
  rw [pageCount, pageCount, hdiv]
  omega

theorem pageCount_le {size n fuel : Nat} (hsize : 0 < size) (hpos : 0 < fuel)
    (hn : n ≤ size * fuel) : pageCount size n ≤ fuel := by
  have hdiv : (n + size - 1) / size < fuel + 1 := by
    rw [Nat.div_lt_iff_lt_mul hsize, Nat.succ_mul, Nat.mul_comm fuel size]
    omega
  rw [pageCount]
  omega

/-- **The loop is complete**: if the page at a cursor holds the rows of the
next `size` nodes and stops before the rest, the loop ends after exactly as
many pages as the list takes, with the row of every node, in order. -/
theorem pageThrough_exact {next : K → Option K} {visit : K → Option ρ} {head : Option K}
    {size : Nat} {read : Option K → Except ε (Page K ρ)} (hsize : 0 < size)
    (hread : ∀ cursor ks, Visits next (cursor.or head) ks →
      read cursor = .ok ⟨(ks.take size).filterMap visit, (ks.drop size).head?⟩)
    {fuel : Nat} {all : List ρ} {cursor : Option K} {ks : List K}
    (hvisits : Visits next (cursor.or head) ks) :
    pageThrough read fuel all cursor =
      if fuel < pageCount size ks.length then none
      else some (.ok (all ++ ks.filterMap visit)) := by
  -- on the fuel: a page that is not the last one takes `size` nodes off the list
  induction fuel generalizing all cursor ks with
  | zero =>
      have hcount : 0 < pageCount size ks.length := by
        rw [pageCount]
        omega
      rw [if_pos hcount]
      rfl
  | succ fuel ih =>
      have hpage := hread cursor ks hvisits
      simp only [pageThrough, hpage]
      cases hrest : ks.drop size with
      | nil =>
          have hlen : ks.length ≤ size := List.drop_eq_nil_iff.mp hrest
          rw [pageCount_of_le hlen, if_neg (by omega)]
          simp only [List.head?_nil, List.take_of_length_le hlen]
      | cons k rest =>
          simp only [List.head?_cons]
          have hlen : (ks.drop size).length = ks.length - size := List.length_drop
          have hlt : size < ks.length := by
            have hne : 0 < (ks.drop size).length := by
              rw [hrest]
              exact Nat.succ_pos _
            omega
          have hvisits' : Visits next ((some k).or head) (ks.drop size) := by
            have h := hvisits.drop size
            rw [hrest] at h ⊢
            exact h
          have hcount := pageCount_of_lt hsize hlt
          rw [ih hvisits', hlen, List.append_assoc, ← List.filterMap_append,
            List.take_append_drop, hcount]
          simp only [Nat.add_lt_add_iff_right]

/-! ## A client that reads everything -/

/-- Rows that can all be parsed are parsed one by one. -/
theorem mapM_parse {α V : Type} (row : K → Option ρ) (write : ρ → V)
    (parse : V → Except ε α) (h : ∀ k r, row k = some r → ∃ a, parse (write r) = .ok a)
    (ks : List K) :
    ((ks.filterMap row).map write).mapM parse =
      .ok (ks.filterMap fun k => (row k).bind fun r => (parse (write r)).toOption) := by
  induction ks with
  | nil => rfl
  | cons k ks ih =>
      cases hrow : row k with
      | none => simp only [List.filterMap_cons, hrow, Option.bind_none, ih]
      | some r =>
          obtain ⟨a, ha⟩ := h k r hrow
          simp only [List.filterMap_cons, hrow, Option.bind_some, ha, Except.toOption,
            List.map_cons, List.mapM_cons, ih]
          rfl

/-- Reading pages of `size` nodes, first without a cursor and then at each
cursor handed out, ends after exactly as many calls as `keys` takes, with
`rows`: one row for each key that `keep` keeps, in order and no key twice. -/
structure ReadsAll (size : Nat) (read : Option K → Except ε (Page K ρ)) (keys : List K)
    (keep : K → Bool) (key : ρ → K) (rows : List ρ) : Prop where
  loop : ∀ calls, pageThrough read calls [] none =
    if calls < pageCount size keys.length then none else some (.ok rows)
  rows : rows.map key = keys.filter keep
  once : keys.Nodup

theorem readsAll_of_pages {next : K → Option K} {head : Option K} {row : K → Option ρ}
    {size : Nat} {read : Option K → Except ε (Page K ρ)} {keys : List K} {keep : K → Bool}
    {key : ρ → K} (hsize : 0 < size) (hvisits : Visits next head keys) (hnodup : keys.Nodup)
    (hread : ∀ cursor ks, Visits next (cursor.or head) ks →
      read cursor = .ok ⟨(ks.take size).filterMap row, (ks.drop size).head?⟩)
    (hrow : ∀ k ∈ keys, (row k).map key = if keep k then some k else none) :
    ReadsAll size read keys keep key (keys.filterMap row) where
  loop calls := by
    have hvisits : Visits next ((none : Option K).or head) keys := hvisits
    rw [pageThrough_exact hsize hread hvisits, List.nil_append]
  rows := by
    rw [List.map_filterMap, ← List.filterMap_eq_filter]
    exact List.filterMap_congr fun k hk => by rw [hrow k hk]; rfl
  once := hnodup

end Spox.Lib
