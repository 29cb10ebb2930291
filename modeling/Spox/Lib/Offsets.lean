import Mathlib.Data.List.Basic
import Mathlib.Data.List.DropRight

/-!
# Paging by offset

A client reads a list window by window, keeps the items it can parse and takes
their number both for the next offset and for whether there is more. Once an
item is rejected the two counts differ: the window it lies in is the last one
that is read, and what comes after is lost (`Loaded.Reads.complete_iff`).
-/

namespace Spox.Lib

variable {α β : Type}

/-- What has been loaded: the items kept, the next offset and whether to go on. -/
structure Loaded (β : Type) where
  items : List β
  offset : Nat
  more : Bool

/-- Read the next window of `size` items. -/
def Loaded.next (size : Nat) (parse : α → Option β) (l : List α) (s : Loaded β) : Loaded β :=
  let page := ((l.drop s.offset).take size).filterMap parse
  ⟨s.items ++ page, s.offset + page.length, decide (size ≤ page.length)⟩

/-- Where the first item that does not parse is; the length if there is none. -/
def firstRejected (parse : α → Option β) (l : List α) : Nat := l.findIdx fun a => (parse a).isNone

/-- The window it lies in. -/
def lastWindow (size : Nat) (parse : α → Option β) (l : List α) : Nat :=
  firstRejected parse l / size

section Windows

variable {size o k : Nat} {parse : α → Option β} {l : List α} {s : Loaded β}

theorem le_firstRejected_iff (ho : o ≤ l.length) :
    o ≤ firstRejected parse l ↔ ∀ a ∈ l.take o, (parse a).isSome = true := by
  constructor
  · intro h a ha
    obtain ⟨i, hi, rfl⟩ := List.mem_iff_getElem.mp ha
    rw [List.length_take] at hi
    have hnot := List.not_of_lt_findIdx (p := fun a => (parse a).isNone)
      (show i < l.findIdx _ by unfold firstRejected at h; omega)
    rw [List.getElem_take]
    simpa using hnot
  · intro h
    by_contra hlt
    have hlt : firstRejected parse l < l.length := by omega
    have hrejected : (parse l[firstRejected parse l]).isNone = true :=
      List.findIdx_getElem (p := fun a => (parse a).isNone) (w := hlt)
    have hmem : l[firstRejected parse l] ∈ l.take o := by
      have hin : firstRejected parse l < (l.take o).length := by
        rw [List.length_take]
        omega
      exact List.mem_iff_getElem.mpr ⟨firstRejected parse l, hin, List.getElem_take⟩
    rw [Option.isNone_iff_eq_none] at hrejected
    have hsome := h _ hmem
    rw [hrejected] at hsome
    cases hsome

theorem firstRejected_le : firstRejected parse l ≤ l.length := List.findIdx_le_length

/-- A window that follows accepted items only is kept in full exactly if
nothing in it is rejected either and it is a whole window. -/
theorem full_window_iff (ho : o ≤ firstRejected parse l) :
    size ≤ (((l.drop o).take size).filterMap parse).length ↔ o + size ≤ firstRejected parse l := by
  have hlength := List.length_filterMap_le parse ((l.drop o).take size)
  have htake := List.length_take_le size (l.drop o)
  have hle : firstRejected parse l ≤ l.length := firstRejected_le
  have hbefore := (le_firstRejected_iff (ho.trans hle)).mp ho
  constructor
  · intro h
    have hwhole : o + size ≤ l.length := by
      rw [List.length_take, List.length_drop] at hlength
      omega
    have hkept : (((l.drop o).take size).filterMap parse).length =
        ((l.drop o).take size).length := by omega
    have hall := List.filterMap_length_eq_length.mp hkept
    rw [le_firstRejected_iff hwhole, List.take_add]
    intro a ha
    rcases List.mem_append.mp ha with ha | ha
    · exact hbefore a ha
    · exact hall a ha
  · intro h
    have hall := (le_firstRejected_iff (h.trans hle)).mp h
    rw [List.take_add] at hall
    rw [List.filterMap_length_eq_length.mpr fun a ha => hall a (List.mem_append_right _ ha),
      List.length_take, List.length_drop]
    omega

/-- After `k + 1` windows: their items have been kept, and there is more to
read exactly if no rejected item has been met. -/
structure Loaded.Reads (size : Nat) (parse : α → Option β) (l : List α) (k : Nat)
    (s : Loaded β) : Prop where
  items : s.items = (l.take (size * (k + 1))).filterMap parse
  more : s.more = true ↔ k < lastWindow size parse l
  offset : s.more = true → s.offset = size * (k + 1)

/-- Reading the window at `size * k` after the windows before it. -/
theorem Loaded.next_reads (hsize : 0 < size) (hk : k ≤ lastWindow size parse l)
    (hitems : s.items = (l.take (size * k)).filterMap parse) (hoffset : s.offset = size * k) :
    (s.next size parse l).Reads size parse l k := by
  have hbefore : size * k ≤ firstRejected parse l := by
    rw [Nat.mul_comm]
    exact (Nat.le_div_iff_mul_le hsize).mp hk
  have hmore : (s.next size parse l).more = true ↔ k < lastWindow size parse l := by
    rw [Loaded.next, decide_eq_true_eq, hoffset, full_window_iff hbefore, lastWindow,
      Nat.lt_iff_add_one_le, Nat.le_div_iff_mul_le hsize, Nat.add_mul, Nat.one_mul, Nat.mul_comm]
  refine ⟨?_, hmore, fun h => ?_⟩
  · rw [Loaded.next, hitems, hoffset, Nat.mul_succ, List.take_add, List.filterMap_append]
  · -- a window that is kept in full moves the offset by its size
    rw [Loaded.next, decide_eq_true_eq] at h
    have hle := (List.length_filterMap_le parse ((l.drop s.offset).take size)).trans
      (List.length_take_le size _)
    show s.offset + (((l.drop s.offset).take size).filterMap parse).length = _
    rw [Nat.mul_succ, ← hoffset]
    omega

theorem Loaded.Reads.next (h : s.Reads size parse l k) (hsize : 0 < size) (hmore : s.more = true) :
    (s.next size parse l).Reads size parse l (k + 1) :=
  Loaded.next_reads hsize (h.more.mp hmore) h.items (h.offset hmore)

/-- **What a client has in the end** is everything exactly if no item that
parses comes after the window of the first rejected one. -/
theorem Loaded.Reads.complete_iff (h : s.Reads size parse l (lastWindow size parse l)) :
    s.items = l.filterMap parse ↔
      ∀ a ∈ l.drop (size * (lastWindow size parse l + 1)), parse a = none := by
  have hsplit := congrArg (List.filterMap parse)
    (List.take_append_drop (size * (lastWindow size parse l + 1)) l)
  rw [List.filterMap_append] at hsplit
  rw [h.items, ← hsplit, List.self_eq_append_right, List.filterMap_eq_nil_iff]

end Windows

end Spox.Lib
