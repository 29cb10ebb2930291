import Mathlib.Data.List.Basic

/-!
# Reading a stream in order

A consumer reads a stream that only grows, from where it joined on. It takes
each element it reads or loses it. What it has taken is then a part of what it
read, in order, and the count of what it lost says whether it is all of it.
-/

namespace Spox.Lib

variable {α : Type}

/-- Where a consumer joined a stream and how far it has come, and what became
of what it read. -/
structure Feed (α : Type) where
  start : Nat
  cursor : Nat
  taken : List α
  lost : Nat

namespace Feed

/-- Everything read since the start has been taken, in order, or lost. -/
structure Of (stream : List α) (f : Feed α) : Prop where
  start_le : f.start ≤ f.cursor
  cursor_le : f.cursor ≤ stream.length
  sublist : f.taken.Sublist ((stream.take f.cursor).drop f.start)
  count : f.taken.length + f.lost = f.cursor - f.start

variable {stream : List α} {f : Feed α}

/-- A consumer that joins has read nothing. -/
theorem of_join (stream : List α) : Of stream ⟨stream.length, stream.length, [], 0⟩ where
  start_le := Nat.le_refl _
  cursor_le := Nat.le_refl _
  sublist := List.nil_sublist _
  count := by simp

/-- The stream grows. -/
theorem Of.append (h : f.Of stream) (more : List α) : f.Of (stream ++ more) where
  start_le := h.start_le
  cursor_le := by
    have := h.cursor_le
    rw [List.length_append]
    omega
  sublist := by
    rw [List.take_append_of_le_length h.cursor_le]
    exact h.sublist
  count := h.count

/-- What lies between the start and the cursor grows by what is read. -/
theorem sublist_read (h : f.Of stream) (n : Nat) :
    ((stream.take f.cursor).drop f.start).Sublist
      ((stream.take (f.cursor + n)).drop f.start) := by
  have hprefix : stream.take f.cursor <+: stream.take (f.cursor + n) :=
    List.take_prefix_take_left (Nat.le_add_right _ _)
  obtain ⟨rest, hrest⟩ := hprefix
  have hle : f.start ≤ (stream.take f.cursor).length := by
    have := h.start_le
    have := h.cursor_le
    rw [List.length_take]
    omega
  rw [← hrest, List.drop_append_of_le_length hle]
  exact List.sublist_append_left _ _

/-- The next element is taken. -/
theorem Of.take (h : f.Of stream) {a : α} (ha : stream[f.cursor]? = some a) :
    Of stream ⟨f.start, f.cursor + 1, f.taken ++ [a], f.lost⟩ := by
  obtain ⟨hlt, ha⟩ := List.getElem?_eq_some_iff.mp ha
  have hstart := h.start_le
  refine ⟨by show f.start ≤ f.cursor + 1; omega, hlt, ?_, ?_⟩
  · have hle : f.start ≤ (stream.take f.cursor).length := by
      rw [List.length_take]
      omega
    have hread : (stream.take (f.cursor + 1)).drop f.start =
        (stream.take f.cursor).drop f.start ++ [a] := by
      rw [List.take_succ_eq_append_getElem hlt, List.drop_append_of_le_length hle, ha]
    show (f.taken ++ [a]).Sublist ((stream.take (f.cursor + 1)).drop f.start)
    rw [hread]
    exact h.sublist.append (List.Sublist.refl _)
  · have := h.count
    show (f.taken ++ [a]).length + f.lost = f.cursor + 1 - f.start
    rw [List.length_append, List.length_singleton]
    omega

/-- The next elements are lost. -/
theorem Of.lose (h : f.Of stream) {n : Nat} (hn : f.cursor + n ≤ stream.length) :
    Of stream ⟨f.start, f.cursor + n, f.taken, f.lost + n⟩ := by
  have hstart := h.start_le
  have hcount := h.count
  refine ⟨by show f.start ≤ f.cursor + n; omega, hn, h.sublist.trans (sublist_read h n), ?_⟩
  show f.taken.length + (f.lost + n) = f.cursor + n - f.start
  omega

/-- Where nothing was lost, what was taken and what is unread are the whole
stream since the start. -/
theorem Of.lossless (h : f.Of stream) (hlost : f.lost = 0) :
    f.taken ++ stream.drop f.cursor = stream.drop f.start := by
  have hcount := h.count
  have hcursor := h.cursor_le
  have htaken : f.taken = (stream.take f.cursor).drop f.start := by
    refine h.sublist.eq_of_length ?_
    rw [List.length_drop, List.length_take]
    omega
  have hle : f.start ≤ (stream.take f.cursor).length := by
    have := h.start_le
    rw [List.length_take]
    omega
  rw [htaken, ← List.drop_append_of_le_length hle, List.take_append_drop]

end Feed

end Spox.Lib
