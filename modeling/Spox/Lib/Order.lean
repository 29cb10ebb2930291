import Mathlib.Data.List.Dedup
import Mathlib.Algebra.BigOperators.Group.List.Lemmas
import Mathlib.Algebra.GroupWithZero.Nat

/-!
# Insertion order

A collection whose keys come and go, seen through the list of all insertions
ever made: the keys present now, each once, by the time of their last
insertion. `insertionOrder` is that list, and the two lemmas about a key
arriving and a key leaving are what makes it comparable with a linked list.
-/

namespace Spox.Lib

variable {K : Type} [DecidableEq K]

/-- The keys that are present, ordered by their last insertion. -/
def insertionOrder (insertions : List K) (present : K → Bool) : List K :=
  insertions.dedup.filter present

variable {insertions : List K} {present present' : K → Bool} {k : K}

theorem insertionOrder_nodup : (insertionOrder insertions present).Nodup :=
  (List.nodup_dedup insertions).filter _

theorem mem_insertionOrder :
    k ∈ insertionOrder insertions present ↔ k ∈ insertions ∧ present k = true := by
  simp [insertionOrder]

theorem insertionOrder_congr (h : ∀ k, present' k = present k) :
    insertionOrder insertions present' = insertionOrder insertions present := by
  rw [funext h]

theorem insertionOrder_sublist : (insertionOrder insertions present).Sublist insertions :=
  List.filter_sublist.trans (List.dedup_sublist insertions)

/-- What comes after a key in insertion order was last inserted after it. -/
theorem insertionOrder_split {a b : List K}
    (h : insertionOrder insertions present = a ++ k :: b) :
    ∃ pre post, insertions = pre ++ k :: post ∧ k ∉ post ∧ b.Sublist post := by
  induction insertions generalizing a with
  | nil => simp [insertionOrder] at h
  | cons x l ih =>
      have hlater : ∀ a', insertionOrder l present = a' ++ k :: b →
          ∃ pre post, x :: l = pre ++ k :: post ∧ k ∉ post ∧ b.Sublist post := by
        intro a' h'
        obtain ⟨pre, post, hl, hk, hb⟩ := ih h'
        exact ⟨x :: pre, post, by rw [hl, List.cons_append], hk, hb⟩
      by_cases hkeep : x ∉ l ∧ present x = true
      · rw [insertionOrder, List.dedup_cons_of_notMem hkeep.1,
          List.filter_cons_of_pos hkeep.2] at h
        cases a with
        | nil =>
            obtain ⟨rfl, rfl⟩ := List.cons.inj h
            exact ⟨[], l, rfl, hkeep.1, insertionOrder_sublist⟩
        | cons y a => exact hlater a (List.cons.inj h).2
      · refine hlater a ?_
        rw [← h, insertionOrder, insertionOrder]
        by_cases hx : x ∈ l
        · rw [List.dedup_cons_of_mem hx]
        · rw [List.dedup_cons_of_notMem hx, List.filter_cons_of_neg]
          exact fun hp => hkeep ⟨hx, hp⟩

theorem dedup_concat (l : List K) (k : K) :
    (l ++ [k]).dedup = l.dedup.filter (· ≠ k) ++ [k] := by
  induction l with
  | nil => simp
  | cons x l ih =>
      rw [List.cons_append]
      by_cases hx : x ∈ l
      · rw [List.dedup_cons_of_mem (by simp [hx]), List.dedup_cons_of_mem hx, ih]
      · rw [List.dedup_cons_of_notMem hx]
        by_cases hk : x = k
        · rw [List.dedup_cons_of_mem (by simp [hk]), ih, hk, List.filter_cons_of_neg (by simp)]
        · rw [List.dedup_cons_of_notMem (by simp [hx, hk]), ih,
            List.filter_cons_of_pos (by simp [hk]), List.cons_append]

/-- A key that arrives goes last. -/
theorem insertionOrder_concat (hk : present k = false) (hk' : present' k = true)
    (hne : ∀ q, q ≠ k → present' q = present q) :
    insertionOrder (insertions ++ [k]) present' =
      insertionOrder insertions present ++ [k] := by
  have hfilter : ∀ q, (decide (q ≠ k) && present' q) = present q := by
    intro q
    by_cases hq : q = k
    · simp [hq, hk]
    · simp [hq, hne q hq]
  rw [insertionOrder, dedup_concat, List.filter_append, List.filter_filter]
  simp only [hk', List.filter_cons_of_pos, List.filter_nil, insertionOrder]
  congr 1
  exact List.filter_congr fun q _ => by rw [Bool.and_comm, hfilter q]

/-- A key that leaves is erased and the others keep their order. -/
theorem insertionOrder_erase (hk' : present' k = false)
    (hne : ∀ q, q ≠ k → present' q = present q) :
    insertionOrder insertions present' = (insertionOrder insertions present).erase k := by
  rw [insertionOrder_nodup.erase_eq_filter, insertionOrder, insertionOrder,
    List.filter_filter]
  refine List.filter_congr fun q _ => ?_
  by_cases hq : q = k
  · simp [hq, hk']
  · simp [hq, hne q hq]

/-! ## Sums over the keys that are present -/

/-- Erasing one key takes its own term out of a sum. -/
theorem sum_erase_add {l : List K} (hk : k ∈ l) (f : K → ℕ) :
    ((l.erase k).map f).sum + f k = (l.map f).sum := by
  rw [((List.perm_cons_erase hk).map f).sum_eq, List.map_cons, List.sum_cons, Nat.add_comm]

/-- Changing the term of one key changes a sum by the difference. -/
theorem sum_update_add {l : List K} (hnodup : l.Nodup) (hk : k ∈ l) {f g : K → ℕ}
    (hne : ∀ q, q ≠ k → g q = f q) : (l.map g).sum + f k = (l.map f).sum + g k := by
  have herase : (l.erase k).map g = (l.erase k).map f := by
    refine List.map_congr_left fun q hq => hne q ?_
    rintro rfl
    exact hnodup.not_mem_erase hq
  rw [← sum_erase_add hk g, ← sum_erase_add hk f, herase]
  omega

end Spox.Lib
