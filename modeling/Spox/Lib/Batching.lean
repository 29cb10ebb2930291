import Mathlib.Data.List.Perm.Basic
import Mathlib.Data.List.Flatten

/-!
# Grouping and chunking

A list of keyed items is grouped by key and each group is cut into chunks of
bounded length. Groups live in a hash map, so the order in which they are met
is any permutation of the association list modelled here; within a group the
items keep their order.

What the batches hold together is the input, up to order
(`flatten_batches_perm`): nothing is lost or doubled on the way.
-/

namespace Spox.Lib

variable {K α : Type}

/-! ## Chunks -/

/-- The next `fuel` chunks of `size` items. -/
def chunksFrom (size : Nat) : Nat → List α → List (List α)
  | 0, _ => []
  | fuel + 1, l => if l.isEmpty then [] else l.take size :: chunksFrom size fuel (l.drop size)

/-- Consecutive chunks of `size` items, the last one possibly shorter. A list
has at most as many chunks as items. -/
def chunks (size : Nat) (l : List α) : List (List α) := chunksFrom size l.length l

theorem length_le_of_mem_chunks {size : Nat} {l c : List α} (h : c ∈ chunks size l) :
    c.length ≤ size := by
  unfold chunks at h
  generalize l.length = fuel at h
  induction fuel generalizing l with
  | zero => cases h
  | succ fuel ih =>
      rw [chunksFrom] at h
      split at h
      · cases h
      · rcases List.mem_cons.mp h with rfl | h
        · exact List.length_take_le size l
        · exact ih h

theorem ne_nil_of_mem_chunks {size : Nat} (hsize : 0 < size) {l c : List α}
    (h : c ∈ chunks size l) : c ≠ [] := by
  unfold chunks at h
  generalize l.length = fuel at h
  induction fuel generalizing l with
  | zero => cases h
  | succ fuel ih =>
      rw [chunksFrom] at h
      split at h
      · cases h
      · next hne =>
          rcases List.mem_cons.mp h with rfl | h
          · intro hnil
            rcases List.take_eq_nil_iff.mp hnil with hzero | hempty
            · omega
            · exact hne (by rw [hempty]; rfl)
          · exact ih h

theorem flatten_chunksFrom {size : Nat} (hsize : 0 < size) {fuel : Nat} {l : List α}
    (hfuel : l.length ≤ fuel) : (chunksFrom size fuel l).flatten = l := by
  -- on the fuel: every chunk but the last takes `size` items off the list
  induction fuel generalizing l with
  | zero =>
      have hnil : l = [] := List.length_eq_zero_iff.mp (by omega)
      rw [hnil]
      rfl
  | succ fuel ih =>
      rw [chunksFrom]
      split
      · next hempty => rw [List.isEmpty_iff.mp hempty]; rfl
      · rw [List.flatten_cons, ih (by rw [List.length_drop]; omega), List.take_append_drop]

/-- Chunking keeps every item in its place. -/
theorem flatten_chunks {size : Nat} (hsize : 0 < size) (l : List α) :
    (chunks size l).flatten = l :=
  flatten_chunksFrom hsize (Nat.le_refl _)

/-! ## Groups -/

section Groups

variable [DecidableEq K]

/-- Put an item at the end of its group, which is made if need be. -/
def push (key : K) (item : α) : List (K × List α) → List (K × List α)
  | [] => [(key, [item])]
  | (k, items) :: groups =>
      if k = key then (k, items ++ [item]) :: groups
      else (k, items) :: push key item groups

/-- The groups of a list of keyed items. -/
def groupByKey (l : List (K × α)) : List (K × List α) :=
  l.foldl (fun groups entry => push entry.1 entry.2 groups) []

/-- A group as keyed items. -/
def ungroup (group : K × List α) : List (K × α) := group.2.map fun item => (group.1, item)

theorem flatMap_push (key : K) (item : α) (groups : List (K × List α)) :
    ((push key item groups).flatMap ungroup).Perm (groups.flatMap ungroup ++ [(key, item)]) := by
  induction groups with
  | nil => exact .refl _
  | cons group groups ih =>
      obtain ⟨k, items⟩ := group
      rw [push]
      split
      · next hk =>
          subst hk
          simp only [List.flatMap_cons, ungroup, List.map_append, List.map_cons, List.map_nil,
            List.append_assoc]
          exact (List.perm_append_comm).append_left _
      · simp only [List.flatMap_cons, List.append_assoc]
        exact ih.append_left _

theorem flatMap_groupByKey (l : List (K × α)) :
    ((groupByKey l).flatMap ungroup).Perm l := by
  have hfold : ∀ groups : List (K × List α),
      ((l.foldl (fun groups entry => push entry.1 entry.2 groups) groups).flatMap ungroup).Perm
        (groups.flatMap ungroup ++ l) := by
    induction l with
    | nil =>
        intro groups
        rw [List.foldl_nil, List.append_nil]
    | cons entry l ih =>
        intro groups
        rw [List.foldl_cons]
        have hpush := flatMap_push entry.1 entry.2 groups
        have hrest := (ih (push entry.1 entry.2 groups)).trans (hpush.append_right l)
        rwa [List.append_assoc, List.singleton_append] at hrest
  exact hfold []

end Groups

/-! ## Batches -/

/-- Each group cut into chunks. -/
def batches (size : Nat) (groups : List (K × List α)) : List (K × List α) :=
  groups.flatMap fun group => (chunks size group.2).map fun chunk => (group.1, chunk)

theorem length_le_of_mem_batches {size : Nat} {groups : List (K × List α)}
    {batch : K × List α} (h : batch ∈ batches size groups) : batch.2.length ≤ size := by
  obtain ⟨group, -, hbatch⟩ := List.mem_flatMap.mp h
  obtain ⟨chunk, hchunk, rfl⟩ := List.mem_map.mp hbatch
  exact length_le_of_mem_chunks hchunk

theorem ne_nil_of_mem_batches {size : Nat} (hsize : 0 < size) {groups : List (K × List α)}
    {batch : K × List α} (h : batch ∈ batches size groups) : batch.2 ≠ [] := by
  obtain ⟨group, -, hbatch⟩ := List.mem_flatMap.mp h
  obtain ⟨chunk, hchunk, rfl⟩ := List.mem_map.mp hbatch
  exact ne_nil_of_mem_chunks hsize hchunk

/-- Cutting groups into chunks keeps their items. -/
theorem flatMap_batches {size : Nat} (hsize : 0 < size) (groups : List (K × List α)) :
    (batches size groups).flatMap ungroup = groups.flatMap ungroup := by
  have hgroup : ∀ group : K × List α,
      ((chunks size group.2).map fun chunk => (group.1, chunk)).flatMap ungroup =
        ungroup group := by
    intro group
    have hflatten := congrArg (List.map fun item => (group.1, item))
      (flatten_chunks hsize group.2)
    rw [List.map_flatten, ← List.flatMap_def] at hflatten
    rw [List.flatMap_map]
    exact hflatten
  rw [batches, List.flatMap_assoc]
  exact List.flatMap_congr fun group _ => hgroup group

/-- **Batching loses and doubles nothing**: met in any order, the batches of
the groups in any order hold the items of the list. -/
theorem flatMap_batches_perm [DecidableEq K] {size : Nat} (hsize : 0 < size)
    {l : List (K × α)} {iteration : List (K × List α)} (hiteration : iteration.Perm (groupByKey l))
    {order : List (K × List α)} (horder : order.Perm (batches size iteration)) :
    (order.flatMap ungroup).Perm l := by
  have hbatches := horder.flatMap_right ungroup
  rw [flatMap_batches hsize] at hbatches
  exact (hbatches.trans (hiteration.flatMap_right ungroup)).trans (flatMap_groupByKey l)

end Spox.Lib
