import Mathlib.Algebra.Order.BigOperators.Group.Finset
import Mathlib.Data.List.Count
import Spox.Lib.Batching

/-!
# Batchings

What it takes to cut a list of keyed items into batches of one key and of
bounded length, and that grouping by key and chunking each group does it with
as few batches as can be (`batches_partition`).
-/

namespace Spox.Lib

variable {K α : Type}

/-! ## Chunks -/

theorem chunksFrom_nil (size fuel : Nat) : chunksFrom size fuel ([] : List α) = [] := by
  cases fuel <;> rfl

/-- There are as many chunks as it takes. -/
theorem length_chunksFrom {size : Nat} (hsize : 0 < size) {fuel : Nat} {l : List α}
    (hfuel : l.length ≤ fuel) :
    (chunksFrom size fuel l).length = (l.length + size - 1) / size := by
  induction fuel generalizing l with
  | zero =>
      have hnil : l = [] := List.length_eq_zero_iff.mp (by omega)
      subst hnil
      show 0 = (0 + size - 1) / size
      rw [Nat.div_eq_of_lt (by omega)]
  | succ fuel ih =>
      rw [chunksFrom]
      split
      · next hempty =>
          rw [List.isEmpty_iff.mp hempty]
          show 0 = (0 + size - 1) / size
          rw [Nat.div_eq_of_lt (by omega)]
      · next hne =>
          have hpos : 0 < l.length :=
            List.length_pos_iff.mpr fun hnil => hne (by rw [hnil]; rfl)
          have hrest := ih (l := l.drop size) (by rw [List.length_drop]; omega)
          rw [List.length_cons, hrest, List.length_drop]
          rcases Nat.le_total size l.length with hle | hle
          · rw [show l.length + size - 1 = (l.length - size + size - 1) + size by omega,
              Nat.add_div_right _ hsize]
          · rw [Nat.div_eq_of_lt (by omega),
              show l.length + size - 1 = (l.length - 1) + size by omega,
              Nat.add_div_right _ hsize, Nat.div_eq_of_lt (by omega)]

/-- Every chunk but the last is full. -/
theorem full_chunksFrom {size fuel : Nat} {l c : List α}
    (h : c ∈ (chunksFrom size fuel l).dropLast) : c.length = size := by
  induction fuel generalizing l with
  | zero => cases h
  | succ fuel ih =>
      rw [chunksFrom] at h
      split at h
      · cases h
      · cases hrest : chunksFrom size fuel (l.drop size) with
        | nil =>
            rw [hrest] at h
            cases h
        | cons d ds =>
            rw [hrest, List.dropLast_cons_cons] at h
            rcases List.mem_cons.mp h with rfl | h
            · -- something is left after this chunk
              have hlong : size ≤ l.length := by
                by_contra hshort
                rw [List.drop_eq_nil_of_le (by omega), chunksFrom_nil] at hrest
                cases hrest
              rw [List.length_take, Nat.min_eq_left hlong]
            · exact ih (hrest ▸ h)

/-! ## Groups -/

variable [DecidableEq K]

/-- The items of a key, in order. -/
def itemsOf (key : K) (l : List (K × α)) : List α :=
  (l.filter fun entry => entry.1 = key).map Prod.snd

theorem length_itemsOf (key : K) (l : List (K × α)) :
    (itemsOf key l).length = (l.map Prod.fst).count key := by
  rw [itemsOf, List.length_map, List.count, List.countP_map, List.countP_eq_length_filter]
  rfl

theorem itemsOf_perm {key : K} {l l' : List (K × α)} (h : l.Perm l') :
    (itemsOf key l).Perm (itemsOf key l') :=
  (h.filter _).map Prod.snd

/-- One group for each key of a list, with the items of the key. -/
structure Groups (l : List (K × α)) (groups : List (K × List α)) : Prop where
  nodup : (groups.map Prod.fst).Nodup
  keys : ∀ key, key ∈ groups.map Prod.fst ↔ key ∈ l.map Prod.fst
  items : ∀ group ∈ groups, group.2 = itemsOf group.1 l

theorem mem_keys_push {key k : K} {item : α} {groups : List (K × List α)} :
    k ∈ (push key item groups).map Prod.fst ↔ k = key ∨ k ∈ groups.map Prod.fst := by
  induction groups with
  | nil => simp [push]
  | cons group groups ih =>
      rw [push]
      split
      · next hk => simp [hk]
      · rw [List.map_cons, List.mem_cons, ih, List.map_cons, List.mem_cons]
        exact or_left_comm

theorem nodup_push {key : K} {item : α} {groups : List (K × List α)}
    (h : (groups.map Prod.fst).Nodup) : ((push key item groups).map Prod.fst).Nodup := by
  induction groups with
  | nil => simp [push]
  | cons group groups ih =>
      obtain ⟨hnot, hrest⟩ := List.nodup_cons.mp h
      rw [push]
      split
      · exact h
      · next hk =>
          have hnew : group.1 ∉ (push key item groups).map Prod.fst := by
            intro hmem
            rcases mem_keys_push.mp hmem with heq | hmem
            · exact hk heq
            · exact hnot hmem
          exact List.nodup_cons.mpr ⟨hnew, ih hrest⟩

/-- Pushing onto groups with distinct keys changes the group of the key only. -/
theorem items_push {key : K} {item : α} {groups : List (K × List α)}
    (hnodup : (groups.map Prod.fst).Nodup) {group : K × List α}
    (h : group ∈ push key item groups) :
    group ∈ groups ∧ group.1 ≠ key ∨
      ∃ items, group = (key, items ++ [item]) ∧
        ((key, items) ∈ groups ∨ items = [] ∧ key ∉ groups.map Prod.fst) := by
  induction groups with
  | nil =>
      rw [push, List.mem_singleton] at h
      exact .inr ⟨[], h, .inr ⟨rfl, List.not_mem_nil⟩⟩
  | cons head groups ih =>
      obtain ⟨k, items⟩ := head
      obtain ⟨hnot, hrest⟩ := List.nodup_cons.mp hnodup
      rw [push] at h
      split at h
      · next hk =>
          subst hk
          rcases List.mem_cons.mp h with rfl | h
          · exact .inr ⟨items, rfl, .inl List.mem_cons_self⟩
          · have hne : group.1 ≠ k := fun heq => hnot (List.mem_map.mpr ⟨group, h, heq⟩)
            exact .inl ⟨List.mem_cons_of_mem _ h, hne⟩
      · next hk =>
          rcases List.mem_cons.mp h with rfl | h
          · exact .inl ⟨List.mem_cons_self, hk⟩
          · rcases ih hrest h with ⟨hmem, hne⟩ | ⟨items', rfl, hold | ⟨hnil, hnew⟩⟩
            · exact .inl ⟨List.mem_cons_of_mem _ hmem, hne⟩
            · exact .inr ⟨items', rfl, .inl (List.mem_cons_of_mem _ hold)⟩
            · have hnot : key ∉ ((k, items) :: groups).map Prod.fst := by
                rw [List.map_cons, List.mem_cons, not_or]
                exact ⟨fun heq => hk heq.symm, hnew⟩
              exact .inr ⟨items', rfl, .inr ⟨hnil, hnot⟩⟩

theorem itemsOf_append_singleton (key : K) (l : List (K × α)) (entry : K × α) :
    itemsOf key (l ++ [entry]) =
      itemsOf key l ++ if entry.1 = key then [entry.2] else [] := by
  unfold itemsOf
  rw [List.filter_append, List.map_append]
  by_cases hkey : entry.1 = key
  · simp [hkey]
  · simp [hkey]

theorem itemsOf_of_not_mem {key : K} {l : List (K × α)} (h : key ∉ l.map Prod.fst) :
    itemsOf key l = [] := by
  rw [← List.length_eq_zero_iff, length_itemsOf]
  exact List.count_eq_zero.mpr h

theorem Groups.push {l : List (K × α)} {groups : List (K × List α)} (h : Groups l groups)
    (entry : K × α) : Groups (l ++ [entry]) (Lib.push entry.1 entry.2 groups) where
  nodup := nodup_push h.nodup
  keys key := by
    rw [mem_keys_push, h.keys, List.map_append, List.mem_append, List.map_singleton,
      List.mem_singleton, or_comm]
  items group hgroup := by
    rw [itemsOf_append_singleton]
    rcases items_push h.nodup hgroup with ⟨hmem, hne⟩ | ⟨items, rfl, hold | ⟨rfl, hnew⟩⟩
    · rw [if_neg (Ne.symm hne), List.append_nil]
      exact h.items group hmem
    · rw [if_pos rfl, ← h.items _ hold]
    · rw [if_pos rfl, itemsOf_of_not_mem fun hmem => hnew ((h.keys _).mpr hmem)]

/-- **Grouping finds the items of each key**, in order. -/
theorem groups_groupByKey (l : List (K × α)) : Groups l (groupByKey l) := by
  have hfold : ∀ (seen : List (K × α)) (groups : List (K × List α)), Groups seen groups →
      Groups (seen ++ l) (l.foldl (fun groups entry => push entry.1 entry.2 groups) groups) := by
    induction l with
    | nil =>
        intro seen groups h
        rwa [List.append_nil]
    | cons entry l ih =>
        intro seen groups h
        rw [List.append_cons]
        exact ih _ _ (h.push entry)
  exact hfold [] [] ⟨List.nodup_nil, fun _ => Iff.rfl, fun _ h => absurd h List.not_mem_nil⟩

theorem Groups.perm {l : List (K × α)} {groups iteration : List (K × List α)}
    (h : Groups l groups) (hiteration : iteration.Perm groups) : Groups l iteration where
  nodup := (hiteration.map Prod.fst).nodup_iff.mpr h.nodup
  keys key := by rw [(hiteration.map Prod.fst).mem_iff, h.keys]
  items group hgroup := h.items group (hiteration.mem_iff.mp hgroup)

/-! ## Batchings -/

omit [DecidableEq K] in
theorem batches_append (size : Nat) (groups groups' : List (K × List α)) :
    batches size (groups ++ groups') = batches size groups ++ batches size groups' :=
  List.flatMap_append

omit [DecidableEq K] in
theorem key_of_mem_batches {size : Nat} {groups : List (K × List α)} {batch : K × List α}
    (h : batch ∈ batches size groups) : batch.1 ∈ groups.map Prod.fst := by
  obtain ⟨group, hgroup, hbatch⟩ := List.mem_flatMap.mp h
  obtain ⟨chunk, -, rfl⟩ := List.mem_map.mp hbatch
  exact List.mem_map.mpr ⟨group, hgroup, rfl⟩

/-- A batching of a list of keyed items: batches of one key and of one to
`size` items that hold the items of the list; the batches of a key are
consecutive, hold its items in order and are full but for the last; and no
batching needs fewer. -/
structure Partition (size : Nat) (l : List (K × α)) (bs : List (K × List α)) : Prop where
  bounded : ∀ batch ∈ bs, 1 ≤ batch.2.length ∧ batch.2.length ≤ size
  items : (bs.flatMap ungroup).Perm l
  consecutive : ∀ key, ∃ before own after, bs = before ++ own ++ after ∧
    (∀ batch ∈ before ++ after, batch.1 ≠ key) ∧ (∀ batch ∈ own, batch.1 = key) ∧
    own.flatMap Prod.snd = itemsOf key l ∧ ∀ batch ∈ own.dropLast, batch.2.length = size
  count : bs.length =
    ∑ key ∈ (l.map Prod.fst).toFinset, ((itemsOf key l).length + size - 1) / size
  fewest : ∀ bs' : List (K × List α), (∀ batch ∈ bs', batch.2.length ≤ size) →
    (bs'.flatMap ungroup).Perm l → bs.length ≤ bs'.length

/-- The batches of a key hold at most `size` items each. -/
theorem length_itemsOf_batches_le {size : Nat} (key : K) {bs : List (K × List α)}
    (h : ∀ batch ∈ bs, batch.2.length ≤ size) :
    (itemsOf key (bs.flatMap ungroup)).length ≤ size * (bs.map Prod.fst).count key := by
  induction bs with
  | nil => exact Nat.zero_le _
  | cons batch bs ih =>
      have hrest := ih fun b hb => h b (List.mem_cons_of_mem batch hb)
      have hbatch := h batch List.mem_cons_self
      rw [List.flatMap_cons, itemsOf, List.filter_append, List.map_append, List.length_append,
        List.map_cons, List.count_cons, Nat.mul_add, Nat.add_comm]
      apply Nat.add_le_add hrest
      by_cases hkey : batch.1 = key
      · have hfilter := List.length_filter_le (fun entry => decide (entry.1 = key)) (ungroup batch)
        rw [ungroup, List.length_map] at hfilter
        rw [if_pos (beq_iff_eq.mpr hkey), Nat.mul_one, List.length_map, ungroup]
        exact hfilter.trans hbatch
      · simp [ungroup, hkey]

/-- **No batching has fewer batches** than the chunks of all groups. -/
theorem sum_chunks_le {size : Nat} (hsize : 0 < size) {l : List (K × α)}
    {bs : List (K × List α)} (hbounded : ∀ batch ∈ bs, batch.2.length ≤ size)
    (hitems : (bs.flatMap ungroup).Perm l) :
    ∑ key ∈ (l.map Prod.fst).toFinset, ((itemsOf key l).length + size - 1) / size ≤
      bs.length := by
  have hkey : ∀ key, ((itemsOf key l).length + size - 1) / size ≤
      (bs.map Prod.fst).count key := by
    intro key
    have hle := length_itemsOf_batches_le key hbounded
    rw [(itemsOf_perm hitems).length_eq] at hle
    rw [Nat.div_le_iff_le_mul_add_pred hsize]
    omega
  calc ∑ key ∈ (l.map Prod.fst).toFinset, ((itemsOf key l).length + size - 1) / size
      ≤ ∑ key ∈ (l.map Prod.fst).toFinset, (bs.map Prod.fst).count key :=
        Finset.sum_le_sum fun key _ => hkey key
    _ ≤ ∑ key ∈ (bs.map Prod.fst).toFinset, (bs.map Prod.fst).count key :=
        Finset.sum_le_sum_of_ne_zero fun key _ hne =>
          List.mem_toFinset.mpr (List.count_pos_iff.mp (Nat.pos_of_ne_zero hne))
    _ = bs.length := by
        rw [List.sum_toFinset_count_eq_length, List.length_map]

namespace Groups

variable {size : Nat} {l : List (K × α)} {groups : List (K × List α)}

theorem length_batches (h : Groups l groups) (hsize : 0 < size) :
    (batches size groups).length =
      ∑ key ∈ (l.map Prod.fst).toFinset, ((itemsOf key l).length + size - 1) / size := by
  have hkeys : (l.map Prod.fst).toFinset = (groups.map Prod.fst).toFinset := by
    ext key
    rw [List.mem_toFinset, List.mem_toFinset, h.keys]
  rw [hkeys, List.sum_toFinset _ h.nodup, List.map_map, batches, List.length_flatMap]
  refine congrArg List.sum (List.map_congr_left fun group hgroup => ?_)
  rw [List.length_map, chunks, length_chunksFrom hsize (Nat.le_refl _), h.items group hgroup]
  rfl

/-- The batches of a key are the chunks of its group. -/
theorem consecutive_batches (h : Groups l groups) (hsize : 0 < size) (key : K) :
    ∃ before own after, batches size groups = before ++ own ++ after ∧
      (∀ batch ∈ before ++ after, batch.1 ≠ key) ∧ (∀ batch ∈ own, batch.1 = key) ∧
      own.flatMap Prod.snd = itemsOf key l ∧
      ∀ batch ∈ own.dropLast, batch.2.length = size := by
  by_cases hkey : key ∈ groups.map Prod.fst
  · obtain ⟨group, hgroup, rfl⟩ := List.mem_map.mp hkey
    obtain ⟨earlier, later, rfl⟩ := List.append_of_mem hgroup
    have hnodup := h.nodup
    rw [List.map_append, List.map_cons, List.nodup_middle, List.nodup_cons,
      ← List.map_append] at hnodup
    refine ⟨batches size earlier, (chunks size group.2).map fun chunk => (group.1, chunk),
      batches size later, ?_, ?_, ?_, ?_, ?_⟩
    · rw [batches_append, List.append_assoc]
      rfl
    · intro batch hbatch heq
      rw [← batches_append] at hbatch
      exact hnodup.1 (heq ▸ key_of_mem_batches hbatch)
    · intro batch hbatch
      obtain ⟨chunk, -, rfl⟩ := List.mem_map.mp hbatch
      rfl
    · rw [List.flatMap_map, List.flatMap_id', flatten_chunks hsize]
      exact h.items group hgroup
    · intro batch hbatch
      rw [← List.map_dropLast] at hbatch
      obtain ⟨chunk, hchunk, rfl⟩ := List.mem_map.mp hbatch
      exact full_chunksFrom hchunk
  · refine ⟨[], [], batches size groups, rfl, ?_, fun _ hmem => absurd hmem List.not_mem_nil, ?_,
      fun _ hmem => absurd hmem List.not_mem_nil⟩
    · intro batch hbatch heq
      exact hkey (heq ▸ key_of_mem_batches hbatch)
    · rw [itemsOf_of_not_mem fun hmem => hkey ((h.keys key).mpr hmem)]
      rfl

end Groups

/-- **Grouping and chunking is a batching with as few batches as can be**, in
whatever order the groups are met. -/
theorem batches_partition {size : Nat} (hsize : 0 < size) {l : List (K × α)}
    {iteration : List (K × List α)} (hiteration : iteration.Perm (groupByKey l)) :
    Partition size l (batches size iteration) := by
  have hgroups := (groups_groupByKey l).perm hiteration
  have hcount := hgroups.length_batches hsize
  refine ⟨fun batch hbatch => ⟨?_, length_le_of_mem_batches hbatch⟩,
    flatMap_batches_perm hsize hiteration (List.Perm.refl _),
    hgroups.consecutive_batches hsize, hcount, fun bs' hbounded hitems => ?_⟩
  · exact List.length_pos_iff.mpr (ne_nil_of_mem_batches hsize hbatch)
  · rw [hcount]
    exact sum_chunks_le hsize hbounded hitems

end Spox.Lib
