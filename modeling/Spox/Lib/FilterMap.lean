import Mathlib.Data.List.Basic

/-!
# A filter map with a state

An iterator adaptor whose closure sees the position of an item and changes a
state as it goes. What it hands out is an ordinary filter map once the state
at each position is known (`fst_filterMapFrom`), and not even that needs to
be known if the answers do not depend on it (`filterMapFrom_eq_filterMap`).
-/

namespace Spox.Lib

variable {α β S : Type}

/-- Apply `f` to the items of a list from position `i` on, in order, and
collect what it answers. -/
def filterMapFrom (f : Nat → α → S → Option β × S) : Nat → List α → S → List β × S
  | _, [], s => ([], s)
  | i, a :: l, s =>
      let (b, s) := f i a s
      let (bs, s) := filterMapFrom f (i + 1) l s
      (b.toList ++ bs, s)

variable {f : Nat → α → S → Option β × S}

/-- The state when the iteration comes to the `k`-th item. -/
def stateAt (f : Nat → α → S → Option β × S) (i : Nat) (l : List α) (s : S) (k : Nat) : S :=
  (filterMapFrom f i (l.take k) s).2

@[simp] theorem stateAt_zero (i : Nat) (l : List α) (s : S) : stateAt f i l s 0 = s := rfl

theorem stateAt_cons (i : Nat) (a : α) (l : List α) (s : S) (k : Nat) :
    stateAt f i (a :: l) s (k + 1) = stateAt f (i + 1) l (f i a s).2 k := rfl

/-- **What is handed out**: the answer at each position, in order. -/
theorem fst_filterMapFrom (i : Nat) (l : List α) (s : S) :
    (filterMapFrom f i l s).1 = (List.range l.length).filterMap fun k =>
      l[k]?.bind fun a => (f (i + k) a (stateAt f i l s k)).1 := by
  induction l generalizing i s with
  | nil => rfl
  | cons a l ih =>
      have hrest : (filterMapFrom f i (a :: l) s).1 =
          (f i a s).1.toList ++ (filterMapFrom f (i + 1) l (f i a s).2).1 := rfl
      rw [hrest, ih, List.length_cons, List.range_succ_eq_map, List.filterMap_cons,
        List.filterMap_map]
      have hshift : ((fun k => (a :: l)[k]?.bind fun a' =>
            (f (i + k) a' (stateAt f i (a :: l) s k)).1) ∘ Nat.succ) =
          fun k => l[k]?.bind fun a' =>
            (f (i + 1 + k) a' (stateAt f (i + 1) l (f i a s).2 k)).1 := by
        funext k
        rw [Function.comp_apply, Nat.succ_eq_add_one, List.getElem?_cons_succ, stateAt_cons,
          show i + (k + 1) = i + 1 + k by omega]
      rw [hshift]
      simp only [List.getElem?_cons_zero, Option.bind_some, Nat.add_zero, stateAt_zero]
      cases (f i a s).1 <;> rfl

theorem mem_filterMapFrom {i : Nat} {l : List α} {s : S} {b : β} :
    b ∈ (filterMapFrom f i l s).1 ↔
      ∃ k a, l[k]? = some a ∧ (f (i + k) a (stateAt f i l s k)).1 = some b := by
  rw [fst_filterMapFrom, List.mem_filterMap]
  constructor
  · intro h
    obtain ⟨k, -, hk⟩ := h
    obtain ⟨a, ha, hb⟩ := Option.bind_eq_some_iff.mp hk
    exact ⟨k, a, ha, hb⟩
  · intro h
    obtain ⟨k, a, ha, hb⟩ := h
    refine ⟨k, ?_, Option.bind_eq_some_iff.mpr ⟨a, ha, hb⟩⟩
    rw [List.mem_range]
    exact (List.getElem?_eq_some_iff.mp ha).1

section Invariant

/-- The rule for an invariant of the items already met, the answers handed out
for them and the state. -/
theorem filterMapFrom_invariant (inv : List α → List β → S → Prop) {i : Nat} {l : List α}
    (seen : List α) (out : List β) {s : S}
    (hstep : ∀ k seen out a s, a ∈ l → inv seen out s →
      inv (seen ++ [a]) (out ++ (f k a s).1.toList) (f k a s).2)
    (hs : inv seen out s) :
    inv (seen ++ l) (out ++ (filterMapFrom f i l s).1) (filterMapFrom f i l s).2 := by
  induction l generalizing i seen out s with
  | nil => simpa [filterMapFrom] using hs
  | cons a l ih =>
      show inv (seen ++ a :: l) (out ++ ((f i a s).1.toList ++ _)) _
      rw [List.append_cons, ← List.append_assoc]
      exact ih _ _ (fun k seen out a' s ha' =>
          hstep k seen out a' s (List.mem_cons_of_mem a ha'))
        (hstep i seen out a s List.mem_cons_self hs)

/-- The rule for an invariant of the state alone. -/
theorem filterMapFrom_keeps (inv : S → Prop) {i : Nat} {l : List α} {s : S}
    (hstep : ∀ k a s, a ∈ l → inv s → inv (f k a s).2) (hs : inv s) :
    inv (filterMapFrom f i l s).2 :=
  filterMapFrom_invariant (fun _ _ s => inv s) [] [] (fun k _ _ a s => hstep k a s) hs

theorem stateAt_keeps (inv : S → Prop) {i : Nat} {l : List α} {s : S}
    (hstep : ∀ k a s, a ∈ l → inv s → inv (f k a s).2) (hs : inv s) (k : Nat) :
    inv (stateAt f i l s k) :=
  filterMapFrom_keeps inv (fun k' a s ha => hstep k' a s (List.mem_of_mem_take ha)) hs

/-- If only an item of the kind `q` is answered with something of the kind
`p`, there are no more of these than of those. -/
theorem countP_filterMapFrom_le {p : β → Bool} {q : α → Bool} {i : Nat} {l : List α} {s : S}
    (h : ∀ k a s b, a ∈ l → (f k a s).1 = some b → p b = true → q a = true) :
    (filterMapFrom f i l s).1.countP p ≤ l.countP q := by
  refine filterMapFrom_invariant (fun seen out _ => out.countP p ≤ seen.countP q) [] [] ?_
    (Nat.le_refl 0)
  intro k seen out a s ha hle
  rw [List.countP_append, List.countP_append, List.countP_singleton]
  refine Nat.add_le_add hle ?_
  cases hb : (f k a s).1 with
  | none => exact Nat.zero_le _
  | some b =>
      rw [Option.toList_some, List.countP_singleton]
      by_cases hp : p b = true
      · simp [hp, h k a s b ha hb hp]
      · simp [hp]

end Invariant

/-- If the answers do not depend on the state, as long as it satisfies `inv`,
this is a filter map. -/
theorem filterMapFrom_eq_filterMap (inv : S → Prop) {g : α → Option β} {i : Nat} {l : List α}
    {s : S} (hstep : ∀ k a s, a ∈ l → inv s → (f k a s).1 = g a ∧ inv (f k a s).2)
    (hs : inv s) : (filterMapFrom f i l s).1 = l.filterMap g := by
  induction l generalizing i s with
  | nil => rfl
  | cons a l ih =>
      obtain ⟨hanswer, hinv⟩ := hstep i a s List.mem_cons_self hs
      have hrest : (filterMapFrom f (i + 1) l (f i a s).2).1 = l.filterMap g :=
        ih (fun k a' s ha' => hstep k a' s (List.mem_cons_of_mem a ha')) hinv
      have hcons : (filterMapFrom f i (a :: l) s).1 =
          (f i a s).1.toList ++ (filterMapFrom f (i + 1) l (f i a s).2).1 := rfl
      rw [hcons, hrest, hanswer, List.filterMap_cons]
      cases g a <;> rfl

/-- A filter map that picks fewer items, with the same answers, hands out a
sublist. -/
theorem filterMap_sublist_filterMap {g g' : α → Option β} {l : List α}
    (h : ∀ a ∈ l, ∀ b, g a = some b → g' a = some b) :
    (l.filterMap g).Sublist (l.filterMap g') := by
  induction l with
  | nil => exact List.Sublist.refl _
  | cons a l ih =>
      have hrest := ih fun a' ha' => h a' (List.mem_cons_of_mem a ha')
      rw [List.filterMap_cons, List.filterMap_cons]
      cases hg : g a with
      | some b =>
          rw [h a List.mem_cons_self b hg]
          exact hrest.cons_cons b
      | none =>
          cases g' a with
          | some b => exact hrest.cons b
          | none => exact hrest

end Spox.Lib
