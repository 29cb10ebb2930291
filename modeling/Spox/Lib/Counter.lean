import Mathlib.Data.List.Basic
import Mathlib.Data.List.Range
import Mathlib.Data.Nat.Find

/-!
# Counters

A counter that is read at each attempt and bumped after each success, in
fixed-width arithmetic. `Counted` says what every attempt reads;
`Disciplined` is what its user relies on: no gaps, no value used by two
successes. The two agree exactly as long as the counter does not wrap around
(`Counted.disciplined_iff`).
-/

namespace Spox.Lib

variable {α : Type}

/-- Each attempt reads the start plus the successes before it, modulo `bound`. -/
def Counted (bound n : Nat) (ok : α → Bool) (value : α → Nat) (l : List α) : Prop :=
  ∀ (i : Nat) (a : α), l[i]? = some a → value a = (n + (l.take i).countP ok) % bound

/-- The values form a nondecreasing sequence from `n` without gaps, the
successes carry `n, n + 1, …`, one each, and a value is used again only if the
attempts with it failed. -/
structure Disciplined (n : Nat) (ok : α → Bool) (value : α → Nat) (l : List α) : Prop where
  first : ∀ a, l[0]? = some a → value a = n
  nondecreasing : ∀ (i j : Nat) (a b : α), i ≤ j → l[i]? = some a → l[j]? = some b →
    value a ≤ value b
  noGap : ∀ (i : Nat) (a b : α), l[i]? = some a → l[i + 1]? = some b → value b ≤ value a + 1
  successes : (l.filter ok).map value = List.range' n (l.countP ok)
  again : ∀ (i j : Nat) (a b : α), i < j → l[i]? = some a → l[j]? = some b →
    value a = value b → ok a = false

section Steps

variable {bound n : Nat} {ok : α → Bool} {value : α → Nat} {l : List α} {a b : α} {i j : Nat}

/-- One more attempt. -/
theorem Counted.append (h : Counted bound n ok value l)
    (ha : value a = (n + l.countP ok) % bound) : Counted bound n ok value (l ++ [a]) := by
  intro i b hb
  rcases Nat.lt_or_ge i l.length with hi | hi
  · rw [List.getElem?_append_left hi] at hb
    rw [List.take_append_of_le_length (Nat.le_of_lt hi)]
    exact h i b hb
  · rw [List.getElem?_append_right hi] at hb
    obtain ⟨hlt, hget⟩ := List.getElem?_eq_some_iff.mp hb
    have hi : i = l.length := by
      rw [List.length_singleton] at hlt
      omega
    subst hi
    rw [List.take_left]
    simp only [Nat.sub_self, List.getElem_cons_zero] at hget
    rw [← hget]
    exact ha

theorem countP_take_succ (ha : l[i]? = some a) :
    (l.take (i + 1)).countP ok = (l.take i).countP ok + if ok a then 1 else 0 := by
  rw [List.take_add_one, ha, Option.toList_some, List.countP_append, List.countP_singleton]

theorem countP_take_mono (h : i ≤ j) : (l.take i).countP ok ≤ (l.take j).countP ok :=
  (List.take_sublist_take_left h).countP_le

/-- Between two attempts there is at least one success if the first is one. -/
theorem countP_take_lt (h : i < j) (ha : l[i]? = some a) (hok : ok a = true) :
    (l.take i).countP ok < (l.take j).countP ok := by
  have hsucc : (l.take (i + 1)).countP ok = (l.take i).countP ok + if ok a then 1 else 0 :=
    countP_take_succ ha
  have hmono : (l.take (i + 1)).countP ok ≤ (l.take j).countP ok := countP_take_mono h
  rw [hok, if_pos rfl] at hsucc
  omega

/-- Readings below the bound are exact. -/
theorem Counted.exact (h : Counted bound n ok value l)
    (hfit : n + l.dropLast.countP ok < bound) (ha : l[i]? = some a) :
    value a = n + (l.take i).countP ok := by
  obtain ⟨hlt, -⟩ := List.getElem?_eq_some_iff.mp ha
  have hmono : (l.take i).countP ok ≤ l.dropLast.countP ok := by
    rw [List.dropLast_eq_take]
    exact countP_take_mono (by omega)
  rw [h i a ha, Nat.mod_eq_of_lt (by omega)]

theorem map_successes (h : ∀ (i : Nat) (a : α), l[i]? = some a →
    value a = n + (l.take i).countP ok) :
    (l.filter ok).map value = List.range' n (l.countP ok) := by
  induction l using List.reverseRecOn with
  | nil => rfl
  | append_singleton l a ih =>
      have hlast := h l.length a (by simp)
      rw [List.take_left] at hlast
      have hinit := ih fun i b hb => by
        obtain ⟨hlt, -⟩ := List.getElem?_eq_some_iff.mp hb
        have hvalue := h i b (by rw [List.getElem?_append_left hlt, hb])
        rwa [List.take_append_of_le_length (Nat.le_of_lt hlt)] at hvalue
      rw [List.filter_append, List.map_append, hinit, List.countP_append, List.countP_singleton]
      cases hok : ok a with
      | false => simp [hok]
      | true => simp [hok, List.range'_concat, hlast]

theorem Counted.disciplined (h : Counted bound n ok value l)
    (hfit : n + l.dropLast.countP ok < bound) : Disciplined n ok value l where
  first a ha := h.exact hfit ha
  nondecreasing i j a b hij ha hb := by
    rw [h.exact hfit ha, h.exact hfit hb]
    exact Nat.add_le_add_left (countP_take_mono hij) n
  noGap i a b ha hb := by
    rw [h.exact hfit ha, h.exact hfit hb, countP_take_succ ha]
    split <;> omega
  successes := map_successes fun _ _ ha => h.exact hfit ha
  again i j a b hij ha hb heq := by
    rw [h.exact hfit ha, h.exact hfit hb] at heq
    by_contra hok
    have hlt := countP_take_lt hij ha (Bool.of_not_eq_false hok)
    omega

/-- A counter that reaches the bound starts again at zero, below its start. -/
theorem Counted.fits_of_disciplined (h : Counted bound n ok value l) (hn : n < bound)
    (hd : Disciplined n ok value l) : n + l.dropLast.countP ok < bound := by
  by_contra hwrap
  rw [List.dropLast_eq_take] at hwrap
  -- the first attempt that reads past the bound, and the success before it
  have hex : ∃ i, bound ≤ n + (l.take i).countP ok := ⟨l.length - 1, by omega⟩
  obtain ⟨k, hk⟩ : ∃ k, Nat.find hex = k + 1 := by
    refine Nat.exists_eq_succ_of_ne_zero fun hzero => ?_
    have hspec := Nat.find_spec hex
    rw [hzero, List.take_zero, List.countP_nil] at hspec
    omega
  have hpast := Nat.find_spec hex
  have hbefore := Nat.find_min hex (show k < Nat.find hex by omega)
  have hlast : k + 1 ≤ l.length - 1 := by
    rw [← hk]
    exact Nat.find_min' hex (by omega)
  rw [hk] at hpast
  have ha : l[k]? = some l[k] := List.getElem?_eq_getElem (by omega)
  have hb : l[k + 1]? = some l[k + 1] := List.getElem?_eq_getElem (by omega)
  rw [countP_take_succ ha] at hpast
  have hok : ok l[k] = true := by
    by_contra hfail
    rw [if_neg hfail] at hpast
    omega
  have hread := h k _ ha
  rw [Nat.mod_eq_of_lt (by omega)] at hread
  have hzero := h (k + 1) _ hb
  rw [countP_take_succ ha, if_pos hok] at hzero
  rw [if_pos hok] at hpast
  rw [show n + ((l.take k).countP ok + 1) = bound by omega, Nat.mod_self] at hzero
  have hle := hd.nondecreasing k (k + 1) _ _ (Nat.le_succ k) ha hb
  have hagain := hd.again k (k + 1) _ _ (Nat.lt_succ_self k) ha hb (by omega)
  rw [hok] at hagain
  cases hagain

/-- **A counter is disciplined exactly as long as it does not wrap around.** -/
theorem Counted.disciplined_iff (h : Counted bound n ok value l) (hn : n < bound) :
    Disciplined n ok value l ↔ n + l.dropLast.countP ok < bound :=
  ⟨h.fits_of_disciplined hn, h.disciplined⟩

end Steps

end Spox.Lib
