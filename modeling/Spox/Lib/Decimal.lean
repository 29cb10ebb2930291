import Mathlib.Data.List.DropRight
import Mathlib.Tactic.Ring

/-!
# Decimal texts

Digits and the numbers they stand for. The core library writes a number
(`Nat.toDigits 10`) and reads one back (`Nat.ofDigitChars 10`); here is what
other texts of the same number look like. Of one length there is only one
(`eq_of_value_eq`), so what the library writes is the shortest
(`toDigits_shortest`), and a fraction has one shortest text, without trailing
zeros (`fraction_shortest`).
-/

namespace Spox.Lib.Decimal

/-- A text of ASCII digits. -/
def Digits (l : List Char) : Prop := ∀ c ∈ l, c.isDigit = true

/-- The number digits stand for. -/
def value (l : List Char) : Nat := Nat.ofDigitChars 10 l 0

/-- The value of one digit. -/
def digit (c : Char) : Nat := c.toNat - 48

variable {l m : List Char} {n w : Nat}

theorem digits_append : Digits (l ++ m) ↔ Digits l ∧ Digits m := List.forall_mem_append

theorem digits_zeros (n : Nat) : Digits (List.replicate n '0') := by
  intro c hc
  rw [List.eq_of_mem_replicate hc]
  rfl

theorem digits_toDigits (n : Nat) : Digits (Nat.toDigits 10 n) := fun _ hc =>
  Nat.isDigit_of_mem_toDigits (by decide) (by decide) hc

/-! ## Values -/

theorem toNat_of_isDigit {c : Char} (h : c.isDigit = true) : 48 ≤ c.toNat ∧ c.toNat ≤ 57 :=
  Char.isDigit_iff_toNat.mp h

theorem digit_lt {c : Char} (h : c.isDigit = true) : digit c < 10 := by
  have hc := toNat_of_isDigit h
  unfold digit
  omega

theorem digit_inj {c d : Char} (hc : c.isDigit = true) (hd : d.isDigit = true)
    (h : digit c = digit d) : c = d := by
  have hc := toNat_of_isDigit hc
  have hd := toNat_of_isDigit hd
  unfold digit at h
  exact Char.toNat_inj.mp (by omega)

@[simp] theorem value_nil : value [] = 0 := rfl

theorem value_append (l m : List Char) : value (l ++ m) = 10 ^ m.length * value l + value m := by
  rw [value, Nat.ofDigitChars_append, Nat.ofDigitChars_eq_ofDigitChars_zero]
  rfl

theorem value_singleton (c : Char) : value [c] = digit c := by
  rw [value, Nat.ofDigitChars_cons, Nat.ofDigitChars_nil, Nat.mul_zero, Nat.zero_add]
  rfl

@[simp] theorem value_toDigits (n : Nat) : value (Nat.toDigits 10 n) = n :=
  Nat.ofDigitChars_ten_toDigits

@[simp] theorem value_zeros (n : Nat) : value (List.replicate n '0') = 0 := by
  rw [value, Nat.ofDigitChars_replicate_zero, Nat.mul_zero]

theorem value_lt (h : Digits l) : value l < 10 ^ l.length := by
  induction l using List.reverseRecOn with
  | nil => exact Nat.one_pos
  | append_singleton l c ih =>
      obtain ⟨hl, hc⟩ := digits_append.mp h
      have hinit := ih hl
      have hlast := digit_lt (hc c List.mem_cons_self)
      rw [value_append, value_singleton, List.length_append, List.length_singleton, Nat.pow_succ]
      omega

/-- **Digits of one length are determined by their value.** -/
theorem eq_of_value_eq (hl : Digits l) (hm : Digits m) (hlength : l.length = m.length)
    (hvalue : value l = value m) : l = m := by
  induction l using List.reverseRecOn generalizing m with
  | nil => exact (List.length_eq_zero_iff.mp hlength.symm).symm
  | append_singleton l c ih =>
      rcases List.eq_nil_or_concat m with rfl | ⟨m, d, rfl⟩
      · simp at hlength
      · rw [List.concat_eq_append] at hm hlength hvalue ⊢
        obtain ⟨hl, hc⟩ := digits_append.mp hl
        obtain ⟨hm, hd⟩ := digits_append.mp hm
        have hclt := digit_lt (hc c List.mem_cons_self)
        have hdlt := digit_lt (hd d List.mem_cons_self)
        simp only [value_append, value_singleton, List.length_singleton, Nat.pow_one] at hvalue
        have hinit := ih hl hm (by simpa using hlength) (by omega)
        have hlast := digit_inj (hc c List.mem_cons_self) (hd d List.mem_cons_self) (by omega)
        rw [hinit, hlast]

/-! ## Whole numbers -/

theorem length_toDigits_value_le (hl : Digits l) (hne : l ≠ []) :
    (Nat.toDigits 10 (value l)).length ≤ l.length :=
  (Nat.length_toDigits_le_iff (by decide) (List.length_pos_iff.mpr hne)).mpr (value_lt hl)

/-- **What the library writes is the shortest text of a number.** -/
theorem toDigits_shortest (hl : Digits l)
    (hlength : l.length = (Nat.toDigits 10 (value l)).length) : Nat.toDigits 10 (value l) = l :=
  eq_of_value_eq (digits_toDigits _) hl hlength.symm (value_toDigits _)

/-! ## Fractions -/

/-- The digits of a number, filled up with zeros in front. -/
def fill (w n : Nat) : List Char :=
  List.replicate (w - (Nat.toDigits 10 n).length) '0' ++ Nat.toDigits 10 n

/-- Drop the zeros at the end. -/
def dropZeros (l : List Char) : List Char := l.rdropWhile (· == '0')

/-- Fill up with zeros at the end. -/
def fillEnd (w : Nat) (l : List Char) : List Char := l ++ List.replicate (w - l.length) '0'

theorem digits_fill (w n : Nat) : Digits (fill w n) :=
  digits_append.mpr ⟨digits_zeros _, digits_toDigits n⟩

theorem digits_fillEnd (w : Nat) (h : Digits l) : Digits (fillEnd w l) :=
  digits_append.mpr ⟨h, digits_zeros _⟩

theorem digits_dropZeros (h : Digits l) : Digits (dropZeros l) := fun c hc =>
  h c (List.IsPrefix.mem hc (List.rdropWhile_prefix _ _))

theorem length_fill (hw : 0 < w) (hn : n < 10 ^ w) : (fill w n).length = w := by
  have hle := (Nat.length_toDigits_le_iff (by decide) hw).mpr hn
  rw [fill, List.length_append, List.length_replicate]
  omega

theorem length_fillEnd (h : l.length ≤ w) : (fillEnd w l).length = w := by
  rw [fillEnd, List.length_append, List.length_replicate]
  omega

@[simp] theorem value_fill (w n : Nat) : value (fill w n) = n := by
  rw [fill, value_append, value_zeros, Nat.mul_zero, Nat.zero_add, value_toDigits]

theorem value_fillEnd (w : Nat) (l : List Char) :
    value (fillEnd w l) = 10 ^ (w - l.length) * value l := by
  rw [fillEnd, value_append, value_zeros, Nat.add_zero, List.length_replicate]

theorem dropZeros_append_zeros (l : List Char) (n : Nat) :
    dropZeros (l ++ List.replicate n '0') = dropZeros l := by
  induction n with
  | zero => rw [List.replicate_zero, List.append_nil]
  | succ n ih =>
      rw [List.replicate_succ', ← List.append_assoc, dropZeros,
        List.rdropWhile_concat_pos _ _ _ rfl]
      exact ih

theorem dropZeros_fillEnd (w : Nat) (l : List Char) : dropZeros (fillEnd w l) = dropZeros l :=
  dropZeros_append_zeros l _

theorem length_dropZeros_le (l : List Char) : (dropZeros l).length ≤ l.length :=
  (List.rdropWhile_prefix _ _).length_le

/-- What is dropped is filled up again. -/
theorem fillEnd_dropZeros (l : List Char) : fillEnd l.length (dropZeros l) = l := by
  induction l using List.reverseRecOn with
  | nil => rfl
  | append_singleton l c ih =>
      by_cases hc : c = '0'
      · subst hc
        have hle := length_dropZeros_le l
        rw [show l ++ ['0'] = l ++ List.replicate 1 '0' from rfl, dropZeros_append_zeros]
        rw [fillEnd] at ih ⊢
        rw [List.length_append, List.length_replicate,
          show l.length + 1 - (dropZeros l).length = (l.length - (dropZeros l).length) + 1 by omega,
          List.replicate_add, ← List.append_assoc, ih]
      · rw [fillEnd, dropZeros, List.rdropWhile_concat_neg _ _ _ (by simpa using hc),
          Nat.sub_self, List.replicate_zero, List.append_nil]

theorem dropZeros_ne_nil (h : value l ≠ 0) : dropZeros l ≠ [] := by
  intro hnil
  have hfill := fillEnd_dropZeros l
  rw [hnil] at hfill
  rw [← hfill, fillEnd, List.nil_append, value_zeros] at h
  exact h rfl

theorem getLast?_dropZeros (l : List Char) : (dropZeros l).getLast? ≠ some '0' := by
  intro hlast
  have hne : dropZeros l ≠ [] := by
    intro hnil
    rw [hnil] at hlast
    cases hlast
  rw [List.getLast?_eq_some_getLast hne, Option.some_inj] at hlast
  exact List.rdropWhile_last_not _ _ hne (beq_iff_eq.mpr hlast)

/-- The fraction texts of a number are those that fill up to its digits. -/
theorem fill_eq_fillEnd (hw : 0 < w) (hl : Digits l) (hlength : l.length ≤ w) :
    fill w (value (fillEnd w l)) = fillEnd w l := by
  have hlt := value_lt (digits_fillEnd w hl)
  rw [length_fillEnd hlength] at hlt
  refine eq_of_value_eq (digits_fill _ _) (digits_fillEnd w hl) ?_ (value_fill _ _)
  rw [length_fill hw hlt, length_fillEnd hlength]

/-- **Without trailing zeros a fraction is shortest**: it is a prefix of every
other text of the same fraction. -/
theorem fraction_shortest (hw : 0 < w) (hl : Digits l) (hlength : l.length ≤ w) :
    dropZeros (fill w (value (fillEnd w l))) <+: l := by
  rw [fill_eq_fillEnd hw hl hlength, dropZeros_fillEnd]
  exact List.rdropWhile_prefix _ _

end Spox.Lib.Decimal
