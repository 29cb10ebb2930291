import Mathlib.Data.Int.Log
import Mathlib.Data.Rat.Floor
import Mathlib.Tactic.Linarith

/-!
# Rounding to doubles

An IEEE double has 53 significant bits, and fewer below 2⁻¹⁰²². A value between
two doubles is rounded to the nearer of them, and to the even one halfway. Up
to 2⁵³ every integer is a double, so rounding does not move a value past one
(`le_rounded`, `rounded_le`).
-/

namespace Spox.Lib.Double

/-- The nearest integer, the even one halfway. -/
def nearest (value : ℚ) : ℤ :=
  if value - ⌊value⌋ = 1 / 2 then ⌊value⌋ + ⌊value⌋ % 2 else ⌊value + 1 / 2⌋

/-- The distance of the doubles about a value. -/
def spacing (value : ℚ) : ℚ := 2 ^ (max (Int.log 2 |value|) (-1022) - 52)

/-- The nearest double, overflow aside. -/
def rounded (value : ℚ) : ℚ := nearest (value / spacing value) * spacing value

variable {value : ℚ} {n : ℤ}

theorem le_nearest (h : (n : ℚ) ≤ value) : n ≤ nearest value := by
  have hfloor : n ≤ ⌊value⌋ := Int.le_floor.mpr h
  unfold nearest
  split
  · have hparity := Int.emod_nonneg ⌊value⌋ (show (2 : ℤ) ≠ 0 by decide)
    omega
  · refine Int.le_floor.mpr ?_
    linarith

theorem nearest_le (h : value ≤ n) : nearest value ≤ n := by
  unfold nearest
  split
  · next hhalf =>
      -- halfway the value is not an integer itself
      have hlt : ⌊value⌋ < n := by
        have hcast : ((⌊value⌋ : ℤ) : ℚ) < n := by linarith
        exact_mod_cast hcast
      have hparity := Int.emod_lt_of_pos ⌊value⌋ (show (0 : ℤ) < 2 by decide)
      omega
  · have hlt : value + 1 / 2 < (n + 1 : ℤ) := by
      push_cast
      linarith
    have hfloor := Int.floor_lt.mpr hlt
    omega

/-- Up to 2⁵³ the doubles are the multiples of a power of a half. -/
theorem spacing_eq (h : |value| < 2 ^ 53) : ∃ k : ℕ, spacing value = (2 ^ k)⁻¹ := by
  have hlog : Int.log 2 |value| ≤ 52 := by
    rcases (abs_nonneg value).eq_or_lt with hzero | hpos
    · rw [← hzero, Int.log_zero_right]
      decide
    · have hlt := (Int.lt_zpow_iff_log_lt (R := ℚ) (x := 53) (by decide : 1 < 2) hpos).mp (by
        exact_mod_cast h)
      omega
  refine ⟨(52 - max (Int.log 2 |value|) (-1022)).toNat, ?_⟩
  have hexp : max (Int.log 2 |value|) (-1022) - 52 =
      -((52 - max (Int.log 2 |value|) (-1022)).toNat : ℤ) := by omega
  rw [spacing, hexp, zpow_neg, zpow_natCast]

theorem le_rounded (hvalue : |value| < 2 ^ 53) (h : (n : ℚ) ≤ value) : (n : ℚ) ≤ rounded value := by
  obtain ⟨k, hk⟩ := spacing_eq hvalue
  have hpos : (0 : ℚ) < 2 ^ k := by positivity
  have hscaled : ((n * 2 ^ k : ℤ) : ℚ) ≤ value / spacing value := by
    rw [hk, div_inv_eq_mul]
    push_cast
    exact mul_le_mul_of_nonneg_right h hpos.le
  have hnearest : ((n * 2 ^ k : ℤ) : ℚ) ≤ nearest (value / spacing value) := by
    exact_mod_cast le_nearest hscaled
  rw [rounded, hk, ← div_eq_mul_inv, le_div_iff₀ hpos, ← hk]
  exact_mod_cast hnearest

theorem rounded_le (hvalue : |value| < 2 ^ 53) (h : value ≤ n) : rounded value ≤ n := by
  obtain ⟨k, hk⟩ := spacing_eq hvalue
  have hpos : (0 : ℚ) < 2 ^ k := by positivity
  have hscaled : value / spacing value ≤ ((n * 2 ^ k : ℤ) : ℚ) := by
    rw [hk, div_inv_eq_mul]
    push_cast
    exact mul_le_mul_of_nonneg_right h hpos.le
  have hnearest : (nearest (value / spacing value) : ℚ) ≤ ((n * 2 ^ k : ℤ) : ℚ) := by
    exact_mod_cast nearest_le hscaled
  rw [rounded, hk, ← div_eq_mul_inv, div_le_iff₀ hpos, ← hk]
  exact_mod_cast hnearest

end Spox.Lib.Double
