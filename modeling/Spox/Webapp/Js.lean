import Spox.Lib.Decimal
import Spox.Lib.Double

/-!
# Webapp — JavaScript

What the webapp's functions use of the JavaScript runtime. A string is modelled
by its characters, a bigint by an integer.
-/

namespace Spox.Webapp

open Spox.Lib

/-- A string, as its characters. -/
abbrev Text := List Char

/-! ## Strings -/

/-- White space and line terminators. -/
def isWhitespace (c : Char) : Bool :=
  (9 ≤ c.toNat && c.toNat ≤ 13) ||
    (0x2000 ≤ c.toNat && c.toNat ≤ 0x200a) ||
    [0x20, 0xa0, 0x1680, 0x2028, 0x2029, 0x202f, 0x205f, 0x3000, 0xfeff].contains c.toNat

/-- `trim`. -/
def trim (text : Text) : Text := (text.dropWhile isWhitespace).rdropWhile isWhitespace

/-- `padStart`. -/
def padStart (text : Text) (width : Nat) (c : Char) : Text :=
  List.replicate (width - text.length) c ++ text

/-- `padEnd`. -/
def padEnd (text : Text) (width : Nat) (c : Char) : Text :=
  text ++ List.replicate (width - text.length) c

theorem trim_sublist (text : Text) : (trim text).Sublist text :=
  (List.rdropWhile_prefix _ _).sublist.trans (List.dropWhile_suffix _).sublist

theorem trim_of_forall {text : Text} (h : ∀ c ∈ text, isWhitespace c = false) :
    trim text = text := by
  have hfront : text.dropWhile isWhitespace = text := by
    cases text with
    | nil => rfl
    | cons c text => exact List.dropWhile_cons_of_neg (by rw [h c List.mem_cons_self]; decide)
  rw [trim, hfront, List.rdropWhile_eq_self_iff]
  intro hne hlast
  rw [h _ (List.getLast_mem hne)] at hlast
  cases hlast

/-- What is trimmed does not start with white space. -/
theorem dropWhile_trim (text : Text) : (trim text).dropWhile isWhitespace = trim text := by
  rw [List.dropWhile_eq_self_iff]
  intro hne hhead
  have hprefix : trim text <+: text.dropWhile isWhitespace := List.rdropWhile_prefix _ _
  have hhead' := hprefix.getElem hne
  rw [hhead'] at hhead
  exact List.dropWhile_get_zero_not isWhitespace text (by have := hprefix.length_le; omega) hhead

@[simp] theorem trim_trim (text : Text) : trim (trim text) = trim text := by
  show ((trim text).dropWhile isWhitespace).rdropWhile isWhitespace = trim text
  rw [dropWhile_trim]
  exact List.rdropWhile_idempotent _ _

theorem isWhitespace_of_isDigit {c : Char} (h : c.isDigit = true) : isWhitespace c = false := by
  have hc := Decimal.toNat_of_isDigit h
  simp only [isWhitespace, List.contains_eq_mem, List.mem_cons, List.not_mem_nil, or_false,
    Bool.or_eq_false_iff, Bool.and_eq_false_iff, decide_eq_false_iff_not]
  omega

/-! ## Numbers -/

/-- `toString` of a bigint. -/
def bigintToString : Int → Text
  | .ofNat n => Nat.toDigits 10 n
  | .negSucc n => '-' :: Nat.toDigits 10 (n + 1)

/-- `BigInt` of a string of digits; the empty string is zero. -/
def bigInt (digits : Text) : Int := Decimal.value digits

/-- The value of a digit, letters included; a character that is none is above
every radix. -/
def digitValue (c : Char) : Nat :=
  if c.isDigit then c.toNat - '0'.toNat
  else if 'a' ≤ c ∧ c ≤ 'z' then c.toNat - 'a'.toNat + 10
  else if 'A' ≤ c ∧ c ≤ 'Z' then c.toNat - 'A'.toNat + 10
  else 36

/-- A numeral of one or more digits. -/
def numeral (radix : Nat) (digits : Text) : Option Nat :=
  if digits.isEmpty || !digits.all fun c => decide (digitValue c < radix) then none
  else some (digits.foldl (fun n c => radix * n + digitValue c) 0)

/-- `BigInt` of any string, `none` where it throws: a numeral with a radix
prefix, or a decimal one with or without a sign. -/
def bigIntOfText (text : Text) : Option Int :=
  match trim text with
  | [] => some 0
  | '0' :: 'x' :: digits | '0' :: 'X' :: digits => (numeral 16 digits).map Int.ofNat
  | '0' :: 'o' :: digits | '0' :: 'O' :: digits => (numeral 8 digits).map Int.ofNat
  | '0' :: 'b' :: digits | '0' :: 'B' :: digits => (numeral 2 digits).map Int.ofNat
  | '-' :: digits => (numeral 10 digits).map fun n => -(n : Int)
  | '+' :: digits => (numeral 10 digits).map Int.ofNat
  | digits => (numeral 10 digits).map Int.ofNat

/-- The double nearest to a natural number, ties to even; `none` is infinity. -/
def toDouble (n : Nat) : Option Nat :=
  let spare := Nat.log2 n + 1 - 53
  let kept := n / 2 ^ spare
  let dropped := n % 2 ^ spare
  let rounded :=
    if 2 * dropped < 2 ^ spare then kept
    else if 2 ^ spare < 2 * dropped then kept + 1
    else kept + kept % 2
  if rounded * 2 ^ spare < 2 ^ 1024 then some (rounded * 2 ^ spare) else none

/-- `Number.parseInt` with radix ten, `none` where the result is not finite. -/
def parseInt (text : Text) : Option Int :=
  let number (digits : Text) : Option Nat :=
    if digits.isEmpty then none else toDouble (Decimal.value digits)
  match text.dropWhile isWhitespace with
  | '-' :: rest => (number (rest.takeWhile Char.isDigit)).map fun n => -(n : Int)
  | '+' :: rest => (number (rest.takeWhile Char.isDigit)).map Int.ofNat
  | rest => (number (rest.takeWhile Char.isDigit)).map Int.ofNat

theorem parseInt_digits {digits : Text} (hne : digits ≠ []) (h : Decimal.Digits digits) :
    parseInt digits = (toDouble (Decimal.value digits)).map Int.ofNat := by
  have hspace : digits.dropWhile isWhitespace = digits := by
    rw [List.dropWhile_eq_self_iff]
    intro hlength hhead
    rw [isWhitespace_of_isDigit (h _ (List.getElem_mem hlength))] at hhead
    cases hhead
  have htake : digits.takeWhile Char.isDigit = digits := List.takeWhile_eq_self_iff.mpr h
  unfold parseInt
  rw [hspace]
  split
  · exact absurd (h '-' List.mem_cons_self) (by decide)
  · exact absurd (h '+' List.mem_cons_self) (by decide)
  · rw [htake]
    show (if digits.isEmpty = true then none else toDouble (Decimal.value digits)).map Int.ofNat = _
    rw [if_neg (by rwa [List.isEmpty_iff])]

theorem toDouble_of_lt {n : Nat} (h : n < 2 ^ 53) : toDouble n = some n := by
  have hlog : Nat.log2 n < 53 := by
    by_cases hn : n = 0
    · subst hn
      decide
    · exact (Nat.log2_lt hn).mpr h
  have hspare : Nat.log2 n + 1 - 53 = 0 := by omega
  have hpow : ∀ k, 53 ≤ k → n < 2 ^ k := fun k hk =>
    Nat.lt_of_lt_of_le h (Nat.pow_le_pow_right (by decide) hk)
  have hbound := hpow 1024 (by decide)
  unfold toDouble
  generalize 2 ^ 1024 = bound at hbound ⊢
  simp only [hspare, Nat.pow_zero, Nat.div_one, Nat.mod_one, Nat.mul_zero, Nat.mul_one,
    Nat.zero_lt_one, if_true, if_pos hbound]

/-- A number above 2⁵³ is not rounded below 2⁵². -/
theorem le_toDouble {n d : Nat} (h : toDouble n = some d) (hn : 2 ^ 53 ≤ n) : 2 ^ 52 ≤ d := by
  have hne : n ≠ 0 := by omega
  have hlog : 53 ≤ Nat.log2 n := (Nat.le_log2 hne).mpr hn
  have hself := (Nat.le_log2 hne).mp (Nat.le_refl (Nat.log2 n))
  unfold toDouble at h
  generalize 2 ^ 1024 = bound at h
  generalize hspare : Nat.log2 n + 1 - 53 = spare at h
  have hkept : 2 ^ 52 ≤ n / 2 ^ spare := by
    rw [Nat.le_div_iff_mul_le (Nat.two_pow_pos spare), ← Nat.pow_add]
    exact Nat.le_trans (Nat.pow_le_pow_right (by decide) (by omega)) hself
  have hrounded : n / 2 ^ spare ≤
      if 2 * (n % 2 ^ spare) < 2 ^ spare then n / 2 ^ spare
      else if 2 ^ spare < 2 * (n % 2 ^ spare) then n / 2 ^ spare + 1
      else n / 2 ^ spare + n / 2 ^ spare % 2 := by
    split
    · exact Nat.le_refl _
    · split
      · omega
      · omega
  simp only at h
  generalize (if 2 * (n % 2 ^ spare) < 2 ^ spare then n / 2 ^ spare
      else if 2 ^ spare < 2 * (n % 2 ^ spare) then n / 2 ^ spare + 1
      else n / 2 ^ spare + n / 2 ^ spare % 2) = rounded at h hrounded
  split at h
  · cases h
    exact Nat.le_trans (Nat.le_trans hkept hrounded)
      (Nat.le_mul_of_pos_right _ (Nat.two_pow_pos spare))
  · cases h

/-- A number: an IEEE double, by its value. -/
inductive Number where
  | finite (value : Rat)
  | infinite (negative : Bool)
  | nan

namespace Number

/-- `x <= 0`. -/
def leZero : Number → Bool
  | .finite value => decide (value ≤ 0)
  | .infinite negative => negative
  | .nan => false

/-- `BigInt` of a number, which throws unless it is an integer. -/
def toBigInt : Number → Option Int
  | .finite value => if value.den = 1 then some value.num else none
  | .infinite _ => none
  | .nan => none

theorem toBigInt_intCast (n : Int) : toBigInt (.finite n) = some n := by
  rw [toBigInt, if_pos (Rat.den_intCast n), Rat.num_intCast]

/-- `x === 0`. -/
def isZero : Number → Bool
  | .finite value => decide (value = 0)
  | .infinite _ => false
  | .nan => false

/-- `x <= bound`. -/
def le (bound : Int) : Number → Bool
  | .finite value => decide (value ≤ bound)
  | .infinite negative => negative
  | .nan => false

/-- The double a value is rounded to, which is infinite beyond 2¹⁰²⁴. -/
def ofRat (value : Rat) : Number :=
  if |Double.rounded value| < 2 ^ 1024 then .finite (Double.rounded value)
  else .infinite (decide (value < 0))

/-- `x + y`. -/
def add : Number → Number → Number
  | .finite x, .finite y => ofRat (x + y)
  | .infinite x, .infinite y => if x = y then .infinite x else .nan
  | .infinite x, .finite _ => .infinite x
  | .finite _, .infinite y => .infinite y
  | .nan, _ => .nan
  | _, .nan => .nan

/-- A number as an element of a `Uint8Array`: its integer part, modulo 256. -/
def toUint8 : Number → UInt8
  | .finite value => UInt8.ofNat ((if 0 ≤ value then ⌊value⌋ else ⌈value⌉) % 256).toNat
  | .infinite _ => 0
  | .nan => 0

theorem leZero_intCast (n : Int) : leZero (.finite n) = decide (n ≤ 0) := by
  rw [leZero]
  exact decide_eq_decide.mpr (by exact_mod_cast Iff.rfl)

/-- A value between two bytes is stored as a byte between them. -/
theorem toUint8_ofRat {value : Rat} {low high : Nat} (hlow : low ≤ value) (hhigh : value ≤ high)
    (hbyte : high ≤ 255) :
    ∃ k, low ≤ k ∧ k ≤ high ∧ (ofRat value).toUint8 = UInt8.ofNat k := by
  have hlow0 : (0 : Rat) ≤ low := Nat.cast_nonneg low
  have hhigh255 : (high : Rat) ≤ 255 := by exact_mod_cast hbyte
  have habs : |value| < 2 ^ 53 := by
    rw [abs_of_nonneg (hlow0.trans hlow)]
    linarith
  have hlow' : (low : Rat) ≤ Double.rounded value := by
    exact_mod_cast Double.le_rounded (n := low) habs (by exact_mod_cast hlow)
  have hhigh' : Double.rounded value ≤ high := by
    exact_mod_cast Double.rounded_le (n := high) habs (by exact_mod_cast hhigh)
  have hrounded0 : 0 ≤ Double.rounded value := hlow0.trans hlow'
  have hfinite : |Double.rounded value| < 2 ^ 1024 := by
    rw [abs_of_nonneg hrounded0]
    calc Double.rounded value ≤ 255 := hhigh'.trans hhigh255
      _ < 2 ^ 8 := by norm_num
      _ ≤ 2 ^ 1024 := pow_le_pow_right₀ (by norm_num) (by norm_num)
  have hfloor : (low : Int) ≤ ⌊Double.rounded value⌋ := Int.le_floor.mpr (by exact_mod_cast hlow')
  have hfloor' : ⌊Double.rounded value⌋ ≤ high := by
    exact_mod_cast (Int.floor_le (Double.rounded value)).trans hhigh'
  refine ⟨⌊Double.rounded value⌋.toNat, by omega, by omega, ?_⟩
  rw [ofRat, if_pos hfinite, toUint8, if_pos hrounded0]
  congr 1
  omega

/-- So is the sum of a byte and a positive number. -/
theorem toUint8_add {value : Rat} {base bound : Nat} (hpos : 0 < value) (hle : value ≤ bound)
    (hbyte : base + bound ≤ 255) : ∃ k : Nat, k ≤ bound ∧ ⌊value⌋ ≤ k ∧ k ≤ ⌈value⌉ ∧
      ((Number.finite base).add (.finite value)).toUint8 = UInt8.ofNat (base + k) := by
  have hfloor0 : 0 ≤ ⌊value⌋ := Int.floor_nonneg.mpr hpos.le
  have hceil0 : 0 ≤ ⌈value⌉ := Int.ceil_nonneg hpos.le
  have hceil : ⌈value⌉ ≤ bound := Int.ceil_le.mpr (by exact_mod_cast hle)
  have hlow : ((base + ⌊value⌋.toNat : Nat) : Rat) ≤ base + value := by
    have hcast : ((⌊value⌋.toNat : Int) : Rat) ≤ value := by
      rw [Int.toNat_of_nonneg hfloor0]
      exact Int.floor_le value
    push_cast at hcast ⊢
    linarith
  have hhigh : base + value ≤ ((base + ⌈value⌉.toNat : Nat) : Rat) := by
    have hcast : value ≤ ((⌈value⌉.toNat : Int) : Rat) := by
      rw [Int.toNat_of_nonneg hceil0]
      exact Int.le_ceil value
    push_cast at hcast ⊢
    linarith
  obtain ⟨k, hk, hk', hstored⟩ := toUint8_ofRat hlow hhigh (by omega)
  refine ⟨k - base, by omega, by omega, by omega, ?_⟩
  rw [show base + (k - base) = k by omega]
  exact hstored

end Number

end Spox.Webapp
