import Mathlib.Algebra.Group.Nat.Defs
import Mathlib.Tactic.Common

/-!
# Hexadecimal text

Numbers and bytes as lower-case hexadecimal text of a fixed width, and the
parser that reads such text back (`parseHex_hexDigits`).
-/

namespace Spox.Lib

/-- A lower-case hexadecimal digit. -/
def hexDigit (n : Nat) : Char := if n < 10 then Char.ofNat (48 + n) else Char.ofNat (87 + n)

/-- The value of a digit of either case. -/
def hexValue (c : Char) : Option Nat :=
  if '0' ≤ c ∧ c ≤ '9' then some (c.toNat - 48)
  else if 'a' ≤ c ∧ c ≤ 'f' then some (c.toNat - 87)
  else if 'A' ≤ c ∧ c ≤ 'F' then some (c.toNat - 55)
  else none

/-- The lowest `width` digits of a number, the highest of them first. -/
def hexDigits : Nat → Nat → List Char
  | 0, _ => []
  | width + 1, n => hexDigits width (n / 16) ++ [hexDigit (n % 16)]

/-- Read digits on top of a value. -/
def parseHex (digits : List Char) (n : Nat) : Option Nat :=
  digits.foldlM (fun n c => (hexValue c).map fun digit => 16 * n + digit) n

theorem hexValue_hexDigit {n : Nat} (h : n < 16) : hexValue (hexDigit n) = some n := by
  have hall : ∀ k : Fin 16, hexValue (hexDigit k) = some k.val := by decide
  exact hall ⟨n, h⟩

theorem parseHex_hexDigits (width n acc : Nat) :
    parseHex (hexDigits width n) acc = some (acc * 16 ^ width + n % 16 ^ width) := by
  induction width generalizing n with
  | zero => simp [hexDigits, parseHex, Nat.mod_one]
  | succ width ih =>
      have hlast : hexValue (hexDigit (n % 16)) = some (n % 16) :=
        hexValue_hexDigit (Nat.mod_lt n (by decide))
      have hsplit : n % 16 ^ (width + 1) = 16 * (n / 16 % 16 ^ width) + n % 16 := by
        rw [Nat.pow_succ, Nat.mul_comm, Nat.mod_mul, Nat.add_comm]
      have hpow : acc * 16 ^ (width + 1) = 16 * (acc * 16 ^ width) := by
        rw [Nat.pow_succ, ← Nat.mul_assoc, Nat.mul_comm]
      rw [hexDigits, parseHex, List.foldlM_append]
      show (parseHex (hexDigits width (n / 16)) acc >>= _) = _
      rw [ih]
      simp only [List.foldlM_cons, List.foldlM_nil, hlast, Option.map_some, Option.bind_eq_bind,
        Option.bind_some, Option.pure_def]
      rw [hsplit, hpow, Nat.mul_add, Nat.add_assoc]

theorem length_hexDigits (width n : Nat) : (hexDigits width n).length = width := by
  induction width generalizing n with
  | zero => rfl
  | succ width ih => rw [hexDigits, List.length_append, ih, List.length_singleton]

/-- Bytes as text. -/
def hexBytes (bytes : List UInt8) : String :=
  String.ofList (bytes.flatMap fun byte => hexDigits 2 byte.toNat)

theorem hexDigits_two_inj {byte byte' : UInt8}
    (h : hexDigits 2 byte.toNat = hexDigits 2 byte'.toNat) : byte = byte' := by
  have hread := congrArg (fun digits => parseHex digits 0) h
  simp only [parseHex_hexDigits, Nat.zero_mul, Nat.zero_add, Option.some.injEq] at hread
  have hlt := byte.toNat_lt
  have hlt' := byte'.toNat_lt
  exact UInt8.toNat_inj.mp (by omega)

/-- Different bytes make different texts. -/
theorem hexBytes_injective : Function.Injective hexBytes := by
  intro bytes bytes' h
  have hdigits := String.ofList_injective h
  clear h
  induction bytes generalizing bytes' with
  | nil =>
      cases bytes' with
      | nil => rfl
      | cons byte' rest' =>
          have hlength := congrArg List.length hdigits
          rw [List.flatMap_cons, List.length_append, length_hexDigits, List.flatMap_nil,
            List.length_nil] at hlength
          omega
  | cons byte rest ih =>
      cases bytes' with
      | nil =>
          have hlength := congrArg List.length hdigits
          rw [List.flatMap_cons, List.length_append, length_hexDigits, List.flatMap_nil,
            List.length_nil] at hlength
          omega
      | cons byte' rest' =>
          rw [List.flatMap_cons, List.flatMap_cons] at hdigits
          have hsame : (hexDigits 2 byte.toNat).length = (hexDigits 2 byte'.toNat).length := by
            rw [length_hexDigits, length_hexDigits]
          obtain ⟨hbyte, hrest⟩ := List.append_inj hdigits hsame
          rw [hexDigits_two_inj hbyte, ih hrest]

/-- A number of `width` digits as text. -/
def hexText (width n : Nat) : String := String.ofList (hexDigits width n)

/-- The number a text of exactly `width` digits stands for. -/
def readHexText (width : Nat) (text : String) : Option Nat :=
  if text.toList.length = width then parseHex text.toList 0 else none

theorem readHexText_hexText (width n : Nat) :
    readHexText width (hexText width n) = some (n % 16 ^ width) := by
  rw [readHexText, hexText, String.toList_ofList, length_hexDigits, if_pos rfl,
    parseHex_hexDigits, Nat.zero_mul, Nat.zero_add]

/-- Numbers of `4 * width` bits are read back. -/
theorem readHexText_of_lt {width n : Nat} (h : n < 2 ^ (4 * width)) :
    readHexText width (hexText width n) = some n := by
  rw [readHexText_hexText, Nat.mod_eq_of_lt]
  rwa [Nat.pow_mul] at h

/-- Bit vectors are read back. -/
theorem readHexText_toNat {width : Nat} (x : BitVec (4 * width)) :
    (readHexText width (hexText width x.toNat)).map (BitVec.ofNat (4 * width)) = some x := by
  rw [readHexText_of_lt x.isLt, Option.map_some, BitVec.ofNat_toNat, BitVec.setWidth_eq]

end Spox.Lib
