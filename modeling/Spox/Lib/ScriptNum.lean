import Spox.Lib.Script

/-!
# Script numbers and relative locks

The numbers of bitcoin scripts are little-endian and as short as they can be,
with the sign in the highest bit of the last byte. The reader takes the
shortest encoding only, so it takes the bytes of each number and no others
(`readNumber_eq_some_iff`). A number of five bytes at most is read as a relative
lock, whose flags and value share the bits of the number.
-/

namespace Spox.Lib.Script

/-! ## Numbers -/

/-- The bytes of a number that leave the sign bit clear. -/
def magnitude (n : Nat) : List UInt8 :=
  if n < 128 then [UInt8.ofNat n] else UInt8.ofNat (n % 256) :: magnitude (n / 256)
decreasing_by omega

/-- The script number of a number that is not negative. -/
def number (n : Nat) : List UInt8 := if n = 0 then [] else magnitude n

/-- The number of such bytes, if a byte less does not do. -/
def readMagnitude : List UInt8 → Option Nat
  | [] => none
  | [byte] => if byte.toNat < 128 then some byte.toNat else none
  | byte :: bytes =>
      (readMagnitude bytes).bind fun high =>
        if 128 ≤ byte.toNat + 256 * high then some (byte.toNat + 256 * high) else none

/-- The number a script number stands for, if it is not negative. -/
def readNumber (bytes : List UInt8) : Option Nat :=
  if bytes = [] then some 0 else (readMagnitude bytes).filter fun n => 0 < n

variable {n k : Nat} {bytes : List UInt8}

theorem magnitude_of_lt (h : n < 128) : magnitude n = [UInt8.ofNat n] := by
  rw [magnitude, if_pos h]

theorem magnitude_of_le (h : 128 ≤ n) :
    magnitude n = UInt8.ofNat (n % 256) :: magnitude (n / 256) := by
  rw [magnitude, if_neg (by omega)]

theorem magnitude_ne_nil (n : Nat) : magnitude n ≠ [] := by
  rw [magnitude]
  split
  · exact List.cons_ne_nil _ _
  · exact List.cons_ne_nil _ _

@[simp] theorem number_zero : number 0 = [] := rfl

theorem number_of_pos (h : 0 < n) : number n = magnitude n := if_neg (by omega)

theorem readMagnitude_cons (byte : UInt8) (h : bytes ≠ []) :
    readMagnitude (byte :: bytes) = (readMagnitude bytes).bind fun high =>
      if 128 ≤ byte.toNat + 256 * high then some (byte.toNat + 256 * high) else none := by
  cases bytes with
  | nil => exact absurd rfl h
  | cons _ _ => rfl

theorem readMagnitude_magnitude (n : Nat) : readMagnitude (magnitude n) = some n := by
  induction n using Nat.strongRecOn with
  | ind n ih =>
      rcases Nat.lt_or_ge n 128 with hlow | hhigh
      · have hbyte : (UInt8.ofNat n).toNat = n :=
          UInt8.toNat_ofNat_of_lt' (show n < 256 by omega)
        rw [magnitude_of_lt hlow, readMagnitude, hbyte, if_pos hlow]
      · have hbyte : (UInt8.ofNat (n % 256)).toNat = n % 256 :=
          UInt8.toNat_ofNat_of_lt' (Nat.mod_lt n (by decide))
        have hsplit : n % 256 + 256 * (n / 256) = n := Nat.mod_add_div n 256
        rw [magnitude_of_le hhigh, readMagnitude_cons _ (magnitude_ne_nil _),
          ih (n / 256) (by omega), Option.bind_some, hbyte, hsplit, if_pos hhigh]

theorem eq_magnitude_of_read (h : readMagnitude bytes = some n) : bytes = magnitude n := by
  induction bytes generalizing n with
  | nil => cases h
  | cons byte bytes ih =>
      cases bytes with
      | nil =>
          rw [readMagnitude] at h
          split at h
          · next hlow =>
              cases h
              rw [magnitude_of_lt hlow, UInt8.ofNat_toNat]
          · cases h
      | cons second bytes =>
          rw [readMagnitude_cons byte (List.cons_ne_nil _ _), Option.bind_eq_some_iff] at h
          obtain ⟨high, hread, h⟩ := h
          split at h
          · next hlong =>
              cases h
              have hbyte := byte.toNat_lt
              have hmod : (byte.toNat + 256 * high) % 256 = byte.toNat := by omega
              have hdiv : (byte.toNat + 256 * high) / 256 = high := by omega
              rw [magnitude_of_le hlong, hmod, hdiv, UInt8.ofNat_toNat, ih hread]
          · cases h

/-- **A script number is read exactly if it is the one of a number.** -/
theorem readNumber_eq_some_iff : readNumber bytes = some n ↔ bytes = number n := by
  unfold readNumber
  rcases Nat.eq_zero_or_pos n with rfl | hpos
  · rw [number_zero]
    split
    · next hnil => exact ⟨fun _ => hnil, fun _ => rfl⟩
    · next hne =>
        constructor
        · intro h
          rw [Option.filter_eq_some_iff] at h
          exact absurd h.2 (by decide)
        · intro h
          exact absurd h hne
  · rw [number_of_pos hpos]
    split
    · next hnil =>
        constructor
        · intro h
          cases h
          exact absurd hpos (Nat.lt_irrefl 0)
        · intro h
          exact absurd (h.symm.trans hnil) (magnitude_ne_nil n)
    · rw [Option.filter_eq_some_iff]
      constructor
      · intro h
        exact eq_magnitude_of_read h.1
      · intro h
        subst h
        exact ⟨readMagnitude_magnitude n, decide_eq_true hpos⟩

theorem readNumber_number (n : Nat) : readNumber (number n) = some n :=
  readNumber_eq_some_iff.mpr rfl

theorem number_injective : Function.Injective number := by
  intro n k h
  have hread := readNumber_number n
  rw [h, readNumber_number] at hread
  exact (Option.some.inj hread).symm

/-- How many bytes a number has. -/
theorem length_magnitude_le_iff : (magnitude n).length ≤ k + 1 ↔ n < 128 * 256 ^ k := by
  induction k generalizing n with
  | zero =>
      rcases Nat.lt_or_ge n 128 with hlow | hhigh
      · rw [magnitude_of_lt hlow]
        exact ⟨fun _ => hlow, fun _ => Nat.le_refl 1⟩
      · have hrest := List.length_pos_iff.mpr (magnitude_ne_nil (n / 256))
        rw [magnitude_of_le hhigh, List.length_cons]
        omega
  | succ k ih =>
      have hpow : 128 * 256 ^ (k + 1) = 256 * (128 * 256 ^ k) := by
        rw [Nat.pow_succ]
        omega
      rw [hpow]
      rcases Nat.lt_or_ge n 128 with hlow | hhigh
      · have hone : 0 < 256 ^ k := Nat.pow_pos (by decide)
        rw [magnitude_of_lt hlow, List.length_singleton]
        omega
      · rw [magnitude_of_le hhigh, List.length_cons, Nat.add_le_add_iff_right, ih]
        omega

theorem length_number_le_iff : (number n).length ≤ k + 1 ↔ n < 128 * 256 ^ k := by
  rcases Nat.eq_zero_or_pos n with rfl | hpos
  · have hone : 0 < 256 ^ k := Nat.pow_pos (by decide)
    rw [number_zero, List.length_nil]
    omega
  · rw [number_of_pos hpos, length_magnitude_le_iff]

/-! ### Pushing a number -/

/-- Data that no opcode of its own pushes. -/
def Plain (data : List UInt8) : Prop :=
  data ≠ [] ∧ ∀ byte, data = [byte] → 16 < byte.toNat ∧ byte.toNat ≠ 0x81

theorem push_number_of_le (hpos : 0 < n) (h : n ≤ 16) :
    push (number n) = [UInt8.ofNat (0x50 + n)] := by
  have hbyte : (UInt8.ofNat n).toNat = n := UInt8.toNat_ofNat_of_lt' (show n < 256 by omega)
  rw [number_of_pos hpos, magnitude_of_lt (by omega), push]
  rw [hbyte, if_pos ⟨hpos, h⟩]

theorem plain_number (h : 16 < n) : Plain (number n) := by
  rw [number_of_pos (by omega)]
  constructor
  · exact magnitude_ne_nil n
  · intro byte hbyte
    have hread := readMagnitude_magnitude n
    rw [hbyte, readMagnitude] at hread
    split at hread
    · cases hread
      omega
    · cases hread

theorem plain_of_two_le {data : List UInt8} (h : 2 ≤ data.length) : Plain data := by
  constructor
  · rintro rfl
    exact absurd h (by decide)
  · rintro byte rfl
    rw [List.length_singleton] at h
    omega

/-! ## Relative locks -/

/-- What an output waits for: nothing, blocks, or units of 512 seconds. -/
inductive RelativeLock where
  | unlocked
  | blocks (count : Nat)
  | intervals (count : Nat)
deriving DecidableEq

/-- The lock a number stands for. Bit 31 disables it and bit 22 makes it one of
time; the lowest 16 bits are its length. -/
def relativeLock (n : Nat) : RelativeLock :=
  if n.testBit 31 then .unlocked
  else if n.testBit 22 then .intervals (n % 2 ^ 16)
  else .blocks (n % 2 ^ 16)

/-- What `OP_CHECKSEQUENCEVERIFY` makes of the top of the stack, which fails on
a number that is negative or longer than five bytes. -/
def checkSequence (data : List UInt8) : Option RelativeLock :=
  if data.length ≤ 5 then (readNumber data).map relativeLock else none

theorem relativeLock_of_lt (h : n < 2 ^ 16) : relativeLock n = .blocks n := by
  have hdisable : n.testBit 31 = false := Nat.testBit_lt_two_pow (by omega)
  have htime : n.testBit 22 = false := Nat.testBit_lt_two_pow (by omega)
  rw [relativeLock, hdisable, htime, Nat.mod_eq_of_lt h]
  rfl

/-- **A number locks for as many blocks exactly if it has 16 bits.** -/
theorem relativeLock_eq_blocks_iff : relativeLock n = .blocks n ↔ n < 2 ^ 16 := by
  constructor
  · intro h
    unfold relativeLock at h
    split at h
    · cases h
    · split at h
      · cases h
      · have hmod : n % 2 ^ 16 = n := RelativeLock.blocks.inj h
        rw [← hmod]
        exact Nat.mod_lt n (by decide)
  · exact relativeLock_of_lt

theorem checkSequence_number (n : Nat) :
    checkSequence (number n) = if n < 2 ^ 39 then some (relativeLock n) else none := by
  have hlength : (number n).length ≤ 5 ↔ n < 2 ^ 39 := by
    rw [show 5 = 4 + 1 from rfl, length_number_le_iff, show 128 * 256 ^ 4 = 2 ^ 39 by decide]
  rw [checkSequence, readNumber_number, Option.map_some]
  exact ite_congr (propext hlength) (fun _ => rfl) fun _ => rfl

end Spox.Lib.Script
