import Mathlib.Algebra.Group.Nat.Defs
import Mathlib.Tactic.Common

/-!
# Script pushes

Numbers as bytes of a fixed width, and the data pushes of a bitcoin script. A
push is minimal if no shorter opcode pushes the same data; a reader that takes
every kind of push gets the data of a minimal one back (`readPush_push`).
-/

namespace Spox.Lib.Script

/-! ## Numbers as bytes -/

/-- The lowest `width` bytes of a number, the highest of them first. -/
def bigEndian : Nat → Nat → List UInt8
  | 0, _ => []
  | width + 1, n => bigEndian width (n / 256) ++ [UInt8.ofNat (n % 256)]

/-- The number bytes stand for. -/
def ofBigEndian (bytes : List UInt8) : Nat := bytes.foldl (fun n byte => 256 * n + byte.toNat) 0

variable {width n : Nat} {data rest : List UInt8}

theorem length_bigEndian (width n : Nat) : (bigEndian width n).length = width := by
  induction width generalizing n with
  | zero => rfl
  | succ width ih => rw [bigEndian, List.length_append, ih, List.length_singleton]

/-- Bytes are read back modulo their width. -/
theorem ofBigEndian_bigEndian (width n : Nat) :
    ofBigEndian (bigEndian width n) = n % 256 ^ width := by
  induction width generalizing n with
  | zero => exact (Nat.mod_one n).symm
  | succ width ih =>
      have hinit := ih (n / 256)
      have hlast : (UInt8.ofNat (n % 256)).toNat = n % 256 :=
        UInt8.toNat_ofNat_of_lt' (Nat.mod_lt n (by decide))
      rw [ofBigEndian] at hinit
      rw [bigEndian, ofBigEndian, List.foldl_append, List.foldl_cons, List.foldl_nil, hinit, hlast,
        Nat.pow_succ, Nat.mul_comm (256 ^ width), Nat.mod_mul, Nat.add_comm]

/-! ## Pushes -/

/-- The least push of data; lengths after a push opcode are little-endian. -/
def push (data : List UInt8) : List UInt8 :=
  match data with
  | [] => [0x00]
  | [byte] =>
      if 1 ≤ byte.toNat ∧ byte.toNat ≤ 16 then [UInt8.ofNat (0x50 + byte.toNat)]
      else if byte.toNat = 0x81 then [0x4f]
      else [0x01, byte]
  | data =>
      if data.length ≤ 75 then UInt8.ofNat data.length :: data
      else if data.length < 256 ^ 1 then 0x4c :: ((bigEndian 1 data.length).reverse ++ data)
      else if data.length < 256 ^ 2 then 0x4d :: ((bigEndian 2 data.length).reverse ++ data)
      else 0x4e :: ((bigEndian 4 data.length).reverse ++ data)

theorem push_of_le (h : 2 ≤ data.length) (hshort : data.length ≤ 75) :
    push data = UInt8.ofNat data.length :: data := by
  unfold push
  split
  · cases h
  · rw [List.length_singleton] at h
    omega
  · rw [if_pos hshort]

theorem length_push_of_le (h : 2 ≤ data.length) (hshort : data.length ≤ 75) :
    (push data).length = data.length + 1 := by
  rw [push_of_le h hshort, List.length_cons]

/-- How much longer a push is than its data. -/
theorem length_push_le (h : data.length < 256) : (push data).length ≤ data.length + 2 := by
  unfold push
  split
  · exact Nat.le_succ 1
  · split
    · exact Nat.le_add_left 1 2
    · split
      · exact Nat.le_add_left 1 2
      · exact Nat.le_succ 2
  · split
    · rw [List.length_cons]
      omega
    · rw [if_pos (show data.length < 256 ^ 1 by omega), List.length_cons, List.length_append,
        List.length_reverse, length_bigEndian]
      omega

/-- The next `n` bytes and what follows them. -/
def readBytes (n : Nat) (script : List UInt8) : Option (List UInt8 × List UInt8) :=
  if n ≤ script.length then some (script.take n, script.drop n) else none

/-- Data after a little-endian length of `width` bytes. -/
def readSized (width : Nat) (script : List UInt8) : Option (List UInt8 × List UInt8) :=
  (readBytes width script).bind fun sized => readBytes (ofBigEndian sized.1.reverse) sized.2

/-- The data a script starts by pushing, and the rest of the script. -/
def readPush : List UInt8 → Option (List UInt8 × List UInt8)
  | [] => none
  | op :: script =>
      if op.toNat ≤ 75 then readBytes op.toNat script
      else if op.toNat = 0x4c then readSized 1 script
      else if op.toNat = 0x4d then readSized 2 script
      else if op.toNat = 0x4e then readSized 4 script
      else if op.toNat = 0x4f then some ([0x81], script)
      else if 0x51 ≤ op.toNat ∧ op.toNat ≤ 0x60 then
        some ([UInt8.ofNat (op.toNat - 0x50)], script)
      else none

theorem length_readBytes {script : List UInt8} (h : readBytes n script = some (data, rest)) :
    rest.length ≤ script.length := by
  rw [readBytes] at h
  split at h
  · cases h
    exact (List.drop_sublist n script).length_le
  · cases h

theorem length_readSized {script : List UInt8} (h : readSized width script = some (data, rest)) :
    rest.length ≤ script.length := by
  obtain ⟨⟨size, sized⟩, hsize, hdata⟩ := Option.bind_eq_some_iff.mp h
  exact Nat.le_trans (length_readBytes hdata) (length_readBytes hsize)

/-- Reading a push makes the script shorter. -/
theorem length_readPush {script : List UInt8} (h : readPush script = some (data, rest)) :
    rest.length < script.length := by
  cases script with
  | nil => cases h
  | cons op script =>
      rw [readPush] at h
      refine Nat.lt_succ_of_le ?_
      split at h
      · exact length_readBytes h
      · split at h
        · exact length_readSized h
        · split at h
          · exact length_readSized h
          · split at h
            · exact length_readSized h
            · split at h
              · cases h
                exact Nat.le_refl _
              · split at h
                · cases h
                  exact Nat.le_refl _
                · cases h

theorem readBytes_append (data rest : List UInt8) :
    readBytes data.length (data ++ rest) = some (data, rest) := by
  rw [readBytes, if_pos (by rw [List.length_append]; omega), List.take_left, List.drop_left]

theorem readSized_append (h : data.length < 256 ^ width) (rest : List UInt8) :
    readSized width ((bigEndian width data.length).reverse ++ data ++ rest) =
      some (data, rest) := by
  have hsize := readBytes_append (bigEndian width data.length).reverse (data ++ rest)
  rw [List.length_reverse, length_bigEndian] at hsize
  have hlength : ofBigEndian (bigEndian width data.length).reverse.reverse = data.length := by
    rw [List.reverse_reverse, ofBigEndian_bigEndian, Nat.mod_eq_of_lt h]
  rw [readSized, List.append_assoc, hsize, Option.bind_some]
  show readBytes (ofBigEndian (bigEndian width data.length).reverse.reverse) (data ++ rest) = _
  rw [hlength]
  exact readBytes_append data rest

/-- **A minimal push is read back**, whatever follows it. -/
theorem readPush_push (h : data.length < 256 ^ 4) (rest : List UInt8) :
    readPush (push data ++ rest) = some (data, rest) := by
  unfold push
  split
  · rfl
  · next byte =>
      split
      · next hsmall =>
          have hop : (UInt8.ofNat (0x50 + byte.toNat)).toNat = 0x50 + byte.toNat :=
            UInt8.toNat_ofNat_of_lt' (by show _ < 256; omega)
          rw [List.singleton_append, readPush, hop, if_neg (by omega), if_neg (by omega),
            if_neg (by omega), if_neg (by omega), if_neg (by omega), if_pos (by omega),
            Nat.add_sub_cancel_left, UInt8.ofNat_toNat]
      · split
        · next hneg =>
            have hbyte : byte = 0x81 := UInt8.toNat_inj.mp hneg
            subst hbyte
            rfl
        · exact readBytes_append [byte] rest
  · next hlong =>
      split
      · next hshort =>
          have hop : (UInt8.ofNat data.length).toNat = data.length :=
            UInt8.toNat_ofNat_of_lt' (by show _ < 256; omega)
          rw [List.cons_append, readPush, hop, if_pos hshort]
          exact readBytes_append data rest
      · split
        · next hone => exact readSized_append hone rest
        · split
          · next htwo => exact readSized_append htwo rest
          · exact readSized_append h rest

end Spox.Lib.Script
