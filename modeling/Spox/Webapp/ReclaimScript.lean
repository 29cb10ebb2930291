import Spox.Lib.ScriptNum
import Spox.Webapp.DepositScript

/-!
# Webapp — reclaim scripts

`createReclaimScript` and `singleSigSpendScript` of `bitcoin.ts`. Lock times up
to 16 go through a sum of doubles into a byte, and the others through a bigint
into a script number, whatever their size; the validator asks for a positive
lock time only. Bitcoin reads 16 bits of it, so a script locks for as long as
was entered exactly if the lock time is whole and below 2¹⁶.
-/

namespace Spox.Webapp

open Spox.Lib Spox.Lib.Script

/-! ## Creating a script -/

/-- An item of a reclaim script. -/
inductive ReclaimItem where
  | data (bytes : List UInt8)
  | drop
  | checkSig
  | checkSequenceVerify

/-- What else is used of the libraries: `ScriptNum().encode` and
`Script.encode`. -/
structure ReclaimLibrary where
  scriptNum : Int → List UInt8
  scriptEncode : List ReclaimItem → List UInt8

section

variable {P : Type} (library : DepositLibrary P) (reclaim : ReclaimLibrary)

/-- `createReclaimScript`; `BigInt` may throw. -/
def createReclaimScript (lockTime : Number) (spendScript : List UInt8) : Option (List UInt8) := do
  let opCsv : UInt8 := 0xb2
  let lockPrefix ←
    if lockTime.isZero then some [0x00, opCsv]
    else if lockTime.le 16 then some [((Number.finite 0x50).add lockTime).toUint8, opCsv]
    else lockTime.toBigInt.map fun lockTime =>
      reclaim.scriptEncode [.data (reclaim.scriptNum lockTime), .checkSequenceVerify]
  some (lockPrefix ++ spendScript)

/-- `singleSigSpendScript`. -/
def singleSigSpendScript (pubkey : List UInt8) : List UInt8 :=
  reclaim.scriptEncode [.drop, .data (toXOnly pubkey), .checkSig]

/-- The `spendScript` of `generateDeposit`. -/
def spendScript (input : DepositInputs) : Option (List UInt8) :=
  match input.reclaimMode with
  | .pubkey => (fromHex library input.btcPubKey).map (singleSigSpendScript reclaim)
  | .script => fromHex library input.reclaimScriptHex

/-- The reclaim script of `generateDeposit`. -/
def generateReclaimScript (input : DepositInputs) : Option (List UInt8) := do
  let spendScript ← spendScript library reclaim input
  createReclaimScript reclaim input.lockTime spendScript

end

/-! ## Reading a script -/

/-- The bytes of an item. -/
def ReclaimItem.bytes : ReclaimItem → List UInt8
  | .data bytes => Script.push bytes
  | .drop => [0x75]
  | .checkSig => [0xac]
  | .checkSequenceVerify => [0xb2]

/-- What bitcoin makes of the start of a reclaim script: the lock, and the
script that remains to be met. -/
def decodeReclaimScript (script : List UInt8) : Option (RelativeLock × List UInt8) := do
  let (data, script) ← readPush script
  let lock ← checkSequence data
  let script ← readOp 0xb2 script
  some (lock, script)

section

variable {P : Type} {library : DepositLibrary P} {reclaim : ReclaimLibrary} {network : Text}
  {input input' : DepositInputs} {spend spend' script : List UInt8} {n n' k : Nat} {value : Rat}

/-- What the libraries are relied on for: hexadecimal text of an even length is
decoded, script numbers are as short as they can be, and data that no opcode
stands for is pushed by its length. -/
structure ReclaimLibrary.Lawful (library : DepositLibrary P) (reclaim : ReclaimLibrary) :
    Prop where
  hexDecode : ∀ text, isHexText text = true → text.length % 2 = 0 →
    ∃ bytes, library.hexDecode text = some bytes ∧ bytes.length = text.length / 2
  scriptNum : ∀ n : Nat, reclaim.scriptNum n = number n
  scriptEncode : ∀ items,
    (∀ bytes, .data bytes ∈ items → Plain bytes ∧ bytes.length < 256 ^ 4) →
    reclaim.scriptEncode items = items.flatMap ReclaimItem.bytes

/-- Finite doubles are below 2¹⁰²⁴. -/
def doubleBound : Nat := 256 ^ 128

/-- A lock time that is a double. -/
def DepositInputs.Double (input : DepositInputs) : Prop :=
  ∀ value, input.lockTime = .finite value → value < doubleBound

theorem lt_doubleBound (h : n < 2 ^ 64) : n < doubleBound :=
  Nat.lt_trans h (by decide)

/-- The bytes of a script that locks for a number of blocks. -/
def lockScript (n : Nat) (spend : List UInt8) : List UInt8 := Script.push (number n) ++ 0xb2 :: spend

theorem length_number_of_lt (h : n < doubleBound) : (number n).length < 256 ^ 4 := by
  have hlength : (number n).length ≤ 128 + 1 := by
    exact length_number_le_iff.mpr
      (Nat.lt_of_lt_of_le h (Nat.le_mul_of_pos_left _ (by decide)))
  omega

/-- The lock and the rest are read back from a script. -/
theorem decode_lockScript (h : n < doubleBound) (spend : List UInt8) :
    decodeReclaimScript (lockScript n spend) =
      if n < 2 ^ 39 then some (relativeLock n, spend) else none := by
  have hop : readOp 0xb2 (0xb2 :: spend) = some spend := rfl
  simp only [decodeReclaimScript, lockScript, readPush_push (length_number_of_lt h),
    checkSequence_number, Option.bind_eq_bind, Option.bind_some]
  split
  · rw [Option.bind_some, hop, Option.bind_some]
  · rfl

theorem lockScript_inj (h : n < doubleBound) (h' : n' < doubleBound)
    (heq : lockScript n spend = lockScript n' spend') : n = n' ∧ spend = spend' := by
  have hread := readPush_push (length_number_of_lt h) (0xb2 :: spend)
  rw [show Script.push (number n) ++ 0xb2 :: spend = Script.push (number n') ++ 0xb2 :: spend' from heq,
    readPush_push (length_number_of_lt h'), Option.some.injEq, Prod.mk.injEq] at hread
  obtain ⟨hnumber, hrest⟩ := hread
  exact ⟨(number_injective hnumber).symm, (List.cons.inj hrest).2.symm⟩

/-! ### The lock -/

/-- A lock time of up to 16 becomes an opcode. -/
theorem createReclaimScript_small (reclaim : ReclaimLibrary) (hpos : 0 < value)
    (hle : value ≤ 16) (spend : List UInt8) :
    ∃ k : Nat, k ≤ 16 ∧ ⌊value⌋ ≤ k ∧ k ≤ ⌈value⌉ ∧
      createReclaimScript reclaim (.finite value) spend =
        some (UInt8.ofNat (0x50 + k) :: 0xb2 :: spend) := by
  obtain ⟨k, hk, hfloor, hceil, hbyte⟩ : ∃ k : Nat, k ≤ 16 ∧ ⌊value⌋ ≤ k ∧ k ≤ ⌈value⌉ ∧
      ((Number.finite (0x50 : Nat)).add (.finite value)).toUint8 = UInt8.ofNat (0x50 + k) :=
    Number.toUint8_add hpos (by exact_mod_cast hle) (by decide)
  refine ⟨k, hk, hfloor, hceil, ?_⟩
  have hzero : (Number.finite value).isZero = false := decide_eq_false hpos.ne'
  have hsmall : (Number.finite value).le 16 = true := decide_eq_true (by exact_mod_cast hle)
  have hstored : ((Number.finite 0x50).add (.finite value)).toUint8 = UInt8.ofNat (0x50 + k) := by
    exact_mod_cast hbyte
  rw [createReclaimScript, hzero, hsmall, hstored]
  rfl

/-- What such an opcode locks for. -/
theorem decode_opcode (hk : k ≤ 16) (spend : List UInt8) :
    decodeReclaimScript (UInt8.ofNat (0x50 + k) :: 0xb2 :: spend) =
      if k = 0 then none else some (.blocks k, spend) := by
  by_cases hzero : k = 0
  · subst hzero
    rfl
  · have hpush : lockScript k spend = UInt8.ofNat (0x50 + k) :: 0xb2 :: spend := by
      rw [lockScript, push_number_of_le (by omega) hk]
      rfl
    rw [← hpush, decode_lockScript (lt_doubleBound (by omega)), if_pos (by omega), if_neg hzero,
      relativeLock_of_lt (by omega)]

/-- **A whole lock time is pushed minimally**, by its opcode or as a number. -/
theorem createReclaimScript_whole (hlaw : reclaim.Lawful library) (hpos : 0 < n)
    (hdouble : n < doubleBound) (spend : List UInt8) :
    createReclaimScript reclaim (.finite n) spend = some (lockScript n spend) := by
  rcases Nat.lt_or_ge 16 n with hlarge | hsmall
  · have hzero : (Number.finite (n : Rat)).isZero = false :=
      decide_eq_false (by exact_mod_cast hpos.ne')
    have hle : (Number.finite (n : Rat)).le 16 = false :=
      decide_eq_false (by exact_mod_cast Nat.not_le_of_lt hlarge)
    have hbig : (Number.finite (n : Rat)).toBigInt = some (n : Int) := Number.toBigInt_intCast n
    have hencode := hlaw.scriptEncode [.data (number n), .checkSequenceVerify] (by
      intro bytes hmem
      simp only [List.mem_cons, ReclaimItem.data.injEq, reduceCtorEq, List.not_mem_nil,
        or_false] at hmem
      subst hmem
      exact ⟨plain_number hlarge, length_number_of_lt hdouble⟩)
    rw [createReclaimScript, hzero, hle, hbig]
    show some (reclaim.scriptEncode [.data (reclaim.scriptNum n), .checkSequenceVerify] ++ spend) =
      some (lockScript n spend)
    rw [hlaw.scriptNum, hencode, lockScript, List.flatMap_cons, List.flatMap_singleton,
      List.append_assoc]
    rfl
  · have hpos' : (0 : Rat) < n := by exact_mod_cast hpos
    have hle : (n : Rat) ≤ 16 := by exact_mod_cast hsmall
    obtain ⟨k, -, hfloor, hceil, hscript⟩ := createReclaimScript_small reclaim hpos' hle spend
    rw [Int.floor_natCast] at hfloor
    rw [Int.ceil_natCast] at hceil
    have hk : k = n := by omega
    rw [hscript, hk, lockScript, push_number_of_le hpos hsmall, List.singleton_append]

theorem createReclaimScript_eq_none_iff {lockTime : Number} :
    createReclaimScript reclaim lockTime spend = none ↔
      lockTime.isZero = false ∧ lockTime.le 16 = false ∧ lockTime.toBigInt = none := by
  unfold createReclaimScript
  cases lockTime.isZero with
  | true => simp
  | false =>
      cases lockTime.le 16 with
      | true => simp
      | false => cases lockTime.toBigInt <;> simp

/-! ### The spending condition -/

/-- The condition that is asked for: a signature of the x-only key, or the
script that was entered. -/
inductive Spends (library : DepositLibrary P) (input : DepositInputs) : List UInt8 → Prop
  | pubkey {key : List UInt8} (hmode : input.reclaimMode = .pubkey)
      (hkey : fromHex library input.btcPubKey = some key) (hlength : key.length = 33) :
      Spends library input (0x75 :: (Script.push (key.drop 1) ++ [0xac]))
  | script {bytes : List UInt8} (hmode : input.reclaimMode = .script)
      (hbytes : fromHex library input.reclaimScriptHex = some bytes) :
      Spends library input bytes

theorem checks_of_valid (h : validateDepositInputs network input = none) :
    input.lockTime.leZero = false ∧
      (input.reclaimMode = .pubkey → checkPubKey input.btcPubKey = none) ∧
      (input.reclaimMode = .script → checkReclaimScript input.reclaimScriptHex = none) := by
  unfold validateDepositInputs at h
  split at h
  · cases h
  · split at h
    · cases h
    · next hpubkey =>
        split at h
        · cases h
        · split at h
          · cases h
          · next hlock =>
              refine ⟨eq_false_of_ne_true hlock, fun hmode => ?_, fun hmode => ?_⟩
              · rw [if_pos hmode] at hpubkey
                exact hpubkey
              · rw [if_pos hmode] at h
                exact h

theorem checkPubKey_eq_none {text : Text} (h : checkPubKey text = none) :
    isHexText (drop0x text) = true ∧ (drop0x text).length = 66 := by
  unfold checkPubKey at h
  simp only at h
  split at h
  · cases h
  · split at h
    · cases h
    · next hhex =>
        split at h
        · cases h
        · next hlength => exact ⟨by simpa using hhex, not_not.mp hlength⟩

theorem checkReclaimScript_eq_none {text : Text} (h : checkReclaimScript text = none) :
    isHexText (drop0x text) = true ∧ (drop0x text).length % 2 = 0 := by
  unfold checkReclaimScript at h
  simp only at h
  split at h
  · cases h
  · split at h
    · cases h
    · next hhex =>
        split at h
        · cases h
        · next heven => exact ⟨by simpa using hhex, not_not.mp heven⟩

theorem spendScript_of_valid (hlaw : reclaim.Lawful library)
    (h : validateDepositInputs network input = none) :
    ∃ spend, spendScript library reclaim input = some spend ∧ Spends library input spend := by
  obtain ⟨-, hpubkey, hscript⟩ := checks_of_valid h
  cases hmode : input.reclaimMode with
  | pubkey =>
      obtain ⟨hhex, hsize⟩ := checkPubKey_eq_none (hpubkey hmode)
      obtain ⟨key, hkey, hlength⟩ := hlaw.hexDecode _ hhex (by rw [hsize])
      rw [hsize] at hlength
      have hdrop : (key.drop 1).length = 32 := by rw [List.length_drop, hlength]
      have hencode := hlaw.scriptEncode [.drop, .data (key.drop 1), .checkSig] (by
        intro bytes hmem
        simp only [List.mem_cons, ReclaimItem.data.injEq, reduceCtorEq, List.not_mem_nil,
          false_or, or_false] at hmem
        subst hmem
        exact ⟨plain_of_two_le (by omega), by omega⟩)
      refine ⟨_, ?_, .pubkey hmode hkey hlength⟩
      have hfrom : fromHex library input.btcPubKey = some key := hkey
      rw [spendScript, hmode, hfrom]
      show some (reclaim.scriptEncode [.drop, .data (toXOnly key), .checkSig]) = _
      rw [toXOnly, if_pos hlength, hencode]
      rfl
  | script =>
      obtain ⟨hhex, heven⟩ := checkReclaimScript_eq_none (hscript hmode)
      obtain ⟨bytes, hbytes, -⟩ := hlaw.hexDecode _ hhex heven
      refine ⟨bytes, ?_, .script hmode hbytes⟩
      rw [spendScript, hmode]
      exact hbytes

theorem Spends.unique (h : Spends library input spend) (h' : Spends library input spend') :
    spend = spend' := by
  cases h with
  | pubkey hmode hkey hlength =>
      cases h' with
      | pubkey hmode' hkey' hlength' =>
          rw [hkey] at hkey'
          cases hkey'
          rfl
      | script hmode' _ => cases hmode.symm.trans hmode'
  | script hmode hbytes =>
      cases h' with
      | pubkey hmode' _ _ => cases hmode.symm.trans hmode'
      | script hmode' hbytes' => exact Option.some.inj (hbytes.symm.trans hbytes')

/-! ### The whole script -/

theorem generateReclaimScript_eq (hlaw : reclaim.Lawful library)
    (h : validateDepositInputs network input = none) (hspend : Spends library input spend) :
    generateReclaimScript library reclaim input =
      createReclaimScript reclaim input.lockTime spend := by
  obtain ⟨spend', hscript, hspend'⟩ := spendScript_of_valid hlaw h
  rw [generateReclaimScript, hscript, hspend.unique hspend']
  rfl

theorem lockTime_pos (h : validateDepositInputs network input = none)
    (hlock : input.lockTime = .finite value) : 0 < value := by
  have hpos := (checks_of_valid h).1
  rw [hlock] at hpos
  exact not_le.mp (of_decide_eq_false hpos)

/-- The script of a whole lock time. -/
theorem generate_whole (hlaw : reclaim.Lawful library)
    (h : validateDepositInputs network input = none) (hdouble : input.Double)
    (hspend : Spends library input spend) (hlock : input.lockTime = .finite n) :
    generateReclaimScript library reclaim input = some (lockScript n spend) ∧
      n < doubleBound := by
  have hpos : 0 < n := by exact_mod_cast lockTime_pos h hlock
  have hlt : n < doubleBound := by exact_mod_cast hdouble _ hlock
  rw [generateReclaimScript_eq hlaw h hspend, hlock]
  exact ⟨createReclaimScript_whole hlaw hpos hlt spend, hlt⟩

/-- The script of any other lock time. -/
theorem generate_fraction (hlaw : reclaim.Lawful library)
    (h : validateDepositInputs network input = none) (hspend : Spends library input spend)
    (hlock : input.lockTime = .finite value) (hfraction : value.den ≠ 1)
    (hscript : generateReclaimScript library reclaim input = some script) :
    value < 1 ∧ decodeReclaimScript script = none ∨
      ∃ k : Nat, |value - k| < 1 ∧ decodeReclaimScript script = some (.blocks k, spend) := by
  have hpos := lockTime_pos h hlock
  rw [generateReclaimScript_eq hlaw h hspend, hlock] at hscript
  rcases le_or_gt value 16 with hle | hgt
  · obtain ⟨k, hk, hfloor, hceil, hcreate⟩ := createReclaimScript_small reclaim hpos hle spend
    rw [hcreate] at hscript
    cases hscript
    rw [decode_opcode hk]
    have hbelow := Int.lt_floor_add_one value
    have habove := Int.ceil_lt_add_one value
    have hfloor' : ((⌊value⌋ : Int) : Rat) ≤ k := by exact_mod_cast hfloor
    have hceil' : (k : Rat) ≤ ((⌈value⌉ : Int) : Rat) := by exact_mod_cast hceil
    by_cases hzero : k = 0
    · subst hzero
      refine .inl ⟨?_, rfl⟩
      push_cast at hfloor'
      linarith
    · refine .inr ⟨k, ?_, if_neg hzero⟩
      rw [abs_lt]
      constructor
      · linarith
      · linarith
  · -- beyond 16 a fraction is no bigint
    have hnone : createReclaimScript reclaim (.finite value) spend = none :=
      createReclaimScript_eq_none_iff.mpr
        ⟨decide_eq_false hpos.ne', decide_eq_false (by exact_mod_cast not_le.mpr hgt),
          if_neg hfraction⟩
    rw [hnone] at hscript
    cases hscript

/-- **When a reclaim script locks for what was entered**: valid inputs make a
script unless the lock time is neither whole nor at most 16. It locks the
condition that is asked for, for as many blocks as were entered, exactly if the
lock time is whole and below 2¹⁶. Larger ones are read by their bits, and from
2³⁹ on not at all; fractions are off by less than a block, or not read. Whole
lock times and conditions are told apart by their scripts. -/
theorem reclaimScript_locks_iff (hlaw : reclaim.Lawful library)
    (h : validateDepositInputs network input = none) (hdouble : input.Double) :
    ∃ spend, Spends library input spend ∧
      (generateReclaimScript library reclaim input = none ↔
        input.lockTime.le 16 = false ∧ input.lockTime.toBigInt = none) ∧
      (∀ script, generateReclaimScript library reclaim input = some script →
        ((∃ n : Nat, input.lockTime = .finite n ∧
            decodeReclaimScript script = some (.blocks n, spend)) ↔
          ∃ n : Nat, input.lockTime = .finite n ∧ n < 2 ^ 16) ∧
        (∀ n : Nat, input.lockTime = .finite n → decodeReclaimScript script =
          if n < 2 ^ 39 then some (relativeLock n, spend) else none) ∧
        ∀ value, input.lockTime = .finite value → value.den ≠ 1 →
          value < 1 ∧ decodeReclaimScript script = none ∨
            ∃ k : Nat, |value - k| < 1 ∧
              decodeReclaimScript script = some (.blocks k, spend)) ∧
      ∀ input' spend' (n n' : Nat), validateDepositInputs network input' = none →
        input'.Double → Spends library input' spend' → input.lockTime = .finite n →
        input'.lockTime = .finite n' →
        (generateReclaimScript library reclaim input' =
            generateReclaimScript library reclaim input ↔ n' = n ∧ spend' = spend) := by
  obtain ⟨spend, -, hspend⟩ := spendScript_of_valid hlaw h
  have hwhole : ∀ (n : Nat) (script : List UInt8), input.lockTime = .finite n →
      generateReclaimScript library reclaim input = some script →
      decodeReclaimScript script = if n < 2 ^ 39 then some (relativeLock n, spend) else none := by
    intro n script hlock hscript
    obtain ⟨hgenerate, hlt⟩ := generate_whole hlaw h hdouble hspend hlock
    rw [hgenerate] at hscript
    cases hscript
    exact decode_lockScript hlt spend
  refine ⟨spend, hspend, ?_, fun script hscript => ⟨?_, ?_, ?_⟩, ?_⟩
  · rw [generateReclaimScript_eq hlaw h hspend, createReclaimScript_eq_none_iff]
    constructor
    · intro hnone
      exact hnone.2
    · intro hnone
      refine ⟨?_, hnone⟩
      cases hlock : input.lockTime with
      | finite value => exact decide_eq_false (lockTime_pos h hlock).ne'
      | infinite _ => rfl
      | nan => rfl
  · constructor
    · intro hlocks
      obtain ⟨n, hlock, hdecode⟩ := hlocks
      refine ⟨n, hlock, ?_⟩
      rw [hwhole n script hlock hscript] at hdecode
      split at hdecode
      · exact relativeLock_eq_blocks_iff.mp (Prod.mk.inj (Option.some.inj hdecode)).1
      · cases hdecode
    · intro hfits
      obtain ⟨n, hlock, hlt⟩ := hfits
      refine ⟨n, hlock, ?_⟩
      rw [hwhole n script hlock hscript, if_pos (by omega), relativeLock_of_lt hlt]
  · intro n hlock
    exact hwhole n script hlock hscript
  · intro value hlock hfraction
    exact generate_fraction hlaw h hspend hlock hfraction hscript
  · intro input' spend' n n' h' hdouble' hspend' hlock hlock'
    obtain ⟨hgenerate, hlt⟩ := generate_whole hlaw h hdouble hspend hlock
    obtain ⟨hgenerate', hlt'⟩ := generate_whole hlaw h' hdouble' hspend' hlock'
    rw [hgenerate, hgenerate', Option.some.injEq]
    constructor
    · intro heq
      exact lockScript_inj hlt' hlt heq
    · intro heq
      rw [heq.1, heq.2]

end

namespace Sample

def reclaimLibrary : ReclaimLibrary where
  scriptNum n := number n.toNat
  scriptEncode items := items.flatMap ReclaimItem.bytes

theorem hexDecode_of_hex (text : Text) (hhex : isHexText text = true)
    (heven : text.length % 2 = 0) :
    ∃ bytes, hexDecode text = some bytes ∧ bytes.length = text.length / 2 := by
  match text with
  | [] => exact ⟨[], rfl, rfl⟩
  | [_] => cases heven
  | high :: low :: rest =>
      simp only [isHexText, List.all_cons, Bool.and_eq_true] at hhex
      obtain ⟨hhigh, hlow, hrest⟩ := hhex
      obtain ⟨high', hhigh'⟩ := Option.isSome_iff_exists.mp hhigh
      obtain ⟨low', hlow'⟩ := Option.isSome_iff_exists.mp hlow
      simp only [List.length_cons] at heven ⊢
      obtain ⟨bytes, hbytes, hlength⟩ := hexDecode_of_hex rest hrest (by omega)
      refine ⟨UInt8.ofNat (16 * high' + low') :: bytes, ?_, ?_⟩
      · simp only [hexDecode, hhigh', hlow', hbytes, Option.bind_eq_bind, Option.bind_some]
      · rw [List.length_cons, hlength]
        omega

theorem reclaim_lawful : reclaimLibrary.Lawful depositLibrary where
  hexDecode := hexDecode_of_hex
  scriptNum _ := rfl
  scriptEncode _ _ := rfl

theorem depositInputs_double (maxFee : Int) : (depositInputs maxFee).Double := by
  intro value hvalue
  cases hvalue
  exact_mod_cast lt_doubleBound (show 100 < 2 ^ 64 by decide)

end Sample

/-- A lock time of a hundred blocks is read from the script. -/
theorem reclaimScript_locks_hundred : ∃ script spend,
    generateReclaimScript Sample.depositLibrary Sample.reclaimLibrary
        (Sample.depositInputs 5000) = some script ∧
      decodeReclaimScript script = some (.blocks 100, spend) := by
  obtain ⟨spend, -, hnone, hread, -⟩ := reclaimScript_locks_iff Sample.reclaim_lawful
    (Sample.accepted 5000 (by decide)).valid (Sample.depositInputs_double 5000)
  have hlock : (Sample.depositInputs 5000).lockTime = .finite (100 : Nat) := rfl
  cases hscript : generateReclaimScript Sample.depositLibrary Sample.reclaimLibrary
      (Sample.depositInputs 5000) with
  | none =>
      have hbig : (Number.finite (100 : Nat)).toBigInt = some 100 := Number.toBigInt_intCast 100
      rw [hlock, hbig] at hnone
      cases (hnone.mp hscript).2
  | some script =>
      refine ⟨script, spend, rfl, ?_⟩
      rw [(hread script hscript).2.1 100 hlock, if_pos (by decide), relativeLock_of_lt (by decide)]

end Spox.Webapp
