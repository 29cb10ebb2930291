import Spox.Lib.Hex
import Spox.Lib.Script
import Spox.Webapp.Js

/-!
# Webapp — deposit scripts

`createDepositScript` of `bitcoin.ts` and `validateDepositInputs` of
`deposit.ts`. The fee goes from a number through a bigint into eight bytes;
`setBigUint64` keeps the lowest 64 bits, and the validator asks for a positive
fee only. So a script says what was entered exactly if the fee is below 2⁶⁴.
-/

namespace Spox.Webapp

open Spox.Lib Spox.Lib.Script

/-! ## Libraries -/

/-- An item of a script. -/
inductive ScriptItem where
  | data (bytes : List UInt8)
  | drop
  | checkSig

/-- What `Cl.serialize` returns: hex text or bytes, by the version of the
library. -/
inductive Serialized where
  | hex (text : Text)
  | bytes (bytes : List UInt8)

/-- What is used of the libraries: `hex.decode`, `Cl.principal`, `Cl.serialize`
and `Script.encode`, for principals `P`; `none` is an error that is thrown. -/
structure DepositLibrary (P : Type) where
  hexDecode : Text → Option (List UInt8)
  principal : Text → Option P
  serialize : P → Serialized
  scriptEncode : List ScriptItem → List UInt8

/-! ## Creating a script -/

/-- `.replace(/^0x/, "")`. -/
def drop0x (text : Text) : Text :=
  match text with
  | '0' :: 'x' :: rest => rest
  | text => text

/-- `toXOnly`. -/
def toXOnly (pubkey : List UInt8) : List UInt8 :=
  if pubkey.length = 33 then pubkey.drop 1 else pubkey

/-- `setBigUint64`, big-endian: the lowest 64 bits. -/
def setBigUint64 (value : Int) : List UInt8 := bigEndian 8 (value % 2 ^ 64).toNat

section

variable {P : Type} (library : DepositLibrary P)

/-- `fromHex`. -/
def fromHex (text : Text) : Option (List UInt8) := library.hexDecode (drop0x text)

/-- The bytes of a serialized principal. -/
def recipientBytes (recipient : P) : Option (List UInt8) :=
  match library.serialize recipient with
  | .hex text => fromHex library text
  | .bytes bytes => some bytes

/-- `createDepositScript`. -/
def createDepositScript (signersPubKey : List UInt8) (maxFee : Number)
    (recipientAddress : Text) : Option (List UInt8) := do
  let recipient ← library.principal recipientAddress
  let recipientBytes ← recipientBytes library recipient
  let fee ← maxFee.toBigInt
  let opDropData := setBigUint64 fee ++ recipientBytes
  let xOnlyKey := toXOnly signersPubKey
  some (library.scriptEncode [.data opDropData, .drop, .data xOnlyKey, .checkSig])

end

/-! ## Validating the inputs -/

/-- `ReclaimMode`. -/
inductive ReclaimMode where
  | pubkey
  | script
deriving DecidableEq

/-- `DepositInputs`. -/
structure DepositInputs where
  stxAddress : Text
  reclaimMode : ReclaimMode
  btcPubKey : Text
  reclaimScriptHex : Text
  maxFee : Number
  lockTime : Number

/-- `/^[0-9a-fA-F]+$/` of a nonempty text. -/
def isHexText (text : Text) : Bool := text.all fun c => (hexValue c).isSome

/-- Half a length, as a number is written. -/
def halfText (length : Nat) : Text :=
  Nat.toDigits 10 (length / 2) ++ if length % 2 = 0 then [] else ['.', '5']

/-- The checks of the public key. -/
def checkPubKey (btcPubKey : Text) : Option Text :=
  let cleaned := drop0x btcPubKey
  if cleaned.isEmpty then some "Bitcoin public key is required.".toList
  else if !isHexText cleaned then some "Public key must be valid hex.".toList
  else if cleaned.length ≠ 66 then
    some ("Public key must be 33 bytes (66 hex characters). Got ".toList ++
      halfText cleaned.length ++ " bytes.".toList)
  else if cleaned[0]? ≠ some '0' ∨ cleaned[1]? ≠ some '2' ∧ cleaned[1]? ≠ some '3' then
    some "Public key must be a compressed key starting with 02 or 03.".toList
  else none

/-- The checks of the reclaim script. -/
def checkReclaimScript (reclaimScriptHex : Text) : Option Text :=
  let cleaned := drop0x reclaimScriptHex
  if cleaned.isEmpty then some "Reclaim script hex is required.".toList
  else if !isHexText cleaned then some "Reclaim script must be valid hex.".toList
  else if cleaned.length % 2 ≠ 0 then
    some "Reclaim script must have an even number of hex characters.".toList
  else none

/-- The checks of the recipient address. -/
def checkAddress (network stxAddress : Text) : Option Text :=
  let stxPrincipal := (stxAddress.splitOn '.').headD []
  let validPrefixes :=
    if network = "mainnet".toList then ["SP".toList, "SM".toList]
    else ["ST".toList, "SN".toList]
  if stxAddress.isEmpty then some "Stacks recipient address is required.".toList
  else if !validPrefixes.any fun p => p.isPrefixOf stxPrincipal then
    some ("Stacks address must start with ".toList ++ " or ".toList.intercalate validPrefixes ++
      " for ".toList ++ network ++ ['.'])
  else none

/-- `validateDepositInputs`: an error message, or nothing if the inputs are
valid. -/
def validateDepositInputs (network : Text) (input : DepositInputs) : Option Text :=
  match checkAddress network input.stxAddress with
  | some message => some message
  | none =>
      match if input.reclaimMode = .pubkey then checkPubKey input.btcPubKey else none with
      | some message => some message
      | none =>
          if input.maxFee.leZero then some "Max fee must be greater than 0.".toList
          else if input.lockTime.leZero then some "Lock time must be greater than 0.".toList
          else if input.reclaimMode = .script then checkReclaimScript input.reclaimScriptHex
          else none

/-- The deposit script of `generateDeposit`, from the aggregate key it
fetches. -/
def generateDepositScript {P : Type} (library : DepositLibrary P) (aggregateKey : List UInt8)
    (input : DepositInputs) : Option (List UInt8) :=
  createDepositScript library aggregateKey input.maxFee input.stxAddress

/-! ## Reading a script -/

/-- The bytes of an item: data is pushed minimally. -/
def ScriptItem.bytes : ScriptItem → List UInt8
  | .data bytes => Script.push bytes
  | .drop => [0x75]
  | .checkSig => [0xac]

/-- Take an opcode off a script. -/
def readOp (op : UInt8) : List UInt8 → Option (List UInt8)
  | [] => none
  | byte :: script => if byte = op then some script else none

/-- Read a script by the layout of sBTC: a push of eight bytes of fee and the
recipient, `OP_DROP`, a push of the x-only key and `OP_CHECKSIG`. -/
def decodeDepositScript (script : List UInt8) : Option (Nat × List UInt8 × List UInt8) := do
  let (data, script) ← readPush script
  let script ← readOp 0x75 script
  let (key, script) ← readPush script
  let script ← readOp 0xac script
  if 8 ≤ data.length ∧ key.length = 32 ∧ script = [] then
    some (ofBigEndian (data.take 8), data.drop 8, key)
  else none

section

variable {P : Type} {library : DepositLibrary P} {consensus : P → List UInt8}

/-- What the libraries are relied on for: a principal is serialized to its
consensus bytes, which tell it from others and are 151 at most (23 and the name
of a contract), and scripts have minimal pushes, of two bytes or more. -/
structure DepositLibrary.Lawful (library : DepositLibrary P) (consensus : P → List UInt8) :
    Prop where
  serialize : ∀ p, recipientBytes library p = some (consensus p)
  injective : ∀ p p', consensus p = consensus p' → p = p'
  short : ∀ p, (consensus p).length ≤ 151
  minimal : ∀ items, (∀ bytes, .data bytes ∈ items → 2 ≤ bytes.length) →
    library.scriptEncode items = items.flatMap ScriptItem.bytes

/-- A script is read as a fee, a recipient and a key. -/
def Decodes (consensus : P → List UInt8) (script : List UInt8) (fee : Int) (recipient : P)
    (key : List UInt8) : Prop :=
  ∃ n : Nat, decodeDepositScript script = some (n, consensus recipient, key) ∧ (n : Int) = fee

/-- Inputs the form goes on with: valid, with an integer fee, a recipient that
is a principal and an aggregate key that is compressed or x-only. -/
structure Accepted (library : DepositLibrary P) (network : Text) (input : DepositInputs)
    (aggregateKey : List UInt8) (maxFee : Int) (recipient : P) : Prop where
  valid : validateDepositInputs network input = none
  maxFee : input.maxFee = .finite maxFee
  recipient : library.principal input.stxAddress = some recipient
  aggregateKey : aggregateKey.length = 33 ∨ aggregateKey.length = 32

variable {network : Text} {input input' : DepositInputs}
  {key key' script recipientData : List UInt8} {maxFee maxFee' : Int} {recipient recipient' : P}
  {n : Nat}

theorem maxFee_of_valid (h : validateDepositInputs network input = none) :
    input.maxFee.leZero = false := by
  unfold validateDepositInputs at h
  by_contra hle
  rw [Bool.not_eq_false] at hle
  rw [hle, if_pos rfl] at h
  split at h
  · cases h
  · split at h
    · cases h
    · cases h

theorem Accepted.pos (h : Accepted library network input key maxFee recipient) : 0 < maxFee := by
  have hpos := maxFee_of_valid h.valid
  rw [h.maxFee, Number.leZero_intCast, decide_eq_false_iff_not] at hpos
  omega

theorem length_toXOnly (h : key.length = 33 ∨ key.length = 32) : (toXOnly key).length = 32 := by
  unfold toXOnly
  split
  · next hlong => rw [List.length_drop, hlong]
  · next hshort => exact h.resolve_left hshort

/-- **A script of the layout is read back**, with the fee modulo 2⁶⁴. -/
theorem decodeDepositScript_layout (hshort : recipientData.length ≤ 151)
    (hkey : key.length = 32) :
    decodeDepositScript ([ScriptItem.data (bigEndian 8 n ++ recipientData), .drop, .data key,
      .checkSig].flatMap ScriptItem.bytes) = some (n % 256 ^ 8, recipientData, key) := by
  have hfee := length_bigEndian 8 n
  have hlength : (bigEndian 8 n ++ recipientData).length = 8 + recipientData.length := by
    rw [List.length_append, hfee]
  have hdata := readPush_push (show (bigEndian 8 n ++ recipientData).length < 256 ^ 4 by omega)
    ([0x75] ++ (Script.push key ++ [0xac]))
  have hpush := readPush_push (show key.length < 256 ^ 4 by omega) [0xac]
  have hscript : [ScriptItem.data (bigEndian 8 n ++ recipientData), .drop, .data key,
      .checkSig].flatMap ScriptItem.bytes =
      Script.push (bigEndian 8 n ++ recipientData) ++ ([0x75] ++ (Script.push key ++ [0xac])) := rfl
  have hkeep : 8 ≤ (bigEndian 8 n ++ recipientData).length ∧ key.length = 32 ∧ True :=
    ⟨by omega, hkey, trivial⟩
  have hdrop : readOp 0x75 ([0x75] ++ (Script.push key ++ [0xac])) =
      some (Script.push key ++ [0xac]) := rfl
  have hcheckSig : readOp 0xac [0xac] = some [] := rfl
  simp only [hscript, decodeDepositScript, hdata, hdrop, hpush, hcheckSig, Option.bind_eq_bind,
    Option.bind_some]
  rw [if_pos hkeep, List.take_left' hfee, List.drop_left' hfee, ofBigEndian_bigEndian]

/-- The script of accepted inputs. -/
theorem Accepted.generated (hlaw : library.Lawful consensus)
    (h : Accepted library network input key maxFee recipient) :
    generateDepositScript library key input =
      some ([ScriptItem.data (setBigUint64 maxFee ++ consensus recipient), .drop,
        .data (toXOnly key), .checkSig].flatMap ScriptItem.bytes) := by
  have hfee : (setBigUint64 maxFee).length = 8 := length_bigEndian 8 _
  have hkey := length_toXOnly h.aggregateKey
  have hlong : ∀ bytes, ScriptItem.data bytes ∈ [ScriptItem.data (setBigUint64 maxFee ++
      consensus recipient), .drop, .data (toXOnly key), .checkSig] → 2 ≤ bytes.length := by
    intro bytes hmem
    simp only [List.mem_cons, ScriptItem.data.injEq, reduceCtorEq, List.not_mem_nil, false_or,
      or_false] at hmem
    rcases hmem with rfl | rfl
    · rw [List.length_append]
      omega
    · omega
  simp only [generateDepositScript, createDepositScript, h.recipient, hlaw.serialize, h.maxFee,
    Number.toBigInt_intCast, hlaw.minimal _ hlong, Option.bind_eq_bind, Option.bind_some]

/-- It is read as the lowest 64 bits of the fee, the recipient and the key. -/
theorem Accepted.decode (hlaw : library.Lawful consensus)
    (h : Accepted library network input key maxFee recipient)
    (hscript : generateDepositScript library key input = some script) :
    decodeDepositScript script =
      some ((maxFee % 2 ^ 64).toNat, consensus recipient, toXOnly key) := by
  rw [h.generated hlaw] at hscript
  cases hscript
  have hlt : (maxFee % 2 ^ 64).toNat < 256 ^ 8 := by omega
  rw [setBigUint64, decodeDepositScript_layout (hlaw.short recipient)
    (length_toXOnly h.aggregateKey), Nat.mod_eq_of_lt hlt]

theorem Accepted.decodes_iff (hlaw : library.Lawful consensus)
    (h : Accepted library network input key maxFee recipient)
    (hscript : generateDepositScript library key input = some script) {fee : Int} {p : P}
    {k : List UInt8} : Decodes consensus script fee p k ↔
      maxFee % 2 ^ 64 = fee ∧ p = recipient ∧ k = toXOnly key := by
  have hnonneg : 0 ≤ maxFee % 2 ^ 64 := Int.emod_nonneg _ (by decide)
  rw [Decodes, h.decode hlaw hscript]
  constructor
  · intro hdecodes
    obtain ⟨n, heq, rfl⟩ := hdecodes
    rw [Option.some.injEq, Prod.mk.injEq, Prod.mk.injEq] at heq
    obtain ⟨hfee, hrecipient, hkey⟩ := heq
    exact ⟨by omega, hlaw.injective _ _ hrecipient.symm, hkey.symm⟩
  · intro heq
    obtain ⟨rfl, rfl, rfl⟩ := heq
    exact ⟨_, rfl, Int.toNat_of_nonneg hnonneg⟩

/-- So it is read as what was entered exactly if the fee fits. -/
theorem Accepted.decodes_iff_fits (hlaw : library.Lawful consensus)
    (h : Accepted library network input key maxFee recipient)
    (hscript : generateDepositScript library key input = some script) :
    (∀ fee p k, Decodes consensus script fee p k ↔
      fee = maxFee ∧ p = recipient ∧ k = toXOnly key) ↔ maxFee < 2 ^ 64 := by
  have hpos := h.pos
  constructor
  · intro hread
    have hfee := (h.decodes_iff hlaw hscript).mp
      ((hread maxFee recipient (toXOnly key)).mpr ⟨rfl, rfl, rfl⟩)
    have hlt := Int.emod_lt_of_pos maxFee (show (0 : Int) < 2 ^ 64 by decide)
    omega
  · intro hfit fee p k
    rw [h.decodes_iff hlaw hscript, Int.emod_eq_of_lt (by omega) hfit]
    exact and_congr_left fun _ => eq_comm

/-- Another input makes the same script exactly if its fee differs by a multiple
of 2⁶⁴ and the rest is the same. -/
theorem Accepted.script_eq_iff (hlaw : library.Lawful consensus)
    (h : Accepted library network input key maxFee recipient)
    (h' : Accepted library network input' key' maxFee' recipient')
    (hscript : generateDepositScript library key input = some script) :
    generateDepositScript library key' input' = some script ↔
      maxFee' % 2 ^ 64 = maxFee % 2 ^ 64 ∧ recipient' = recipient ∧ toXOnly key' = toXOnly key := by
  constructor
  · intro hsame
    obtain ⟨hfee, hrecipient, hkey⟩ := (h.decodes_iff hlaw hscript).mp
      ((h'.decodes_iff hlaw hsame).mpr ⟨rfl, rfl, rfl⟩)
    exact ⟨hfee.symm, hrecipient, hkey⟩
  · intro heq
    obtain ⟨hfee, hrecipient, hkey⟩ := heq
    rw [← hscript, h'.generated hlaw, h.generated hlaw, setBigUint64, hfee, hrecipient, hkey]
    rfl

/-- **When a deposit script says what was entered**: accepted inputs make a
script, and it is read as the fee, the recipient and the x-only key exactly if
the fee is below 2⁶⁴. Other inputs make the same script exactly if their fee
differs by a multiple of 2⁶⁴ only, so different ones with fees below 2⁶⁴ never
do. -/
theorem depositScript_decodes_iff (hlaw : library.Lawful consensus)
    (h : Accepted library network input key maxFee recipient) :
    ∃ script, generateDepositScript library key input = some script ∧
      ((∀ fee p k, Decodes consensus script fee p k ↔
          fee = maxFee ∧ p = recipient ∧ k = toXOnly key) ↔ maxFee < 2 ^ 64) ∧
      ∀ input' key' maxFee' recipient',
        Accepted library network input' key' maxFee' recipient' →
        (generateDepositScript library key' input' = some script ↔
          maxFee' % 2 ^ 64 = maxFee % 2 ^ 64 ∧ recipient' = recipient ∧
            toXOnly key' = toXOnly key) ∧
        (maxFee < 2 ^ 64 → maxFee' < 2 ^ 64 →
          generateDepositScript library key' input' = some script →
          maxFee' = maxFee ∧ recipient' = recipient ∧ toXOnly key' = toXOnly key) := by
  have hpos := h.pos
  have hscript := h.generated hlaw
  refine ⟨_, hscript, h.decodes_iff_fits hlaw hscript, fun input' key' maxFee' recipient' h' => ?_⟩
  have hiff := h.script_eq_iff hlaw h' hscript
  constructor
  · exact hiff
  · intro hfit hfit' hsame
    have hpos' := h'.pos
    obtain ⟨hfee, hrest⟩ := hiff.mp hsame
    rw [Int.emod_eq_of_lt (by omega) hfit, Int.emod_eq_of_lt (by omega) hfit'] at hfee
    exact ⟨hfee, hrest⟩

end

namespace Sample

/-- A principal: a version and a hash, and the name of a contract. -/
structure Recipient where
  version : UInt8
  hash : List UInt8
  length_hash : hash.length = 20
  name : Option {name : List UInt8 // name.length ≤ 128}

/-- Consensus serialization of principals. -/
def consensus (recipient : Recipient) : List UInt8 :=
  match recipient.name with
  | none => 0x05 :: recipient.version :: recipient.hash
  | some name => 0x06 :: recipient.version :: (recipient.hash ++
      UInt8.ofNat name.1.length :: name.1)

/-- `hex.decode`. -/
def hexDecode : Text → Option (List UInt8)
  | [] => some []
  | [_] => none
  | high :: low :: rest => do
      let high ← hexValue high
      let low ← hexValue low
      let bytes ← hexDecode rest
      some (UInt8.ofNat (16 * high + low) :: bytes)

def hexText (bytes : List UInt8) : Text := bytes.flatMap fun byte => hexDigits 2 byte.toNat

def hash : List UInt8 :=
  [0x9f, 0x7e, 0x4a, 0x8f, 0x4b, 0x21, 0x6e, 0x0c, 0x9f, 0xe4,
    0xd0, 0xf7, 0x5a, 0xb3, 0x01, 0xc5, 0x57, 0x6c, 0x3b, 0x9e]

def recipient : Recipient := ⟨26, hash, rfl, none⟩

def address : Text := "ST2FQWJMF9CGPW34ZWK8FEPNK072NEV1VKRNBBMJ9".toList

/-- `Cl.principal`, at one address. -/
def principal (text : Text) : Option Recipient := if text = address then some recipient else none

def depositLibrary : DepositLibrary Recipient where
  hexDecode := hexDecode
  principal := principal
  serialize recipient := .hex (hexText (consensus recipient))
  scriptEncode items := items.flatMap ScriptItem.bytes

def aggregateKey : List UInt8 :=
  [0x37, 0x13, 0x3b, 0xde, 0x8a, 0x28, 0xc0, 0xc8, 0x9e, 0x0c, 0xa0, 0xfd, 0x84, 0x4b, 0x38, 0xa7,
    0x66, 0x80, 0x10, 0xa9, 0xda, 0x05, 0x67, 0xeb, 0x94, 0x24, 0x0e, 0x4b, 0x5f, 0x2c, 0xde, 0x87]

def depositInputs (maxFee : Int) : DepositInputs :=
  ⟨address, .script, [], "7551".toList, .finite maxFee, .finite 100⟩

theorem hexDecode_hexText (bytes : List UInt8) : hexDecode (hexText bytes) = some bytes := by
  induction bytes with
  | nil => rfl
  | cons byte bytes ih =>
      have hbyte := byte.toNat_lt
      have hhigh := hexValue_hexDigit (show byte.toNat / 16 % 16 < 16 by omega)
      have hlow := hexValue_hexDigit (show byte.toNat % 16 < 16 by omega)
      show hexDecode (hexDigit (byte.toNat / 16 % 16) :: hexDigit (byte.toNat % 16) ::
        hexText bytes) = _
      simp only [hexDecode, hhigh, hlow, ih, Option.bind_eq_bind, Option.bind_some]
      rw [show 16 * (byte.toNat / 16 % 16) + byte.toNat % 16 = byte.toNat by omega,
        UInt8.ofNat_toNat]

theorem consensus_injective (p p' : Recipient) (h : consensus p = consensus p') : p = p' := by
  obtain ⟨version, hash, hlength, name⟩ := p
  obtain ⟨version', hash', hlength', name'⟩ := p'
  cases name with
  | none =>
      cases name' with
      | none =>
          cases h
          rfl
      | some name' => cases h
  | some name =>
      cases name' with
      | none => cases h
      | some name' =>
          simp only [consensus, List.cons.injEq, true_and] at h
          obtain ⟨rfl, hrest⟩ := h
          obtain ⟨rfl, hname⟩ := List.append_inj hrest (hlength.trans hlength'.symm)
          obtain ⟨-, hname⟩ := List.cons.inj hname
          rw [Subtype.ext hname]

theorem lawful : depositLibrary.Lawful consensus where
  serialize p := by
    have hdrop : drop0x (hexText (consensus p)) = hexText (consensus p) := by
      obtain ⟨version, hash, hlength, name⟩ := p
      cases name <;> rfl
    show hexDecode (drop0x (hexText (consensus p))) = _
    rw [hdrop, hexDecode_hexText]
  injective := consensus_injective
  short p := by
    obtain ⟨version, hash, hlength, name⟩ := p
    cases name with
    | none =>
        show hash.length + 1 + 1 ≤ 151
        omega
    | some name =>
        have hname := name.2
        simp only [consensus, List.length_cons, List.length_append]
        omega
  minimal _ _ := rfl

theorem principal_address : principal address = some recipient := if_pos rfl

theorem checkAddress_address : checkAddress "devnet".toList address = none := by decide +kernel

theorem checkReclaimScript_true : checkReclaimScript "7551".toList = none := by decide +kernel

theorem accepted (maxFee : Int) (h : 0 < maxFee) :
    Accepted depositLibrary "devnet".toList (depositInputs maxFee) aggregateKey maxFee
      recipient where
  valid := by
    have hfee : (Number.finite maxFee).leZero = false := by
      rw [Number.leZero_intCast, decide_eq_false_iff_not]
      omega
    have hlock : (Number.finite 100).leZero = false := Number.leZero_intCast 100
    simp only [validateDepositInputs, depositInputs, checkAddress_address, hfee, hlock,
      reduceCtorEq, Bool.false_eq_true, if_true, if_false, checkReclaimScript_true]
  maxFee := rfl
  recipient := principal_address
  aggregateKey := .inr rfl

end Sample

/-- The script of the known address has the fee that was entered. -/
theorem depositScript_decodes_five_thousand : ∃ script,
    generateDepositScript Sample.depositLibrary Sample.aggregateKey (Sample.depositInputs 5000) =
      some script ∧
    ∀ fee p k, Decodes Sample.consensus script fee p k ↔
      fee = 5000 ∧ p = Sample.recipient ∧ k = toXOnly Sample.aggregateKey := by
  obtain ⟨script, hscript, hread, -⟩ :=
    depositScript_decodes_iff Sample.lawful (Sample.accepted 5000 (by decide))
  exact ⟨script, hscript, hread.mpr (by decide)⟩

/-- A fee of 2⁶⁴ is accepted and becomes a fee of nothing, and a fee of 2⁶⁴ more
than another makes the same script as the other. -/
theorem depositScript_wraps :
    (validateDepositInputs "devnet".toList (Sample.depositInputs (2 ^ 64)) = none ∧
      ∃ script, generateDepositScript Sample.depositLibrary Sample.aggregateKey
          (Sample.depositInputs (2 ^ 64)) = some script ∧
        Decodes Sample.consensus script 0 Sample.recipient Sample.aggregateKey ∧
        ¬Decodes Sample.consensus script (2 ^ 64) Sample.recipient Sample.aggregateKey) ∧
    validateDepositInputs "devnet".toList (Sample.depositInputs 4096) = none ∧
    validateDepositInputs "devnet".toList (Sample.depositInputs (2 ^ 64 + 4096)) = none ∧
    generateDepositScript Sample.depositLibrary Sample.aggregateKey
        (Sample.depositInputs (2 ^ 64 + 4096)) =
      generateDepositScript Sample.depositLibrary Sample.aggregateKey
        (Sample.depositInputs 4096) := by
  have hwrap := Sample.accepted (2 ^ 64) (by decide)
  have hsmall := Sample.accepted 4096 (by decide)
  have hlarge := Sample.accepted (2 ^ 64 + 4096) (by decide)
  have hscript := hwrap.generated Sample.lawful
  refine ⟨⟨hwrap.valid, _, hscript, ?_, ?_⟩, hsmall.valid, hlarge.valid, ?_⟩
  · exact (hwrap.decodes_iff Sample.lawful hscript).mpr ⟨rfl, rfl, rfl⟩
  · intro hread
    exact absurd ((hwrap.decodes_iff Sample.lawful hscript).mp hread).1 (by decide)
  · rw [hlarge.generated Sample.lawful, hsmall.generated Sample.lawful]
    rfl

end Spox.Webapp
