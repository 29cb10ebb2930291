import Spox.Webapp.ReclaimScript

/-!
# Webapp — disassembly of scripts

`disassembleScript` of `bitcoin.ts`. The items come from a library and the bytes
from the script: what is returned spells the script whatever the library took it
for, and what the page generates has the tokens of its layout.
-/

namespace Spox.Webapp

open Spox.Lib Spox.Lib.Script

/-! ## Disassembly -/

/-- An item of the library's `Script.decode`. -/
inductive DecodedItem where
  | bytes (bytes : List UInt8)
  | name (name : Text)
  | number (n : Nat)

/-- What is used of the libraries: `Script.decode`, where `none` is an error,
and `hex.encode`. -/
structure ViewLibrary where
  decode : List UInt8 → Option (List DecodedItem)
  hexEncode : List UInt8 → Text

/-- `ScriptToken`. -/
structure ScriptToken where
  opName : Text
  opBytes : List UInt8
  data : Option (List UInt8)

/-- What is thrown: an error of `Script.decode`, one with a message, or the
runtime's own for a byte past the end. -/
inductive DisassemblyError where
  | decode
  | error (message : Text)
  | runtime

/-- `slice`. -/
def slice (bytes : List UInt8) (start stop : Nat) : List UInt8 :=
  (bytes.drop start).take (stop - start)

/-- `byte.toString(16).padStart(2, "0")`. -/
def byteText (byte : UInt8) : Text := hexDigits 2 byte.toNat

/-- `readPushPrefix`. -/
def readPushPrefix (byte : UInt8) : Except DisassemblyError (Text × Nat) :=
  if 0x01 ≤ byte.toNat ∧ byte.toNat ≤ 0x4b then
    .ok ("OP_PUSHBYTES_".toList ++ Nat.toDigits 10 byte.toNat, 1)
  else if byte.toNat = 0x4c then .ok ("OP_PUSHDATA1".toList, 2)
  else if byte.toNat = 0x4d then .ok ("OP_PUSHDATA2".toList, 3)
  else if byte.toNat = 0x4e then .ok ("OP_PUSHDATA4".toList, 5)
  else .error (.error ("not a push opcode: 0x".toList ++ byteText byte))

/-- The name of an opcode that is decoded to a number. -/
def opcodeName (byte : UInt8) : Text :=
  if byte.toNat = 0x00 then "OP_0".toList
  else if 0x51 ≤ byte.toNat ∧ byte.toNat ≤ 0x60 then
    "OP_".toList ++ Nat.toDigits 10 (byte.toNat - 0x50)
  else if byte.toNat = 0x4f then "OP_1NEGATE".toList
  else "OP_UNKNOWN_0x".toList ++ byteText byte

/-- `script[i]` where a byte is needed. -/
def byteAt (script : List UInt8) (i : Nat) : Except DisassemblyError UInt8 :=
  match script[i]? with
  | some byte => .ok byte
  | none => .error .runtime

/-- One turn of the loop of `disassembleScript`: the token of an item, and how
far the offset moves. -/
def tokenAt (script : List UInt8) (i : Nat) :
    DecodedItem → Except DisassemblyError (ScriptToken × Nat)
  | .bytes item =>
      -- an empty item is the opcode that pushes nothing, if that is there
      if item.length = 0 ∧ script[i]? = some 0x00 then
        .ok (⟨"OP_0".toList, slice script i (i + 1), none⟩, 1)
      else do
        let byte ← byteAt script i
        let (name, prefixLen) ← readPushPrefix byte
        .ok (⟨name, slice script i (i + prefixLen),
          some (slice script (i + prefixLen) (i + prefixLen + item.length))⟩,
          prefixLen + item.length)
  | .name item =>
      let opName := if "OP_".toList.isPrefixOf item then item else "OP_".toList ++ item
      .ok (⟨opName, slice script i (i + 1), none⟩, 1)
  | .number _ => do
      let byte ← byteAt script i
      .ok (⟨opcodeName byte, slice script i (i + 1), none⟩, 1)

/-- The loop of `disassembleScript`. -/
def tokensFrom (script : List UInt8) (i : Nat) :
    List DecodedItem → Except DisassemblyError (List ScriptToken)
  | [] => .ok []
  | item :: items => do
      let (token, length) ← tokenAt script i item
      let tokens ← tokensFrom script (i + length) items
      .ok (token :: tokens)

/-- The bytes a token accounts for. -/
def ScriptToken.consumed (token : ScriptToken) : Nat :=
  token.opBytes.length + (token.data.map List.length).getD 0

/-- `disassembleScript`. -/
def disassembleScript (library : ViewLibrary) (script : List UInt8) :
    Except DisassemblyError (List ScriptToken) :=
  match library.decode script with
  | none => .error .decode
  | some decoded => do
      let tokens ← tokensFrom script 0 decoded
      let consumed := (tokens.map ScriptToken.consumed).sum
      if consumed ≠ script.length then
        .error (.error ("disassembleScript: consumed ".toList ++ Nat.toDigits 10 consumed ++
          " bytes of a ".toList ++ Nat.toDigits 10 script.length ++ "-byte script".toList))
      else .ok tokens

/-! ## Spelling -/

section

variable {library : ViewLibrary} {script : List UInt8} {i length : Nat} {item : DecodedItem}
  {items : List DecodedItem} {token : ScriptToken} {tokens : List ScriptToken}

/-- The bytes of a token. -/
def ScriptToken.bytes (token : ScriptToken) : List UInt8 := token.opBytes ++ token.data.getD []

theorem ScriptToken.length_bytes (token : ScriptToken) : token.bytes.length = token.consumed := by
  rw [ScriptToken.bytes, ScriptToken.consumed, List.length_append]
  cases token.data with
  | none => rfl
  | some data => rfl

theorem slice_add (script : List UInt8) (i n : Nat) :
    slice script i (i + n) = (script.drop i).take n := by
  rw [slice, Nat.add_sub_cancel_left]

/-- What returns has got through its first step. -/
theorem ok_of_bind {α β ε : Type} {x : Except ε α} {f : α → Except ε β} {b : β}
    (h : (x >>= f) = .ok b) : ∃ a, x = .ok a ∧ f a = .ok b := by
  cases x with
  | error e => cases h
  | ok a => exact ⟨a, rfl, h⟩

theorem disassembleScript_eq_ok_iff : disassembleScript library script = .ok tokens ↔
    ∃ decoded, library.decode script = some decoded ∧ tokensFrom script 0 decoded = .ok tokens ∧
      (tokens.map ScriptToken.consumed).sum = script.length := by
  rw [disassembleScript]
  constructor
  · intro h
    split at h
    · cases h
    · next decoded hdecode =>
        obtain ⟨all, htokens, h⟩ := ok_of_bind h
        dsimp only at h
        split at h
        · cases h
        · next hconsumed =>
            cases h
            exact ⟨decoded, hdecode, htokens, Decidable.not_not.mp hconsumed⟩
  · rintro ⟨decoded, hdecode, htokens, hconsumed⟩
    rw [hdecode]
    dsimp only
    rw [htokens]
    exact if_neg (not_not.mpr hconsumed)

/-- A token has the next bytes of the script, whatever the item is. -/
theorem tokenAt_bytes (h : tokenAt script i item = .ok (token, length)) :
    token.bytes = (script.drop i).take length := by
  cases item with
  | bytes item =>
      rw [tokenAt] at h
      split at h
      · cases h
        exact (List.append_nil _).trans (slice_add script i 1)
      · obtain ⟨byte, -, h⟩ := ok_of_bind h
        obtain ⟨⟨name, prefixLen⟩, -, h⟩ := ok_of_bind h
        cases h
        show slice script i (i + prefixLen) ++
          slice script (i + prefixLen) (i + prefixLen + item.length) = _
        rw [slice_add, slice_add, ← List.drop_drop, ← List.take_add]
  | name item =>
      cases h
      exact (List.append_nil _).trans (slice_add script i 1)
  | number n =>
      obtain ⟨byte, -, h⟩ := ok_of_bind h
      cases h
      exact (List.append_nil _).trans (slice_add script i 1)

/-- The tokens have the bytes from the offset on, up to some place. -/
theorem tokensFrom_bytes (h : tokensFrom script i items = .ok tokens) :
    tokens.flatMap ScriptToken.bytes <+: script.drop i := by
  induction items generalizing i tokens with
  | nil =>
      cases h
      exact List.nil_prefix
  | cons item items ih =>
      obtain ⟨⟨token, length⟩, htoken, h⟩ := ok_of_bind h
      obtain ⟨rest, hrest, h⟩ := ok_of_bind h
      cases h
      obtain ⟨unread, hunread⟩ := ih hrest
      refine ⟨unread, ?_⟩
      rw [List.flatMap_cons, tokenAt_bytes htoken, List.append_assoc, hunread, ← List.drop_drop,
        List.take_append_drop]

/-- **A disassembly spells the script**: the check at the end lets no other
through. -/
theorem disassembleScript_bytes (h : disassembleScript library script = .ok tokens) :
    tokens.flatMap ScriptToken.bytes = script := by
  obtain ⟨decoded, -, htokens, hconsumed⟩ := disassembleScript_eq_ok_iff.mp h
  have hlength : (tokens.flatMap ScriptToken.bytes).length = script.length := by
    rw [List.length_flatMap, ← hconsumed]
    exact congrArg List.sum (List.map_congr_left fun token _ => token.length_bytes)
  exact (tokensFrom_bytes htokens).eq_of_length hlength

/-! ## Disassembly of what was generated -/

/-- What is relied on for `hex.encode`: bytes are written one after the other. -/
def ViewLibrary.Appends (library : ViewLibrary) : Prop :=
  ∀ bytes bytes', library.hexEncode (bytes ++ bytes') =
    library.hexEncode bytes ++ library.hexEncode bytes'

theorem ViewLibrary.Appends.nil (h : library.Appends) : library.hexEncode [] = [] := by
  have hnil := congrArg List.length (h [] [])
  rw [List.append_nil, List.length_append] at hnil
  exact List.length_eq_zero_iff.mp (by omega)

/-- What is relied on for `Script.decode`: an item for every push and every
opcode, where one to sixteen are numbers. -/
structure ViewLibrary.Lawful (library : ViewLibrary) : Prop where
  appends : library.Appends
  nil : library.decode [] = some []
  push : ∀ data rest, Plain data → data.length < 256 ^ 4 →
    library.decode (Script.push data ++ rest) = (library.decode rest).map (.bytes data :: ·)
  number : ∀ k rest, 1 ≤ k → k ≤ 16 →
    library.decode (UInt8.ofNat (0x50 + k) :: rest) = (library.decode rest).map (.number k :: ·)
  drop : ∀ rest, library.decode (0x75 :: rest) =
    (library.decode rest).map (.name "DROP".toList :: ·)
  checkSig : ∀ rest, library.decode (0xac :: rest) =
    (library.decode rest).map (.name "CHECKSIG".toList :: ·)
  checkSequenceVerify : ∀ rest, library.decode (0xb2 :: rest) =
    (library.decode rest).map (.name "CHECKSEQUENCEVERIFY".toList :: ·)

variable {op rest : List UInt8}

theorem slice_append (op rest : List UInt8) (start stop : Nat) :
    slice (op ++ rest) (op.length + start) (op.length + stop) = slice rest start stop := by
  rw [slice, slice, ← List.drop_drop, List.drop_left, Nat.add_sub_add_left]

/-- Only what is at the offset matters. -/
theorem tokenAt_append (op rest : List UInt8) (i : Nat) (item : DecodedItem) :
    tokenAt (op ++ rest) (op.length + i) item = tokenAt rest i item := by
  have hbyte : (op ++ rest)[op.length + i]? = rest[i]? := by
    rw [List.getElem?_append_right (Nat.le_add_right _ _), Nat.add_sub_cancel_left]
  cases item with
  | bytes item => simp only [tokenAt, byteAt, hbyte, Nat.add_assoc, slice_append]
  | name item => simp only [tokenAt, Nat.add_assoc, slice_append]
  | number n => simp only [tokenAt, byteAt, hbyte, Nat.add_assoc, slice_append]

theorem tokensFrom_append (op rest : List UInt8) (i : Nat) (items : List DecodedItem) :
    tokensFrom (op ++ rest) (op.length + i) items = tokensFrom rest i items := by
  induction items generalizing i with
  | nil => rfl
  | cons item items ih => simp only [tokensFrom, tokenAt_append, Nat.add_assoc, ih]

/-- **An opcode in front is a token in front**, and nothing else changes. -/
theorem disassembleScript_append (op : List UInt8)
    (hdecode : library.decode (op ++ rest) = (library.decode rest).map (item :: ·))
    (htoken : tokenAt (op ++ rest) 0 item = .ok (token, op.length)) :
    disassembleScript library (op ++ rest) = .ok tokens ↔
      ∃ after, tokens = token :: after ∧ disassembleScript library rest = .ok after := by
  have hconsumed : token.consumed = op.length := by
    rw [← token.length_bytes, tokenAt_bytes htoken, List.drop_zero, List.take_left]
  have hfrom : ∀ items, tokensFrom (op ++ rest) (0 + op.length) items = tokensFrom rest 0 items :=
    fun items => (Nat.zero_add op.length).symm ▸ tokensFrom_append op rest 0 items
  simp only [disassembleScript_eq_ok_iff, hdecode]
  constructor
  · rintro ⟨decoded, hsome, htokens, hsum⟩
    obtain ⟨items, hitems, rfl⟩ := Option.map_eq_some_iff.mp hsome
    obtain ⟨first, hfirst, htokens⟩ := ok_of_bind htokens
    rw [htoken] at hfirst
    cases hfirst
    obtain ⟨after, hafter, htokens⟩ := ok_of_bind htokens
    cases htokens
    rw [hfrom] at hafter
    rw [List.map_cons, List.sum_cons, hconsumed, List.length_append] at hsum
    exact ⟨after, rfl, items, hitems, hafter, Nat.add_left_cancel hsum⟩
  · rintro ⟨after, rfl, items, hitems, hafter, hsum⟩
    refine ⟨item :: items, by rw [hitems]; rfl, ?_, ?_⟩
    · rw [tokensFrom, htoken]
      show (tokensFrom (op ++ rest) (0 + op.length) items >>= _) = _
      rw [hfrom, hafter]
      rfl
    · rw [List.map_cons, List.sum_cons, hconsumed, List.length_append, hsum]

/-- A push is its opcode, perhaps a length, and the data. -/
theorem exists_header {data : List UInt8} (hplain : Plain data) (hlength : data.length < 256 ^ 4) :
    ∃ byte header name, Script.push data = byte :: header ++ data ∧ byte ≠ 0 ∧
      readPushPrefix byte = .ok (name, header.length + 1) := by
  obtain ⟨hne, hsingle⟩ := hplain
  unfold Script.push
  split
  · exact absurd rfl hne
  · next byte =>
      obtain ⟨hbig, hneg⟩ := hsingle byte rfl
      rw [if_neg (by omega), if_neg hneg]
      exact ⟨0x01, [], _, rfl, by decide, rfl⟩
  · next hmany =>
      have hpos : 1 ≤ data.length := List.length_pos_iff.mpr hne
      split
      · next hshort =>
          have hbyte : (UInt8.ofNat data.length).toNat = data.length :=
            UInt8.toNat_ofNat_of_lt' (by show _ < 256; omega)
          refine ⟨_, [], _, rfl, ?_, if_pos ?_⟩
          · intro hzero
            rw [hzero] at hbyte
            exact absurd hbyte.symm (Nat.ne_of_gt hpos)
          · rw [hbyte]
            exact ⟨hpos, hshort⟩
      · split
        · refine ⟨0x4c, _, "OP_PUSHDATA1".toList, rfl, by decide, ?_⟩
          rw [List.length_reverse, length_bigEndian]
          rfl
        · split
          · refine ⟨0x4d, _, "OP_PUSHDATA2".toList, rfl, by decide, ?_⟩
            rw [List.length_reverse, length_bigEndian]
            rfl
          · refine ⟨0x4e, _, "OP_PUSHDATA4".toList, rfl, by decide, ?_⟩
            rw [List.length_reverse, length_bigEndian]
            rfl

/-- The token of a push. -/
theorem tokenAt_push {data : List UInt8} (hplain : Plain data) (hlength : data.length < 256 ^ 4) :
    ∃ name header, Script.push data = header ++ data ∧ ∀ rest,
      tokenAt (Script.push data ++ rest) 0 (.bytes data) =
        .ok (⟨name, header, some data⟩, (Script.push data).length) := by
  obtain ⟨byte, header, name, hpush, hbyte, hread⟩ := exists_header hplain hlength
  refine ⟨name, byte :: header, hpush, fun rest => ?_⟩
  have hscript : Script.push data ++ rest = byte :: header ++ (data ++ rest) := by
    rw [hpush, List.append_assoc]
  have hlength' : (Script.push data).length = header.length + 1 + data.length := by
    rw [hpush, List.length_append, List.length_cons]
  have hzero : ¬(data.length = 0 ∧ (Script.push data ++ rest)[0]? = some 0x00) := by
    rw [hscript]
    exact fun h => hbyte (Option.some.inj h.2)
  have hat : byteAt (Script.push data ++ rest) 0 = .ok byte := by
    rw [hscript]
    rfl
  have hop : slice (Script.push data ++ rest) 0 (0 + (header.length + 1)) = byte :: header := by
    rw [slice_add, hscript, List.drop_zero]
    exact List.take_left' rfl
  have hdata : slice (Script.push data ++ rest) (0 + (header.length + 1))
      (0 + (header.length + 1) + data.length) = data := by
    rw [slice_add, hscript, Nat.zero_add]
    exact (congrArg (List.take data.length) List.drop_left).trans List.take_left
  rw [tokenAt, if_neg hzero, hat, hlength', ← hop]
  show (readPushPrefix byte >>= _) = _
  rw [hread]
  show Except.ok _ = Except.ok _
  rw [hdata]

/-- The token of an opcode with a name. -/
def opToken (byte : UInt8) (name : Text) : ScriptToken := ⟨name, [byte], none⟩

theorem disassembleScript_push (hlaw : library.Lawful) (data : List UInt8) (hplain : Plain data)
    (hlength : data.length < 256 ^ 4) : ∃ name header, Script.push data = header ++ data ∧
      ∀ rest tokens, disassembleScript library (Script.push data ++ rest) = .ok tokens ↔
        ∃ after, tokens = ⟨name, header, some data⟩ :: after ∧
          disassembleScript library rest = .ok after := by
  obtain ⟨name, header, hpush, htoken⟩ := tokenAt_push hplain hlength
  exact ⟨name, header, hpush, fun rest tokens =>
    disassembleScript_append _ (hlaw.push data rest hplain hlength) (htoken rest)⟩

theorem disassembleScript_drop (hlaw : library.Lawful) :
    disassembleScript library (0x75 :: rest) = .ok tokens ↔
      ∃ after, tokens = opToken 0x75 "OP_DROP".toList :: after ∧
        disassembleScript library rest = .ok after :=
  disassembleScript_append [0x75] (hlaw.drop rest) rfl

theorem disassembleScript_checkSig (hlaw : library.Lawful) :
    disassembleScript library (0xac :: rest) = .ok tokens ↔
      ∃ after, tokens = opToken 0xac "OP_CHECKSIG".toList :: after ∧
        disassembleScript library rest = .ok after :=
  disassembleScript_append [0xac] (hlaw.checkSig rest) rfl

theorem disassembleScript_checkSequenceVerify (hlaw : library.Lawful) :
    disassembleScript library (0xb2 :: rest) = .ok tokens ↔
      ∃ after, tokens = opToken 0xb2 "OP_CHECKSEQUENCEVERIFY".toList :: after ∧
        disassembleScript library rest = .ok after :=
  disassembleScript_append [0xb2] (hlaw.checkSequenceVerify rest) rfl

theorem disassembleScript_nil (hlaw : library.Lawful) : disassembleScript library [] = .ok [] :=
  disassembleScript_eq_ok_iff.mpr ⟨[], hlaw.nil, rfl, rfl⟩

/-- The layout of a deposit script has four tokens. -/
theorem disassembleScript_layout (hlaw : library.Lawful) (data : List UInt8) {key : List UInt8}
    (hdata : 2 ≤ data.length) (hlength : data.length < 256 ^ 4) (hkey : key.length = 32) :
    ∃ name header name', Script.push data = header ++ data ∧
      disassembleScript library ([ScriptItem.data data, .drop, .data key,
          .checkSig].flatMap ScriptItem.bytes) =
        .ok [⟨name, header, some data⟩, opToken 0x75 "OP_DROP".toList,
          ⟨name', [0x20], some key⟩, opToken 0xac "OP_CHECKSIG".toList] := by
  obtain ⟨name, header, hpush, hfirst⟩ :=
    disassembleScript_push hlaw data (plain_of_two_le hdata) hlength
  obtain ⟨name', header', hpush', hsecond⟩ :=
    disassembleScript_push hlaw key (plain_of_two_le (by omega)) (by omega)
  have hheader : header' = [0x20] := by
    rw [push_of_le (by omega) (by omega), hkey] at hpush'
    have hsame : [0x20] ++ key = header' ++ key := hpush'
    exact (List.append_cancel_right hsame).symm
  subst hheader
  have hscript : [ScriptItem.data data, .drop, .data key, .checkSig].flatMap ScriptItem.bytes =
      Script.push data ++ (0x75 :: (Script.push key ++ [0xac])) := rfl
  refine ⟨name, header, name', hpush, ?_⟩
  rw [hscript, hfirst]
  refine ⟨_, rfl, (disassembleScript_drop hlaw).mpr ⟨_, rfl, ?_⟩⟩
  rw [hsecond]
  exact ⟨_, rfl, (disassembleScript_checkSig hlaw).mpr ⟨_, rfl, disassembleScript_nil hlaw⟩⟩

/-- The condition of a single key is disassembled. -/
theorem Spends.disassembles (hlaw : library.Lawful) {P : Type} {deposit : DepositLibrary P}
    {input : DepositInputs} {spend : List UInt8} (h : Spends deposit input spend)
    (hmode : input.reclaimMode = .pubkey) :
    ∃ tokens, disassembleScript library spend = .ok tokens := by
  cases h with
  | @pubkey key _ _ hlength =>
      have hdrop : (key.drop 1).length = 32 := by rw [List.length_drop, hlength]
      obtain ⟨name, header, -, hpush⟩ := disassembleScript_push hlaw (key.drop 1)
        (plain_of_two_le (by omega)) (by omega)
      have hsig := (disassembleScript_checkSig hlaw).mpr ⟨[], rfl, disassembleScript_nil hlaw⟩
      exact ⟨_, (disassembleScript_drop hlaw).mpr ⟨_, rfl, (hpush _ _).mpr ⟨_, rfl, hsig⟩⟩⟩
  | script hmode' _ => cases hmode.symm.trans hmode'

end

namespace Sample

/-- `Script.decode`, of the opcodes that are used here. -/
def decode (script : List UInt8) : Option (List DecodedItem) :=
  match script with
  | [] => some []
  | op :: rest =>
      if op.toNat = 0x75 then (decode rest).map (.name "DROP".toList :: ·)
      else if op.toNat = 0xac then (decode rest).map (.name "CHECKSIG".toList :: ·)
      else if op.toNat = 0xb2 then (decode rest).map (.name "CHECKSEQUENCEVERIFY".toList :: ·)
      else if op.toNat = 0x4f then (decode rest).map (.name "1NEGATE".toList :: ·)
      else if 0x51 ≤ op.toNat ∧ op.toNat ≤ 0x60 then
        (decode rest).map (.number (op.toNat - 0x50) :: ·)
      else
        match hread : readPush (op :: rest) with
        | none => none
        | some (data, after) =>
            have : after.length < (op :: rest).length := length_readPush hread
            (decode after).map (.bytes data :: ·)
termination_by script.length
decreasing_by
  all_goals first
    | exact Nat.lt_succ_self _
    | assumption

def viewLibrary : ViewLibrary := ⟨decode, hexText⟩

theorem view_lawful : viewLibrary.Lawful where
  appends bytes bytes' := List.flatMap_append
  nil := by
    show decode [] = some []
    rw [decode]
  push data rest hplain hlength := by
    obtain ⟨byte, header, name, hpush, hzero, hname⟩ := exists_header hplain hlength
    have hread := readPush_push hlength rest
    have hsmall : byte.toNat ≤ 0x4e := by
      rw [readPushPrefix] at hname
      by_contra hbig
      rw [if_neg (by omega), if_neg (by omega), if_neg (by omega), if_neg (by omega)] at hname
      cases hname
    rw [hpush, List.append_assoc, List.cons_append] at hread ⊢
    show decode _ = (decode _).map _
    rw [decode, if_neg (by omega), if_neg (by omega), if_neg (by omega), if_neg (by omega),
      if_neg (by omega)]
    split
    · next hnone =>
        rw [hread] at hnone
        cases hnone
    · next hsome =>
        rw [hread] at hsome
        cases hsome
        rfl
  number k rest hpos hle := by
    have hbyte : (UInt8.ofNat (0x50 + k)).toNat = 0x50 + k :=
      UInt8.toNat_ofNat_of_lt' (show 0x50 + k < 256 by omega)
    show decode _ = (decode _).map _
    rw [decode, hbyte, if_neg (by omega), if_neg (by omega), if_neg (by omega), if_neg (by omega),
      if_pos (by omega), Nat.add_sub_cancel_left]
  drop rest := by
    show decode _ = (decode _).map _
    rw [decode, if_pos (by decide)]
  checkSig rest := by
    show decode _ = (decode _).map _
    rw [decode, if_neg (by decide), if_pos (by decide)]
  checkSequenceVerify rest := by
    show decode _ = (decode _).map _
    rw [decode, if_neg (by decide), if_neg (by decide), if_pos (by decide)]

end Sample

end Spox.Webapp
