import Spox.Webapp.Disassembly

/-!
# Webapp — what is shown of a script

The colors and views of `derivation-details.tsx`. A view that is shown spells
the script, whatever the library took it for; the colors are those of the layout
of sBTC.
-/

namespace Spox.Webapp

open Spox.Lib Spox.Lib.Script

/-! ## Colors -/

def colorMaxFee : Text := "text-success".toList
def colorRecipient : Text := "text-warning".toList
def colorSigners : Text := "text-accent-coral".toList
def colorLocktime : Text := "text-success".toList
def colorSpend : Text := "text-warning".toList
def colorStructural : Text := "text-sand-500".toList

/-- A part of the data of a token. -/
structure DataRange where
  bytes : Nat
  color : Option Text

/-- `DisplayToken`. -/
structure DisplayToken extends ScriptToken where
  opColor : Option Text
  dataRanges : Option (List DataRange)

/-- A token without colors. -/
def ScriptToken.plain (token : ScriptToken) : DisplayToken := ⟨token, none, none⟩

/-- A push with all its data in one color. -/
def ScriptToken.colored (token : ScriptToken) (data : List UInt8) (color : Text) : DisplayToken :=
  ⟨token, some colorStructural, some [⟨data.length, some color⟩]⟩

/-- `colorDeposit`. -/
def colorDeposit (tokens : List ScriptToken) : List DisplayToken :=
  let shapeMatches :=
    tokens.length = 4 ∧
    (∃ data ∈ (tokens[0]?).bind (·.data), 8 ≤ data.length) ∧
    (tokens[1]?).map (·.opName) = some "OP_DROP".toList ∧
    ((tokens[2]?).bind (·.data)).map List.length = some 32 ∧
    (tokens[3]?).map (·.opName) = some "OP_CHECKSIG".toList
  if shapeMatches then
    tokens.mapIdx fun i t =>
      match i, t.data with
      | 0, some data =>
          ⟨t, some colorStructural,
            some [⟨8, some colorMaxFee⟩, ⟨data.length - 8, some colorRecipient⟩]⟩
      | 2, some data => t.colored data colorSigners
      | _, _ => t.plain
  else tokens.map ScriptToken.plain

/-- `colorReclaim`. -/
def colorReclaim (tokens : List ScriptToken) : List DisplayToken :=
  let shapeMatches :=
    2 ≤ tokens.length ∧
    (tokens[1]?).map (·.opName) = some "OP_CHECKSEQUENCEVERIFY".toList
  if shapeMatches then
    tokens.mapIdx fun i t =>
      match i, t.data with
      | 0, some data => t.colored data colorLocktime
      | 0, none => ⟨t, some colorLocktime, none⟩
      | 1, _ => t.plain
      | _, some data => t.colored data colorSpend
      | _, none => t.plain
  else tokens.map ScriptToken.plain

/-! ## Views -/

/-- A part of a view: a separator, or a span and its class. -/
inductive Part where
  | separator (text : Text)
  | span (color : Option Text) (text : Text)

section

variable (library : ViewLibrary)

/-- The chunks of the data, as `toHex` writes them. -/
def renderRanges (data : List UInt8) (offset : Nat) : List DataRange → List Part
  | [] => []
  | r :: ranges =>
      .span r.color (library.hexEncode (slice data offset (offset + r.bytes))) ::
        renderRanges data (offset + r.bytes) ranges

/-- What `renderTokens` makes of one token. -/
def renderToken (renderOp : DisplayToken → Text) (separator : List Part) (t : DisplayToken) :
    List Part :=
  .span t.opColor (renderOp t) ::
    match t.data with
    | some data =>
        if 0 < data.length then
          separator ++ renderRanges library data 0 (t.dataRanges.getD [⟨data.length, none⟩])
        else []
    | none => []

/-- `renderTokens`; no separator is an empty list. -/
def renderTokens (tokens : List DisplayToken) (renderOp : DisplayToken → Text)
    (separator : List Part) : List Part :=
  (tokens.mapIdx fun ti t =>
    (if 0 < ti then separator else []) ++ renderToken library renderOp separator t).flatten

/-- `HexFromTokens`. -/
def hexFromTokens (tokens : List DisplayToken) : List Part :=
  renderTokens library tokens (fun t => library.hexEncode t.opBytes) []

/-- `AsmFromTokens`. -/
def asmFromTokens (tokens : List DisplayToken) : List Part :=
  renderTokens library tokens (fun t => t.opName) [.separator [' ']]

end

/-- The class of a span. -/
def Part.color : Part → Option (Option Text)
  | .separator _ => none
  | .span color _ => some color

/-- The text of a part. -/
def Part.text : Part → Text
  | .separator text => text
  | .span _ text => text

/-! ## Coloring and rendering -/

section

variable {library : ViewLibrary} {token : ScriptToken} {tokens : List ScriptToken}

/-- Colors that are on ranges of the data, if on any. -/
def DisplayToken.Covered (t : DisplayToken) : Prop :=
  ∀ ranges ∈ t.dataRanges, ∃ data ∈ t.data, (ranges.map DataRange.bytes).sum = data.length

theorem ScriptToken.covered_plain (token : ScriptToken) : token.plain.Covered := by
  intro ranges hranges
  cases hranges

theorem ScriptToken.covered_colored {data : List UInt8} (h : token.data = some data)
    (color : Text) : (token.colored data color).Covered := by
  intro ranges hranges
  cases hranges
  exact ⟨data, h, Nat.add_zero _⟩

/-- The same tokens, with their data covered by the colors. -/
structure Shows (tokens : List ScriptToken) (shown : List DisplayToken) : Prop where
  tokens : shown.map DisplayToken.toScriptToken = tokens
  covered : ∀ t ∈ shown, t.Covered

theorem shows_plain (tokens : List ScriptToken) : Shows tokens (tokens.map ScriptToken.plain) where
  tokens := by
    rw [List.map_map]
    exact List.map_id tokens
  covered t ht := by
    obtain ⟨token, -, rfl⟩ := List.mem_map.mp ht
    exact token.covered_plain

/-- Coloring by the place of a token. -/
theorem shows_mapIdx {f : Nat → ScriptToken → DisplayToken}
    (hf : ∀ i t, (f i t).toScriptToken = t)
    (hcovered : ∀ i (h : i < tokens.length), (f i tokens[i]).Covered) :
    Shows tokens (tokens.mapIdx f) where
  tokens := by
    refine List.ext_getElem (by rw [List.length_map, List.length_mapIdx]) fun i hi hi' => ?_
    rw [List.getElem_map, List.getElem_mapIdx]
    exact hf i _
  covered t ht := by
    obtain ⟨i, hi, rfl⟩ := List.mem_mapIdx.mp ht
    exact hcovered i hi

theorem shows_colorDeposit (tokens : List ScriptToken) : Shows tokens (colorDeposit tokens) := by
  unfold colorDeposit
  dsimp only
  split
  · next hshape =>
      obtain ⟨-, ⟨first, hfirst, hlong⟩, -⟩ := hshape
      refine shows_mapIdx (fun i t => ?_) fun i hi => ?_
      · split <;> rfl
      · split
        · next data hdata =>
            -- the data of the first token has the eight bytes of the fee
            rw [List.getElem?_eq_getElem hi, Option.bind_some, hdata] at hfirst
            cases hfirst
            intro ranges hranges
            cases hranges
            refine ⟨first, hdata, ?_⟩
            show 8 + (first.length - 8 + 0) = first.length
            omega
        · next data hdata => exact ScriptToken.covered_colored hdata _
        · exact ScriptToken.covered_plain _
  · exact shows_plain tokens

theorem shows_colorReclaim (tokens : List ScriptToken) : Shows tokens (colorReclaim tokens) := by
  unfold colorReclaim
  dsimp only
  split
  · refine shows_mapIdx (fun i t => ?_) fun i hi => ?_
    · split <;> rfl
    · split
      · next data hdata => exact ScriptToken.covered_colored hdata _
      · intro ranges hranges
        cases hranges
      · exact ScriptToken.covered_plain _
      · next data hdata => exact ScriptToken.covered_colored hdata _
      · exact ScriptToken.covered_plain _
  · exact shows_plain tokens

/-- Ranges that cover the data show all of it. -/
theorem text_renderRanges (hlaw : library.Appends) {data : List UInt8} (offset : Nat)
    {ranges : List DataRange}
    (hranges : offset + (ranges.map DataRange.bytes).sum = data.length) :
    (renderRanges library data offset ranges).flatMap Part.text =
      library.hexEncode (data.drop offset) := by
  induction ranges generalizing offset with
  | nil =>
      rw [List.map_nil, List.sum_nil, Nat.add_zero] at hranges
      rw [List.drop_eq_nil_of_le (Nat.le_of_eq hranges.symm), hlaw.nil]
      rfl
  | cons r ranges ih =>
      rw [List.map_cons, List.sum_cons, ← Nat.add_assoc] at hranges
      rw [renderRanges, List.flatMap_cons, ih _ hranges, slice_add, Part.text, ← List.drop_drop,
        ← hlaw, List.take_append_drop]

theorem text_renderToken (hlaw : library.Appends) {t : DisplayToken} (h : t.Covered) :
    (renderToken library (fun t => library.hexEncode t.opBytes) [] t).flatMap Part.text =
      library.hexEncode t.bytes := by
  rw [renderToken, List.flatMap_cons, ScriptToken.bytes, hlaw]
  refine congrArg (library.hexEncode t.opBytes ++ ·) ?_
  cases hdata : t.data with
  | none => exact hlaw.nil.symm
  | some data =>
      dsimp only
      split
      · rw [List.nil_append, text_renderRanges hlaw 0]
        · rfl
        · cases hranges : t.dataRanges with
          | none => exact Nat.zero_add _
          | some ranges =>
              obtain ⟨data', hdata', hsum⟩ := h ranges hranges
              rw [hdata] at hdata'
              cases hdata'
              rw [Nat.zero_add]
              exact hsum
      · next hempty =>
          have hnil : data = [] := List.length_eq_zero_iff.mp (by omega)
          rw [hnil]
          exact hlaw.nil.symm

theorem renderTokens_nil (renderOp : DisplayToken → Text) (shown : List DisplayToken) :
    renderTokens library shown renderOp [] = shown.flatMap (renderToken library renderOp []) := by
  rw [renderTokens, List.flatMap_def]
  refine congrArg List.flatten (List.ext_getElem ?_ fun i hi hi' => ?_)
  · rw [List.length_mapIdx, List.length_map]
  · rw [List.getElem_mapIdx, List.getElem_map, ite_self, List.nil_append]

/-- The view of tokens is their bytes. -/
theorem Shows.text (hlaw : library.Appends) {shown : List DisplayToken} (h : Shows tokens shown) :
    (hexFromTokens library shown).flatMap Part.text =
      library.hexEncode (tokens.flatMap ScriptToken.bytes) := by
  rw [hexFromTokens, renderTokens_nil, ← h.tokens]
  have hcovered := h.covered
  clear h
  induction shown with
  | nil => exact hlaw.nil.symm
  | cons t shown ih =>
      rw [List.flatMap_cons, List.flatMap_append, text_renderToken hlaw (hcovered t (by simp)),
        ih fun t ht => hcovered t (List.mem_cons_of_mem _ ht), List.map_cons, List.flatMap_cons,
        hlaw]

/-- Neither the opcodes nor the separators are in the colors. -/
theorem color_renderToken (renderOp : DisplayToken → Text) {separator : List Part}
    (hseparator : separator.filterMap Part.color = []) (t : DisplayToken) :
    (renderToken library renderOp separator t).filterMap Part.color =
      (renderToken library (fun _ => []) [] t).filterMap Part.color := by
  rw [renderToken, renderToken]
  refine congrArg (t.opColor :: ·) ?_
  split
  · split
    · rw [List.filterMap_append, hseparator]
      rfl
    · rfl
  · rfl

theorem color_renderTokens (renderOp : DisplayToken → Text) {separator : List Part}
    (hseparator : separator.filterMap Part.color = []) (shown : List DisplayToken) :
    (renderTokens library shown renderOp separator).filterMap Part.color =
      shown.flatMap fun t => (renderToken library (fun _ => []) [] t).filterMap Part.color := by
  rw [renderTokens, List.filterMap_flatten, List.flatMap_def]
  refine congrArg List.flatten (List.ext_getElem ?_ fun i hi hi' => ?_)
  · rw [List.length_map, List.length_mapIdx, List.length_map]
  · have hfront : (if 0 < i then separator else []).filterMap Part.color = [] := by
      split
      · exact hseparator
      · rfl
    rw [List.getElem_map, List.getElem_mapIdx, List.getElem_map, List.filterMap_append, hfront,
      List.nil_append, color_renderToken renderOp hseparator]

/-- The two views line up. -/
theorem color_asmFromTokens (shown : List DisplayToken) :
    (asmFromTokens library shown).filterMap Part.color =
      (hexFromTokens library shown).filterMap Part.color := by
  rw [asmFromTokens, hexFromTokens, color_renderTokens _ rfl, color_renderTokens _ rfl]

/-! ## The colors of what was generated -/

theorem renderToken_data (library : ViewLibrary) (renderOp : DisplayToken → Text)
    (t : DisplayToken) {data : List UInt8} (hdata : t.data = some data) (hne : data ≠ []) :
    renderToken library renderOp [] t = .span t.opColor (renderOp t) ::
      renderRanges library data 0 (t.dataRanges.getD [⟨data.length, none⟩]) := by
  rw [renderToken, hdata]
  dsimp only
  rw [if_pos (List.length_pos_iff.mpr hne), List.nil_append]

/-- Data in one color. -/
theorem renderRanges_single (data : List UInt8) (color : Option Text) :
    renderRanges library data 0 [⟨data.length, color⟩] =
      [.span color (library.hexEncode data)] := by
  rw [renderRanges, renderRanges, slice_add, List.drop_zero, List.take_length]

/-- A token whose data has one color. -/
theorem renderToken_colored (library : ViewLibrary) (renderOp : DisplayToken → Text)
    (token : ScriptToken) {data : List UInt8} (hdata : token.data = some data) (hne : data ≠ [])
    (color : Text) :
    renderToken library renderOp [] (token.colored data color) =
      [.span (some colorStructural) (renderOp (token.colored data color)),
        .span (some color) (library.hexEncode data)] := by
  rw [renderToken_data library renderOp (token.colored data color) hdata hne]
  exact congrArg (_ :: ·) (renderRanges_single data (some color))

/-- Its colors tell the fee, the recipient and the key. -/
theorem hex_colorDeposit (fee recipient key header : List UInt8) (name name' : Text)
    (hfee : fee.length = 8) (hkey : key.length = 32) :
    hexFromTokens library (colorDeposit [⟨name, header, some (fee ++ recipient)⟩,
        opToken 0x75 "OP_DROP".toList, ⟨name', [0x20], some key⟩,
        opToken 0xac "OP_CHECKSIG".toList]) =
      [.span (some colorStructural) (library.hexEncode header),
        .span (some colorMaxFee) (library.hexEncode fee),
        .span (some colorRecipient) (library.hexEncode recipient),
        .span none (library.hexEncode [0x75]),
        .span (some colorStructural) (library.hexEncode [0x20]),
        .span (some colorSigners) (library.hexEncode key),
        .span none (library.hexEncode [0xac])] := by
  have hdata : (fee ++ recipient).length = 8 + recipient.length := by
    rw [List.length_append, hfee]
  rw [hexFromTokens, renderTokens_nil, colorDeposit, if_pos]
  · have hranges : renderRanges library (fee ++ recipient) 0
        [⟨8, some colorMaxFee⟩, ⟨(fee ++ recipient).length - 8, some colorRecipient⟩] =
        [.span (some colorMaxFee) (library.hexEncode fee),
          .span (some colorRecipient) (library.hexEncode recipient)] := by
      rw [renderRanges, renderRanges, renderRanges, slice_add, slice_add, List.drop_zero,
        List.take_left' hfee, Nat.zero_add, List.drop_left' hfee, hdata, Nat.add_sub_cancel_left,
        List.take_length]
    have hfirst := renderToken_data library (fun t => library.hexEncode t.opBytes)
      (⟨⟨name, header, some (fee ++ recipient)⟩, some colorStructural,
        some [⟨8, some colorMaxFee⟩, ⟨(fee ++ recipient).length - 8, some colorRecipient⟩]⟩)
      rfl (List.ne_nil_of_length_pos (by omega))
    have hkeys := renderToken_colored library (fun t => library.hexEncode t.opBytes)
      ⟨name', [0x20], some key⟩ rfl (List.ne_nil_of_length_pos (by omega)) colorSigners
    simp only [List.mapIdx_cons, List.mapIdx_nil, List.flatMap_cons, List.flatMap_nil, hfirst,
      hkeys, Option.getD_some, hranges]
    rfl
  · refine ⟨rfl, ⟨fee ++ recipient, rfl, ?_⟩, rfl, ?_, rfl⟩
    · omega
    · exact congrArg some hkey

/-- The coloring of a token of the spending condition. -/
def ScriptToken.spendColored (token : ScriptToken) : DisplayToken :=
  match token.data with
  | some data => token.colored data colorSpend
  | none => token.plain

/-- The coloring of the lock time. -/
def ScriptToken.lockColored (token : ScriptToken) : DisplayToken :=
  match token.data with
  | some data => token.colored data colorLocktime
  | none => ⟨token, some colorLocktime, none⟩

/-- A reclaim script is colored in three parts. -/
theorem colorReclaim_lock (lock : ScriptToken) (after : List ScriptToken) :
    colorReclaim (lock :: opToken 0xb2 "OP_CHECKSEQUENCEVERIFY".toList :: after) =
      lock.lockColored :: (opToken 0xb2 "OP_CHECKSEQUENCEVERIFY".toList).plain ::
        after.map ScriptToken.spendColored := by
  rw [colorReclaim, if_pos ⟨Nat.le_add_left 2 _, rfl⟩, List.mapIdx_cons, List.mapIdx_cons]
  refine congrArg₂ List.cons ?_ (congrArg _ (List.ext_getElem ?_ fun i hi hi' => ?_))
  · rw [ScriptToken.lockColored]
    cases lock.data with
    | none => rfl
    | some data => rfl
  · rw [List.length_mapIdx, List.length_map]
  · have hbound : i < after.length := by rwa [List.length_map] at hi'
    rw [List.getElem_mapIdx, List.getElem_map, ScriptToken.spendColored]
    cases after[i].data with
    | none => rfl
    | some data => rfl

/-- The parts of a lock time: an opcode, or a push of the number. -/
def LockParts (library : ViewLibrary) (n : Nat) (parts : List Part) : Prop :=
  if n ≤ 16 then
    parts = [.span (some colorLocktime) (library.hexEncode [UInt8.ofNat (0x50 + n)])]
  else ∃ header, Script.push (number n) = header ++ number n ∧
    parts = [.span (some colorStructural) (library.hexEncode header),
      .span (some colorLocktime) (library.hexEncode (number n))]

/-- The lock is a token of its own. -/
theorem disassembleScript_number (hlaw : library.Lawful) {n : Nat} (hpos : 0 < n)
    (hlt : n < doubleBound) : ∃ lock : ScriptToken,
      LockParts library n
        (renderToken library (fun t => library.hexEncode t.opBytes) [] lock.lockColored) ∧
      ∀ rest tokens, disassembleScript library (Script.push (number n) ++ rest) = .ok tokens ↔
        ∃ after, tokens = lock :: after ∧ disassembleScript library rest = .ok after := by
  by_cases hsmall : n ≤ 16
  · refine ⟨opToken (UInt8.ofNat (0x50 + n)) (opcodeName (UInt8.ofNat (0x50 + n))), ?_,
      fun rest tokens => ?_⟩
    · rw [LockParts, if_pos hsmall]
      rfl
    · rw [push_number_of_le hpos hsmall]
      exact disassembleScript_append [UInt8.ofNat (0x50 + n)]
        (hlaw.number n rest hpos hsmall) rfl
  · have hbig : 16 < n := Nat.lt_of_not_le hsmall
    obtain ⟨name, header, hpush, hdisassemble⟩ :=
      disassembleScript_push hlaw (number n) (plain_number hbig) (length_number_of_lt hlt)
    refine ⟨⟨name, header, some (number n)⟩, ?_, hdisassemble⟩
    rw [LockParts, if_neg hsmall]
    exact ⟨header, hpush, renderToken_colored _ _ _ rfl (plain_number hbig).1 colorLocktime⟩

/-- **A reclaim script is shown if its condition can be**, the lock before it. -/
theorem disassembleScript_lockScript (hlaw : library.Lawful) {n : Nat} (hpos : 0 < n)
    (hlt : n < doubleBound) (spend : List UInt8) :
    ((∃ tokens, disassembleScript library (lockScript n spend) = .ok tokens) ↔
      ∃ tokens, disassembleScript library spend = .ok tokens) ∧
    ∀ tokens, disassembleScript library (lockScript n spend) = .ok tokens →
      ∃ parts after, disassembleScript library spend = .ok after ∧ LockParts library n parts ∧
        hexFromTokens library (colorReclaim tokens) = parts ++
          .span none (library.hexEncode [0xb2]) ::
            hexFromTokens library (after.map ScriptToken.spendColored) := by
  obtain ⟨lock, hparts, hnumber⟩ := disassembleScript_number hlaw hpos hlt
  have hiff : ∀ tokens, disassembleScript library (lockScript n spend) = .ok tokens ↔
      ∃ after, tokens = lock :: opToken 0xb2 "OP_CHECKSEQUENCEVERIFY".toList :: after ∧
        disassembleScript library spend = .ok after := by
    intro tokens
    rw [lockScript, hnumber]
    constructor
    · rintro ⟨rest, rfl, hrest⟩
      obtain ⟨after, rfl, hafter⟩ := (disassembleScript_checkSequenceVerify hlaw).mp hrest
      exact ⟨after, rfl, hafter⟩
    · rintro ⟨after, rfl, hafter⟩
      exact ⟨_, rfl, (disassembleScript_checkSequenceVerify hlaw).mpr ⟨after, rfl, hafter⟩⟩
  constructor
  · constructor
    · rintro ⟨tokens, htokens⟩
      obtain ⟨after, -, hafter⟩ := (hiff tokens).mp htokens
      exact ⟨after, hafter⟩
    · rintro ⟨after, hafter⟩
      exact ⟨_, (hiff _).mpr ⟨after, rfl, hafter⟩⟩
  · intro tokens htokens
    obtain ⟨after, rfl, hafter⟩ := (hiff tokens).mp htokens
    refine ⟨_, after, hafter, hparts, ?_⟩
    simp only [hexFromTokens, renderTokens_nil, colorReclaim_lock, List.flatMap_cons]
    rfl

end

/-- **What is shown is the script**, whatever the library makes of it: if a
script is disassembled at all, the colored views of its bytes spell it out, and
the views of its opcodes have the same colors in the same order. -/
theorem views_spell (library : ViewLibrary) (hlaw : library.Appends) (script : List UInt8)
    (tokens : List ScriptToken) (h : disassembleScript library script = .ok tokens) :
    ∀ shown ∈ [colorDeposit tokens, colorReclaim tokens],
      (hexFromTokens library shown).flatMap Part.text = library.hexEncode script ∧
        (asmFromTokens library shown).filterMap Part.color =
          (hexFromTokens library shown).filterMap Part.color := by
  have hbytes := disassembleScript_bytes h
  have htext : ∀ shown, Shows tokens shown →
      (hexFromTokens library shown).flatMap Part.text = library.hexEncode script := by
    intro shown hshown
    rw [hshown.text hlaw, hbytes]
  intro shown hmem
  refine ⟨?_, color_asmFromTokens shown⟩
  rcases List.mem_cons.mp hmem with rfl | hmem
  · exact htext _ (shows_colorDeposit tokens)
  · rw [List.mem_singleton.mp hmem]
    exact htext _ (shows_colorReclaim tokens)

/-- **The colors tell what was entered**: the deposit script of accepted inputs
is shown as its fee, recipient and key, each in its color. The reclaim script of
a whole lock time is shown exactly if its condition can be disassembled, which
that of a single key can, as the lock time and the condition in theirs. -/
theorem views_labelled {P : Type} {library : DepositLibrary P} {reclaim : ReclaimLibrary}
    {view : ViewLibrary} {consensus : P → List UInt8} {network : Text} {input : DepositInputs}
    {key : List UInt8} {maxFee : Int} {recipient : P} (hlaw : library.Lawful consensus)
    (hlaw' : reclaim.Lawful library) (hview : view.Lawful)
    (h : Accepted library network input key maxFee recipient) (hdouble : input.Double) :
    (∀ script, generateDepositScript library key input = some script →
      ∃ tokens header, disassembleScript view script = .ok tokens ∧
        Script.push (setBigUint64 maxFee ++ consensus recipient) =
          header ++ (setBigUint64 maxFee ++ consensus recipient) ∧
        hexFromTokens view (colorDeposit tokens) =
          [.span (some colorStructural) (view.hexEncode header),
            .span (some colorMaxFee) (view.hexEncode (setBigUint64 maxFee)),
            .span (some colorRecipient) (view.hexEncode (consensus recipient)),
            .span none (view.hexEncode [0x75]),
            .span (some colorStructural) (view.hexEncode [0x20]),
            .span (some colorSigners) (view.hexEncode (toXOnly key)),
            .span none (view.hexEncode [0xac])]) ∧
    ∃ spend, Spends library input spend ∧
      (input.reclaimMode = .pubkey → ∃ tokens, disassembleScript view spend = .ok tokens) ∧
      ∀ (n : Nat) script, input.lockTime = .finite n →
        generateReclaimScript library reclaim input = some script →
        ((∃ tokens, disassembleScript view script = .ok tokens) ↔
          ∃ tokens, disassembleScript view spend = .ok tokens) ∧
        ∀ tokens, disassembleScript view script = .ok tokens →
          ∃ parts after, disassembleScript view spend = .ok after ∧ LockParts view n parts ∧
            hexFromTokens view (colorReclaim tokens) = parts ++
              .span none (view.hexEncode [0xb2]) ::
                hexFromTokens view (after.map ScriptToken.spendColored) := by
  obtain ⟨spend, -, hspend⟩ := spendScript_of_valid hlaw' h.valid
  have hkey := length_toXOnly h.aggregateKey
  refine ⟨fun script hscript => ?_, spend, hspend, fun hmode => ?_,
    fun n script hlock hscript => ?_⟩
  · rw [h.generated hlaw] at hscript
    cases hscript
    have hshort := hlaw.short recipient
    have hfee : (setBigUint64 maxFee).length = 8 := length_bigEndian 8 _
    have hdata : (setBigUint64 maxFee ++ consensus recipient).length =
        8 + (consensus recipient).length := by
      rw [List.length_append, hfee]
    obtain ⟨name, header, name', hpush, htokens⟩ := disassembleScript_layout hview
      (setBigUint64 maxFee ++ consensus recipient) (by omega) (by omega) hkey
    exact ⟨_, header, htokens, hpush, hex_colorDeposit _ _ _ _ _ _ hfee hkey⟩
  · exact hspend.disassembles hview hmode
  · obtain ⟨hgenerate, hlt⟩ := generate_whole hlaw' h.valid hdouble hspend hlock
    rw [hgenerate] at hscript
    cases hscript
    have hpos : 0 < n := by exact_mod_cast lockTime_pos h.valid hlock
    exact disassembleScript_lockScript hview hpos hlt spend

/-- A deposit script with a fee of 5000: each part has its color, and together
they are the script. -/
theorem views_spell_deposit :
    let data := setBigUint64 5000 ++ Sample.consensus Sample.recipient
    ∃ tokens, disassembleScript Sample.viewLibrary
        ([.data data, .drop, .data Sample.aggregateKey, .checkSig].flatMap ScriptItem.bytes) =
          .ok tokens ∧
      (hexFromTokens Sample.viewLibrary (colorDeposit tokens)).filterMap Part.color =
        [some colorStructural, some colorMaxFee, some colorRecipient, none,
          some colorStructural, some colorSigners, none] ∧
      (hexFromTokens Sample.viewLibrary (colorDeposit tokens)).flatMap Part.text =
        Sample.viewLibrary.hexEncode
          ([.data data, .drop, .data Sample.aggregateKey, .checkSig].flatMap
            ScriptItem.bytes) := by
  intro data
  obtain ⟨name, header, name', -, htokens⟩ := disassembleScript_layout Sample.view_lawful data
    (show 2 ≤ 30 by decide) (show 30 < 256 ^ 4 by decide)
    (show Sample.aggregateKey.length = 32 by rfl)
  refine ⟨_, htokens, ?_, (views_spell Sample.viewLibrary Sample.view_lawful.appends _ _ htokens _
    List.mem_cons_self).1⟩
  rw [hex_colorDeposit _ _ _ _ _ _ rfl rfl]
  rfl

/-- A fee of 5000 is shown in the color of the fee. -/
theorem views_labelled_five_thousand : ∃ script tokens,
    generateDepositScript Sample.depositLibrary Sample.aggregateKey (Sample.depositInputs 5000) =
        some script ∧
      disassembleScript Sample.viewLibrary script = .ok tokens ∧
      Part.span (some colorMaxFee) "0000000000001388".toList ∈
        hexFromTokens Sample.viewLibrary (colorDeposit tokens) := by
  have haccepted := Sample.accepted 5000 (by decide)
  obtain ⟨hdeposit, -⟩ := views_labelled Sample.lawful Sample.reclaim_lawful Sample.view_lawful
    haccepted (Sample.depositInputs_double 5000)
  have hgenerated := haccepted.generated Sample.lawful
  obtain ⟨tokens, header, htokens, -, hview⟩ := hdeposit _ hgenerated
  refine ⟨_, tokens, hgenerated, htokens, ?_⟩
  rw [hview]
  have hfee : "0000000000001388".toList = Sample.viewLibrary.hexEncode (setBigUint64 5000) := by
    decide
  rw [hfee]
  exact List.mem_cons_of_mem _ List.mem_cons_self

end Spox.Webapp
