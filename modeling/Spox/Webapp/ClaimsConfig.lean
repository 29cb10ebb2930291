import Spox.Webapp.Js

/-!
# Webapp — STX amounts and claim counts

`formatStxFromMicro`, `parseStxToMicro` and `parseClaimCount` of
`claims-config.ts`. The register form feeds each into the other to keep the
number of claims and the escrow in step.
-/

namespace Spox.Webapp

open Spox.Lib Spox.Lib.Decimal

/-- `MICRO_STX`. -/
def microStx : Int := 1000000

/-- `MAX_CLAIM_INSTALLMENTS`. -/
def maxClaimInstallments : Int := 192

/-- `formatStxFromMicro`. -/
def formatStxFromMicro (micro : Int) : Text :=
  let whole := micro.tdiv microStx
  let frac := micro.tmod microStx
  if frac = 0 then bigintToString whole
  else
    -- `.replace(/0+$/, "")`
    let fracStr := dropZeros (padStart (bigintToString frac) 6 '0')
    bigintToString whole ++ '.' :: fracStr

/-- `/^\d+(\.\d{1,6})?$/`. -/
def isStxAmount (text : Text) : Bool :=
  !(text.takeWhile Char.isDigit).isEmpty &&
    match text.dropWhile Char.isDigit with
    | [] => true
    | c :: frac => c == '.' && frac.all Char.isDigit && 1 ≤ frac.length && frac.length ≤ 6

/-- `parseStxToMicro`. -/
def parseStxToMicro (input : Text) : Option Int :=
  let trimmed := trim input
  if trimmed.isEmpty || !isStxAmount trimmed then none
  else
    match trimmed.splitOn '.' with
    | [] => none
    | whole :: rest =>
        let frac := rest.headD []
        some (bigInt whole * microStx + bigInt (padEnd frac 6 '0'))

/-- `feeMicroForClaimCount`. -/
def feeMicroForClaimCount (claimCount feePerClaim : Int) : Int := claimCount * feePerClaim

/-- `parseClaimCount`. -/
def parseClaimCount (claimCountInput feeStxInput : Text) (feePerClaim : Option Int) :
    Option Int :=
  let trimmed := trim claimCountInput
  if !trimmed.isEmpty then
    -- `/^\d+$/` of a nonempty text
    if !trimmed.all Char.isDigit then none
    else
      match toDouble (value trimmed) with
      | none => none
      | some parsed =>
          if parsed = 0 then none
          else
            let count : Int := parsed
            if count > maxClaimInstallments then some maxClaimInstallments else some count
  else
    match feePerClaim with
    | none => none
    | some feePerClaim =>
        if feePerClaim > 0 then
          match parseStxToMicro feeStxInput with
          | none => none
          | some micro =>
              if micro ≤ 0 then none
              else
                let raw := micro.tdiv feePerClaim
                if raw ≤ 0 then none
                else if raw > maxClaimInstallments then some maxClaimInstallments
                else some raw
        else none

/-! ## Accepted texts -/

/-- A whole part and a fraction, which is left out if it has no digits. -/
def amountText (whole frac : Text) : Text :=
  whole ++ if frac = [] then [] else '.' :: frac

/-- One or more digits, optionally followed by a dot and one to six digits. -/
structure AmountText (text whole frac : Text) : Prop where
  text_eq : text = amountText whole frac
  nonempty : whole ≠ []
  wholeDigits : Digits whole
  fracDigits : Digits frac
  atMostSix : frac.length ≤ 6

variable {text input whole frac : Text} {m : Int}

theorem not_mem_digits {l : Text} (h : Digits l) : '.' ∉ l := fun hmem => by
  have hdot := h '.' hmem
  revert hdot
  decide

/-- The digits before the dot are what the expression matches first. -/
theorem AmountText.span (h : AmountText text whole frac) :
    text.takeWhile Char.isDigit = whole ∧
      text.dropWhile Char.isDigit = if frac = [] then [] else '.' :: frac := by
  rw [h.text_eq, amountText, List.takeWhile_append_of_pos h.wholeDigits,
    List.dropWhile_append_of_pos h.wholeDigits]
  split
  · simp
  · simp

theorem isStxAmount_iff :
    isStxAmount text = true ↔ ∃ whole frac, AmountText text whole frac := by
  constructor
  · intro h
    have hsplit := List.takeWhile_append_dropWhile (p := Char.isDigit) (l := text)
    have hwhole : Digits (text.takeWhile Char.isDigit) := fun c hc => List.mem_takeWhile_imp hc
    unfold isStxAmount at h
    rw [Bool.and_eq_true, Bool.not_eq_true', List.isEmpty_eq_false_iff] at h
    obtain ⟨hne, hrest⟩ := h
    cases hdrop : text.dropWhile Char.isDigit with
    | nil =>
        rw [hdrop] at hsplit
        exact ⟨_, [], hsplit.symm, hne, hwhole, by simp [Digits], by decide⟩
    | cons c frac =>
        rw [hdrop] at hrest hsplit
        simp only [Bool.and_eq_true, beq_iff_eq, List.all_eq_true, decide_eq_true_eq] at hrest
        obtain ⟨⟨⟨rfl, hfrac⟩, hpos⟩, hlen⟩ := hrest
        have htext : text = amountText (text.takeWhile Char.isDigit) frac := by
          rw [amountText, if_neg (List.length_pos_iff.mp hpos), hsplit]
        exact ⟨_, frac, htext, hne, hwhole, hfrac, hlen⟩
  · intro h
    obtain ⟨whole, frac, h⟩ := h
    obtain ⟨htake, hdrop⟩ := h.span
    unfold isStxAmount
    rw [htake, hdrop, Bool.and_eq_true, Bool.not_eq_true', List.isEmpty_eq_false_iff]
    refine ⟨h.nonempty, ?_⟩
    by_cases hnil : frac = []
    · simp [hnil]
    · have hfrac := h.fracDigits
      have hpos := List.length_pos_iff.mpr hnil
      have hlength := h.atMostSix
      simp only [if_neg hnil, Bool.and_eq_true, beq_self_eq_true, List.all_eq_true,
        decide_eq_true_eq, true_and]
      exact ⟨⟨hfrac, hpos⟩, hlength⟩

/-- **What is read from an amount.** -/
theorem AmountText.parse (h : AmountText (trim input) whole frac) :
    parseStxToMicro input =
      some ((value whole * 1000000 + value (fillEnd 6 frac) : Nat) : Int) := by
  have hmatch : isStxAmount (trim input) = true := isStxAmount_iff.mpr ⟨_, _, h⟩
  have hne : (trim input).isEmpty = false := by
    rw [h.text_eq, List.isEmpty_eq_false_iff]
    exact List.append_ne_nil_of_left_ne_nil h.nonempty _
  have hsplit : (trim input).splitOn '.' =
      if frac = [] then [whole] else [whole, frac] := by
    rw [h.text_eq, amountText]
    split
    · rw [List.append_nil, List.splitOn_eq_singleton (not_mem_digits h.wholeDigits)]
    · rw [List.splitOn_append_cons_self_of_not_mem (not_mem_digits h.wholeDigits),
        List.splitOn_eq_singleton (not_mem_digits h.fracDigits)]
  have hfrac : padEnd frac 6 '0' = fillEnd 6 frac := rfl
  unfold parseStxToMicro
  simp only [hmatch, hne, hsplit, Bool.not_true, Bool.or_false, Bool.false_eq_true, if_false]
  by_cases hnil : frac = []
  · subst hnil
    rw [if_pos rfl]
    simp [bigInt, microStx, hfrac]
  · rw [if_neg hnil]
    simp [bigInt, microStx, hfrac]

theorem parseStxToMicro_eq_some : parseStxToMicro input = some m ↔
    ∃ whole frac, AmountText (trim input) whole frac ∧
      m = ((value whole * 1000000 + value (fillEnd 6 frac) : Nat) : Int) := by
  constructor
  · intro h
    have hmatch : isStxAmount (trim input) = true := by
      by_contra hno
      rw [parseStxToMicro, if_pos (by simp [hno])] at h
      cases h
    obtain ⟨whole, frac, hamount⟩ := isStxAmount_iff.mp hmatch
    rw [hamount.parse] at h
    exact ⟨whole, frac, hamount, (Option.some.inj h).symm⟩
  · intro h
    obtain ⟨whole, frac, hamount, rfl⟩ := h
    exact hamount.parse

/-! ## Written texts -/

/-- What is written: the whole STX, and the fraction without trailing zeros. -/
theorem formatStxFromMicro_eq (n : Nat) : formatStxFromMicro n =
    amountText (Nat.toDigits 10 (n / 1000000)) (dropZeros (fill 6 (n % 1000000))) := by
  have hwhole : (n : Int).tdiv microStx = (n / 1000000 : Nat) := rfl
  have hfrac : (n : Int).tmod microStx = (n % 1000000 : Nat) := rfl
  unfold formatStxFromMicro
  simp only [hwhole, hfrac]
  rw [amountText]
  by_cases hzero : n % 1000000 = 0
  · rw [hzero, Int.natCast_zero, if_pos rfl, if_pos (by decide), List.append_nil]
    rfl
  · rw [if_neg (by omega), if_neg (dropZeros_ne_nil (by rw [value_fill]; exact hzero))]
    rfl

/-- The fraction is filled up to six digits. -/
theorem length_fraction (n : Nat) : (fill 6 (n % 1000000)).length = 6 :=
  length_fill (by decide) (Nat.mod_lt n (by decide))

theorem amountText_formatStxFromMicro (n : Nat) : AmountText (formatStxFromMicro n)
    (Nat.toDigits 10 (n / 1000000)) (dropZeros (fill 6 (n % 1000000))) where
  text_eq := formatStxFromMicro_eq n
  nonempty := Nat.toDigits_ne_nil
  wholeDigits := digits_toDigits _
  fracDigits := digits_dropZeros (digits_fill _ _)
  atMostSix := (length_dropZeros_le _).trans (Nat.le_of_eq (length_fraction n))

theorem AmountText.trim (h : AmountText text whole frac) : Webapp.trim text = text := by
  refine trim_of_forall fun c hc => ?_
  rw [h.text_eq, amountText, List.mem_append] at hc
  rcases hc with hc | hc
  · exact isWhitespace_of_isDigit (h.wholeDigits c hc)
  · split at hc
    · cases hc
    · rcases List.mem_cons.mp hc with rfl | hc
      · decide
      · exact isWhitespace_of_isDigit (h.fracDigits c hc)

/-- No zero and no dot at the end of a fraction. -/
theorem formatStxFromMicro_trimmed {n : Nat} (h : '.' ∈ formatStxFromMicro n) :
    (formatStxFromMicro n).getLast? ≠ some '0' ∧ (formatStxFromMicro n).getLast? ≠ some '.' := by
  have hamount := amountText_formatStxFromMicro n
  have hzero := getLast?_dropZeros (fill 6 (n % 1000000))
  rw [hamount.text_eq, amountText] at h ⊢
  generalize dropZeros (fill 6 (n % 1000000)) = frac at *
  have hne : frac ≠ [] := by
    intro hnil
    rw [if_pos hnil, List.append_nil] at h
    exact not_mem_digits hamount.wholeDigits h
  have hlast : (Nat.toDigits 10 (n / 1000000) ++ '.' :: frac).getLast? = frac.getLast? := by
    rw [List.getLast?_append_of_ne_nil _ (List.cons_ne_nil _ _), List.getLast?_cons_of_ne_nil hne]
  rw [if_neg hne, hlast]
  exact ⟨hzero, fun hdot => not_mem_digits hamount.fracDigits (List.mem_of_getLast? hdot)⟩

/-- **Round trip.** -/
theorem parseStxToMicro_formatStxFromMicro (n : Nat) :
    parseStxToMicro (formatStxFromMicro n) = some (n : Int) := by
  have hamount := amountText_formatStxFromMicro n
  rw [← hamount.trim] at hamount
  have hfill := fillEnd_dropZeros (fill 6 (n % 1000000))
  rw [length_fraction] at hfill
  rw [hamount.parse, hfill, value_fill, value_toDigits, Nat.div_add_mod']

theorem length_amountText (whole frac : Text) : (amountText whole frac).length =
    whole.length + if frac = [] then 0 else frac.length + 1 := by
  rw [amountText, List.length_append]
  split
  · rfl
  · rfl

/-- A shorter whole part and a prefix of the fraction make a shorter text. -/
theorem length_amountText_le {whole' frac' : Text} (hwhole : whole'.length ≤ whole.length)
    (hfrac : frac' <+: frac) :
    (amountText whole' frac').length ≤ (amountText whole frac).length ∧
      ((amountText whole frac).length = (amountText whole' frac').length →
        whole.length = whole'.length ∧ frac = frac') := by
  have hle := hfrac.length_le
  rw [length_amountText, length_amountText]
  by_cases hnil : frac = []
  · subst hnil
    rw [List.prefix_nil.mp hfrac, if_pos rfl]
    exact ⟨Nat.add_le_add_right hwhole 0, fun h => ⟨h, rfl⟩⟩
  · rw [if_neg hnil]
    constructor
    · split <;> omega
    · intro heq
      have hlength : frac'.length = frac.length := by
        split at heq <;> omega
      have hsame := hfrac.eq_of_length hlength
      rw [hsame, if_neg hnil] at heq
      exact ⟨by omega, hsame.symm⟩

/-- **Nothing shorter is accepted**, and nothing else of that length. -/
theorem formatStxFromMicro_shortest {n : Nat} (h : parseStxToMicro input = some (n : Int)) :
    (formatStxFromMicro n).length ≤ input.length ∧
      (input.length = (formatStxFromMicro n).length → input = formatStxFromMicro n) := by
  obtain ⟨whole, frac, hamount, hvalue⟩ := parseStxToMicro_eq_some.mp h
  have hlt := value_lt (digits_fillEnd 6 hamount.fracDigits)
  rw [length_fillEnd hamount.atMostSix] at hlt
  have hdiv : n / 1000000 = value whole := by omega
  have hmod : n % 1000000 = value (fillEnd 6 frac) := by omega
  obtain ⟨hle, heq⟩ := length_amountText_le
    (length_toDigits_value_le hamount.wholeDigits hamount.nonempty)
    (fraction_shortest (show 0 < 6 by decide) hamount.fracDigits hamount.atMostSix)
  have htrim := (trim_sublist input).length_le
  rw [formatStxFromMicro_eq, hdiv, hmod]
  rw [← hamount.text_eq] at hle heq
  constructor
  · exact hle.trans htrim
  · intro hlength
    -- nothing was trimmed, so both parts have the length of the shortest
    obtain ⟨hwhole, hfrac⟩ := heq (by omega)
    rw [← hfrac, toDigits_shortest hamount.wholeDigits hwhole, ← hamount.text_eq]
    exact ((trim_sublist input).eq_of_length (by omega)).symm

/-! ## Claim counts -/

/-- **The claim count of an escrow.** -/
theorem parseClaimCount_escrow {f : Int} (hf : 0 < f) (h : parseStxToMicro input = some m)
    (hm : 0 < m) :
    parseClaimCount [] input (some f) = if m / f = 0 then none else some (min 192 (m / f)) := by
  have hdiv : m.tdiv f = m / f := Int.tdiv_eq_ediv_of_nonneg (Int.le_of_lt hm)
  have hnonneg : 0 ≤ m / f := Int.ediv_nonneg (Int.le_of_lt hm) (Int.le_of_lt hf)
  unfold parseClaimCount
  rw [if_neg (by decide)]
  simp only [gt_iff_lt, hf, if_true, h, hdiv, if_neg (Int.not_le.mpr hm), maxClaimInstallments]
  by_cases hzero : m / f = 0
  · rw [if_pos hzero, if_pos (by omega)]
  · rw [if_neg hzero, if_neg (by omega)]
    rcases Int.lt_or_le 192 (m / f) with hmax | hmax
    · rw [if_pos hmax, Int.min_eq_left (by omega)]
    · rw [if_neg (by omega), Int.min_eq_right hmax]

theorem parseClaimCount_format {f n : Int} (hf : 0 < f) (hn : 1 ≤ n) (hmax : n ≤ 192) :
    parseClaimCount [] (formatStxFromMicro (feeMicroForClaimCount n f)) (some f) = some n := by
  have hpos : 0 < n * f := Int.mul_pos (by omega) hf
  obtain ⟨k, hk⟩ := Int.eq_ofNat_of_zero_le (Int.le_of_lt hpos)
  have hparse : parseStxToMicro (formatStxFromMicro (feeMicroForClaimCount n f)) =
      some (n * f) := by
    rw [feeMicroForClaimCount, hk]
    exact parseStxToMicro_formatStxFromMicro k
  rw [parseClaimCount_escrow hf hparse hpos, Int.mul_ediv_cancel n (by omega), if_neg (by omega),
    Int.min_eq_right hmax]

/-- **STX amounts and claim counts.** What is written for an amount is read
back as it, and is the one shortest text that is, without zeros or a dot at the
end. What is read are, between white space, one or more digits and optionally a
dot and one to six digits, with their exact value. So the escrow written for a
number of claims gives that number back, and any escrow text gives as many
claims as it pays for, at most 192. -/
theorem stxAmounts_inverse :
    (∀ m : Int, 0 ≤ m →
      parseStxToMicro (formatStxFromMicro m) = some m ∧
      ('.' ∈ formatStxFromMicro m → (formatStxFromMicro m).getLast? ≠ some '0' ∧
        (formatStxFromMicro m).getLast? ≠ some '.') ∧
      ∀ text, parseStxToMicro text = some m →
        (formatStxFromMicro m).length ≤ text.length ∧
          (text.length = (formatStxFromMicro m).length → text = formatStxFromMicro m)) ∧
    (∀ text m, parseStxToMicro text = some m ↔
      ∃ whole frac, AmountText (trim text) whole frac ∧
        m = ((value whole * 10 ^ 6 + 10 ^ (6 - frac.length) * value frac : Nat) : Int)) ∧
    (∀ f n : Int, 0 < f → 1 ≤ n → n ≤ 192 →
      parseClaimCount [] (formatStxFromMicro (feeMicroForClaimCount n f)) (some f) = some n) ∧
    ∀ (text : Text) (m f : Int), 0 < f → 0 < m → parseStxToMicro text = some m →
      parseClaimCount [] text (some f) =
        if m / f = 0 then none else some (min 192 (m / f)) := by
  refine ⟨fun m hm => ?_, fun text m => ?_, fun f n => parseClaimCount_format,
    fun text m f hf hm h => parseClaimCount_escrow hf h hm⟩
  · obtain ⟨n, rfl⟩ := Int.eq_ofNat_of_zero_le hm
    exact ⟨parseStxToMicro_formatStxFromMicro n, formatStxFromMicro_trimmed,
      fun _ => formatStxFromMicro_shortest⟩
  · simp only [parseStxToMicro_eq_some, value_fillEnd]
    rfl

/-- 0.25 STX, written three ways, pays for one claim of 0.2 STX. -/
theorem stxAmounts_inverse_quarter :
    formatStxFromMicro 250000 = "0.25".toList ∧
      parseStxToMicro (formatStxFromMicro 250000) = some 250000 ∧
      (formatStxFromMicro 250000).length ≤ " 00.250 ".length ∧
      parseClaimCount [] (formatStxFromMicro (feeMicroForClaimCount 12 250000)) (some 250000) =
        some 12 ∧
      parseClaimCount [] " 00.250 ".toList (some 200000) = some 1 :=
  ⟨by decide, (stxAmounts_inverse.1 250000 (by decide)).1,
    ((stxAmounts_inverse.1 250000 (by decide)).2.2 " 00.250 ".toList (by decide)).1,
    stxAmounts_inverse.2.2.1 250000 12 (by decide) (by decide) (by decide),
    stxAmounts_inverse.2.2.2 " 00.250 ".toList 250000 200000 (by decide) (by decide) (by decide)⟩

end Spox.Webapp
