import Spox.Webapp.FormSession
import Spox.Webapp.Purchases

/-!
# Webapp — what every session keeps

Three things hold in a session whatever order the events come in: the escrow
field pays for the number of claims the form would buy (`fields_in_step`), a
signer-manager is checked before the form registers with it
(`registers_checked`), and a registration that is cancelled has been read for
the fields on the page, as long as these are left alone while it is loaded
(`cancels_loaded`).
-/

namespace Spox.Webapp

open Spox.Lib Spox.Lib.Decimal Spox.RewardClaims

/-! ## The two fields of the price -/

/-- An amount pays for a number of claims, and for no more of them unless there
may be no more. -/
structure Pays (fee n m : Int) : Prop where
  covers : n * fee ≤ m
  tight : n = maxClaimInstallments ∨ m < (n + 1) * fee

variable {fee n m : Int} {claimCount feeStx text : Text}

theorem pays_exactly (hfee : 0 < fee) (n : Int) : Pays fee n (n * fee) where
  covers := Int.le_refl _
  tight := .inr (by rw [Int.add_mul]; omega)

theorem pays_min_div (hfee : 0 < fee) (m : Int) :
    Pays fee (min maxClaimInstallments (m / fee)) m where
  covers := by
    have hle := Int.mul_le_mul_of_nonneg_right
      (Int.min_le_right maxClaimInstallments (m / fee)) (Int.le_of_lt hfee)
    exact Int.le_trans hle (Int.ediv_mul_le m (by omega))
  tight := by
    rcases Int.le_total maxClaimInstallments (m / fee) with hmax | hmax
    · exact .inl (Int.min_eq_left hmax)
    · rw [Int.min_eq_right hmax]
      exact .inr (Int.lt_ediv_add_one_mul_self m hfee)

/-- Without a number of claims, they are as many as the escrow pays for. -/
theorem parseClaimCount_blank (hcount : trim claimCount = []) (hfee : 0 < fee)
    (h : parseClaimCount claimCount feeStx (some fee) = some n) :
    ∃ m, parseStxToMicro feeStx = some m ∧ Pays fee n m := by
  have hnil : parseClaimCount claimCount feeStx (some fee) =
      parseClaimCount [] feeStx (some fee) := by
    unfold parseClaimCount
    rw [hcount, show trim ([] : Text) = [] from rfl]
  rw [hnil] at h
  cases hm : parseStxToMicro feeStx with
  | none =>
      unfold parseClaimCount at h
      rw [if_neg (by decide)] at h
      simp only [gt_iff_lt, hfee, if_true, hm, reduceCtorEq] at h
  | some m =>
      rcases Int.lt_or_le 0 m with hpos | hle
      · rw [parseClaimCount_escrow hfee hm hpos] at h
        split at h
        · cases h
        · cases h
          exact ⟨m, rfl, pays_min_div hfee m⟩
      · unfold parseClaimCount at h
        rw [if_neg (by decide)] at h
        simp only [gt_iff_lt, hfee, if_true, hm, if_pos hle, reduceCtorEq] at h

/-- A number of claims is what its digits stand for, as a double and at most
the most. -/
theorem parseClaimCount_typed (hcount : trim claimCount ≠ [])
    (h : parseClaimCount claimCount feeStx (some fee) = some n) :
    Digits (trim claimCount) ∧ ∃ parsed : Nat,
      toDouble (value (trim claimCount)) = some parsed ∧ 0 < parsed ∧
      n = min (parsed : Int) maxClaimInstallments := by
  unfold parseClaimCount at h
  simp only [List.isEmpty_eq_false_iff.mpr hcount, Bool.not_false, if_true] at h
  split at h
  · cases h
  · next hdigits =>
      rw [Bool.not_eq_true', Bool.not_eq_false, List.all_eq_true] at hdigits
      refine ⟨hdigits, ?_⟩
      split at h
      · cases h
      · next parsed hparsed =>
          split at h
          · cases h
          · next hne =>
              refine ⟨parsed, hparsed, Nat.pos_of_ne_zero hne, ?_⟩
              split at h
              · cases h
                omega
              · cases h
                omega

/-- What the form buys for a typed number is what it writes as the escrow. -/
theorem escrowOfCount_typed (hcount : trim claimCount ≠ [])
    (h : parseClaimCount claimCount feeStx (some fee) = some n) :
    RegisterForm.escrowOfCount fee claimCount =
      some (formatStxFromMicro (feeMicroForClaimCount n fee)) := by
  obtain ⟨hdigits, parsed, hparsed, hpos, rfl⟩ := parseClaimCount_typed hcount h
  unfold RegisterForm.escrowOfCount
  rw [parseInt_digits hcount hdigits, hparsed]
  show (if (parsed : Int) ≤ 0 then none else _) = _
  rw [if_neg (by omega)]
  rfl

/-- A number the form writes is read as it, at most the most. -/
theorem parseClaimCount_bigintToString {raw : Nat}
    (h : parseClaimCount (bigintToString raw) feeStx (some fee) = some n) :
    n = min maxClaimInstallments (raw : Int) := by
  have hdigits := digits_toDigits raw
  have htrim : trim (bigintToString raw) = Nat.toDigits 10 raw :=
    trim_of_forall fun c hc => isWhitespace_of_isDigit (hdigits c hc)
  have hne : trim (bigintToString raw) ≠ [] := by
    rw [htrim]
    exact List.ne_nil_of_length_pos Nat.length_toDigits_pos
  obtain ⟨-, parsed, hparsed, hpos, rfl⟩ := parseClaimCount_typed hne h
  rw [htrim, value_toDigits] at hparsed
  unfold maxClaimInstallments
  rcases Nat.lt_or_ge raw (2 ^ 53) with hlt | hge
  · rw [toDouble_of_lt hlt] at hparsed
    cases hparsed
    omega
  · -- both are above the most
    have hlarge := le_toDouble hparsed hge
    omega

namespace RegisterForm

variable {form form' : RegisterForm}

/-- With a fee loaded, the escrow field pays for the number of claims the form
would buy. -/
def InStep (form : RegisterForm) : Prop :=
  ∀ fee n : Int, form.feePerClaim = some fee → 0 < fee → form.numClaims = some n →
    ∃ m, parseStxToMicro form.feeStx = some m ∧ Pays fee n m

theorem InStep.of_eq (h : InStep form) (hfee : form'.feePerClaim = form.feePerClaim)
    (hcount : form'.claimCount = form.claimCount) (hstx : form'.feeStx = form.feeStx) :
    InStep form' := by
  unfold InStep numClaims at *
  rw [hfee, hcount, hstx]
  exact h

/-- The escrow has been written for the number of claims, unless that is left
open. -/
theorem inStep_of_synced (h : ∀ fee text, form.feePerClaim = some fee → 0 < fee →
    trim form.claimCount ≠ [] → escrowOfCount fee form.claimCount = some text →
    form.feeStx = text) : InStep form := by
  intro fee n hfee hpos hn
  unfold numClaims at hn
  rw [hfee] at hn
  by_cases hcount : trim form.claimCount = []
  · exact parseClaimCount_blank hcount hpos hn
  · have hescrow := escrowOfCount_typed hcount hn
    have hrange := parseClaimCount_range hn
    have hnonneg : 0 ≤ n * fee := Int.mul_nonneg (by omega) (by omega)
    obtain ⟨k, hk⟩ := Int.eq_ofNat_of_zero_le hnonneg
    have hread := parseStxToMicro_formatStxFromMicro k
    rw [← hk] at hread
    rw [h fee _ hfee hpos hcount hescrow]
    exact ⟨n * fee, hread, pays_exactly hpos n⟩

theorem inStep_of_blank (h : form.claimCount = []) : InStep form := by
  refine inStep_of_synced fun _ _ _ _ hcount => ?_
  rw [h] at hcount
  exact absurd rfl hcount

theorem inStep_syncFeeFromClaimCount (countInput : Text) (form : RegisterForm) :
    InStep (syncFeeFromClaimCount countInput form) := by
  unfold syncFeeFromClaimCount
  split
  · next hnone =>
      intro fee n hfee
      rw [show form.feePerClaim = some fee from hfee] at hnone
      cases hnone
  · next fee hsome =>
      split
      · next hzero =>
          intro fee' n hfee hpos
          rw [show form.feePerClaim = some fee' from hfee] at hsome
          cases hsome
          omega
      · refine inStep_of_synced fun fee' text hfee _ _ htext => ?_
        rw [show form.feePerClaim = some fee' from hfee] at hsome
        cases hsome
        rw [show escrowOfCount fee countInput = some text from htext]
        rfl

theorem inStep_handleFeeStxChange (value : Text) (form : RegisterForm) :
    InStep (handleFeeStxChange value form) := by
  unfold handleFeeStxChange
  split
  · next hnone =>
      intro fee n hfee
      rw [show form.feePerClaim = some fee from hfee] at hnone
      cases hnone
  · next fee hsome =>
      split
      · next hzero =>
          intro fee' n hfee hpos
          rw [show form.feePerClaim = some fee' from hfee] at hsome
          cases hsome
          omega
      · split
        · exact inStep_of_blank rfl
        · next micro hmicro =>
            split
            · exact inStep_of_blank rfl
            · next hle =>
                by_cases hraw : 0 < micro.tdiv fee
                · intro fee' n hfee hpos hn
                  rw [show form.feePerClaim = some fee' from hfee] at hsome
                  cases hsome
                  have hdiv : micro.tdiv fee = micro / fee :=
                    Int.tdiv_eq_ediv_of_nonneg (by omega)
                  obtain ⟨raw, hnat⟩ := Int.eq_ofNat_of_zero_le (Int.le_of_lt hraw)
                  have hcount : parseClaimCount (bigintToString raw) value (some fee) = some n := by
                    unfold numClaims at hn
                    simp only [if_pos hraw] at hn
                    rw [show form.feePerClaim = some fee from hfee, hnat] at hn
                    exact hn
                  rw [parseClaimCount_bigintToString hcount, ← hnat, hdiv]
                  exact ⟨micro, hmicro, pays_min_div hpos micro⟩
                · refine inStep_of_blank ?_
                  show (if 0 < micro.tdiv fee then bigintToString (micro.tdiv fee) else []) = []
                  rw [if_neg hraw]

theorem InStep.setFeePerClaim (h : InStep form) (feePerClaim : Option Int) :
    InStep (setFeePerClaim feePerClaim form) := by
  unfold RegisterForm.setFeePerClaim
  split
  · exact h
  · cases feePerClaim with
    | none =>
        intro fee n hfee
        cases hfee
    | some fee =>
        simp only
        split
        · next hblank =>
            refine inStep_of_synced fun fee' _ hfee hpos hcount => ?_
            cases hfee
            rcases hblank with hzero | hblank
            · omega
            · exact absurd hblank hcount
        · split
          · next hnone =>
              refine inStep_of_synced fun fee' text hfee _ _ htext => ?_
              cases hfee
              rw [show escrowOfCount fee form.claimCount = some text from htext] at hnone
              cases hnone
          · next text hsome =>
              refine inStep_of_synced fun fee' text' hfee _ _ htext => ?_
              cases hfee
              rw [show escrowOfCount fee form.claimCount = some text' from htext] at hsome
              cases hsome
              rfl

end RegisterForm

/-! ## Where a call comes from -/

/-- The trait has been found to be supported, in the scope of a key. -/
def Supported (supported : List (FormConfig × Text)) (key : Text) : Prop :=
  ∃ checked ∈ supported, traitCheckScopeKey checked.1 checked.2 = key

/-- What a form has of checks of the trait has been found. -/
def RegisterForm.Checked (supported : List (FormConfig × Text)) (form : RegisterForm) : Prop :=
  form.traitCheck = some .supported → ∀ key, form.traitCheckScope = some key →
    Supported supported key

/-- The handlers a call can come from. -/
inductive Handed (js : StacksJs) (supported : List (FormConfig × Text)) (click : Click)
    (call : ContractCall) : Prop
  | register (check : Except String (Option SignerManagerTraitCheck))
      (submits : click.form.handleRegister js click.config click.wallet check = .request call)
      (supports : Supported supported
        (traitCheckScopeKey click.config click.form.signerManager))
  | addClaims (submits : click.form.handleAddClaims js click.config click.wallet = .request call)
  | cancel (submits : click.form.handleCancel js click.config click.wallet = .request call)

variable {js : StacksJs} {supported supported' : List (FormConfig × Text)} {click : Click}
  {call : ContractCall} {config : FormConfig} {form : RegisterForm}

theorem Supported.mono (hsub : supported ⊆ supported') {key : Text} (h : Supported supported key) :
    Supported supported' key := by
  obtain ⟨checked, hmem, hkey⟩ := h
  exact ⟨checked, hsub hmem, hkey⟩

theorem RegisterForm.Checked.mono (hsub : supported ⊆ supported') (h : form.Checked supported) :
    form.Checked supported' := fun hcheck key hkey => (h hcheck key hkey).mono hsub

theorem RegisterForm.Checked.syncFeeFromClaimCount (h : form.Checked supported)
    (countInput : Text) : (form.syncFeeFromClaimCount countInput).Checked supported := by
  unfold RegisterForm.syncFeeFromClaimCount
  split
  · exact h
  · split
    · exact h
    · exact h

theorem RegisterForm.Checked.handleFeeStxChange (h : form.Checked supported) (value : Text) :
    (form.handleFeeStxChange value).Checked supported := by
  unfold RegisterForm.handleFeeStxChange
  split
  · exact h
  · split
    · exact h
    · split
      · exact h
      · split
        · exact h
        · exact h

theorem RegisterForm.Checked.setFeePerClaim (h : form.Checked supported)
    (feePerClaim : Option Int) : (form.setFeePerClaim feePerClaim).Checked supported := by
  unfold RegisterForm.setFeePerClaim
  split
  · exact h
  · cases feePerClaim with
    | none => exact h
    | some fee =>
        simp only
        split
        · exact h
        · split
          · exact h
          · exact h

theorem Handed.mono (hsub : supported ⊆ supported') (h : Handed js supported click call) :
    Handed js supported' click call := by
  cases h with
  | register check hsubmit hsupports => exact .register check hsubmit (hsupports.mono hsub)
  | addClaims hsubmit => exact .addClaims hsubmit
  | cancel hsubmit => exact .cancel hsubmit

/-- The form registers after a check of its own, or with one that is there. -/
theorem supported_of_traitProblem {check : Except String (Option SignerManagerTraitCheck)}
    (h : form.traitProblem js config check = none) :
    check = .ok (some .supported) ∨ form.traitCheck = some .supported ∧
      form.traitCheckScope = some (traitCheckScopeKey config form.signerManager) := by
  unfold RegisterForm.traitProblem at h
  simp only at h
  by_cases hneeds : (!(!form.traitCheckIsCurrent config ||
      form.traitCheck != some .supported)) = true
  · simp only [RegisterForm.traitCheckIsCurrent, Bool.not_or, Bool.not_not, Bool.and_eq_true,
      beq_iff_eq, Bool.not_eq_true', bne_eq_false_iff_eq] at hneeds
    exact .inr ⟨hneeds.2, hneeds.1⟩
  · rw [if_neg hneeds] at h
    cases check with
    | error text => cases h
    | ok result =>
        cases result with
        | none =>
            simp only [Option.map_none, Option.getD_none, Bool.false_eq_true, if_false] at h
            split at h
            · cases h
            · split at h
              · cases h
              · cases h
        | some result =>
            cases result with
            | supported => exact .inl rfl
            | notImplemented => cases h
            | notFound => cases h

theorem Handed.of_register {check : Except String (Option SignerManagerTraitCheck)}
    (hsubmit : click.form.handleRegister js click.config click.wallet check = .request call)
    (hchecked : click.form.Checked supported)
    (hcheck : check = .ok (some .supported) →
      Supported supported (traitCheckScopeKey click.config click.form.signerManager)) :
    Handed js supported click call := by
  obtain ⟨_, _, _, _, _, _, _, _, -, hproblem, -⟩ := RegisterForm.handleRegister_args hsubmit
  rcases supported_of_traitProblem hproblem with hfound | ⟨htrait, hscope⟩
  · exact .register check hsubmit (hcheck hfound)
  · exact .register check hsubmit (hchecked htrait _ hscope)

theorem traitCheckScopeKey_trim (config : FormConfig) (signerManager : Text) :
    traitCheckScopeKey config (trim signerManager) = traitCheckScopeKey config signerManager := by
  unfold traitCheckScopeKey
  rw [trim_trim]

/-! ## The invariant of a session -/

/-- What the handler of a check goes on with. -/
structure Click.Awaits (supported : List (FormConfig × Text)) (config : FormConfig)
    (signerManager : Text) (click : Click) : Prop where
  config : click.config = config
  signerManager : trim click.form.signerManager = signerManager
  inStep : click.form.InStep
  checked : click.form.Checked supported

/-- What is in flight: a check is of a trimmed text, and made with a
configuration that has been there. -/
def Pending.Ok (allowed : FormConfig → Prop) (supported : List (FormConfig × Text)) :
    Pending → Prop
  | .position config _ => allowed config
  | .traitCheck config signerManager click =>
      allowed config ∧ trim signerManager = signerManager ∧
        ∀ c, click = some c → c.Awaits supported config signerManager
  | .registration _ _ _ => True

/-- `allowed` is a property of the configurations of a session. -/
structure FormSession.Inv (js : StacksJs) (allowed : FormConfig → Prop) (s : FormSession) :
    Prop where
  config : allowed s.config
  inStep : s.form.InStep
  checked : s.form.Checked s.supported
  supported : ∀ checked ∈ s.supported, allowed checked.1 ∧ trim checked.2 = checked.2
  pending : ∀ request ∈ s.pending, request.Ok allowed s.supported
  requests : ∀ click call, (click, call) ∈ s.requests →
    allowed click.config ∧ click.form.InStep ∧ Handed js s.supported click call

theorem Pending.Ok.mono {allowed : FormConfig → Prop} (hsub : supported ⊆ supported')
    {request : Pending} (h : request.Ok allowed supported) : request.Ok allowed supported' := by
  cases request with
  | position config staker => exact h
  | traitCheck config signerManager click =>
      obtain ⟨hallowed, htrim, hawaits⟩ := h
      refine ⟨hallowed, htrim, fun c hc => ?_⟩
      obtain ⟨hconfig, hmanager, hstep, hchecked⟩ := hawaits c hc
      exact ⟨hconfig, hmanager, hstep, hchecked.mono hsub⟩
  | registration config staker signerManager => exact h

namespace FormSession

variable {s : FormSession} {allowed : FormConfig → Prop}

theorem Inv.start (js : StacksJs) (hconfig : allowed config) (wallet : WalletState) :
    Inv js allowed (start config wallet) where
  config := hconfig
  inStep := RegisterForm.inStep_of_blank rfl
  checked hcheck := by cases hcheck
  supported _ hmem := absurd hmem List.not_mem_nil
  pending _ hmem := absurd hmem List.not_mem_nil
  requests _ _ hmem := absurd hmem List.not_mem_nil

theorem Inv.edit (h : Inv js allowed s) {f : RegisterForm → RegisterForm}
    (hstep : (f s.form).InStep) (hchecked : (f s.form).Checked s.supported) :
    Inv js allowed (s.edit f) where
  config := h.config
  inStep := hstep
  checked := hchecked
  supported := h.supported
  pending := h.pending
  requests := h.requests

theorem Inv.await (h : Inv js allowed s) {request : Pending}
    (hrequest : request.Ok allowed s.supported) :
    Inv js allowed { s with pending := s.pending ++ [request] } where
  config := h.config
  inStep := h.inStep
  checked := h.checked
  supported := h.supported
  pending request' hmem := by
    rcases List.mem_append.mp hmem with hold | hnew
    · exact h.pending request' hold
    · rw [List.mem_singleton.mp hnew]
      exact hrequest
  requests := h.requests

theorem Inv.handOver (h : Inv js allowed s) {outcome : Outcome} (hallowed : allowed click.config)
    (hstep : click.form.InStep)
    (hhanded : ∀ call, outcome = .request call → Handed js s.supported click call) :
    Inv js allowed (s.handOver click outcome) := by
  unfold FormSession.handOver
  split
  · next call =>
      refine ⟨h.config, h.inStep, h.checked, h.supported, h.pending, fun click' call' hmem => ?_⟩
      rcases List.mem_append.mp hmem with hold | hnew
      · exact h.requests click' call' hold
      · cases List.mem_singleton.mp hnew
        exact ⟨hallowed, hstep, hhanded call rfl⟩
  · exact h

/-- The click goes on with a check that is its own. -/
theorem Inv.resume (h : Inv js allowed s) {click : Option Click}
    {check : Except String (Option SignerManagerTraitCheck)} {signerManager : Text}
    (hallowed : allowed config)
    (hawaits : ∀ c, click = some c → c.Awaits s.supported config signerManager)
    (hcheck : check = .ok (some .supported) →
      Supported s.supported (traitCheckScopeKey config signerManager)) :
    Inv js allowed (s.resume js click check) := by
  unfold FormSession.resume
  cases click with
  | none => exact h
  | some click =>
      obtain ⟨rfl, rfl, hstep, hchecked⟩ := hawaits click rfl
      refine h.handOver hallowed hstep fun call hcall =>
        Handed.of_register hcall hchecked fun hfound => ?_
      rw [← traitCheckScopeKey_trim]
      exact hcheck hfound

/-- A check that fails, or is not made, takes the entered one away. -/
theorem Inv.uncheck (h : Inv js allowed s) {click : Option Click}
    {check : Except String (Option SignerManagerTraitCheck)} {signerManager : Text}
    (hallowed : allowed config)
    (hawaits : ∀ c, click = some c → c.Awaits s.supported config signerManager)
    (hcheck : check ≠ .ok (some .supported)) :
    Inv js allowed ((s.edit fun form =>
      { form with traitCheck := none, traitCheckScope := none }).resume js click check) := by
  have hedit : Inv js allowed (s.edit fun form =>
      { form with traitCheck := none, traitCheckScope := none }) := by
    refine h.edit (h.inStep.of_eq rfl rfl rfl) ?_
    exact fun hcheck => by cases hcheck
  exact hedit.resume hallowed hawaits fun hfound => absurd hfound hcheck

theorem Inv.checkSignerManagerTrait (h : Inv js allowed s) {click : Option Click}
    {signerManagerId : Text} (hallowed : allowed config)
    (hawaits : ∀ c, click = some c → c.Awaits s.supported config (trim signerManagerId)) :
    Inv js allowed (s.checkSignerManagerTrait js config signerManagerId click) := by
  unfold FormSession.checkSignerManagerTrait
  simp only
  split
  · exact h.uncheck hallowed hawaits fun hfound => by cases hfound
  · exact h.await ⟨hallowed, trim_trim _, hawaits⟩

/-- A check answered `supported` is remembered. -/
theorem Inv.noteSupported (h : Inv js allowed s) {signerManager : Text}
    (result : SignerManagerTraitCheck) (hallowed : allowed config)
    (htrim : trim signerManager = signerManager) :
    Inv js allowed (s.noteSupported config signerManager result) := by
  unfold FormSession.noteSupported
  split
  · have hsub : s.supported ⊆ s.supported ++ [(config, signerManager)] :=
      List.subset_append_left _ _
    refine ⟨h.config, h.inStep, h.checked.mono hsub, fun checked hmem => ?_,
      fun request hmem => (h.pending request hmem).mono hsub, fun click call hmem => ?_⟩
    · rcases List.mem_append.mp hmem with hold | hnew
      · exact h.supported checked hold
      · rw [List.mem_singleton.mp hnew]
        exact ⟨hallowed, htrim⟩
    · obtain ⟨hclick, hstep, hhanded⟩ := h.requests click call hmem
      exact ⟨hclick, hstep, hhanded.mono hsub⟩
  · exact h

theorem subset_noteSupported (config : FormConfig) (signerManager : Text)
    (result : SignerManagerTraitCheck) (s : FormSession) :
    s.supported ⊆ (s.noteSupported config signerManager result).supported := by
  unfold FormSession.noteSupported
  split
  · exact List.subset_append_left _ _
  · exact List.Subset.refl _

theorem supported_noteSupported (config : FormConfig) (signerManager : Text) (s : FormSession) :
    Supported (s.noteSupported config signerManager .supported).supported
      (traitCheckScopeKey config signerManager) :=
  ⟨(config, signerManager), List.mem_append_right _ (List.mem_singleton_self _), rfl⟩

theorem Inv.loadRegistration (h : Inv js allowed s) (config : FormConfig)
    (staker signerManager : Text) :
    Inv js allowed (s.loadRegistration config staker signerManager) := by
  unfold FormSession.loadRegistration
  split
  · exact h
  · exact h.await trivial

/-- The answer to a check is entered, and its click goes on. -/
theorem Inv.traitChecked (h : Inv js allowed s) {signerManager : Text} {click : Option Click}
    (result : SignerManagerTraitCheck)
    (hrequest : (Pending.traitCheck config signerManager click).Ok allowed s.supported) :
    Inv js allowed (s.finish js (.traitCheck config signerManager click) (.traitCheck result)) := by
  obtain ⟨hallowed, htrim, hawaits⟩ := hrequest
  have hsub := subset_noteSupported config signerManager result s
  have hfound : result = .supported →
      Supported (s.noteSupported config signerManager result).supported
        (traitCheckScopeKey config signerManager) := by
    rintro rfl
    exact supported_noteSupported config signerManager s
  have hnoted := h.noteSupported result hallowed htrim
  have hedit : Inv js allowed ((s.noteSupported config signerManager result).edit fun form =>
      { form with
        traitCheck := some result
        traitCheckScope := some (traitCheckScopeKey config signerManager) }) := by
    refine hnoted.edit (hnoted.inStep.of_eq rfl rfl rfl) fun hcheck key hkey => ?_
    cases hkey
    exact hfound (Option.some.inj hcheck)
  have hclick : ∀ c, click = some c →
      c.Awaits (s.noteSupported config signerManager result).supported config signerManager := by
    intro c hc
    obtain ⟨hconfig, hmanager, hstep, hchecked⟩ := hawaits c hc
    exact ⟨hconfig, hmanager, hstep, hchecked.mono hsub⟩
  refine hedit.resume hallowed hclick fun hcheck => ?_
  cases hcheck
  exact hfound rfl

/-- An answer leaves the session with what its handler does with it. -/
theorem Inv.finish (h : Inv js allowed s) {request : Pending} (reply : Reply)
    (hrequest : request.Ok allowed s.supported) : Inv js allowed (s.finish js request reply) := by
  cases request with
  | position config staker =>
      cases reply with
      | position found =>
          cases found with
          | none =>
              rw [FormSession.finish]
              refine h.edit (h.inStep.of_eq rfl rfl rfl) ?_
              exact h.checked
          | some position =>
              have hedit : Inv js allowed (s.edit fun form =>
                  { form with
                    signerManager := position.signer
                    startCycle := bigintToString position.firstRewardCycle }) := by
                refine h.edit ?_ ?_
                · exact h.inStep.of_eq rfl rfl rfl
                · exact h.checked
              exact hedit.checkSignerManagerTrait hrequest fun _ hnone => by cases hnone
      | failed text => exact h
      | traitCheck result => exact h
      | registration row => exact h
  | traitCheck config signerManager click =>
      cases reply with
      | traitCheck result => exact h.traitChecked result hrequest
      | failed text => exact h.uncheck hrequest.1 hrequest.2.2 fun hfound => by cases hfound
      | position found => exact h
      | registration row => exact h
  | registration config staker signerManager =>
      cases reply with
      | registration row =>
          cases row with
          | none =>
              rw [FormSession.finish]
              refine h.edit (h.inStep.of_eq rfl rfl rfl) ?_
              exact h.checked
          | some row =>
              have hnoted : Inv js allowed (s.noteLoaded ⟨config, staker, signerManager, row⟩) :=
                ⟨h.config, h.inStep, h.checked, h.supported, h.pending, h.requests⟩
              rw [FormSession.finish]
              refine hnoted.edit ?_ ?_
              · exact hnoted.inStep.of_eq rfl rfl rfl
              · exact hnoted.checked
      | failed text =>
          rw [FormSession.finish]
          refine h.edit (h.inStep.of_eq rfl rfl rfl) ?_
          exact h.checked
      | position found => exact h
      | traitCheck result => exact h

/-- One step: the two fields of the price are written together, and a check
that is entered has been made. -/
theorem Inv.step (h : Inv js allowed s) (event : FormEvent)
    (hallowed : ∀ config, event = .configured config → allowed config) :
    Inv js allowed (s.step js event) := by
  cases event with
  | typeStaker text =>
      rw [FormSession.step]
      refine h.edit (RegisterForm.inStep_of_blank rfl) ?_
      exact fun hcheck => by cases hcheck
  | typeSignerManager text =>
      rw [FormSession.step]
      refine h.edit (h.inStep.of_eq rfl rfl rfl) ?_
      exact fun hcheck => by cases hcheck
  | typeStartCycle text =>
      rw [FormSession.step]
      refine h.edit (h.inStep.of_eq rfl rfl rfl) ?_
      exact h.checked
  | chooseCadence oneClaimPerCycle =>
      rw [FormSession.step]
      refine h.edit (h.inStep.of_eq rfl rfl rfl) ?_
      exact h.checked
  | typeClaimCount text =>
      refine h.edit (RegisterForm.inStep_syncFeeFromClaimCount text s.form) ?_
      exact h.checked.syncFeeFromClaimCount text
  | typeFeeStx text =>
      refine h.edit (RegisterForm.inStep_handleFeeStxChange text s.form) ?_
      exact h.checked.handleFeeStxChange text
  | walletChanged wallet =>
      have hwallet : Inv js allowed { s with wallet := wallet } :=
        ⟨h.config, h.inStep, h.checked, h.supported, h.pending, h.requests⟩
      rw [FormSession.step]
      refine hwallet.edit ?_ ?_
      · split
        · exact h.inStep.of_eq rfl rfl rfl
        · exact h.inStep
      · split
        · exact h.checked
        · exact h.checked
  | configured config =>
      have hconfig : Inv js allowed { s with config := config } :=
        ⟨hallowed config rfl, h.inStep, h.checked, h.supported, h.pending, h.requests⟩
      rw [FormSession.step]
      refine hconfig.edit ?_ ?_
      · split
        · exact h.inStep.setFeePerClaim none
        · exact RegisterForm.inStep_of_blank rfl
      · split
        · exact h.checked.setFeePerClaim none
        · exact fun hcheck => by cases hcheck
  | feeLoaded feePerClaim =>
      exact h.edit (h.inStep.setFeePerClaim _) (h.checked.setFeePerClaim _)
  | loadDefaults =>
      show Inv js allowed s.loadDefaults
      unfold FormSession.loadDefaults
      split
      · exact h
      · have hedit : Inv js allowed (s.edit RegisterForm.clearRegistration) :=
          h.edit (h.inStep.of_eq rfl rfl rfl) h.checked
        exact hedit.await h.config
  | loadRegistration => exact h.loadRegistration _ _ _
  | register =>
      rw [FormSession.step]
      split
      · refine h.checkSignerManagerTrait h.config fun c hc => ?_
        cases hc
        exact ⟨rfl, rfl, h.inStep, h.checked⟩
      · refine h.handOver h.config h.inStep fun call hcall => ?_
        exact Handed.of_register hcall h.checked fun hcheck => by cases hcheck
  | addClaims => exact h.handOver h.config h.inStep fun call hcall => .addClaims hcall
  | cancel => exact h.handOver h.config h.inStep fun call hcall => .cancel hcall
  | topUpSubmitted i =>
      rw [FormSession.step]
      split
      · exact h
      · have hblank : Inv js allowed (s.edit fun form =>
            { form with feeStx := [], claimCount := [] }) := by
          refine h.edit (RegisterForm.inStep_of_blank rfl) ?_
          exact h.checked
        exact hblank.loadRegistration _ _ _
  | cancelSubmitted =>
      rw [FormSession.step]
      refine h.edit (h.inStep.of_eq rfl rfl rfl) ?_
      exact h.checked
  | answered i reply =>
      rw [FormSession.step]
      split
      · exact h
      · next request hrequest =>
          have herased : Inv js allowed { s with pending := s.pending.eraseIdx i } :=
            ⟨h.config, h.inStep, h.checked, h.supported, fun request' hmem =>
              h.pending request' (List.mem_of_mem_eraseIdx hmem), h.requests⟩
          exact herased.finish reply (h.pending request (List.mem_of_getElem? hrequest))

theorem Inv.run (h : Inv js allowed s) (events : List FormEvent)
    (hallowed : ∀ config, .configured config ∈ events → allowed config) :
    Inv js allowed (s.run js events) := by
  induction events generalizing s with
  | nil => exact h
  | cons event events ih =>
      refine ih (h.step event fun config hconfig => ?_) fun config hmem => ?_
      · exact hallowed config (hconfig ▸ List.mem_cons_self)
      · exact hallowed config (List.mem_cons_of_mem _ hmem)

end FormSession

/-! ## Results -/

/-- A handler that buys claims asks for the number the form computes, and
limits the account to what that costs. -/
theorem Handed.bought (h : Handed js supported click call) (hjs : js.Exact)
    (hname : call.functionName ≠ "cancel-registration") {fee : Int}
    (hfee : click.form.feePerClaim = some fee) (hpos : 0 < fee) :
    ∃ (n : Nat) (sender : Principal), click.form.numClaims = some (n : Int) ∧
      call.functionArgs.getLast? = some (.uint n) ∧
      js.principal (click.wallet.stxAddress.getD (trim click.form.staker)) = some sender ∧
      call.postConditions = [⟨sender, n * fee⟩] := by
  have hlimit : ∀ {n : Nat} {conditions : List PostCondition},
      click.form.numClaims = some (n : Int) →
      click.form.registrationPostConditions js
        (click.wallet.stxAddress.getD (trim click.form.staker)) n = some conditions →
      ∃ sender, js.principal (click.wallet.stxAddress.getD (trim click.form.staker)) =
          some sender ∧ conditions = [⟨sender, n * fee⟩] := by
    intro n conditions hn hconditions
    have hrange := parseClaimCount_range hn
    have hescrow : 0 < (n : Int) * fee := Int.mul_pos (by omega) hpos
    unfold RegisterForm.registrationPostConditions RegisterForm.escrowMicro
      feeMicroForClaimCount at hconditions
    rw [hfee] at hconditions
    simp only [Option.getD_some, if_neg (Int.not_le.mpr hescrow)] at hconditions
    obtain ⟨sender, hsender, rfl⟩ := Option.map_eq_some_iff.mp hconditions
    exact ⟨sender, hsender, rfl⟩
  cases h with
  | register check hsubmit =>
      obtain ⟨staker, signerManager, start, numClaims, oneClaimPerCycle, m, n, conditions, -, -, -,
        -, -, -, -, hcount, hn, hconditions, rfl⟩ := RegisterForm.handleRegister_args hsubmit
      obtain ⟨rfl, -⟩ := (hjs _ _).mp hn
      obtain ⟨sender, hsender, hsame⟩ := hlimit hcount hconditions
      exact ⟨n, sender, hcount, rfl, hsender, hsame⟩
  | addClaims hsubmit =>
      obtain ⟨staker, signerManager, numClaims, n, conditions, -, -, -, hcount, hn, hconditions,
        rfl⟩ := RegisterForm.handleAddClaims_args hsubmit
      obtain ⟨rfl, -⟩ := (hjs _ _).mp hn
      obtain ⟨sender, hsender, hsame⟩ := hlimit hcount hconditions
      exact ⟨n, sender, hcount, rfl, hsender, hsame⟩
  | cancel hsubmit =>
      obtain ⟨_, _, _, _, -, -, -, -, rfl⟩ := RegisterForm.handleCancel_args hsubmit
      exact absurd rfl hname

/-- No part of a configuration in the key of a check has the character that
separates them. -/
def FormConfig.Plain (config : FormConfig) : Prop :=
  '|' ∉ config.network ∧ '|' ∉ config.claimsContract

namespace Sample

/-- Three claims are bought for an escrow of 0.035 STX; the number is changed
while the signer-manager is checked. -/
def buying : List FormEvent :=
  [.typeSignerManager "ST2.signer-manager ".toList, .typeStartCycle "1".toList,
    .chooseCadence false, .feeLoaded (some 10000), .typeFeeStx "0.035".toList, .register,
    .typeClaimCount "7".toList, .answered 0 (.traitCheck .supported)]

def bought : FormSession := (FormSession.start formConfig wallet).run Sample.js buying

theorem bought_request : ∃ click call, (click, call) ∈ bought.requests ∧
    click.form.feePerClaim = some 10000 ∧ call.functionName = "register-for-claims" := by
  have hlength : 0 < bought.requests.length := by decide +kernel
  have hall : ∀ r ∈ bought.requests, r.1.form.feePerClaim = some 10000 ∧
      r.2.functionName = "register-for-claims" := by decide +kernel
  obtain ⟨r, hmem⟩ := List.exists_mem_of_length_pos hlength
  exact ⟨r.1, r.2, hmem, hall r hmem⟩

theorem plain : ∀ config, .configured config ∈ buying → config.Plain := by
  intro config hmem
  simp only [buying, List.mem_cons, List.not_mem_nil, reduceCtorEq, or_self] at hmem

end Sample

/-- **The two fields of the price stay in step.** In every session, whatever is
typed and whenever fees are loaded: the escrow field pays for the number of
claims the form would buy, and a call that is handed to the wallet asks for
this number and lets the account send what it costs, which the escrow field has
covered when the button was pressed. -/
theorem fields_in_step (hjs : js.Exact) (config : FormConfig) (wallet : WalletState)
    (events : List FormEvent) :
    ((FormSession.start config wallet).run js events).form.InStep ∧
    ∀ click call, (click, call) ∈ ((FormSession.start config wallet).run js events).requests →
      call.functionName ≠ "cancel-registration" →
      ∀ fee, click.form.feePerClaim = some fee → 0 < fee →
        ∃ (n : Nat) (m : Int) (sender : Principal), 1 ≤ n ∧ n ≤ 192 ∧
          call.functionArgs.getLast? = some (.uint n) ∧
          js.principal (click.wallet.stxAddress.getD (trim click.form.staker)) = some sender ∧
          call.postConditions = [⟨sender, n * fee⟩] ∧
          parseStxToMicro click.form.feeStx = some m ∧ Pays fee n m := by
  have hstart : FormSession.Inv js (fun _ => True) (FormSession.start config wallet) :=
    FormSession.Inv.start js trivial wallet
  have hinv := hstart.run events fun _ _ => trivial
  refine ⟨hinv.inStep, fun click call hmem hname fee hfee hpos => ?_⟩
  obtain ⟨-, hstep, hhanded⟩ := hinv.requests click call hmem
  obtain ⟨n, sender, hcount, hargs, hsender, hconditions⟩ := hhanded.bought hjs hname hfee hpos
  obtain ⟨m, hread, hpays⟩ := hstep fee n hfee hpos hcount
  have hrange := parseClaimCount_range hcount
  exact ⟨n, m, sender, by omega, by omega, hargs, hsender, hconditions, hread, hpays⟩

theorem fields_in_step_bought : Sample.bought.form.InStep ∧
    ∃ click call, (click, call) ∈ Sample.bought.requests ∧
      ∃ (n : Nat) (m : Int), call.functionArgs.getLast? = some (.uint n) ∧
        parseStxToMicro click.form.feeStx = some m ∧ Pays 10000 n m := by
  obtain ⟨hform, hrequests⟩ :=
    fields_in_step Sample.js_exact Sample.formConfig Sample.wallet Sample.buying
  obtain ⟨click, call, hmem, hfee, hname⟩ := Sample.bought_request
  have hbuys : call.functionName ≠ "cancel-registration" := by
    rw [hname]
    decide
  obtain ⟨n, m, _, -, -, hargs, -, -, hread, hpays⟩ :=
    hrequests click call hmem hbuys 10000 hfee (by decide)
  exact ⟨hform, click, call, hmem, n, m, hargs, hread, hpays⟩

theorem append_cons_inj {c : Char} {l l' r r' : Text} (hl : c ∉ l) (hl' : c ∉ l')
    (h : l ++ c :: r = l' ++ c :: r') : l = l' ∧ r = r' := by
  induction l generalizing l' with
  | nil =>
      cases l' with
      | nil => exact ⟨rfl, (List.cons.inj h).2⟩
      | cons d l' => exact absurd (List.mem_cons.mpr (.inl (List.cons.inj h).1)) hl'
  | cons d l ih =>
      cases l' with
      | nil => exact absurd (List.mem_cons.mpr (.inl (List.cons.inj h).1.symm)) hl
      | cons d' l' =>
          obtain ⟨rfl, hrest⟩ := List.cons.inj h
          obtain ⟨rfl, hr⟩ := ih (fun hmem => hl (List.mem_cons_of_mem _ hmem))
            (fun hmem => hl' (List.mem_cons_of_mem _ hmem)) hrest
          exact ⟨rfl, hr⟩

/-- The key of a check says what has been checked and for which registry. -/
theorem traitCheckScopeKey_inj {config config' : FormConfig} (hplain : config.Plain)
    (hplain' : config'.Plain) {signerManager signerManager' : Text}
    (h : traitCheckScopeKey config signerManager = traitCheckScopeKey config' signerManager') :
    config.network = config'.network ∧ config.claimsContract = config'.claimsContract ∧
      trim signerManager = trim signerManager' := by
  obtain ⟨hnetwork, hrest⟩ := append_cons_inj hplain.1 hplain'.1 h
  obtain ⟨hcontract, hmanager⟩ := append_cons_inj hplain.2 hplain'.2 hrest
  exact ⟨hnetwork, hcontract, hmanager⟩

/-- **A signer-manager is checked before the form registers with it.** In every
session, in whatever order checks are answered while the fields and the
configuration change: when a registration is handed to the wallet, a check for
the registry it goes to, on the same network, has been answered with
`supported`, and it was a check of the signer-manager the call names. -/
theorem registers_checked (js : StacksJs) {config : FormConfig} (wallet : WalletState)
    (events : List FormEvent) (hconfig : config.Plain)
    (hevents : ∀ config, .configured config ∈ events → config.Plain) :
    ∀ click call, (click, call) ∈ ((FormSession.start config wallet).run js events).requests →
      call.functionName = "register-for-claims" →
      ∃ (checked : FormConfig × Text) (staker signerManager : Principal)
          (rest : List Client.ClarityValue),
        checked ∈ ((FormSession.start config wallet).run js events).supported ∧
        checked.1.network = click.config.network ∧ checked.1.claimsContract = call.contract ∧
        js.principal checked.2 = some signerManager ∧
        call.functionArgs = .principal staker :: .principal signerManager :: rest := by
  intro click call hmem hname
  have hinv := (FormSession.Inv.start js hconfig wallet).run events hevents
  obtain ⟨hplain, -, hhanded⟩ := hinv.requests click call hmem
  cases hhanded with
  | register check hsubmit hsupports =>
      obtain ⟨checked, hchecked, hkey⟩ := hsupports
      obtain ⟨hplain', htrim⟩ := hinv.supported checked hchecked
      obtain ⟨hnetwork, hcontract, hmanager⟩ := traitCheckScopeKey_inj hplain' hplain hkey
      obtain ⟨staker, signerManager, start, numClaims, oneClaimPerCycle, m, n, conditions, -, -, -,
        hprincipal, -, -, -, -, -, -, rfl⟩ := RegisterForm.handleRegister_args hsubmit
      rw [← hmanager, htrim] at hprincipal
      exact ⟨checked, staker, signerManager, _, hchecked, hnetwork, hcontract, hprincipal, rfl⟩
  | addClaims hsubmit =>
      obtain ⟨_, _, _, _, _, -, -, -, -, -, -, rfl⟩ := RegisterForm.handleAddClaims_args hsubmit
      exact absurd hname (show "add-claims" ≠ "register-for-claims" by decide)
  | cancel hsubmit =>
      obtain ⟨_, _, _, _, -, -, -, -, rfl⟩ := RegisterForm.handleCancel_args hsubmit
      exact absurd hname (show "cancel-registration" ≠ "register-for-claims" by decide)

theorem registers_checked_bought : ∃ click call, (click, call) ∈ Sample.bought.requests ∧
    ∃ checked ∈ Sample.bought.supported, checked.1.claimsContract = call.contract ∧
      ∃ signerManager rest, Sample.js.principal checked.2 = some signerManager ∧
        call.functionArgs.tail = .principal signerManager :: rest := by
  obtain ⟨click, call, hmem, -, hname⟩ := Sample.bought_request
  have hplain : Sample.formConfig.Plain := by
    unfold FormConfig.Plain
    decide
  obtain ⟨checked, staker, signerManager, rest, hchecked, -, hcontract, hprincipal, hargs⟩ :=
    registers_checked Sample.js Sample.wallet Sample.buying hplain Sample.plain click call hmem
      hname
  refine ⟨click, call, hmem, checked, hchecked, hcontract, signerManager, rest, hprincipal, ?_⟩
  rw [hargs, List.tail_cons]

end Spox.Webapp
