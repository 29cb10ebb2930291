import Spox.Webapp.FormRuns

/-!
# Webapp — registrations on the page

What `loadRegistration` reads is put on the page when it arrives, whatever the
fields say by then. So the page shows a registration of the fields on it as
long as these are left alone while something is loaded, and nothing else is
loaded meanwhile (`cancels_loaded`).
-/

namespace Spox.Webapp

open Spox.Lib Spox.RewardClaims

/-! ## Letting loads finish -/

/-- Staking details or a registration are being loaded. -/
def Pending.isLoad : Pending → Bool
  | .position _ _ => true
  | .traitCheck _ _ _ => false
  | .registration _ _ _ => true

namespace FormSession

/-- Nothing is being loaded. -/
def Idle (s : FormSession) : Prop := ∀ request ∈ s.pending, request.isLoad = false

/-- What names the registration on the page. -/
def fields (s : FormSession) : FormConfig × Text × Text :=
  (s.config, s.form.staker, s.form.signerManager)

end FormSession

def Click.fields (click : Click) : FormConfig × Text × Text :=
  (click.config, click.form.staker, click.form.signerManager)

/-- Fields are changed and loads are started while nothing is being loaded, and
they are left alone until the wallet has submitted a top-up. -/
def FormEvent.Patient (s : FormSession) : FormEvent → Prop
  | .typeStaker _ | .typeSignerManager _ | .walletChanged _ | .configured _ | .loadDefaults
  | .loadRegistration => s.Idle
  | .topUpSubmitted i => s.Idle ∧ ∀ click call, s.requests[i]? = some (click, call) →
      click.fields = s.fields
  | _ => True

namespace FormSession

/-- A session of patient events. -/
def Patient (js : StacksJs) : FormSession → List FormEvent → Prop
  | _, [] => True
  | s, event :: events => event.Patient s ∧ Patient js (s.step js event) events

/-! ## The registration on the page -/

/-- A row of the registration that fields name. -/
def LoadedFor (loaded : List LoadedRow) (fields : FormConfig × Text × Text)
    (row : StakerRegistration) : Prop :=
  ⟨fields.1, trim fields.2.1, trim fields.2.2, row⟩ ∈ loaded

structure Current (s : FormSession) : Prop where
  shown : ∀ row, s.form.registration = some row → LoadedFor s.loaded s.fields row
  named : ∀ loaded ∈ s.loaded, loaded.staker ≠ []
  loads : s.pending.countP Pending.isLoad ≤ 1
  registration : ∀ config staker signerManager,
    .registration config staker signerManager ∈ s.pending →
      config = s.config ∧ staker = trim s.form.staker ∧
        signerManager = trim s.form.signerManager ∧ staker ≠ []
  position : ∀ config staker, .position config staker ∈ s.pending → s.form.registration = none
  cancels : ∀ click call, (click, call) ∈ s.requests →
    call.functionName = "cancel-registration" →
      ∀ row, click.form.registration = some row → LoadedFor s.loaded click.fields row

variable {js : StacksJs} {s : FormSession} {click : Click} {config : FormConfig}

/-- The fields of the price are none of those. -/
theorem syncFeeFromClaimCount_fields (countInput : Text) (form : RegisterForm) :
    (form.syncFeeFromClaimCount countInput).staker = form.staker ∧
      (form.syncFeeFromClaimCount countInput).signerManager = form.signerManager ∧
      (form.syncFeeFromClaimCount countInput).registration = form.registration := by
  unfold RegisterForm.syncFeeFromClaimCount
  split
  · exact ⟨rfl, rfl, rfl⟩
  · split
    · exact ⟨rfl, rfl, rfl⟩
    · exact ⟨rfl, rfl, rfl⟩

theorem handleFeeStxChange_fields (value : Text) (form : RegisterForm) :
    (form.handleFeeStxChange value).staker = form.staker ∧
      (form.handleFeeStxChange value).signerManager = form.signerManager ∧
      (form.handleFeeStxChange value).registration = form.registration := by
  unfold RegisterForm.handleFeeStxChange
  split
  · exact ⟨rfl, rfl, rfl⟩
  · split
    · exact ⟨rfl, rfl, rfl⟩
    · split
      · exact ⟨rfl, rfl, rfl⟩
      · split
        · exact ⟨rfl, rfl, rfl⟩
        · exact ⟨rfl, rfl, rfl⟩

theorem setFeePerClaim_fields (feePerClaim : Option Int) (form : RegisterForm) :
    (form.setFeePerClaim feePerClaim).staker = form.staker ∧
      (form.setFeePerClaim feePerClaim).signerManager = form.signerManager ∧
      (form.setFeePerClaim feePerClaim).registration = form.registration := by
  unfold RegisterForm.setFeePerClaim
  split
  · exact ⟨rfl, rfl, rfl⟩
  · cases feePerClaim with
    | none => exact ⟨rfl, rfl, rfl⟩
    | some fee =>
        simp only
        split
        · exact ⟨rfl, rfl, rfl⟩
        · split
          · exact ⟨rfl, rfl, rfl⟩
          · exact ⟨rfl, rfl, rfl⟩

theorem LoadedFor.mono {loaded loaded' : List LoadedRow} (hsub : loaded ⊆ loaded')
    {fields : FormConfig × Text × Text} {row : StakerRegistration}
    (h : LoadedFor loaded fields row) : LoadedFor loaded' fields row := hsub h

theorem Idle.countP (h : s.Idle) : s.pending.countP Pending.isLoad = 0 :=
  List.countP_eq_zero.mpr fun request hmem => by rw [h request hmem]; decide

theorem Current.start (config : FormConfig) (wallet : WalletState) :
    Current (start config wallet) where
  shown _ hrow := by cases hrow
  named _ hmem := absurd hmem List.not_mem_nil
  loads := Nat.zero_le 1
  registration _ _ _ hmem := absurd hmem List.not_mem_nil
  position _ _ hmem := absurd hmem List.not_mem_nil
  cancels _ _ hmem := absurd hmem List.not_mem_nil

/-- An edit that leaves the fields and the registration alone. -/
theorem Current.edit (h : Current s) {f : RegisterForm → RegisterForm}
    (hstaker : (f s.form).staker = s.form.staker)
    (hmanager : (f s.form).signerManager = s.form.signerManager)
    (hregistration : (f s.form).registration = s.form.registration) : Current (s.edit f) where
  shown row hrow := by
    have hfields : (s.edit f).fields = s.fields := by
      show (s.config, (f s.form).staker, (f s.form).signerManager) = s.fields
      rw [hstaker, hmanager]
      rfl
    rw [hfields]
    exact h.shown row (hregistration ▸ hrow)
  named := h.named
  loads := h.loads
  registration config staker signerManager hmem := by
    show config = s.config ∧ staker = trim (f s.form).staker ∧
      signerManager = trim (f s.form).signerManager ∧ staker ≠ []
    rw [hstaker, hmanager]
    exact h.registration config staker signerManager hmem
  position config staker hmem := hregistration.trans (h.position config staker hmem)
  cancels := h.cancels

/-- With no load in flight, the fields may change if no registration is left
on the page. -/
theorem Current.clear (h : Current s) (hidle : s.Idle) {form : RegisterForm}
    (config : FormConfig) (wallet : WalletState) (hform : form.registration = none) :
    Current { s with config := config, wallet := wallet, form := form } where
  shown row hrow := by
    rw [show form.registration = some row from hrow] at hform
    cases hform
  named := h.named
  loads := h.loads
  registration _ _ _ hmem := by cases hidle _ hmem
  position _ _ hmem := by cases hidle _ hmem
  cancels := h.cancels

/-- Nobody is the staker of a registration that is shown. -/
theorem Current.unnamed (h : Current s) (hstaker : s.form.staker = []) :
    s.form.registration = none := by
  cases hrow : s.form.registration with
  | none => rfl
  | some row =>
      have hloaded := h.named _ (h.shown row hrow)
      refine absurd ?_ hloaded
      show trim s.form.staker = []
      rw [hstaker]
      rfl

theorem Current.handOver (h : Current s) {outcome : Outcome}
    (hcancel : ∀ call, outcome = .request call → call.functionName = "cancel-registration" →
      ∀ row, click.form.registration = some row → LoadedFor s.loaded click.fields row) :
    Current (s.handOver click outcome) := by
  unfold FormSession.handOver
  split
  · next call =>
      refine ⟨h.shown, h.named, h.loads, h.registration, h.position, fun click' call' hmem => ?_⟩
      rcases List.mem_append.mp hmem with hold | hnew
      · exact h.cancels click' call' hold
      · cases List.mem_singleton.mp hnew
        exact hcancel call rfl
  · exact h

theorem Current.resume (h : Current s) (click : Option Click)
    (check : Except String (Option SignerManagerTraitCheck)) :
    Current (s.resume js click check) := by
  unfold FormSession.resume
  cases click with
  | none => exact h
  | some click =>
      refine h.handOver fun call hcall hname => ?_
      obtain ⟨_, _, _, _, _, _, _, _, -, -, -, -, -, -, -, -, -, -, rfl⟩ :=
        RegisterForm.handleRegister_args hcall
      exact absurd hname (show "register-for-claims" ≠ "cancel-registration" by decide)

theorem Current.await (h : Current s) {request : Pending} (hrequest : request.isLoad = false) :
    Current { s with pending := s.pending ++ [request] } where
  shown := h.shown
  named := h.named
  loads := by
    rw [List.countP_append, List.countP_singleton, hrequest]
    exact h.loads
  registration config staker signerManager hmem := by
    rcases List.mem_append.mp hmem with hold | hnew
    · exact h.registration config staker signerManager hold
    · cases List.mem_singleton.mp hnew
      cases hrequest
  position config staker hmem := by
    rcases List.mem_append.mp hmem with hold | hnew
    · exact h.position config staker hold
    · cases List.mem_singleton.mp hnew
      cases hrequest
  cancels := h.cancels

theorem Current.checkSignerManagerTrait (h : Current s) (config : FormConfig)
    (signerManagerId : Text) (click : Option Click) :
    Current (s.checkSignerManagerTrait js config signerManagerId click) := by
  unfold FormSession.checkSignerManagerTrait
  simp only
  split
  · have hedit : Current (s.edit fun form =>
        { form with traitCheck := none, traitCheckScope := none }) := by
      refine h.edit ?_ ?_ ?_
      · rfl
      · rfl
      · rfl
    exact hedit.resume click (.ok none)
  · exact h.await rfl

/-- A registration is loaded for the fields of the page. -/
theorem Current.loadRegistration (h : Current s) (hidle : s.Idle) :
    Current (s.loadRegistration s.config s.form.staker s.form.signerManager) := by
  unfold FormSession.loadRegistration
  split
  · exact h
  · next hgiven =>
      rw [Bool.or_eq_true, Bool.or_eq_true, not_or, not_or, List.isEmpty_iff] at hgiven
      refine ⟨h.shown, h.named, ?_, fun config staker signerManager hmem => ?_,
        fun config staker hmem => ?_, h.cancels⟩
      · rw [List.countP_append, hidle.countP]
        exact Nat.le_refl 1
      · rcases List.mem_append.mp hmem with hold | hnew
        · cases hidle _ hold
        · cases List.mem_singleton.mp hnew
          exact ⟨rfl, rfl, rfl, hgiven.1.1⟩
      · rcases List.mem_append.mp hmem with hold | hnew
        · cases hidle _ hold
        · cases List.mem_singleton.mp hnew

/-- When the load is answered, nothing else is being loaded. -/
theorem Current.idle (h : Current s) {i : Nat} {request : Pending}
    (hrequest : s.pending[i]? = some request) (hload : request.isLoad = true) :
    Idle { s with pending := s.pending.eraseIdx i } := by
  obtain ⟨hlt, rfl⟩ := List.getElem?_eq_some_iff.mp hrequest
  have hperm := List.getElem_cons_eraseIdx_perm hlt
  have hcount := hperm.countP_eq Pending.isLoad
  rw [List.countP_cons, if_pos hload] at hcount
  have hloads := h.loads
  have hzero : (s.pending.eraseIdx i).countP Pending.isLoad = 0 := by omega
  intro other hmem
  exact Bool.eq_false_iff.mpr (List.countP_eq_zero.mp hzero other hmem)

theorem Current.erase (h : Current s) (i : Nat) :
    Current { s with pending := s.pending.eraseIdx i } where
  shown := h.shown
  named := h.named
  loads := (List.Sublist.countP_le (List.eraseIdx_sublist s.pending i)).trans h.loads
  registration config staker signerManager hmem :=
    h.registration config staker signerManager (List.mem_of_mem_eraseIdx hmem)
  position config staker hmem := h.position config staker (List.mem_of_mem_eraseIdx hmem)
  cancels := h.cancels

/-- A row arrives for the fields of the page, and is put there. -/
theorem Current.show (h : Current s) (hidle : s.Idle) {staker signerManager : Text}
    (row : StakerRegistration) (hstaker : staker = trim s.form.staker)
    (hmanager : signerManager = trim s.form.signerManager) (hnamed : staker ≠ []) :
    Current ((s.noteLoaded ⟨s.config, staker, signerManager, row⟩).edit fun form =>
      { form with registration := some row, oneClaimPerCycle := some row.oneClaimPerCycle }) where
  shown row' hrow := by
    cases hrow
    subst hstaker hmanager
    exact List.mem_append_right _ (List.mem_singleton_self _)
  named loaded hmem := by
    rcases List.mem_append.mp hmem with hold | hnew
    · exact h.named loaded hold
    · rw [List.mem_singleton.mp hnew]
      exact hnamed
  loads := h.loads
  registration _ _ _ hmem := by cases hidle _ hmem
  position _ _ hmem := by cases hidle _ hmem
  cancels click call hmem hname row' hrow :=
    (h.cancels click call hmem hname row' hrow).mono (List.subset_append_left _ _)

theorem Current.traitChecked (h : Current s) {config : FormConfig} {signerManager : Text}
    {click : Option Click} (result : SignerManagerTraitCheck) :
    Current (s.finish js (.traitCheck config signerManager click) (.traitCheck result)) := by
  have hnoted : Current (s.noteSupported config signerManager result) := by
    unfold FormSession.noteSupported
    split
    · exact ⟨h.shown, h.named, h.loads, h.registration, h.position, h.cancels⟩
    · exact h
  have hedit : Current ((s.noteSupported config signerManager result).edit fun form =>
      { form with
        traitCheck := some result
        traitCheckScope := some (traitCheckScopeKey config signerManager) }) := by
    refine hnoted.edit ?_ ?_ ?_
    · rfl
    · rfl
    · rfl
  exact hedit.resume click _

/-- What an answer to the `i`-th request does: a load is for the fields of the
page, as these have been left alone. -/
theorem Current.answered (h : Current s) {i : Nat} {request : Pending}
    (hrequest : s.pending[i]? = some request) (reply : Reply) :
    Current (finish js { s with pending := s.pending.eraseIdx i } request reply) := by
  have herased := h.erase i
  have hmem := List.mem_of_getElem? hrequest
  cases request with
  | position config staker =>
      have hidle := h.idle hrequest rfl
      have hnone := h.position config staker hmem
      cases reply with
      | position found =>
          cases found with
          | none => exact herased.clear hidle s.config s.wallet hnone
          | some position =>
              have hclear : Current { s with
                  pending := s.pending.eraseIdx i
                  form := { s.form with
                    signerManager := position.signer
                    startCycle := bigintToString position.firstRewardCycle } } :=
                herased.clear hidle s.config s.wallet hnone
              exact hclear.checkSignerManagerTrait config position.signer none
      | failed text => exact herased
      | traitCheck result => exact herased
      | registration row => exact herased
  | traitCheck config signerManager click =>
      cases reply with
      | traitCheck result => exact herased.traitChecked result
      | failed text =>
          have hedit : Current (FormSession.edit (fun form =>
              { form with traitCheck := none, traitCheckScope := none })
              { s with pending := s.pending.eraseIdx i }) := by
            refine herased.edit ?_ ?_ ?_
            · rfl
            · rfl
            · rfl
          exact hedit.resume click (.error text)
      | position found => exact herased
      | registration row => exact herased
  | registration config staker signerManager =>
      have hidle := h.idle hrequest rfl
      obtain ⟨rfl, hstaker, hmanager, hnamed⟩ := h.registration config staker signerManager hmem
      cases reply with
      | registration row =>
          cases row with
          | none => exact herased.clear hidle s.config s.wallet rfl
          | some row => exact herased.show hidle row hstaker hmanager hnamed
      | failed text => exact herased.clear hidle s.config s.wallet rfl
      | position found => exact herased
      | traitCheck result => exact herased

/-- One patient step. -/
theorem Current.step (h : Current s) (event : FormEvent) (hpatient : event.Patient s) :
    Current (s.step js event) := by
  cases event with
  | typeStaker text => exact h.clear hpatient s.config s.wallet rfl
  | typeSignerManager text => exact h.clear hpatient s.config s.wallet rfl
  | typeStartCycle text =>
      rw [FormSession.step]
      refine h.edit ?_ ?_ ?_
      · rfl
      · rfl
      · rfl
  | chooseCadence oneClaimPerCycle =>
      rw [FormSession.step]
      refine h.edit ?_ ?_ ?_
      · rfl
      · rfl
      · rfl
  | typeClaimCount text =>
      obtain ⟨hstaker, hmanager, hregistration⟩ := syncFeeFromClaimCount_fields text s.form
      exact h.edit hstaker hmanager hregistration
  | typeFeeStx text =>
      obtain ⟨hstaker, hmanager, hregistration⟩ := handleFeeStxChange_fields text s.form
      exact h.edit hstaker hmanager hregistration
  | walletChanged wallet =>
      rw [FormSession.step]
      by_cases hprefill : s.form.staker = [] ∧ wallet.stxAddress ≠ s.wallet.stxAddress
      · rw [FormSession.edit, if_pos hprefill]
        exact h.clear hpatient s.config wallet (h.unnamed hprefill.1)
      · rw [FormSession.edit, if_neg hprefill]
        exact ⟨h.shown, h.named, h.loads, h.registration, h.position, h.cancels⟩
  | configured config =>
      rw [FormSession.step]
      by_cases hsame : config.network = s.config.network ∧ config.apiUrl = s.config.apiUrl ∧
          config.claimsContract = s.config.claimsContract
      · have hconfig : config = s.config := by
          obtain ⟨⟨apiUrl, claimsContract⟩, network⟩ := config
          obtain ⟨rfl, rfl, rfl⟩ := hsame
          rfl
        subst hconfig
        obtain ⟨hstaker, hmanager, hregistration⟩ := setFeePerClaim_fields none s.form
        rw [FormSession.edit, if_pos hsame]
        exact h.edit hstaker hmanager hregistration
      · rw [FormSession.edit, if_neg hsame]
        exact h.clear hpatient config s.wallet rfl
  | feeLoaded feePerClaim =>
      obtain ⟨hstaker, hmanager, hregistration⟩ :=
        setFeePerClaim_fields (feePerClaim.map Int.ofNat) s.form
      exact h.edit hstaker hmanager hregistration
  | loadDefaults =>
      show Current s.loadDefaults
      unfold FormSession.loadDefaults
      split
      · exact h
      · refine ⟨fun row hrow => (by cases hrow), h.named, ?_,
          fun config staker signerManager hmem => ?_, fun config staker hmem => rfl, h.cancels⟩
        · rw [List.countP_append, Idle.countP hpatient]
          exact Nat.le_refl 1
        · rcases List.mem_append.mp hmem with hold | hnew
          · cases hpatient _ hold
          · cases List.mem_singleton.mp hnew
  | loadRegistration => exact h.loadRegistration hpatient
  | register =>
      rw [FormSession.step]
      split
      · exact h.checkSignerManagerTrait s.config s.form.signerManager (some s.click)
      · exact h.resume (some s.click) (.ok none)
  | addClaims =>
      refine h.handOver fun call hcall hname => ?_
      obtain ⟨_, _, _, _, _, -, -, -, -, -, -, rfl⟩ := RegisterForm.handleAddClaims_args hcall
      exact absurd hname (show "add-claims" ≠ "cancel-registration" by decide)
  | cancel => exact h.handOver fun call hcall hname row hrow => h.shown row hrow
  | topUpSubmitted i =>
      obtain ⟨hidle, hleft⟩ := hpatient
      rw [FormSession.step]
      split
      · exact h
      · next click call hclick =>
          have hblank : Current (s.edit fun form =>
              { form with feeStx := [], claimCount := [] }) := by
            refine h.edit ?_ ?_ ?_
            · rfl
            · rfl
            · rfl
          have hfields := hleft click call hclick
          rw [Click.fields, FormSession.fields, Prod.mk.injEq, Prod.mk.injEq] at hfields
          obtain ⟨hconfig, hstaker, hmanager⟩ := hfields
          rw [hconfig, hstaker, hmanager]
          exact hblank.loadRegistration hidle
  | cancelSubmitted =>
      exact ⟨fun row hrow => (by cases hrow), h.named, h.loads, h.registration,
        fun config staker hmem => rfl, h.cancels⟩
  | answered i reply =>
      rw [FormSession.step]
      split
      · exact h
      · next request hrequest => exact h.answered hrequest reply

theorem Current.run (h : Current s) (events : List FormEvent) (hpatient : Patient js s events) :
    Current (s.run js events) := by
  induction events generalizing s with
  | nil => exact h
  | cons event events ih => exact ih (h.step event hpatient.1) hpatient.2

end FormSession

namespace Sample

/-- The registration of the connected staker is loaded and cancelled. -/
def cancelling : List FormEvent :=
  [.typeSignerManager "ST2.signer-manager".toList, .loadRegistration,
    .answered 0 (.registration (some ⟨none, 2, false, 7, none, 20000⟩)), .cancel]

def cancelled : FormSession := (FormSession.start formConfig wallet).run Sample.js cancelling

theorem cancelling_patient :
    FormSession.Patient Sample.js (FormSession.start formConfig wallet) cancelling :=
  ⟨fun _ hmem => absurd hmem List.not_mem_nil, fun _ hmem => absurd hmem List.not_mem_nil,
    trivial, trivial, trivial⟩

theorem cancelled_request : ∃ click call, (click, call) ∈ cancelled.requests ∧
    call.functionName = "cancel-registration" := by
  have hlength : 0 < cancelled.requests.length := by decide +kernel
  have hall : ∀ r ∈ cancelled.requests, r.2.functionName = "cancel-registration" := by
    decide +kernel
  obtain ⟨r, hmem⟩ := List.exists_mem_of_length_pos hlength
  exact ⟨r.1, r.2, hmem, hall r hmem⟩

end Sample

/-- **What is cancelled is what has been loaded.** In a session in which the
fields are left alone while staking details or a registration are loaded, and
until a top-up has been submitted: the registration on the page has been read
for the fields on it, and a cancellation that is handed to the wallet is of a
registration that has been read for the staker and the signer-manager it names
and the registry it goes to, with a refund of at most what has been read. -/
theorem cancels_loaded (js : StacksJs) (config : FormConfig) (wallet : WalletState)
    (events : List FormEvent)
    (hpatient : FormSession.Patient js (FormSession.start config wallet) events) :
    (∀ row, ((FormSession.start config wallet).run js events).form.registration = some row →
      FormSession.LoadedFor ((FormSession.start config wallet).run js events).loaded
        ((FormSession.start config wallet).run js events).fields row) ∧
    ∀ click call, (click, call) ∈ ((FormSession.start config wallet).run js events).requests →
      call.functionName = "cancel-registration" →
      ∃ (row : StakerRegistration) (staker signerManager : Principal),
        FormSession.LoadedFor ((FormSession.start config wallet).run js events).loaded
          click.fields row ∧
        call.contract = click.config.claimsContract ∧
        js.principal (trim click.form.staker) = some staker ∧
        js.principal (trim click.form.signerManager) = some signerManager ∧
        call.functionArgs = [.principal staker, .principal signerManager] ∧
        ∀ condition ∈ call.postConditions, condition.amount ≤ row.prepaidUstx := by
  have hcurrent := (FormSession.Current.start config wallet).run events hpatient
  have hstart : FormSession.Inv js (fun _ => True) (FormSession.start config wallet) :=
    FormSession.Inv.start js trivial wallet
  have hinv := hstart.run events fun _ _ => trivial
  refine ⟨hcurrent.shown, fun click call hmem hname => ?_⟩
  obtain ⟨-, -, hhanded⟩ := hinv.requests click call hmem
  cases hhanded with
  | register check hsubmit hsupports =>
      obtain ⟨_, _, _, _, _, _, _, _, -, -, -, -, -, -, -, -, -, -, rfl⟩ :=
        RegisterForm.handleRegister_args hsubmit
      exact absurd hname (show "register-for-claims" ≠ "cancel-registration" by decide)
  | addClaims hsubmit =>
      obtain ⟨_, _, _, _, _, -, -, -, -, -, -, rfl⟩ := RegisterForm.handleAddClaims_args hsubmit
      exact absurd hname (show "add-claims" ≠ "cancel-registration" by decide)
  | cancel hsubmit =>
      obtain ⟨row, staker, signerManager, conditions, hrow, hstaker, hmanager, hlimit, rfl⟩ :=
        RegisterForm.handleCancel_args hsubmit
      have hloaded := hcurrent.cancels click _ hmem hname row hrow
      refine ⟨row, staker, signerManager, hloaded, rfl, hstaker, hmanager, rfl,
        fun condition hcondition => ?_⟩
      split at hlimit
      · obtain ⟨registry, -, rfl⟩ := Option.map_eq_some_iff.mp hlimit
        rw [List.mem_singleton.mp hcondition]
      · cases hlimit
        exact absurd hcondition List.not_mem_nil

theorem cancels_loaded_sample : ∃ click call, (click, call) ∈ Sample.cancelled.requests ∧
    ∃ row, FormSession.LoadedFor Sample.cancelled.loaded click.fields row ∧
      ∀ condition ∈ call.postConditions, condition.amount ≤ row.prepaidUstx := by
  obtain ⟨-, hcancels⟩ := cancels_loaded Sample.js Sample.formConfig Sample.wallet
    Sample.cancelling Sample.cancelling_patient
  obtain ⟨click, call, hmem, hname⟩ := Sample.cancelled_request
  obtain ⟨row, staker, signerManager, hloaded, -, -, -, -, hlimit⟩ :=
    hcancels click call hmem hname
  exact ⟨click, call, hmem, row, hloaded, hlimit⟩

/-- A row that arrives after the staker has been changed is shown for the new
one. -/
example :
    let late := (FormSession.start Sample.formConfig Sample.wallet).run Sample.js
      [.typeSignerManager "ST2.signer-manager".toList, .loadRegistration, .typeStaker "ST3".toList,
        .answered 0 (.registration (some ⟨none, 2, false, 7, none, 20000⟩))]
    late.form.staker = "ST3".toList ∧ late.form.registration.isSome = true :=
  ⟨rfl, rfl⟩

end Spox.Webapp
