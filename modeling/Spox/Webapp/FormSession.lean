import Spox.Webapp.RegisterForm

/-!
# Webapp — a session of the register form

The register form over time: what is typed, the requests in flight and their
answers in any order, and the buttons. A handler works with the values it
closed over when it was called, so an answer can reach a form that has changed
since. Buttons that the page hides or disables can still be pressed here.
-/

namespace Spox.Webapp

open Spox.Lib

/-! ## Fields that follow each other -/

/-- `StakerPosition`, as `loadDefaults` reads it. -/
structure StakerPosition where
  signer : Text
  firstRewardCycle : Nat

namespace RegisterForm

/-- The form before anything is entered. -/
def blank (staker : Text) : RegisterForm where
  staker := staker
  signerManager := []
  startCycle := []
  oneClaimPerCycle := none
  feeStx := []
  claimCount := []
  feePerClaim := none
  traitCheck := none
  traitCheckScope := none
  registration := none

/-- `clearRegistration`. -/
def clearRegistration (form : RegisterForm) : RegisterForm := { form with registration := none }

/-- `clearForStakerChange`. -/
def clearForStakerChange (form : RegisterForm) : RegisterForm :=
  { blank form.staker with feePerClaim := form.feePerClaim }

/-- The escrow for a number of claims that is typed, if it starts with a
positive integer. -/
def escrowOfCount (feePerClaim : Int) (countInput : Text) : Option Text :=
  match parseInt (trim countInput) with
  | none => none
  | some parsed =>
      if parsed ≤ 0 then none
      else
        let capped := min parsed maxClaimInstallments
        some (formatStxFromMicro (feeMicroForClaimCount capped feePerClaim))

/-- `syncFeeFromClaimCount`. -/
def syncFeeFromClaimCount (countInput : Text) (form : RegisterForm) : RegisterForm :=
  match form.feePerClaim with
  | none => { form with claimCount := countInput }
  | some fee =>
      if fee = 0 then { form with claimCount := countInput }
      else
        { form with
          claimCount := countInput
          feeStx := (escrowOfCount fee countInput).getD [] }

/-- `handleFeeStxChange`. -/
def handleFeeStxChange (value : Text) (form : RegisterForm) : RegisterForm :=
  match form.feePerClaim with
  | none => { form with feeStx := value }
  | some fee =>
      if fee = 0 then { form with feeStx := value }
      else
        match parseStxToMicro value with
        | none => { form with feeStx := value, claimCount := [] }
        | some micro =>
            if micro ≤ 0 then { form with feeStx := value, claimCount := [] }
            else
              let raw := micro.tdiv fee
              { form with
                feeStx := value
                claimCount := if 0 < raw then bigintToString raw else [] }

/-- `setFeePerClaim`, and the effect that runs if this changes the fee. -/
def setFeePerClaim (feePerClaim : Option Int) (form : RegisterForm) : RegisterForm :=
  if form.feePerClaim = feePerClaim then form
  else
    match feePerClaim with
    | none => { form with feePerClaim := none }
    | some fee =>
        if fee = 0 ∨ trim form.claimCount = [] then { form with feePerClaim := some fee }
        else
          match escrowOfCount fee form.claimCount with
          | none => { form with feePerClaim := some fee }
          | some text => { form with feePerClaim := some fee, feeStx := text }

/-- `handleRegister` gets as far as `checkSignerManagerTrait`. -/
def callsTraitCheck (config : FormConfig) (form : RegisterForm) : Bool :=
  !((trim form.staker).isEmpty || (trim form.signerManager).isEmpty ||
      (trim form.startCycle).isEmpty) &&
    form.oneClaimPerCycle.isSome && form.numClaims.isSome &&
    (!form.traitCheckIsCurrent config || form.traitCheck != some .supported)

end RegisterForm

/-! ## The session -/

/-- What the handler of a button closes over. -/
structure Click where
  config : FormConfig
  wallet : WalletState
  form : RegisterForm

/-- A request in flight, with what its handler closed over; a check of the
trait may have been asked for by `handleRegister`. -/
inductive Pending where
  | position (config : FormConfig) (staker : Text)
  | traitCheck (config : FormConfig) (signerManager : Text) (click : Option Click)
  | registration (config : FormConfig) (staker signerManager : Text)

/-- How a request ends. -/
inductive Reply where
  | failed (text : String)
  | position (found : Option StakerPosition)
  | traitCheck (result : SignerManagerTraitCheck)
  | registration (row : Option StakerRegistration)

/-- A registration that has been read, and for which fields. -/
structure LoadedRow where
  config : FormConfig
  staker : Text
  signerManager : Text
  row : StakerRegistration

/-- The form and what it runs in. What has been found to be supported, the rows
that have been read and the calls handed to the wallet are history. -/
structure FormSession where
  config : FormConfig
  wallet : WalletState
  form : RegisterForm
  pending : List Pending
  supported : List (FormConfig × Text)
  loaded : List LoadedRow
  requests : List (Click × ContractCall)

/-- What happens to the form. -/
inductive FormEvent where
  | typeStaker (text : Text)
  | typeSignerManager (text : Text)
  | typeStartCycle (text : Text)
  | chooseCadence (oneClaimPerCycle : Bool)
  | typeClaimCount (text : Text)
  | typeFeeStx (text : Text)
  | walletChanged (wallet : WalletState)
  | configured (config : FormConfig)
  | feeLoaded (feePerClaim : Option Nat)
  | loadDefaults
  | loadRegistration
  | register
  | addClaims
  | cancel
  | topUpSubmitted (i : Nat)
  | cancelSubmitted
  | answered (i : Nat) (reply : Reply)

namespace FormSession

/-- A session starts with the address of the wallet, if one is connected. -/
def start (config : FormConfig) (wallet : WalletState) : FormSession where
  config := config
  wallet := wallet
  form := .blank (wallet.stxAddress.getD [])
  pending := []
  supported := []
  loaded := []
  requests := []

/-- A change of the form alone. -/
def edit (f : RegisterForm → RegisterForm) (s : FormSession) : FormSession :=
  { s with form := f s.form }

/-- The end of a handler. -/
def handOver (click : Click) (outcome : Outcome) (s : FormSession) : FormSession :=
  match outcome with
  | .request call => { s with requests := s.requests ++ [(click, call)] }
  | _ => s

/-- History of the answers. -/
def noteSupported (config : FormConfig) (signerManager : Text) (result : SignerManagerTraitCheck)
    (s : FormSession) : FormSession :=
  if result = .supported then { s with supported := s.supported ++ [(config, signerManager)] }
  else s

def noteLoaded (row : LoadedRow) (s : FormSession) : FormSession :=
  { s with loaded := s.loaded ++ [row] }

def click (s : FormSession) : Click := ⟨s.config, s.wallet, s.form⟩

variable (js : StacksJs)

/-- The rest of `handleRegister`, after its check of the trait. -/
def resume (click : Option Click) (check : Except String (Option SignerManagerTraitCheck))
    (s : FormSession) : FormSession :=
  match click with
  | none => s
  | some click =>
      s.handOver click (click.form.handleRegister js click.config click.wallet check)

/-- `checkSignerManagerTrait`. -/
def checkSignerManagerTrait (config : FormConfig) (signerManagerId : Text)
    (click : Option Click) (s : FormSession) : FormSession :=
  let trimmed := trim signerManagerId
  if trimmed.isEmpty || !isValidContractPrincipal js trimmed || config.claimsContract.isEmpty then
    (s.edit fun form => { form with traitCheck := none, traitCheckScope := none }).resume js click
      (.ok none)
  else { s with pending := s.pending ++ [.traitCheck config trimmed click] }

/-- `loadDefaults`. -/
def loadDefaults (s : FormSession) : FormSession :=
  if (trim s.form.staker).isEmpty then s
  else
    { s with
      form := s.form.clearRegistration
      pending := s.pending ++ [.position s.config (trim s.form.staker)] }

/-- `loadRegistration`. -/
def loadRegistration (config : FormConfig) (staker signerManager : Text) (s : FormSession) :
    FormSession :=
  if (trim staker).isEmpty || (trim signerManager).isEmpty || config.claimsContract.isEmpty then s
  else
    { s with
      pending := s.pending ++ [.registration config (trim staker) (trim signerManager)] }

/-- What a handler does with the answer it has waited for. -/
def finish (s : FormSession) : Pending → Reply → FormSession
  | .position _ _, .position none =>
      s.edit fun form => { form with signerManager := [], startCycle := [] }
  | .position config _, .position (some position) =>
      (s.edit fun form =>
        { form with
          signerManager := position.signer
          startCycle := bigintToString position.firstRewardCycle }).checkSignerManagerTrait js
        config position.signer none
  | .traitCheck config signerManager click, .traitCheck result =>
      ((s.noteSupported config signerManager result).edit fun form =>
        { form with
          traitCheck := some result
          traitCheckScope := some (traitCheckScopeKey config signerManager) }).resume js click
        (.ok (some result))
  | .traitCheck _ _ click, .failed text =>
      (s.edit fun form => { form with traitCheck := none, traitCheckScope := none }).resume js
        click (.error text)
  | .registration config staker signerManager, .registration (some row) =>
      (s.noteLoaded ⟨config, staker, signerManager, row⟩).edit fun form =>
        { form with registration := some row, oneClaimPerCycle := some row.oneClaimPerCycle }
  | .registration _ _ _, .registration none => s.edit RegisterForm.clearRegistration
  | .registration _ _ _, .failed _ => s.edit RegisterForm.clearRegistration
  | _, _ => s

/-- One event. -/
def step (s : FormSession) : FormEvent → FormSession
  | .typeStaker text => s.edit fun form => { form with staker := text }.clearForStakerChange
  | .typeSignerManager text =>
      s.edit fun form =>
        { form with
          signerManager := text
          traitCheck := none
          traitCheckScope := none }.clearRegistration
  | .typeStartCycle text => s.edit fun form => { form with startCycle := text }
  | .chooseCadence oneClaimPerCycle =>
      s.edit fun form => { form with oneClaimPerCycle := some oneClaimPerCycle }
  | .typeClaimCount text => s.edit (RegisterForm.syncFeeFromClaimCount text)
  | .typeFeeStx text => s.edit (RegisterForm.handleFeeStxChange text)
  | .walletChanged wallet =>
      -- the effect that prefills the staker runs if the address changes
      edit (s := { s with wallet := wallet }) fun form =>
        if form.staker = [] ∧ wallet.stxAddress ≠ s.wallet.stxAddress then
          { form with staker := wallet.stxAddress.getD [] }
        else form
  | .configured config =>
      edit (s := { s with config := config }) fun form =>
        if config.network = s.config.network ∧ config.apiUrl = s.config.apiUrl ∧
            config.claimsContract = s.config.claimsContract then
          form.setFeePerClaim none
        else (form.setFeePerClaim none).clearForStakerChange
  | .feeLoaded feePerClaim => s.edit (RegisterForm.setFeePerClaim (feePerClaim.map Int.ofNat))
  | .loadDefaults => s.loadDefaults
  | .loadRegistration =>
      s.loadRegistration s.config s.form.staker s.form.signerManager
  | .register =>
      if s.form.callsTraitCheck s.config then
        s.checkSignerManagerTrait js s.config s.form.signerManager (some s.click)
      else s.handOver s.click (s.form.handleRegister js s.config s.wallet (.ok none))
  | .addClaims => s.handOver s.click (s.form.handleAddClaims js s.config s.wallet)
  | .cancel => s.handOver s.click (s.form.handleCancel js s.config s.wallet)
  | .topUpSubmitted i =>
      match s.requests[i]? with
      | none => s
      | some (click, _) =>
          (s.edit fun form => { form with feeStx := [], claimCount := [] }).loadRegistration
            click.config click.form.staker click.form.signerManager
  | .cancelSubmitted => s.edit RegisterForm.clearRegistration
  | .answered i reply =>
      match s.pending[i]? with
      | none => s
      | some request => finish js { s with pending := s.pending.eraseIdx i } request reply

/-- A session of many events. -/
def run (s : FormSession) (events : List FormEvent) : FormSession := events.foldl (step js) s

end FormSession

end Spox.Webapp
