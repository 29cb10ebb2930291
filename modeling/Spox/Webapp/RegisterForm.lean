import Spox.Client.Value
import Spox.Contract.Calls
import Spox.Webapp.ClaimsConfig
import Spox.Webapp.RegistryEvents

/-!
# Webapp — the register form

The handlers of `register-form.tsx` that buy, top up and cancel a
registration, with the readings of `claims-api.ts` they rely on.

What they hand to the wallet is a call of the registry with post-conditions in
the mode `deny`: the chain undoes the call if somebody sends more STX than they
allow. The form computes them from the fee and the escrow it has loaded.
-/

namespace Spox.Webapp

open Spox.Lib Spox.RewardClaims

variable {σ : Type}

/-! ## Post-conditions -/

/-- `Pc.principal(principal).willSendLte(amount).ustx()`. -/
structure PostCondition where
  principal : Principal
  amount : Int
deriving DecidableEq

/-- Who sends STX in an event and how much; burnt STX has been sent too. -/
def sending : Event → Option (Principal × Nat)
  | .stxTransfer amount sender _ => some (sender, amount)
  | .stxBurn amount sender => some (sender, amount)
  | _ => none

/-- What a principal sends in a transaction. -/
def sent (principal : Principal) (events : List Event) : Nat :=
  (((events.filterMap sending).filter fun s => s.1 = principal).map Prod.snd).sum

/-- The post-conditions hold, and nobody sends STX without one. -/
def allow (conditions : List PostCondition) (events : List Event) : Bool :=
  conditions.all (fun c => decide ((sent c.principal events : Int) ≤ c.amount)) &&
    (events.filterMap sending).all fun s => conditions.any fun c => decide (c.principal = s.1)

/-- A call with post-conditions. The log has all STX it moves if it calls no
signer-manager. -/
def transact (views : Views σ) (code : Code σ) (depth : Nat) (ctx : Ctx) (call : Call)
    (conditions : List PostCondition) (w : World σ) : World σ :=
  match exec views code depth ctx call w with
  | .ok _ w' => if allow conditions (w'.log.drop w.log.length) then w' else w
  | _ => w

/-! ## Libraries, wallet and configuration -/

/-- What the form uses of the Stacks libraries and of the runtime: `principal`
and `uint` of `Cl`, which throw on what they do not accept, and
`toUpperCase`. -/
structure StacksJs where
  principal : Text → Option Principal
  uint : Int → Option Nat
  toUpperCase : Text → Text

/-- `Cl.uint` accepts what fits in a uint and keeps it. -/
def StacksJs.Exact (js : StacksJs) : Prop :=
  ∀ (n : Int) (m : Nat), js.uint n = some m ↔ n = m ∧ m < Tx.uintBound

/-- `useWallet`. Whoever is connected has an address. -/
structure WalletState where
  connected : Bool
  stxAddress : Option Text
  hasAddress : connected = true → stxAddress.isSome = true

/-- `ClaimsConfig`, with the network the form reads from it. -/
structure FormConfig extends ClaimsConfig where
  network : Text

/-- `stx_callContract`, as it is handed to the wallet. -/
structure ContractCall where
  contract : Text
  functionName : String
  functionArgs : List Client.ClarityValue
  postConditions : List PostCondition

/-- The public function of the registry a call reaches: its name and the
types of its arguments have to match. -/
def ContractCall.call (request : ContractCall) : Option Call :=
  match request.functionName, request.functionArgs with
  | "register-for-claims",
      [.principal staker, .principal (.contract signerManager), .uint start, .bool oneClaim,
        .uint numClaims] =>
      some (.registerForClaims staker signerManager start oneClaim numClaims)
  | "add-claims", [.principal staker, .principal signerManager, .uint numClaims] =>
      some (.addClaims staker signerManager numClaims)
  | "cancel-registration", [.principal staker, .principal signerManager] =>
      some (.cancelRegistration staker signerManager)
  | _, _ => none

/-- The world after the call is executed. -/
def ContractCall.transact (views : Views σ) (code : Code σ) (depth : Nat) (ctx : Ctx)
    (request : ContractCall) (w : World σ) : World σ :=
  match request.call with
  | some call => Webapp.transact views code depth ctx call request.postConditions w
  | none => w

/-- How a handler ends: it shows an error, throws, asks to connect a wallet or
hands a call to it. -/
inductive Outcome where
  | error (text : String)
  | thrown
  | connect
  | request (call : ContractCall)

/-! ## Reading a registration -/

/-- `StakerRegistration`. -/
structure StakerRegistration where
  bondIndex : Option Nat
  remainingClaims : Nat
  oneClaimPerCycle : Bool
  nextClaimDistribution : Nat
  nextClaimBurnHeight : Option Nat
  prepaidUstx : Nat

/-- `uintToBigInt`. -/
def uintToBigInt : Client.ClarityValue → Option Nat
  | .uint n => some n
  | _ => none

/-- `optionalUint`. -/
def optionalUint : Client.ClarityValue → Option (Option Nat)
  | .optional none => some none
  | .optional (some value) => (uintToBigInt value).map some
  | _ => none

/-- `boolValue`. -/
def boolValue : Client.ClarityValue → Option Bool
  | .bool b => some b
  | _ => none

/-- `optionalTuple`. -/
def optionalTuple : Client.ClarityValue → Option (Option (List (String × Client.ClarityValue)))
  | .optional none => some none
  | .optional (some (.tuple fields)) => some (some fields)
  | _ => none

/-- `get-registration`, as the contract answers it. -/
def registrationAnswer (w : World σ) (key : RegistrationKey) : Client.ClarityValue :=
  .optional ((w.registry.registrations key).map fun row =>
    .tuple [("bond-index", .optional (row.bondIndex.map .uint)),
      ("remaining-claims", .uint row.remainingClaims),
      ("one-claim-per-reward-cycle", .bool row.oneClaimPerRewardCycle),
      ("next-claim-distribution", .uint row.nextClaimDistribution),
      ("prepaid-ustx", .uint row.prepaidUstx), ("sponsor", .principal row.sponsor)])

/-- `fetchRegistration`, of an answer of the contract; `none` where it throws.
`burnHeight` is what pox-5 answers for a distribution, if it does. -/
def fetchRegistration (burnHeight : Nat → Option Client.ClarityValue)
    (answer : Client.ClarityValue) : Option (Option StakerRegistration) := do
  match ← optionalTuple answer with
  | none => pure none
  | some tuple => do
      let nextClaimDistribution ← (tuple.lookup "next-claim-distribution").bind uintToBigInt
      let eligibleDistribution := nextClaimDistribution + 1
      let nextClaimBurnHeight := (burnHeight eligibleDistribution).bind uintToBigInt
      let bondIndex ← (tuple.lookup "bond-index").bind optionalUint
      let remainingClaims ← (tuple.lookup "remaining-claims").bind uintToBigInt
      let oneClaimPerCycle ← (tuple.lookup "one-claim-per-reward-cycle").bind boolValue
      let prepaidUstx ← (tuple.lookup "prepaid-ustx").bind uintToBigInt
      pure (some ⟨bondIndex, remainingClaims, oneClaimPerCycle, nextClaimDistribution,
        nextClaimBurnHeight, prepaidUstx⟩)

/-! ## The form -/

/-- `SignerManagerTraitCheck`. -/
inductive SignerManagerTraitCheck where
  | supported
  | notImplemented
  | notFound
deriving DecidableEq

/-- The state the handlers read. -/
structure RegisterForm where
  staker : Text
  signerManager : Text
  startCycle : Text
  oneClaimPerCycle : Option Bool
  feeStx : Text
  claimCount : Text
  feePerClaim : Option Int
  traitCheck : Option SignerManagerTraitCheck
  traitCheckScope : Option Text
  registration : Option StakerRegistration

/-- `isValidContractPrincipal`. -/
def isValidContractPrincipal (js : StacksJs) (contractId : Text) : Bool :=
  (trim contractId).contains '.' &&
    match js.principal (trim contractId) with
    | some (.contract id) => !id.name.isEmpty
    | _ => false

/-- `traitCheckMessage`. -/
def traitCheckMessage : SignerManagerTraitCheck → String
  | .notFound => "No contract found at this address on the selected network."
  | _ => "This contract does not implement the reward-claim-signer-manager-trait. " ++
      "Registration will fail."

/-- `traitCheckBlocksRegistration`. -/
def traitCheckBlocksRegistration : SignerManagerTraitCheck → Bool
  | .notFound | .notImplemented => true
  | .supported => false

/-- `traitCheckScopeKey`. -/
def traitCheckScopeKey (config : FormConfig) (signerManager : Text) : Text :=
  config.network ++ '|' :: (config.claimsContract ++ '|' :: trim signerManager)

namespace RegisterForm

variable (js : StacksJs) (config : FormConfig) (wallet : WalletState) (form : RegisterForm)

/-- `numClaims`. -/
def numClaims : Option Int := parseClaimCount form.claimCount form.feeStx form.feePerClaim

/-- `escrowMicro` for a number of claims. -/
def escrowMicro (numClaims : Int) : Int :=
  feeMicroForClaimCount numClaims (form.feePerClaim.getD 0)

/-- `registrationPostConditions`. -/
def registrationPostConditions (sender : Text) (numClaims : Int) : Option (List PostCondition) :=
  let escrow := form.escrowMicro numClaims
  if escrow ≤ 0 then some []
  else (js.principal sender).map fun principal => [⟨principal, escrow⟩]

/-- `submitContractCall`, with its arguments unless computing them threw. -/
def submitContractCall (functionName : String)
    (args : Option (List Client.ClarityValue × List PostCondition)) : Outcome :=
  match args with
  | none => .thrown
  | some (functionArgs, postConditions) =>
      if !wallet.connected then .connect
      else if config.claimsContract.isEmpty then
        .error "Claims registry contract is not configured."
      else .request ⟨config.claimsContract, functionName, functionArgs, postConditions⟩

/-- `traitCheckIsCurrent`. -/
def traitCheckIsCurrent : Bool :=
  form.traitCheckScope == some (traitCheckScopeKey config form.signerManager)

/-- What is wrong with the signer-manager; `check` is how
`checkSignerManagerTrait` ends, should it be called. -/
def traitProblem (check : Except String (Option SignerManagerTraitCheck)) : Option String :=
  let needsTraitCheck :=
    !form.traitCheckIsCurrent config || form.traitCheck != some .supported
  if !needsTraitCheck then none
  else
    match check with
    | .error text => some text
    | .ok (some .supported) => none
    | .ok result =>
        if (result.map traitCheckBlocksRegistration).getD false then result.map traitCheckMessage
        else if !isValidContractPrincipal js form.signerManager then
          some "Enter a valid signer-manager contract principal."
        else if config.claimsContract.isEmpty then
          some "Claims registry contract is not configured."
        else some "Could not verify signer-manager compatibility."

/-- The error for a missing number of claims. -/
def missingNumClaims : String :=
  match form.feePerClaim with
  | none => "Enter the number of prepaid claims."
  | some _ => "Enter a valid number of prepaid claims (1–192)."

/-- `handleRegister`. -/
def handleRegister (check : Except String (Option SignerManagerTraitCheck)) : Outcome :=
  if (trim form.staker).isEmpty || (trim form.signerManager).isEmpty ||
      (trim form.startCycle).isEmpty then
    .error "Staker, signer-manager, and start reward cycle are required."
  else
    match form.oneClaimPerCycle with
    | none => .error "Choose a claim cadence."
    | some oneClaimPerCycle =>
        match form.numClaims with
        | none => .error form.missingNumClaims
        | some numClaims =>
            match form.traitProblem js config check with
            | some text => .error text
            | none =>
                match bigIntOfText (trim form.startCycle) with
                | none => .error "Start reward cycle must be an integer."
                | some start =>
                    submitContractCall config wallet "register-for-claims" do
                      let staker ← js.principal (trim form.staker)
                      let signerManager ← js.principal (trim form.signerManager)
                      let start ← js.uint start
                      let count ← js.uint numClaims
                      let conditions ← form.registrationPostConditions js
                        (wallet.stxAddress.getD (trim form.staker)) numClaims
                      pure ([.principal staker, .principal signerManager, .uint start,
                        .bool oneClaimPerCycle, .uint count], conditions)

/-- `handleAddClaims`. -/
def handleAddClaims : Outcome :=
  if (trim form.staker).isEmpty || (trim form.signerManager).isEmpty then
    .error "Staker and signer-manager are required."
  else
    match form.numClaims with
    | none => .error form.missingNumClaims
    | some numClaims =>
        submitContractCall config wallet "add-claims" do
          let staker ← js.principal (trim form.staker)
          let signerManager ← js.principal (trim form.signerManager)
          let count ← js.uint numClaims
          let conditions ← form.registrationPostConditions js
            (wallet.stxAddress.getD (trim form.staker)) numClaims
          pure ([.principal staker, .principal signerManager, .uint count], conditions)

/-- `connectedIsStaker`. -/
def connectedIsStaker : Bool :=
  match wallet.stxAddress with
  | none => false
  | some address => !address.isEmpty &&
      js.toUpperCase address == js.toUpperCase (trim form.staker)

/-- `handleCancel`. -/
def handleCancel : Outcome :=
  if !form.connectedIsStaker js wallet then
    .error "Only the staker can cancel, using that account's wallet."
  else
    match form.registration with
    | none => .error "Load a registration before canceling."
    | some registration =>
        if (trim form.staker).isEmpty || (trim form.signerManager).isEmpty then
          .error "Load a registration before canceling."
        else
          let refund := registration.prepaidUstx
          submitContractCall config wallet "cancel-registration" do
            let conditions ←
              (if 0 < refund then (js.principal config.claimsContract).map fun registry =>
                [(⟨registry, refund⟩ : PostCondition)]
              else some [])
            let staker ← js.principal (trim form.staker)
            let signerManager ← js.principal (trim form.signerManager)
            pure ([.principal staker, .principal signerManager], conditions)

end RegisterForm

end Spox.Webapp
