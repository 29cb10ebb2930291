import Spox.Webapp.Decoding

/-!
# Webapp — fetching registry events

The rest of `registry-events.ts`: what the Stacks API answers with is parsed
entry by entry, and the entries that are no prints of the registry are dropped
from the page.
-/

namespace Spox.Webapp

/-! ## Parsing an entry -/

/-- `contract_log.value` of an entry. -/
structure LogValue where
  hex : Option Text
  repr : Option Text

/-- `contract_log` of an entry. -/
structure ContractLog where
  contractId : Option Text
  value : Option LogValue

/-- `RawContractEvent`: every property may be missing. -/
structure RawContractEvent where
  eventIndex : Option Nat
  eventType : Option Text
  txId : Option Text
  contractLog : Option ContractLog

/-- `contract_log?.value?.hex`. -/
def RawContractEvent.hex (raw : RawContractEvent) : Option Text :=
  (raw.contractLog.bind ContractLog.value).bind LogValue.hex

/-- `contract_log?.value?.repr`. -/
def RawContractEvent.repr (raw : RawContractEvent) : Option Text :=
  (raw.contractLog.bind ContractLog.value).bind LogValue.repr

/-- `RegistryContractEvent`. -/
structure RegistryContractEvent where
  txId : Text
  eventIndex : Nat
  contractId : Text
  payload : List (Text × Json)
  topic : Option Text
  staker : Option Text
  signerManager : Option Text
  principals : List Text
  repr : Option Text

/-- `PRINCIPAL_RE`: an address, optionally followed by a dot and a contract
name. -/
def isPrincipalText : Text → Bool
  | s :: version :: rest =>
      "Ss".toList.contains s && "PMTNpmtn".toList.contains version &&
        !(rest.takeWhile Char.isAlphanum).isEmpty &&
        match rest.dropWhile Char.isAlphanum with
        | [] => true
        | dot :: name => dot == '.' && match name with
            | [] => false
            | first :: more =>
                first.isAlpha && more.all fun c => c.isAlphanum || c == '_' || c == '-'
  | _ => false

mutual

/-- `collectPrincipals`. -/
def collectPrincipals : Json → List Text
  | .str text => if isPrincipalText text then [text] else []
  | .arr items => collectFromItems items
  | .obj fields => collectFromFields fields
  | .null => []
  | .bool _ => []

/-- The principals of the elements of an array. -/
def collectFromItems : List Json → List Text
  | [] => []
  | item :: items => collectPrincipals item ++ collectFromItems items

/-- The principals of the properties of an object. -/
def collectFromFields : List (Text × Json) → List Text
  | [] => []
  | (_, value) :: fields => collectPrincipals value ++ collectFromFields fields

end

/-- A property of the payload, if it is a text. -/
def textField (payload : List (Text × Json)) (name : String) : Option Text :=
  match payload.lookup name.toList with
  | some (.str text) => some text
  | _ => none

/-- `parseRegistryContractEvent`. -/
def parseRegistryContractEvent (library : StacksLibrary) (raw : RawContractEvent) :
    Option RegistryContractEvent :=
  if raw.eventType ≠ some "smart_contract_log".toList then none
  else
    match raw.hex, raw.txId with
    | some hex, some txId =>
        if hex.isEmpty || txId.isEmpty then none
        else
          let payload := match decodeContractLogHex library hex with
            | .ok payload => payload
            | .error _ => [("repr".toList, (raw.repr.map Json.str).getD .null)]
          some {
            txId := txId
            eventIndex := raw.eventIndex.getD 0
            contractId := (raw.contractLog.bind ContractLog.contractId).getD []
            payload := payload
            topic := textField payload "topic"
            staker := textField payload "staker"
            signerManager := textField payload "signer-manager"
            principals := collectPrincipals (.obj payload)
            repr := raw.repr }
    | _, _ => none

/-! ## Fetching a page -/

/-- The settings a request is made with. -/
structure ClaimsConfig where
  apiUrl : Text
  claimsContract : Text

/-- The request for a page of the events of a contract. -/
structure EventsRequest where
  base : Text
  contract : Text
  limit : Nat
  offset : Nat

/-- What becomes of a request: no response, an error status, a body that is no
JSON, or a body. -/
inductive Answer where
  | unreachable
  | status (code : Nat)
  | invalid (message : Text)
  | body (limit offset : Option Nat) (results : Option (List RawContractEvent))

/-- The page `fetchRegistryContractEvents` returns. -/
structure EventsPage where
  events : List RegistryContractEvent
  limit : Nat
  offset : Nat

/-- `.replace(/\/$/, "")`. -/
def dropSlash (url : Text) : Text := if url.getLast? = some '/' then url.dropLast else url

/-- `fetchRegistryContractEvents`, with the message of the error it throws. -/
def fetchRegistryContractEvents (library : StacksLibrary) (fetch : EventsRequest → Answer)
    (config : ClaimsConfig) (limit offset : Option Nat) : Except Text EventsPage :=
  if config.claimsContract.isEmpty then
    .error "Claims registry contract is not configured.".toList
  else
    let limit := limit.getD 20
    let offset := offset.getD 0
    let base := dropSlash config.apiUrl
    match fetch ⟨base, config.claimsContract, limit, offset⟩ with
    | .unreachable => .error ("Cannot reach the Stacks API at ".toList ++ base ++
        ". Check that it is running and allows cross-origin requests.".toList)
    | .status code => .error ("Contract events failed via ".toList ++ base ++ ": HTTP ".toList ++
        Nat.toDigits 10 code)
    | .invalid message => .error message
    | .body bodyLimit bodyOffset results =>
        .ok ⟨(results.getD []).filterMap (parseRegistryContractEvent library),
          bodyLimit.getD limit, bodyOffset.getD offset⟩

end Spox.Webapp
