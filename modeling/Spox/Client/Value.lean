import Spox.Contract.Data

/-!
# Clients — Clarity values

The values a read-only call answers with, the errors of the Rust clients and
`ClarityTuple`, through which they take a tuple apart field by field.
-/

namespace Spox.Client

open Spox.RewardClaims

/-- A Clarity value. -/
inductive ClarityValue where
  | uint (n : Nat)
  | bool (b : Bool)
  | principal (p : Principal)
  | buff (bytes : List UInt8)
  | optional (value : Option ClarityValue)
  | list (values : List ClarityValue)
  | tuple (fields : List (String × ClarityValue))
  | response (ok : Bool) (value : ClarityValue)

/-- An error of the bitcoin RPC client, with the code of the node's answer if
there was one. -/
structure RpcError where
  code : Option Int

/-- The errors the clients return. -/
inductive Error where
  | clarityMissingTupleEntry (field : String)
  | invalidStacksResponse (text : String)
  | unexpectedPrincipal (principal : Principal)
  | tooManyAddressIds (given bound : Nat)
  | mismatchingRawAddressIds
  | missingAddressScripts
  | poisonedMutex
  | readOnlyCallFailed
  | missingMonitoredDeposit (scriptPubKey : List UInt8)
  | depositExpired
  | scanAlreadyInProgress
  | scanTxOutFailure
  | bitcoinCoreRpc (error : RpcError)
  /-- An error of a library: of the Stacks node or of the script parser. -/
  | external (code : Nat)

/-- `ClarityTuple`: the fields that have not been taken yet. -/
structure ClarityTuple where
  fields : List (String × ClarityValue)

namespace ClarityTuple

/-- `ClarityTuple::try_from`. -/
def tryFrom : ClarityValue → Except Error ClarityTuple
  | .tuple fields => .ok ⟨fields⟩
  | _ => .error (.invalidStacksResponse "did not get a tuple")

/-- Take a field out; `pick` says which values are of the wanted type. -/
def remove {α : Type} (pick : ClarityValue → Option α) (t : ClarityTuple) (field : String) :
    Except Error (α × ClarityTuple) :=
  match (t.fields.lookup field).bind pick with
  | some a => .ok (a, ⟨t.fields.filter fun entry => entry.1 ≠ field⟩)
  | none => .error (.clarityMissingTupleEntry field)

/-- `remove_uint`. -/
def removeUint : ClarityTuple → String → Except Error (Nat × ClarityTuple) :=
  remove fun
    | .uint n => some n
    | _ => none

/-- `remove_buff`. -/
def removeBuff : ClarityTuple → String → Except Error (List UInt8 × ClarityTuple) :=
  remove fun
    | .buff bytes => some bytes
    | _ => none

/-- `remove_list`. -/
def removeList : ClarityTuple → String → Except Error (List ClarityValue × ClarityTuple) :=
  remove fun
    | .list values => some values
    | _ => none

/-- `remove_option`. -/
def removeOption : ClarityTuple → String → Except Error (Option ClarityValue × ClarityTuple) :=
  remove fun
    | .optional value => some value
    | _ => none

/-- `remove_principal`. -/
def removePrincipal : ClarityTuple → String → Except Error (Principal × ClarityTuple) :=
  remove fun
    | .principal p => some p
    | _ => none

end ClarityTuple

end Spox.Client
