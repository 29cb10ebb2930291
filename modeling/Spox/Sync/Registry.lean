import Spox.Client.Value
import Spox.Lib.Sequence

/-!
# Address registry — the contract, its client's data and the store

`registry.clar`, the parsing of its answers in `stacks/registry.rs`, and the
in-memory store of `storage/memory.rs`.

The scripts are parsed and put together by the `sbtc` crate, which is a
parameter here (`Sbtc`).
-/

namespace Spox.Sync

open Spox.Lib Spox.RewardClaims Spox.Client

/-! ## The contract -/

/-- `(buff n)`. -/
def Buff (n : Nat) : Type := { bytes : List UInt8 // bytes.length ≤ n }

/-- A value of the `deposit-address` map. -/
structure DepositAddress where
  depositScript : Buff 196
  reclaimScript : Buff 2048

/-- The variable and the map of `registry.clar`. -/
structure Registry where
  nextAddressId : Nat
  depositAddress : Nat → Option DepositAddress

/-- The registry after deployment. -/
def Registry.deployed : Registry := ⟨0, fun _ => none⟩

def errUnauthorized : Nat := 100

/-- `register-address`. -/
def registerAddress (depositScript : Buff 196) (reclaimScript : Buff 2048) :
    Tx Registry Nat := do
  let r ← Tx.get
  let id := r.nextAddressId
  Tx.modify fun r => { r with
    depositAddress := Function.update r.depositAddress id (some ⟨depositScript, reclaimScript⟩) }
  let next ← Tx.add id 1
  Tx.modify fun r => { r with nextAddressId := next }
  pure id

/-- `remove-address`: `map-delete`, which tells whether there was an entry. -/
def removeAddress (id : Nat) : Tx Registry Bool := do
  let r ← Tx.get
  Tx.modify fun r => { r with depositAddress := Function.update r.depositAddress id none }
  pure (r.depositAddress id).isSome

/-- `remove-addresses`. -/
def removeAddresses (txSender : Principal) (addressIds : List Nat) :
    Tx Registry (List Bool) := do
  Tx.asserts (txSender = deployer) errUnauthorized
  Tx.mapEach removeAddress addressIds

/-- An entry of `get-addresses` as the contract writes it. -/
def addressValue (r : Registry) (id : Nat) : ClarityValue :=
  .tuple [("id", .uint id), ("address", .optional ((r.depositAddress id).map fun address =>
    .tuple [("deposit-script", .buff address.depositScript.val),
      ("reclaim-script", .buff address.reclaimScript.val)]))]

/-- `get-addresses`. -/
def getAddresses (r : Registry) (addressIds : List Nat) : ClarityValue :=
  .list (addressIds.map (addressValue r))

/-! ### The id counter never goes back -/

theorem registerAddress_next_le (r : Registry) (depositScript : Buff 196)
    (reclaimScript : Buff 2048) : r.nextAddressId ≤
      (Tx.commit (registerAddress depositScript reclaimScript) r).nextAddressId := by
  by_cases hfits : r.nextAddressId + 1 < Tx.uintBound
  · simp [Tx.commit, registerAddress, Tx.run_bind, Tx.add, Tx.uint, hfits]
  · simp [Tx.commit, registerAddress, Tx.run_bind, Tx.add, Tx.uint, hfits]

theorem removeAddresses_next (r : Registry) (txSender : Principal) (addressIds : List Nat) :
    (Tx.commit (removeAddresses txSender addressIds) r).nextAddressId = r.nextAddressId := by
  have hwp : Tx.wp (removeAddresses txSender addressIds) r
      (fun _ r' => r'.nextAddressId = r.nextAddressId) (fun _ r' => r' = r) False := by
    simp only [removeAddresses, Tx.wp_bind, Tx.wp_asserts]
    refine ⟨fun _ => ?_, fun _ => trivial⟩
    refine Tx.wp_mapEach (fun s : Registry => s.nextAddressId = r.nextAddressId) ?_ rfl
    intro s id hs
    simp only [removeAddress, Tx.wp_bind, Tx.wp_get, Tx.wp_modify, Tx.wp_pure]
    exact hs
  rcases hwp.total with ⟨deleted, r', hok, h⟩ | ⟨code, r', herr, -⟩
  · rw [Tx.commit_of_ok hok]
    exact h
  · rw [Tx.commit_of_err herr]

/-! ## The client's data -/

/-- One more than the largest `u64`. -/
def u64Bound : Nat := 2 ^ 64

/-- `saturating_add` on `u64`. -/
def saturatingAdd (a b : Nat) : Nat := min (a + b) (u64Bound - 1)

/-- `u64::try_from` on a Clarity uint. -/
def u64TryFrom (n : Nat) : Except Error Nat :=
  if n < u64Bound then .ok n else .error (.invalidStacksResponse "uint is too large")

/-- `RawRegisteredDepositScripts`. -/
structure RawRegisteredDepositScripts where
  depositScript : List UInt8
  reclaimScript : List UInt8

/-- `RawRegisteredDeposit`. -/
structure RawRegisteredDeposit where
  id : Nat
  address : Option RawRegisteredDepositScripts

/-- `RawRegisteredDepositScripts::try_from`. -/
def RawRegisteredDepositScripts.tryFrom :
    ClarityValue → Except Error RawRegisteredDepositScripts
  | .tuple fields => do
      let (depositScript, fields) ← (ClarityTuple.mk fields).removeBuff "deposit-script"
      let (reclaimScript, _) ← fields.removeBuff "reclaim-script"
      pure ⟨depositScript, reclaimScript⟩
  | _ => .error (.invalidStacksResponse "did not get an address tuple")

/-- `RawRegisteredDeposit::try_from`. -/
def RawRegisteredDeposit.tryFrom (value : ClarityValue) : Except Error RawRegisteredDeposit := do
  let fields ← ClarityTuple.tryFrom value
  let (id, fields) ← fields.removeUint "id"
  let (address, _) ← fields.removeOption "address"
  let address ← address.mapM RawRegisteredDepositScripts.tryFrom
  let id ← u64TryFrom id
  pure ⟨id, address⟩

/-- What `get_addresses` makes of the node's answer. -/
def parseAddresses : ClarityValue → Except Error (List RawRegisteredDeposit)
  | .list data => data.mapM RawRegisteredDeposit.tryFrom
  | _ => .error (.invalidStacksResponse "did not get a list")

/-- The entry of an id, as the client holds it. -/
def rawAt (r : Registry) (id : Nat) : RawRegisteredDeposit :=
  ⟨id, (r.depositAddress id).map fun address =>
    ⟨address.depositScript.val, address.reclaimScript.val⟩⟩

theorem tryFrom_addressValue (r : Registry) {id : Nat} (h : id < u64Bound) :
    RawRegisteredDeposit.tryFrom (addressValue r id) = .ok (rawAt r id) := by
  have hid : u64TryFrom id = .ok id := if_pos h
  unfold addressValue rawAt
  cases r.depositAddress id with
  | none =>
      show (do
        let id ← u64TryFrom id
        pure (RawRegisteredDeposit.mk id none) : Except Error RawRegisteredDeposit) = _
      rw [hid]
      rfl
  | some address =>
      show (do
        let id ← u64TryFrom id
        pure (RawRegisteredDeposit.mk id (some ⟨address.depositScript.val,
          address.reclaimScript.val⟩)) : Except Error RawRegisteredDeposit) = _
      rw [hid]
      rfl

/-- What the contract answers the client reads back. -/
theorem parseAddresses_getAddresses (r : Registry) {ids : List Nat}
    (h : ∀ id ∈ ids, id < u64Bound) :
    parseAddresses (getAddresses r ids) = .ok (ids.map (rawAt r)) := by
  show (ids.map (addressValue r)).mapM RawRegisteredDeposit.tryFrom = _
  induction ids with
  | nil => rfl
  | cons id ids ih =>
      have hrest := ih fun id' h' => h id' (List.mem_cons_of_mem id h')
      rw [List.map_cons, List.mapM_cons, tryFrom_addressValue r (h id List.mem_cons_self), hrest]
      rfl

/-! ## Monitored deposits -/

/-- `MonitoredDepositSource`. -/
inductive MonitoredDepositSource where
  | config (name : String)
  | registry (id : Nat)

/-- `MonitoredDeposit`. -/
structure MonitoredDeposit (δ ρ : Type) where
  source : MonitoredDepositSource
  depositScriptInputs : δ
  reclaimScriptInputs : ρ

/-- What the `sbtc` crate is used for: parsing the two scripts and putting
their script pubkey together. -/
structure Sbtc (δ ρ : Type) where
  parseDepositScript : List UInt8 → Except Error δ
  parseReclaimScript : List UInt8 → Except Error ρ
  toScriptPubkey : δ → ρ → List UInt8

variable {δ ρ : Type} (sbtc : Sbtc δ ρ)

/-- `MonitoredDeposit::try_from`. -/
def MonitoredDeposit.tryFrom (deposit : RawRegisteredDeposit) :
    Except Error (MonitoredDeposit δ ρ) :=
  match deposit.address with
  | none => .error .missingAddressScripts
  | some address => do
      let depositScriptInputs ← sbtc.parseDepositScript address.depositScript
      let reclaimScriptInputs ← sbtc.parseReclaimScript address.reclaimScript
      pure ⟨.registry deposit.id, depositScriptInputs, reclaimScriptInputs⟩

/-- `to_script_pubkey`. -/
def MonitoredDeposit.toScriptPubkey (deposit : MonitoredDeposit δ ρ) : List UInt8 :=
  sbtc.toScriptPubkey deposit.depositScriptInputs deposit.reclaimScriptInputs

/-! ## The store -/

/-- `Store`. -/
structure Store (δ ρ : Type) where
  lastNextAddressId : Nat
  monitored : List UInt8 → Option (MonitoredDeposit δ ρ)

/-- `SharedStore`: the store behind its mutex, which is poisoned once a
thread has panicked with the lock in hand. -/
structure SharedStore (δ ρ : Type) where
  poisoned : Bool
  store : Store δ ρ

namespace SharedStore

variable {sbtc} (shared : SharedStore δ ρ)

/-- `lock`. -/
def lock : Except Error (Store δ ρ) :=
  if shared.poisoned then .error .poisonedMutex else .ok shared.store

theorem lock_of_poisoned (h : shared.poisoned = true) :
    shared.lock = .error .poisonedMutex := by
  rw [lock, h, if_pos rfl]

theorem lock_of_not_poisoned (h : shared.poisoned = false) : shared.lock = .ok shared.store := by
  rw [lock, h, if_neg (by simp)]

/-- `add`: a script pubkey that is already there keeps its deposit. -/
def add (sbtc : Sbtc δ ρ) (deposit : MonitoredDeposit δ ρ) :
    Except Error (SharedStore δ ρ) := do
  let store ← shared.lock
  let key := deposit.toScriptPubkey sbtc
  pure { shared with store := { store with
    monitored := Function.update store.monitored key
      (some ((store.monitored key).getD deposit)) } }

/-- `new_shared`. -/
def newShared : SharedStore δ ρ := ⟨false, ⟨0, fun _ => none⟩⟩

/-- `get_by_script`. -/
def getByScript (script : List UInt8) : Except Error (Option (MonitoredDeposit δ ρ)) := do
  let store ← shared.lock
  pure (store.monitored script)

/-- `get_scripts`: the keys of the hash map, in the order `iteration`. -/
def getScripts (iteration : List (List UInt8)) : Except Error (List (List UInt8)) := do
  let _ ← shared.lock
  pure iteration

/-- `get_last_next_address_id`. -/
def getLastNextAddressId : Except Error Nat := do
  let store ← shared.lock
  pure store.lastNextAddressId

/-- `set_last_next_address_id`. -/
def setLastNextAddressId (nextAddressId : Nat) : Except Error (SharedStore δ ρ) := do
  let store ← shared.lock
  pure { shared with store := { store with lastNextAddressId := nextAddressId } }

/-- **The first deposit of a script is kept** among those added to a store. -/
theorem monitored_of_adds {deposits : List (MonitoredDeposit δ ρ)} {shared' : SharedStore δ ρ}
    (h : deposits.foldlM (fun (s : SharedStore δ ρ) deposit => s.add sbtc deposit) shared =
      .ok shared') (hfree : shared.poisoned = false) :
    shared'.poisoned = false ∧ ∀ script, shared'.store.monitored script =
      (shared.store.monitored script).or
        (deposits.find? fun deposit => deposit.toScriptPubkey sbtc = script) := by
  induction deposits generalizing shared with
  | nil =>
      cases h
      exact ⟨hfree, fun script => by simp⟩
  | cons deposit deposits ih =>
      rw [List.foldlM_cons, add, shared.lock_of_not_poisoned hfree] at h
      obtain ⟨hfree', hrest⟩ := ih _ h hfree
      refine ⟨hfree', fun script => ?_⟩
      rw [hrest, List.find?_cons]
      by_cases hkey : deposit.toScriptPubkey sbtc = script
      · subst hkey
        cases hold : shared.store.monitored (deposit.toScriptPubkey sbtc) <;> simp
      · have hne : script ≠ deposit.toScriptPubkey sbtc := fun heq => hkey heq.symm
        simp [hkey, hne]

end SharedStore

end Spox.Sync
