import Mathlib.Data.List.Chain
import Spox.Lib.Process
import Spox.Sync.Registry

/-!
# Address registry — the updater among the transactions

`update_from_registry` as a process: its requests are the accesses to the
shared store and the two read-only calls. Around it, transactions on the
registry may commit at any moment and a panic elsewhere may poison the store.

The world keeps every state the registry has been in, since a read may see an
old one: a read-only call fails, or sees any state at least as recent as the
one the previous read saw, and `get-addresses` may also be answered with
anything that does not list the requested ids. `fetches`, `handled` and
`nextRead` are history variables that no code reads.
-/

namespace Spox.Sync

open Spox.Lib Spox.RewardClaims Spox.Client

variable {δ ρ : Type}

/-! ## The updater -/

/-- `GET_ADDRESSES_MAX_IDS`. -/
def getAddressesMaxIds : Nat := 400

/-- What the updater asks of its environment. -/
inductive Request (δ ρ : Type) where
  | getLastNextAddressId
  /-- The write of the cursor that ends the handling of `addressId`. -/
  | setLastNextAddressId (addressId next : Nat)
  | add (deposit : MonitoredDeposit δ ρ)
  | callNextAddressId
  | callAddresses (ids : List Nat)

/-- What it is answered with. -/
def Request.Answer : Request δ ρ → Type
  | .getLastNextAddressId => Nat
  | .setLastNextAddressId _ _ => Unit
  | .add _ => Unit
  | .callNextAddressId => ClarityValue
  | .callAddresses _ => ClarityValue

/-- Code of the updater. -/
abbrev Update (δ ρ α : Type) : Type := Process (Request δ ρ) Request.Answer Error α

/-- `DepositAddressRegistry::get_next_address_id`. -/
def getNextAddressId : Update δ ρ Nat :=
  .ask .callNextAddressId fun result : ClarityValue =>
    match result with
    | .uint id => .ofExcept (u64TryFrom id)
    | _ => .fail (.invalidStacksResponse "did not get a uint")

/-- `DepositAddressRegistry::get_addresses`. -/
def fetchAddresses (ids : List Nat) : Update δ ρ (List RawRegisteredDeposit) :=
  if ids.isEmpty then pure []
  else if getAddressesMaxIds < ids.length then
    .fail (.tooManyAddressIds ids.length getAddressesMaxIds)
  else .ask (.callAddresses ids) fun result : ClarityValue => .ofExcept (parseAddresses result)

/-- The body of the inner loop: an entry that does not parse is logged and
passed over, and the cursor moves past it either way. -/
def handleAddress (sbtc : Sbtc δ ρ) (raw : RawRegisteredDeposit) : Update δ ρ PUnit := do
  (match MonitoredDeposit.tryFrom sbtc raw with
  | .ok deposit => .ask (.add deposit) fun _ => pure ⟨⟩
  | .error .missingAddressScripts => pure ⟨⟩
  | .error _ => pure ⟨⟩)
  .ask (.setLastNextAddressId raw.id (saturatingAdd raw.id 1)) fun _ => pure ⟨⟩

/-- The body of the outer loop: one chunk of ids. -/
def syncChunk (sbtc : Sbtc δ ρ) (registryNextId start : Nat) : Update δ ρ PUnit := do
  let stop := min (saturatingAdd start getAddressesMaxIds) registryNextId
  let ids := List.range' start (stop - start)
  let depositAddresses ← fetchAddresses ids
  if ids ≠ depositAddresses.map (·.id) then .fail .mismatchingRawAddressIds
  else depositAddresses.forM (handleAddress sbtc)

/-- `(start..stop).step_by(size)`. -/
def stepBy (start stop size : Nat) : List Nat :=
  List.range' start ((stop - start + (size - 1)) / size) size

/-- `update_from_registry`. -/
def updateFromRegistry (sbtc : Sbtc δ ρ) (configured : Bool) : Update δ ρ PUnit :=
  if configured then do
    let lastNextId ← (.ask .getLastNextAddressId .pure : Update δ ρ Nat)
    let registryNextId ← getNextAddressId
    let starts := stepBy lastNextId registryNextId getAddressesMaxIds
    if registryNextId ≤ lastNextId then pure ⟨⟩
    else starts.forM (syncChunk sbtc registryNextId)
  else pure ⟨⟩

/-! ## The world around it -/

/-- A chunk that was fetched: the cursor at that time, the ids, and which
state of the registry answered. -/
structure Fetch where
  cursor : Nat
  ids : List Nat
  index : Nat

/-- The registry through time, the store, and the history of the reads. -/
structure World (δ ρ : Type) where
  states : Nat → Registry
  now : Nat
  shared : SharedStore δ ρ
  seen : Nat
  fetches : List Fetch
  handled : List Nat
  nextRead : Option Nat

namespace World

/-- `last_next_address_id`. -/
def cursor (w : World δ ρ) : Nat := w.shared.store.lastNextAddressId

/-- The deposits of the store, by script pubkey. -/
def monitored (w : World δ ρ) : List UInt8 → Option (MonitoredDeposit δ ρ) :=
  w.shared.store.monitored

/-- The registry enters a new state. -/
def advance (r : Registry) (w : World δ ρ) : World δ ρ :=
  { w with states := Function.update w.states (w.now + 1) r, now := w.now + 1 }

/-- The answer of the store to a write. -/
def write (w : World δ ρ) (handled : List Nat) :
    Except Error (SharedStore δ ρ) → Except Error Unit × World δ ρ
  | .ok shared => (.ok (), { w with shared := shared, handled := w.handled ++ handled })
  | .error e => (.error e, w)

end World

/-- What happens between two requests of the updater. -/
inductive Rely : World δ ρ → World δ ρ → Prop
  | register (w : World δ ρ) (depositScript : Buff 196) (reclaimScript : Buff 2048) :
      Rely w (w.advance
        (Tx.commit (registerAddress depositScript reclaimScript) (w.states w.now)))
  | remove (w : World δ ρ) (txSender : Principal) (addressIds : List Nat)
      (hlen : addressIds.length ≤ 4000) :
      Rely w (w.advance (Tx.commit (removeAddresses txSender addressIds) (w.states w.now)))
  | poison (w : World δ ρ) : Rely w { w with shared := { w.shared with poisoned := true } }

/-- How the requests are answered. -/
def answer (sbtc : Sbtc δ ρ) :
    (q : Request δ ρ) → World δ ρ → Except Error q.Answer → World δ ρ → Prop
  | .getLastNextAddressId, w, r, w' => r = w.shared.getLastNextAddressId ∧ w' = w
  | .setLastNextAddressId addressId next, w, r, w' =>
      (r, w') = w.write [addressId] (w.shared.setLastNextAddressId next)
  | .add deposit, w, r, w' => (r, w') = w.write [] (w.shared.add sbtc deposit)
  | .callNextAddressId, w, r, w' =>
      (∃ e, r = .error e ∧ w' = w) ∨
      ∃ i, w.seen ≤ i ∧ i ≤ w.now ∧ r = .ok (.uint (w.states i).nextAddressId) ∧
        w' = { w with seen := i, nextRead := some (w.states i).nextAddressId }
  | .callAddresses ids, w, r, w' =>
      (∃ e, r = .error e ∧ w' = w) ∨
      (∃ value : ClarityValue, r = .ok value ∧ w' = w ∧
        ∀ data, parseAddresses value = .ok data → data.map (·.id) ≠ ids) ∨
      ∃ i, w.seen ≤ i ∧ i ≤ w.now ∧ r = .ok (getAddresses (w.states i) ids) ∧
        w' = { w with seen := i, fetches := w.fetches ++ [⟨w.cursor, ids, i⟩] }

/-- The environment of the updater. -/
def environment (sbtc : Sbtc δ ρ) :
    Environment (Request δ ρ) Request.Answer Error (World δ ρ) where
  rely := Rely
  answer := answer sbtc

/-! ## Ticks -/

/-- A tick in progress: what is left of it and where the cursor was. -/
structure Tick (δ ρ : Type) where
  program : Update δ ρ PUnit
  start : Nat

/-- A finished tick: the cursor before it, the next id it read, its result,
the ids it handled and the cursor after it. -/
structure Report where
  start : Nat
  nextRead : Option Nat
  result : Except Error PUnit
  handled : List Nat
  stop : Nat

/-- The whole system. Ticks do not overlap. -/
structure System (δ ρ : Type) where
  world : World δ ρ
  tick : Option (Tick δ ρ)
  reports : List Report

/-- The result of a program that has ended. -/
def ended : Update δ ρ PUnit → Option (Except Error PUnit)
  | .pure a => some (.ok a)
  | .fail e => some (.error e)
  | .ask _ _ => none

/-- The report of a tick that has ended. -/
def report (w : World δ ρ) (start : Nat) (result : Except Error PUnit) : Report :=
  ⟨start, w.nextRead, result, w.handled.drop start, w.cursor⟩

/-- One step of the system. -/
inductive System.Step (sbtc : Sbtc δ ρ) (configured : Bool) : System δ ρ → System δ ρ → Prop
  | environment {w w' : World δ ρ} {tick : Option (Tick δ ρ)} {reports : List Report}
      (h : Rely w w') : Step sbtc configured ⟨w, tick, reports⟩ ⟨w', tick, reports⟩
  | start {w : World δ ρ} {reports : List Report} :
      Step sbtc configured ⟨w, none, reports⟩
        ⟨{ w with nextRead := none }, some ⟨updateFromRegistry sbtc configured, w.cursor⟩,
          reports⟩
  | run {w w' : World δ ρ} {p p' : Update δ ρ PUnit} {start : Nat} {reports : List Report}
      (h : Process.Step (Sync.environment sbtc) p w p' w') :
      Step sbtc configured ⟨w, some ⟨p, start⟩, reports⟩ ⟨w', some ⟨p', start⟩, reports⟩
  | finish {w : World δ ρ} {p : Update δ ρ PUnit} {result : Except Error PUnit} {start : Nat}
      {reports : List Report} (h : ended p = some result) :
      Step sbtc configured ⟨w, some ⟨p, start⟩, reports⟩
        ⟨w, none, reports ++ [report w start result]⟩

/-- A run: any interleaving of ticks, registry transactions and panics. -/
abbrev System.Run (sbtc : Sbtc δ ρ) (configured : Bool) : System δ ρ → System δ ρ → Prop :=
  Relation.ReflTransGen (Step sbtc configured)

/-- The system at startup: the registry has just been deployed, the store
holds the deposits of the configuration and no tick has run. -/
def System.initial (monitored : List UInt8 → Option (MonitoredDeposit δ ρ)) : System δ ρ where
  world :=
    { states := fun _ => .deployed
      now := 0
      shared := ⟨false, 0, monitored⟩
      seen := 0
      fetches := []
      handled := []
      nextRead := none }
  tick := none
  reports := []

/-- The systems a run can reach. -/
def System.Reachable (sbtc : Sbtc δ ρ) (configured : Bool) (sys : System δ ρ) : Prop :=
  ∃ monitored, Run sbtc configured (.initial monitored) sys

end Spox.Sync
