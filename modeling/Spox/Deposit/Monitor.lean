import Spox.Lib.FilterMap
import Spox.Lib.Hex
import Spox.Lib.Lru
import Spox.Sync.Registry

/-!
# Deposit monitor

`deposit_monitor.rs` with the calls of `bitcoin/node.rs` it makes. In each
tick the monitor fetches the unspent outputs of the monitored scripts, makes
a request of each that it has not created yet, and submits the requests to
Emily.

The node is a parameter: its answers of one tick (`BitcoinRpc`). So are the
`sbtc` and `bitcoin` crates, which put scripts together and print hashes
(`Crates`), and the answers of Emily.
-/

namespace Spox.Deposit

open Spox.Lib Spox.Client Spox.Sync

/-! ## Data -/

abbrev Txid := BitVec 256

abbrev BlockHash := BitVec 256

abbrev Script := List UInt8

/-- `BlockRef`. -/
structure BlockRef where
  blockHeight : Nat
  blockHash : BlockHash

/-- `Utxo`. -/
structure Utxo where
  txid : Txid
  vout : Nat
  scriptPubKey : Script
  amount : Nat
  blockHeight : Nat
deriving DecidableEq

/-- `ListUnspentResultEntry`. -/
structure ListUnspentResultEntry where
  txid : Txid
  vout : Nat
  scriptPubKey : Script
  amount : Nat
  confirmations : Nat

/-- The result of `scantxoutset`. -/
structure ScanTxOutResult where
  success : Option Bool
  unspents : List Utxo

/-- `CreateDepositRequestBody`. -/
structure CreateDepositRequestBody where
  bitcoinTxOutputIndex : Nat
  bitcoinTxid : String
  depositScript : String
  reclaimScript : String
  transactionHex : String
deriving DecidableEq

/-- What the `sbtc` and `bitcoin` crates are used for. -/
structure Crates (δ ρ : Type) where
  parseDepositScript : List UInt8 → Except Error δ
  parseReclaimScript : List UInt8 → Except Error ρ
  depositScript : δ → Script
  reclaimScript : ρ → Script
  lockTime : ρ → UInt32
  toScriptPubkey : Script → Script → Script
  toHexString : Script → String
  txidToString : Txid → String
  txidFromStr : String → Option Txid

/-- The script pubkey of a monitored deposit is that of its two scripts. -/
def Crates.sbtc {δ ρ : Type} (crates : Crates δ ρ) : Sbtc δ ρ where
  parseDepositScript := crates.parseDepositScript
  parseReclaimScript := crates.parseReclaimScript
  toScriptPubkey depositScriptInputs reclaimScriptInputs :=
    crates.toScriptPubkey (crates.depositScript depositScriptInputs)
      (crates.reclaimScript reclaimScriptInputs)

/-! ## The node -/

/-- The answers of the node in one tick. The two reads that are made for a
UTXO are numbered by its position: asked the same again, the node may answer
something else, since blocks arrive and calls fail at any time. -/
structure BitcoinRpc where
  scanTxOutSetScanning : Except RpcError Bool
  scanTxOutSetBlocking : List Script → Except RpcError ScanTxOutResult
  listUnspent : Except RpcError (List ListUnspentResultEntry)
  getBlockHash : Nat → Nat → Except RpcError BlockHash
  getRawTransactionHex : Nat → Txid → BlockHash → Except RpcError String

/-- `.map_err(Error::BitcoinCoreRpc)`. -/
def mapErr {α : Type} : Except RpcError α → Except Error α
  | .ok a => .ok a
  | .error error => .error (.bitcoinCoreRpc error)

/-- `scan_tx_out_set`. -/
def scanTxOutSet (rpc : BitcoinRpc) (addresses : List Script) : Except Error (List Utxo) :=
  match rpc.scanTxOutSetBlocking addresses with
  | .error error =>
      if error.code = some (-8) then .error .scanAlreadyInProgress
      else .error (.bitcoinCoreRpc error)
  | .ok result =>
      if result.success = some true then .ok result.unspents else .error .scanTxOutFailure

/-! ## The monitor -/

variable {δ ρ : Type}

/-- `Context`: the store with the order its hash map is met in, whether a
node wallet is configured, and the node. -/
structure Context (δ ρ : Type) where
  storage : SharedStore δ ρ
  iteration : List Script
  nodeWallet : Bool
  bitcoinClient : BitcoinRpc

/-- `TX_HEX_CACHE_SIZE`. -/
def txHexCacheSize : Nat := 8000

/-- `CREATED_DEPOSITS_CACHE_SIZE`. -/
def createdDepositsCacheSize : Nat := 100000

/-- `DepositMonitor`. -/
structure DepositMonitor where
  txHexCache : Lru (Txid × BlockHash) String txHexCacheSize
  createdDeposits : Lru (Txid × Nat) Unit createdDepositsCacheSize

/-- `DepositMonitor::new`. -/
def DepositMonitor.new : DepositMonitor := ⟨.empty, .empty⟩

section Functions

variable (crates : Crates δ ρ) (context : Context δ ρ) (chainTip : BlockRef)

/-- `get_deposit_from_utxo` up to the block hash: the deposit of the script,
unless it is expired. -/
def unexpiredDeposit (i : Nat) (utxo : Utxo) :
    Except Error (MonitoredDeposit δ ρ × BlockHash) := do
  match ← context.storage.getByScript utxo.scriptPubKey with
  | none => .error (.missingMonitoredDeposit utxo.scriptPubKey)
  | some monitoredDeposit =>
      -- the addition is on `u64` and wraps
      let unlockingTime := (utxo.blockHeight +
        (crates.lockTime monitoredDeposit.reclaimScriptInputs).toNat) % u64Bound
      if unlockingTime ≤ chainTip.blockHeight then .error .depositExpired
      else
        let blockHash ← mapErr (context.bitcoinClient.getBlockHash i utxo.blockHeight)
        pure (monitoredDeposit, blockHash)

/-- The request for a UTXO. -/
def depositRequest (utxo : Utxo) (monitoredDeposit : MonitoredDeposit δ ρ) (txHex : String) :
    CreateDepositRequestBody where
  bitcoinTxOutputIndex := utxo.vout
  bitcoinTxid := crates.txidToString utxo.txid
  depositScript := crates.toHexString
    (crates.depositScript monitoredDeposit.depositScriptInputs)
  reclaimScript := crates.toHexString
    (crates.reclaimScript monitoredDeposit.reclaimScriptInputs)
  transactionHex := txHex

/-- `get_deposit_from_utxo`, for the UTXO at position `i`. -/
def getDepositFromUtxo (i : Nat) (utxo : Utxo) (m : DepositMonitor) :
    Except Error CreateDepositRequestBody × DepositMonitor :=
  match unexpiredDeposit crates context chainTip i utxo with
  | .error error => (.error error, m)
  | .ok (monitoredDeposit, blockHash) =>
      let (txHex, txHexCache) := m.txHexCache.tryGetOrInsert (utxo.txid, blockHash)
        (mapErr (context.bitcoinClient.getRawTransactionHex i utxo.txid blockHash))
      (txHex.map (depositRequest crates utxo monitoredDeposit), { m with txHexCache })

/-- The closure of `get_utxos`: one confirmation means the chain tip. -/
def watchedUtxo (scriptPubkeys : List Script) (unspent : ListUnspentResultEntry) :
    Option Utxo :=
  if unspent.scriptPubKey ∈ scriptPubkeys then some
    { txid := unspent.txid
      vout := unspent.vout
      scriptPubKey := unspent.scriptPubKey
      amount := unspent.amount
      blockHeight := chainTip.blockHeight - (unspent.confirmations - 1) }
  else none

/-- `get_utxos`. -/
def getUtxos (scriptPubkeys : List Script) : Except Error (List Utxo) := do
  if context.nodeWallet then
    let unspents ← mapErr context.bitcoinClient.listUnspent
    pure (unspents.filterMap (watchedUtxo chainTip scriptPubkeys))
  else if ← mapErr context.bitcoinClient.scanTxOutSetScanning then
    .error .scanAlreadyInProgress
  else scanTxOutSet context.bitcoinClient scriptPubkeys

/-- What `get_pending_deposits` fetches: nothing if no script is monitored. -/
def fetchUtxos : Except Error (Option (List Utxo)) := do
  let scriptPubkeys ← context.storage.getScripts context.iteration
  if scriptPubkeys.isEmpty then pure none
  else
    let utxos ← getUtxos context chainTip scriptPubkeys
    pure (some utxos)

/-- The closure of `get_pending_deposits`, for the UTXO at position `i`: one
that was created already is left out, and so is one that yields an error. -/
def pendingDeposit (i : Nat) (utxo : Utxo) (m : DepositMonitor) :
    Option CreateDepositRequestBody × DepositMonitor :=
  let (created, createdDeposits) := m.createdDeposits.get (utxo.txid, utxo.vout)
  let m := { m with createdDeposits }
  if created.isSome then (none, m)
  else
    let (deposit, m) := getDepositFromUtxo crates context chainTip i utxo m
    (deposit.toOption, m)

/-- `get_pending_deposits`. -/
def getPendingDeposits (m : DepositMonitor) :
    Except Error (List CreateDepositRequestBody) × DepositMonitor :=
  match fetchUtxos context chainTip with
  | .error error => (.error error, m)
  | .ok none => (.ok [], m)
  | .ok (some utxos) =>
      let (deposits, m) := filterMapFrom (pendingDeposit crates context chainTip) 0 utxos m
      (.ok deposits, m)

/-- `deposit_created`: a transaction id that does not parse is only logged. -/
def DepositMonitor.depositCreated (bitcoinTxid : String) (bitcoinTxOutputIndex : Nat)
    (m : DepositMonitor) : DepositMonitor :=
  match crates.txidFromStr bitcoinTxid with
  | some txid =>
      { m with createdDeposits := m.createdDeposits.put (txid, bitcoinTxOutputIndex) () }
  | none => m

/-- The body of the loop of `fetch_and_create_deposits`: the `i`-th request
is submitted, and Emily accepts it or not. -/
def createDeposit (emily : Nat → CreateDepositRequestBody → Bool) (i : Nat)
    (deposit : CreateDepositRequestBody) (m : DepositMonitor) :
    Option (CreateDepositRequestBody × Bool) × DepositMonitor :=
  if emily i deposit then
    (some (deposit, true),
      m.depositCreated crates deposit.bitcoinTxid deposit.bitcoinTxOutputIndex)
  else (some (deposit, false), m)

/-- `fetch_and_create_deposits`: its result, and the requests it submitted
with whether Emily accepted them. -/
def fetchAndCreateDeposits (emily : Nat → CreateDepositRequestBody → Bool)
    (m : DepositMonitor) :
    (Except Error Unit × List (CreateDepositRequestBody × Bool)) × DepositMonitor :=
  match getPendingDeposits crates context chainTip m with
  | (.error error, m) => ((.error error, []), m)
  | (.ok deposits, m) =>
      let (submissions, m) := filterMapFrom (createDeposit crates emily) 0 deposits m
      ((.ok (), submissions), m)

end Functions

/-! ## A known deposit address -/

namespace Sample

/-- A deposit script with a fee of at most 5000 satoshis. -/
def depositScript : Script :=
  [0x1e, 0x00, 0x00, 0x00, 0x00, 0x00, 0x00, 0x13, 0x88, 0x05, 0x1a, 0x9f, 0x7e, 0x4a, 0x8f,
   0x4b, 0x21, 0x6e, 0x0c, 0x9f, 0xe4, 0xd0, 0xf7, 0x5a, 0xb3, 0x01, 0xc5, 0x57, 0x6c, 0x3b,
   0x9e, 0x75, 0x20, 0x37, 0x13, 0x3b, 0xde, 0x8a, 0x28, 0xc0, 0xc8, 0x9e, 0x0c, 0xa0, 0xfd,
   0x84, 0x4b, 0x38, 0xa7, 0x66, 0x80, 0x10, 0xa9, 0xda, 0x05, 0x67, 0xeb, 0x94, 0x24, 0x0e,
   0x4b, 0x5f, 0x2c, 0xde, 0x87, 0xac]

/-- A reclaim script with a lock time of 100 blocks. -/
def reclaimScript : Script := [0x01, 0x64, 0xb2, 0x75, 0x51]

/-- The script pubkey of the two. -/
def scriptPubkey : Script :=
  [0x51, 0x20, 0xf2, 0xdf, 0x9d, 0xde, 0x18, 0x74, 0x35, 0x90, 0xff, 0x6b, 0xd8, 0x1f, 0xfb,
   0x85, 0x0d, 0x85, 0x0d, 0x1f, 0x30, 0xd7, 0x18, 0xd5, 0xee, 0x80, 0x63, 0x2b, 0xd1, 0xed,
   0x0d, 0x1e, 0xdc, 0x74]

/-- The crates on this deposit address, and hashes as text. -/
def crates : Crates Script Script where
  parseDepositScript := .ok
  parseReclaimScript := .ok
  depositScript := id
  reclaimScript := id
  lockTime _ := 100
  toScriptPubkey _ _ := scriptPubkey
  toHexString := hexBytes
  txidToString txid := hexText 64 txid.toNat
  txidFromStr text := (readHexText 64 text).map (BitVec.ofNat 256)

theorem txidFromStr_txidToString (txid : Txid) :
    crates.txidFromStr (crates.txidToString txid) = some txid := by
  have hread := @readHexText_toNat 64 txid
  simp only [crates]
  exact hread

/-- The address from the config file. -/
def deposit : MonitoredDeposit Script Script := ⟨.config "demo", depositScript, reclaimScript⟩

/-- An output at height 1000 that pays to the address. -/
def utxo : Utxo := ⟨7, 1, scriptPubkey, 25000, 1000⟩

/-- The transactions of the chain. -/
def raw : Txid → BlockHash → String := fun _ _ => "02"

/-- A node that has found the output. -/
def node : BitcoinRpc where
  scanTxOutSetScanning := .ok false
  scanTxOutSetBlocking _ := .ok ⟨some true, [utxo]⟩
  listUnspent := .ok [⟨7, 1, scriptPubkey, 25000, 51⟩]
  getBlockHash _ height :=
    if height ≤ 1050 then .ok (BitVec.ofNat 256 height) else .error ⟨some (-8)⟩
  getRawTransactionHex _ txid blockHash :=
    if txid = 7 ∧ blockHash = 1000 then .ok (raw txid blockHash) else .error ⟨some (-5)⟩

/-- The monitor's context, with the address in the store. -/
def context : Context Script Script where
  storage := ⟨false, ⟨0, Function.update (fun _ => none) scriptPubkey (some deposit)⟩⟩
  iteration := [scriptPubkey]
  nodeWallet := false
  bitcoinClient := node

/-- A chain tip 50 blocks later. -/
def chainTip : BlockRef := ⟨1050, 1050⟩

end Sample

end Spox.Deposit
