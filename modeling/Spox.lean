import Spox.Contract.Listing
import Spox.Contract.Agreement
import Spox.Contract.Record
import Spox.Contract.Burns
import Spox.Contract.Schedule
import Spox.Contract.Withdrawals
import Spox.Contract.BatchRegistration
import Spox.SignerManager.Linked
import Spox.Keeper.Batching
import Spox.Keeper.Settlement
import Spox.Keeper.Interference
import Spox.Keeper.Sweep
import Spox.Keeper.Views
import Spox.Deposit.Completeness
import Spox.Dispatch.Delivery
import Spox.Webapp.FormLoads
import Spox.Webapp.DepositRegistration
import Spox.Webapp.ScriptView
import Spox.Webapp.Derivation
import Spox.Webapp.Activity
