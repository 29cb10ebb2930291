import Spox.Contract.Calls
import Spox.Lib.Order
import Spox.Lib.Runs

/-!
# Reward claim registry — the abstract machine

What the registry is for, as a machine whose steps are whole business
events: a registration is created, topped up, cancelled, or consumes one
installment; an indexed withdrawal is settled or pruned; and anything else
that happens leaves the registrations, the withdrawals and the escrow alone.

`Change` lists those steps with everything the contract guarantees when it
takes them. That every public call is a run of this machine is the theorem
`exec_runs` of the soundness module; every invariant is then one case for
each constructor of `Change`.
-/

namespace Spox.RewardClaims

open Spox.Lib

variable {σ : Type}

/-! ## Readings of the log -/

/-- The registration an event creates. -/
def Event.created : Event → Option RegistrationKey
  | .registerForClaims key .. => some key
  | _ => none

/-- The withdrawal an event indexes. -/
def Event.indexing : Event → Option WithdrawalKey
  | .indexed key => some key
  | _ => none

/-- The claim an event records. -/
def Event.claim : Event → Option Claim
  | .claimed claim => some claim
  | _ => none

/-- The STX an event brings from outside. -/
def Event.donation : Event → Nat
  | .received amount => amount
  | _ => 0

/-- The keys of all registrations ever created, oldest first. -/
def creations (log : List Event) : List RegistrationKey := log.filterMap Event.created

/-- The keys of all withdrawals ever indexed, oldest first. -/
def indexings (log : List Event) : List WithdrawalKey := log.filterMap Event.indexing

/-- The claims, oldest first. -/
def claims (log : List Event) : List Claim := log.filterMap Event.claim

/-- The STX that reached the contract from outside. -/
def received (log : List Event) : Nat := (log.map Event.donation).sum

/-- The live registrations, by the time of their creation. -/
def liveKeys (w : World σ) : List RegistrationKey :=
  insertionOrder (creations w.log) fun key => (w.registry.registrations key).isSome

/-- The indexed withdrawals, by the time of their indexing. -/
def indexedKeys (w : World σ) : List WithdrawalKey :=
  insertionOrder (indexings w.log) fun key => (w.registry.pendingWithdrawals key).isSome

/-- The escrow recorded for a key. -/
def prepaid (w : World σ) (key : RegistrationKey) : Nat :=
  match w.registry.registrations key with
  | some registration => registration.prepaidUstx
  | none => 0

/-- The escrow recorded for all live registrations. -/
def escrowTotal (w : World σ) : Nat := ((liveKeys w).map (prepaid w)).sum

section Log

variable (l l' : List Event) (e : Event)

@[simp] theorem creations_append : creations (l ++ l') = creations l ++ creations l' :=
  List.filterMap_append

@[simp] theorem indexings_append : indexings (l ++ l') = indexings l ++ indexings l' :=
  List.filterMap_append

@[simp] theorem claims_append : claims (l ++ l') = claims l ++ claims l' :=
  List.filterMap_append

@[simp] theorem received_append : received (l ++ l') = received l + received l' := by
  simp [received]

@[simp] theorem creations_nil : creations [] = [] := rfl

@[simp] theorem creations_cons : creations (e :: l) = e.created.toList ++ creations l := by
  cases h : e.created <;> simp [creations, h]

@[simp] theorem indexings_nil : indexings [] = [] := rfl

@[simp] theorem indexings_cons : indexings (e :: l) = e.indexing.toList ++ indexings l := by
  cases h : e.indexing <;> simp [indexings, h]

@[simp] theorem claims_nil : claims [] = [] := rfl

@[simp] theorem claims_cons : claims (e :: l) = e.claim.toList ++ claims l := by
  cases h : e.claim <;> simp [claims, h]

@[simp] theorem received_nil : received [] = 0 := rfl

@[simp] theorem received_cons : received (e :: l) = e.donation + received l := by
  simp [received]

end Log

/-! ## The schedule -/

/-- The distribution that follows a claim: `next-claim-after` where it does
not overflow. -/
def scheduleNext (claimDistribution : Nat) (oneClaimPerRewardCycle : Bool)
    (currentDistributionCycle : Nat) : Nat :=
  if oneClaimPerRewardCycle then claimDistribution + 2
  else if 2 * (claimDistribution / 2) + 1 < currentDistributionCycle then
    2 * (claimDistribution / 2 + 1)
  else claimDistribution + 1

/-- The first distribution of a schedule. -/
def scheduleStart (startRewardCycle : Nat) (oneClaimPerRewardCycle : Bool) : Nat :=
  2 * startRewardCycle + (claimStep oneClaimPerRewardCycle - 1)

theorem lt_scheduleNext (d : Nat) (oneClaim : Bool) (cycle : Nat) :
    d < scheduleNext d oneClaim cycle := by
  unfold scheduleNext
  split
  · omega
  · split <;> omega

/-- The row one installment later, none when it was the last. -/
def consume (registration : Registration) (currentDistributionCycle : Nat) :
    Option Registration :=
  if registration.remainingClaims ≤ 1 then none
  else some
    { registration with
      remainingClaims := registration.remainingClaims - 1
      prepaidUstx := registration.prepaidUstx - burnAmount registration
      nextClaimDistribution := scheduleNext registration.nextClaimDistribution
        registration.oneClaimPerRewardCycle currentDistributionCycle }

theorem burnAmount_le (registration : Registration) :
    burnAmount registration ≤ registration.prepaidUstx := by
  unfold burnAmount
  split
  · exact Nat.le_refl _
  · exact Nat.div_le_self _ _

/-! ## The worlds the steps lead to -/

namespace World

variable (w : World σ)

/-- `amount` goes into escrow; nothing moves for a free registration. -/
def escrow (amount : Nat) (sender : Principal) : World σ :=
  if 0 < amount then w.move amount sender currentContract else w

/-- `amount` is refunded from escrow. -/
def refund (amount : Nat) (recipient : Principal) : World σ :=
  if 0 < amount then w.move amount currentContract recipient else w

/-- `amount` of the escrow is burned. -/
def burnEscrow (amount : Nat) : World σ :=
  if 0 < amount then w.burn amount currentContract else w

def registered (key : RegistrationKey) (row : Registration) (startRewardCycle : Nat) :
    World σ :=
  ((w.escrow row.prepaidUstx row.sponsor).onRegistry fun r =>
    { r with
      registrations := Function.update r.registrations key (some row)
      registrationLl := r.registrationLl.append key }).emit
    [.registerForClaims key row.sponsor startRewardCycle row.oneClaimPerRewardCycle
      row.remainingClaims row.prepaidUstx]

def toppedUp (key : RegistrationKey) (row : Registration) (numClaims escrowed : Nat) :
    World σ :=
  ((w.escrow escrowed row.sponsor).onRegistry fun r =>
    { r with
      registrations := Function.update r.registrations key (some
        { row with
          remainingClaims := row.remainingClaims + numClaims
          prepaidUstx := row.prepaidUstx + escrowed }) }).emit
    [.addClaims key row.sponsor numClaims escrowed]

def cancelled (key : RegistrationKey) (row : Registration) : World σ :=
  ((w.onRegistry fun r =>
    { r with
      registrations := Function.update r.registrations key none
      registrationLl := r.registrationLl.remove key }).refund
    row.prepaidUstx row.sponsor).emit
    [.cancelRegistration key row.sponsor row.prepaidUstx]

/-- The highest distribution processed for a staker after one more. -/
def raised (recorded : Option Nat) (distribution : Nat) : Nat :=
  match recorded with
  | some existing => if existing < distribution then distribution else existing
  | none => distribution

def advanced (key : RegistrationKey) (row : Registration) (cycle : Nat) : World σ :=
  (w.onRegistry fun r =>
    { r with
      maxProcessedDistribution := Function.update r.maxProcessedDistribution key.staker
        (some (raised (r.maxProcessedDistribution key.staker) row.nextClaimDistribution))
      registrations := Function.update r.registrations key (consume row cycle)
      registrationLl := if row.remainingClaims ≤ 1 then r.registrationLl.remove key
        else r.registrationLl }).burnEscrow (burnAmount row)

/-- A claim's print event and the history of it. -/
def claimed (key : RegistrationKey) (row : Registration) (cycle : Nat)
    (covered : Option Nat) (earned : Nat) (claimError stored : Option Nat) : World σ :=
  ((w.advanced key row cycle).emit
    [.processRewardClaim key (row.nextClaimDistribution / 2) row.nextClaimDistribution
      row.bondIndex earned claimError stored]).emit
    [.claimed ⟨key, row, consume row cycle, cycle, covered⟩]

def indexedAt (key : WithdrawalKey) (height : Nat) : World σ :=
  (w.onRegistry fun r =>
    { r with
      pendingWithdrawals := Function.update r.pendingWithdrawals key (some height)
      pendingWithdrawalLl := r.pendingWithdrawalLl.append key }).emit [.indexed key]

def unindexed (key : WithdrawalKey) : World σ :=
  w.onRegistry fun r =>
    { r with
      pendingWithdrawals := Function.update r.pendingWithdrawals key none
      pendingWithdrawalLl := r.pendingWithdrawalLl.remove key }

end World

/-! ## The steps -/

/-- The events of code that is not about a registration or a withdrawal. -/
def Event.isOutside : Event → Bool
  | .registerForClaimsSkipped .. => true
  | .cancelRegistrationSkipped .. => true
  | .updateAdmin .. => true
  | .received .. => true
  | _ => false

/-- Anything may have happened, except to the registrations, the indexed
withdrawals, the progress record and the escrow: the fee and the admins, the
rest of the chain as `R` allows, and STX coming in. -/
structure Outside (R : σ → σ → Prop) (w w' : World σ) : Prop where
  registrations : w'.registry.registrations = w.registry.registrations
  registrationLl : w'.registry.registrationLl = w.registry.registrationLl
  maxProcessedDistribution :
    w'.registry.maxProcessedDistribution = w.registry.maxProcessedDistribution
  pendingWithdrawals : w'.registry.pendingWithdrawals = w.registry.pendingWithdrawals
  pendingWithdrawalLl : w'.registry.pendingWithdrawalLl = w.registry.pendingWithdrawalLl
  active : w'.registry.signerManagerCallActive = w.registry.signerManagerCallActive
  ext : Relation.ReflTransGen R w.ext w'.ext
  log : ∃ es, w'.log = w.log ++ es ∧ (∀ e ∈ es, e.isOutside = true) ∧
    w'.stx currentContract = w.stx currentContract + received es

/-- What every row satisfies: it has an installment left, its sponsor is
somebody else, and its signer-manager is a contract. -/
structure RowOk (key : RegistrationKey) (row : Registration) : Prop where
  remaining : 1 ≤ row.remainingClaims
  sponsor : row.sponsor ≠ currentContract
  signerManager : ∃ id, key.signerManager = .contract id

/-- The withdrawal a claim indexes on its way: none, one already indexed,
or a new one. In the last two cases the request is pending. -/
inductive Tracked (views : Views σ) (key : RegistrationKey) :
    World σ → Option Nat → World σ → Prop
  | none (w : World σ) : Tracked views key w none w
  | known (w : World σ) (id : Nat)
      (hstatus : views.getWithdrawalRequest w.ext id = some ⟨Option.none⟩)
      (hindexed : (w.registry.pendingWithdrawals
        ⟨key.staker, key.signerManager, id⟩).isSome = true) :
      Tracked views key w (some id) w
  | fresh (w : World σ) (id : Nat)
      (hstatus : views.getWithdrawalRequest w.ext id = some ⟨Option.none⟩)
      (hfree : w.registry.pendingWithdrawals
        ⟨key.staker, key.signerManager, id⟩ = Option.none) :
      Tracked views key w (some id)
        (w.indexedAt ⟨key.staker, key.signerManager, id⟩ (views.burnBlockHeight w.ext))

/-- The business events, with the account that caused them where it matters. -/
inductive Label where
  | outside
  | register (key : RegistrationKey) (sender : Principal)
  | addClaims (key : RegistrationKey) (sender : Principal)
  | cancel (key : RegistrationKey) (sender : Principal)
  | claim (key : RegistrationKey)
  | settle (key : WithdrawalKey)

/-- The steps of the abstract machine. -/
inductive Change (views : Views σ) (R : σ → σ → Prop) : Label → World σ → World σ → Prop
  | outside {w w' : World σ} (h : Outside R w w') : Change views R .outside w w'
  | register (w : World σ) (key : RegistrationKey) (row : Registration)
      (startRewardCycle : Nat) (hrow : RowOk key row)
      (hfree : w.registry.registrations key = none)
      (hstart : row.nextClaimDistribution =
        scheduleStart startRewardCycle row.oneClaimPerRewardCycle) :
      Change views R (.register key row.sponsor) w (w.registered key row startRewardCycle)
  | addClaims (w : World σ) (key : RegistrationKey) (row : Registration)
      (numClaims escrowed : Nat) (hrow : w.registry.registrations key = some row) :
      Change views R (.addClaims key row.sponsor) w
        (w.toppedUp key row numClaims escrowed)
  | cancel (w : World σ) (key : RegistrationKey) (row : Registration) (sender : Principal)
      (hrow : w.registry.registrations key = some row)
      (hsender : sender = key.staker ∨ sender = row.sponsor) :
      Change views R (.cancel key sender) w (w.cancelled key row)
  | claim (w w₁ : World σ) (key : RegistrationKey) (row : Registration) (cycle : Nat)
      (covered : Option Nat) (earned : Nat) (claimError stored : Option Nat)
      (htracked : Tracked views key w stored w₁)
      (hpaid : stored ≠ none → claimError = none)
      (hrow : w.registry.registrations key = some row)
      (hdue : isPending row cycle covered = true) :
      Change views R (.claim key) w
        (w₁.claimed key row cycle covered earned claimError stored)
  | settle (w w₁ : World σ) (key : WithdrawalKey) (accepted : Bool)
      (hindexed : (w.registry.pendingWithdrawals key).isSome = true)
      (hstatus : views.getWithdrawalRequest w.ext key.requestId = some ⟨some accepted⟩)
      (hcall : Outside R (w.emit [.invoked key accepted]) w₁) :
      Change views R (.settle key) w
        ((w₁.unindexed key).emit [.settlePendingWithdrawal key accepted])
  | prune (w : World σ) (key : WithdrawalKey)
      (hindexed : (w.registry.pendingWithdrawals key).isSome = true)
      (hstatus : views.getWithdrawalRequest w.ext key.requestId = none) :
      Change views R (.settle key) w
        ((w.unindexed key).emit [.prunePendingWithdrawal key])

end Spox.RewardClaims
