import Spox.Contract.Soundness
import Spox.Lib.Replay

/-!
# Reward claim registry — what the log records

The log of a reachable world tells its whole story. A `Movement` is a
transfer or a burn that touches the contract's balance; each has a cause, an
event of a registration that names the same amount and the same account. An
`Entry` is such an event with the row before and the row after it.

A reducer that agrees with the map on every entry and ignores the other
events accepts the log of every reachable world and ends in the map itself
(`replay_of_runs`): statements about whole histories are instances of it.
-/

namespace Spox.RewardClaims

open Spox.Lib

variable {σ : Type} {views : Views σ} {R : σ → σ → Prop} {base : Nat} {w w' : World σ}

/-! ## Movements and their causes -/

/-- STX in and out of the contract. -/
inductive Movement where
  | deposit (amount : Nat) (sender : Principal)
  | payout (amount : Nat) (recipient : Principal)
  | burn (amount : Nat)
deriving DecidableEq

def Movement.amount : Movement → Nat
  | .deposit amount _ => amount
  | .payout amount _ => amount
  | .burn amount => amount

/-- Only a positive amount moves. -/
def Movement.nonzero (m : Movement) : Option Movement :=
  if 0 < m.amount then some m else none

/-- What an event moves. -/
def Event.movement : Event → Option Movement
  | .stxTransfer amount sender recipient =>
      if sender = currentContract then some (.payout amount recipient)
      else if recipient = currentContract then some (.deposit amount sender)
      else none
  | .stxBurn amount sender => if sender = currentContract then some (.burn amount) else none
  | _ => none

/-- The escrow a claim releases. -/
def Claim.released (claim : Claim) : Nat :=
  claim.before.prepaidUstx - (claim.after.map Registration.prepaidUstx).getD 0

/-- The movement an event of a registration calls for. -/
def Event.cause : Event → Option Movement
  | .registerForClaims _ sponsor _ _ _ escrowed => (Movement.deposit escrowed sponsor).nonzero
  | .addClaims _ sponsor _ escrowed => (Movement.deposit escrowed sponsor).nonzero
  | .cancelRegistration _ sponsor refund => (Movement.payout refund sponsor).nonzero
  | .claimed claim => (Movement.burn claim.released).nonzero
  | _ => none

def movements (log : List Event) : List Movement := log.filterMap Event.movement

def causes (log : List Event) : List Movement := log.filterMap Event.cause

@[simp] theorem movements_append (l l' : List Event) :
    movements (l ++ l') = movements l ++ movements l' :=
  List.filterMap_append

@[simp] theorem causes_append (l l' : List Event) :
    causes (l ++ l') = causes l ++ causes l' :=
  List.filterMap_append

@[simp] theorem movements_nil : movements [] = [] := rfl

@[simp] theorem movements_cons (e : Event) (l : List Event) :
    movements (e :: l) = e.movement.toList ++ movements l := by
  cases h : e.movement <;> simp [movements, h]

@[simp] theorem causes_nil : causes [] = [] := rfl

@[simp] theorem causes_cons (e : Event) (l : List Event) :
    causes (e :: l) = e.cause.toList ++ causes l := by
  cases h : e.cause <;> simp [causes, h]

@[simp] theorem causes_transferEvents (amount : Nat) (sender recipient : Principal) :
    causes (transferEvents amount sender recipient) = [] := by
  unfold transferEvents; split <;> rfl

@[simp] theorem causes_burnEvents (amount : Nat) : causes (burnEvents amount) = [] := by
  unfold burnEvents; split <;> rfl

theorem movements_deposit {amount : Nat} {sender : Principal} (h : sender ≠ currentContract) :
    movements (transferEvents amount sender currentContract) =
      (Movement.deposit amount sender).nonzero.toList := by
  unfold transferEvents Movement.nonzero
  by_cases hpos : 0 < amount <;> simp [Movement.amount, Event.movement, movements, hpos, h]

theorem movements_payout {amount : Nat} {recipient : Principal} :
    movements (transferEvents amount currentContract recipient) =
      (Movement.payout amount recipient).nonzero.toList := by
  unfold transferEvents Movement.nonzero
  by_cases hpos : 0 < amount <;> simp [Movement.amount, Event.movement, movements, hpos]

theorem movements_burn {amount : Nat} :
    movements (burnEvents amount) = (Movement.burn amount).nonzero.toList := by
  unfold burnEvents Movement.nonzero
  by_cases hpos : 0 < amount <;> simp [Movement.amount, Event.movement, movements, hpos]

/-! ## Entries -/

/-- An event that is about no registration. -/
def Event.isIdle : Event → Bool
  | .registerForClaims .. | .addClaims .. | .cancelRegistration .. | .claimed .. => false
  | _ => true

theorem isIdle_of_isOutside {e : Event} (h : e.isOutside = true) :
    e.isIdle = true ∧ e.movement = none ∧ e.cause = none := by
  cases e <;> first | exact ⟨rfl, rfl, rfl⟩ | simp [Event.isOutside] at h

theorem outside_movements {es : List Event} (h : ∀ e ∈ es, e.isOutside = true) :
    movements es = [] ∧ causes es = [] :=
  ⟨List.filterMap_eq_nil_iff.mpr fun e he => (isIdle_of_isOutside (h e he)).2.1,
    List.filterMap_eq_nil_iff.mpr fun e he => (isIdle_of_isOutside (h e he)).2.2⟩

theorem isIdle_transferEvents {amount : Nat} {sender recipient : Principal} :
    ∀ e ∈ transferEvents amount sender recipient, e.isIdle = true := by
  unfold transferEvents
  split <;> simp [Event.isIdle]

theorem isIdle_burnEvents {amount : Nat} : ∀ e ∈ burnEvents amount, e.isIdle = true := by
  unfold burnEvents
  split <;> simp [Event.isIdle]

/-- An event of a registration, with the row before it and the row after. -/
inductive Entry : Event → RegistrationKey → Option Registration → Option Registration → Prop
  | register (key : RegistrationKey) (row : Registration) (start : Nat)
      (hrow : RowOk key row)
      (hstart : row.nextClaimDistribution = scheduleStart start row.oneClaimPerRewardCycle) :
      Entry (.registerForClaims key row.sponsor start row.oneClaimPerRewardCycle
        row.remainingClaims row.prepaidUstx) key none (some row)
  | addClaims (key : RegistrationKey) (row : Registration) (numClaims escrowed : Nat)
      (hrow : RowOk key row) :
      Entry (.addClaims key row.sponsor numClaims escrowed) key (some row) (some
        { row with
          remainingClaims := row.remainingClaims + numClaims
          prepaidUstx := row.prepaidUstx + escrowed })
  | cancel (key : RegistrationKey) (row : Registration) (hrow : RowOk key row) :
      Entry (.cancelRegistration key row.sponsor row.prepaidUstx) key (some row) none
  | claim (key : RegistrationKey) (row : Registration) (cycle : Nat) (covered : Option Nat)
      (hrow : RowOk key row) (hdue : isPending row cycle covered = true) :
      Entry (.claimed ⟨key, row, consume row cycle, cycle, covered⟩) key (some row)
        (consume row cycle)

/-- What is appended to the log from `w` to `w'`: events of no registration,
or those and one entry. Either way each movement has its cause. -/
inductive Recorded (w w' : World σ) : Prop
  | idle (es : List Event) (hlog : w'.log = w.log ++ es) (hidle : ∀ e ∈ es, e.isIdle = true)
      (hcauses : movements es = causes es)
      (hmap : w'.registry.registrations = w.registry.registrations)
  | entry (es : List Event) (e : Event) (key : RegistrationKey)
      (before after : Option Registration) (hlog : w'.log = w.log ++ (es ++ [e]))
      (hidle : ∀ e ∈ es, e.isIdle = true)
      (hcauses : movements (es ++ [e]) = causes (es ++ [e]))
      (hentry : Entry e key before after) (hbefore : w.registry.registrations key = before)
      (hmap : w'.registry.registrations = Function.update w.registry.registrations key after)

/-- What a claim releases is what it burns. -/
theorem released_consume (key : RegistrationKey) (row : Registration) (cycle : Nat)
    (covered : Option Nat) :
    (⟨key, row, consume row cycle, cycle, covered⟩ : Claim).released = burnAmount row := by
  have hle := burnAmount_le row
  by_cases hlast : row.remainingClaims ≤ 1
  · simp [Claim.released, consume, burnAmount, hlast]
  · simp only [Claim.released, consume, if_neg hlast, Option.map_some, Option.getD_some]
    omega

/-- Indexing a withdrawal is not an entry. -/
theorem Tracked.recorded {key : RegistrationKey} {stored : Option Nat}
    (h : Tracked views key w stored w') :
    ∃ es, w'.log = w.log ++ es ∧ (∀ e ∈ es, e.isIdle = true) ∧
      movements es = [] ∧ causes es = [] := by
  cases h with
  | none => exact ⟨[], by simp, by simp, rfl, rfl⟩
  | known => exact ⟨[], by simp, by simp, rfl, rfl⟩
  | fresh id =>
      exact ⟨[.indexed ⟨key.staker, key.signerManager, id⟩], rfl, by simp [Event.isIdle],
        rfl, rfl⟩

/-- **Every business event is recorded.** -/
theorem Change.recorded {l : Label} (h : Change views R l w w') (hinv : Inv base w) :
    Recorded w w' := by
  cases h with
  | outside h =>
      obtain ⟨es, hlog, hes, -⟩ := h.log
      obtain ⟨hmovements, hcauses⟩ := outside_movements hes
      exact .idle es hlog (fun e he => (isIdle_of_isOutside (hes e he)).1)
        (hmovements.trans hcauses.symm) h.registrations
  | register w key row start hrow hfree hstart =>
      refine .entry (transferEvents row.prepaidUstx row.sponsor currentContract) _ key _ _
        ?_ isIdle_transferEvents ?_ (.register key row start hrow hstart) hfree ?_
      · exact registered_log key row w start
      · simp [movements_deposit hrow.sponsor, Event.movement, Event.cause]
      · exact registered_registrations key row w start
  | addClaims w key row numClaims escrowed hrow =>
      have hok := hinv.rows key row hrow
      refine .entry (transferEvents escrowed row.sponsor currentContract) _ key _ _
        ?_ isIdle_transferEvents ?_ (.addClaims key row numClaims escrowed hok) hrow ?_
      · exact toppedUp_log key row w numClaims escrowed
      · simp [movements_deposit hok.sponsor, Event.movement, Event.cause]
      · exact toppedUp_registrations key row w numClaims escrowed
  | cancel w key row sender hrow hsender =>
      refine .entry (transferEvents row.prepaidUstx currentContract row.sponsor) _ key _ _
        ?_ isIdle_transferEvents ?_ (.cancel key row (hinv.rows key row hrow)) hrow ?_
      · exact cancelled_log key row w
      · simp [movements_payout, Event.movement, Event.cause]
      · exact cancelled_registrations key row w
  | claim w w₁ key row cycle covered earned claimError stored htracked _ hrow hdue =>
      obtain ⟨es, hlog, hidle, hmovements, hcauses⟩ := htracked.recorded
      refine .entry (es ++ (burnEvents (burnAmount row) ++ [.processRewardClaim key
          (row.nextClaimDistribution / 2) row.nextClaimDistribution row.bondIndex earned
          claimError stored])) _ key _ _ ?_ ?_ ?_
        (.claim key row cycle covered (hinv.rows key row hrow) hdue) hrow ?_
      · simp [World.claimed, World.advanced, burnEscrow_log, hlog]
      · intro e he
        rcases List.mem_append.mp he with he | he
        · exact hidle e he
        rcases List.mem_append.mp he with he | he
        · exact isIdle_burnEvents e he
        · simp only [List.mem_singleton] at he
          subst he
          rfl
      · simp [movements_burn, Event.movement, Event.cause, released_consume, hmovements,
          hcauses]
      · simp [World.claimed, World.advanced, htracked.registrations]
  | settle w w₁ key accepted hindexed hstatus hcall =>
      obtain ⟨es, hlog, hes, -⟩ := hcall.log
      obtain ⟨hmovements, hcauses⟩ := outside_movements hes
      refine .idle ([.invoked key accepted] ++ es ++ [.settlePendingWithdrawal key accepted])
        ?_ ?_ ?_ hcall.registrations
      · simp [World.unindexed, hlog]
      · intro e he
        simp only [List.mem_append, List.mem_singleton] at he
        rcases he with (rfl | he) | rfl
        · rfl
        · exact (isIdle_of_isOutside (hes e he)).1
        · rfl
      · simp [hmovements, hcauses, Event.movement, Event.cause]
  | prune w key hindexed hstatus =>
      exact .idle [.prunePendingWithdrawal key] rfl (by simp [Event.isIdle]) rfl rfl

/-! ## Replaying the entries -/

section Replay

variable {A : Type} {apply : A → Event → Option A}
  (view : (RegistrationKey → Option Registration) → A)

/-- A reducer that ignores idle events and agrees with the map on entries
follows the map from one world to the next. -/
theorem Recorded.replay (h : Recorded w w')
    (hidle : ∀ e a, e.isIdle = true → apply a e = some a)
    (hentry : ∀ e key before after rows, Entry e key before after → rows key = before →
      apply (view rows) e = some (view (Function.update rows key after))) :
    ∃ es, w'.log = w.log ++ es ∧ movements es = causes es ∧
      replay apply (view w.registry.registrations) es =
        some (view w'.registry.registrations) := by
  cases h with
  | idle es hlog hes hcauses hmap =>
      refine ⟨es, hlog, hcauses, ?_⟩
      rw [replay_ignored fun e he a => hidle e a (hes e he), hmap]
  | entry es e key before after hlog hes hcauses hstep hbefore hmap =>
      refine ⟨es ++ [e], hlog, hcauses, ?_⟩
      rw [replay_append, replay_ignored fun e he a => hidle e a (hes e he),
        Option.bind_some, replay_cons, hentry e key before after _ hstep hbefore, hmap]
      rfl

/-- **The log replays**: every reachable world's log is accepted and ends in
its map, and every movement in it has its cause. -/
theorem replay_of_runs {stx : Principal → Nat} {ext : σ}
    (h : Runs (Change views R) (fun _ => True) (.deployed stx ext) w)
    (hidle : ∀ e a, e.isIdle = true → apply a e = some a)
    (hentry : ∀ e key before after rows, Entry e key before after → rows key = before →
      apply (view rows) e = some (view (Function.update rows key after))) :
    movements w.log = causes w.log ∧
      replay apply (view fun _ => none) w.log = some (view w.registry.registrations) := by
  refine (h.invariant (fun v => Inv (stx currentContract) v ∧
    movements v.log = causes v.log ∧
    replay apply (view fun _ => none) v.log = some (view v.registry.registrations))
    (fun l v v' _ hstep hv => ?_) ⟨inv_deployed stx ext, rfl, rfl⟩).2
  obtain ⟨hinv, hcauses, hreplay⟩ := hv
  obtain ⟨es, hlog, hcauses', hreplay'⟩ := (hstep.recorded hinv).replay view hidle hentry
  refine ⟨hstep.inv hinv, ?_, ?_⟩
  · rw [hlog, movements_append, causes_append, hcauses, hcauses']
  · rw [hlog, replay_append, hreplay, Option.bind_some, hreplay']

end Replay

/-! ## Properties of rows -/

/-- A property of rows that every entry preserves holds of every row, and of
the row before every entry in the log. -/
theorem rows_of_runs {stx : Principal → Nat} {ext : σ}
    (P : RegistrationKey → Registration → Prop)
    (hentry : ∀ e key before after, Entry e key before after →
      (∀ row, before = some row → P key row) → ∀ row, after = some row → P key row)
    (h : Runs (Change views R) (fun _ => True) (.deployed stx ext) w) :
    (∀ key row, w.registry.registrations key = some row → P key row) ∧
      ∀ e ∈ w.log, e.isIdle = true ∨ ∃ key before after,
        Entry e key before after ∧ ∀ row, before = some row → P key row := by
  refine (h.invariant (fun v => Inv (stx currentContract) v ∧
    (∀ key row, v.registry.registrations key = some row → P key row) ∧
    ∀ e ∈ v.log, e.isIdle = true ∨ ∃ key before after,
      Entry e key before after ∧ ∀ row, before = some row → P key row)
    (fun l v v' _ hstep hv => ?_) ⟨inv_deployed stx ext, ?_, ?_⟩).2
  · obtain ⟨hinv, hrows, hevents⟩ := hv
    refine ⟨hstep.inv hinv, ?_⟩
    cases hstep.recorded hinv with
    | idle es hlog hes hcauses hmap =>
        rw [hmap, hlog]
        refine ⟨hrows, fun e he => ?_⟩
        rcases List.mem_append.mp he with he | he
        · exact hevents e he
        · exact .inl (hes e he)
    | entry es e key before after hlog hes hcauses hstep hbefore hmap =>
        have hP : ∀ row, before = some row → P key row := fun row hrow =>
          hrows key row (hbefore.trans hrow)
        rw [hmap, hlog]
        constructor
        · intro q row hq
          by_cases hqk : q = key
          · subst hqk
            rw [Function.update_self] at hq
            exact hentry e q before after hstep hP row hq
          · rw [Function.update_of_ne hqk] at hq
            exact hrows q row hq
        · intro e' he
          simp only [List.mem_append, List.mem_singleton] at he
          rcases he with he | he | rfl
          · exact hevents e' he
          · exact .inl (hes e' he)
          · exact .inr ⟨key, before, after, hstep, hP⟩
  · intro key row hrow
    simp [World.deployed, Registry.deployed] at hrow
  · intro e he
    simp [World.deployed] at he

end Spox.RewardClaims
