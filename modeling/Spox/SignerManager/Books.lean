import Spox.Lib.Custody
import Spox.SignerManager.Changes

/-!
# Signer-manager — books

What the contract is for: it holds sBTC that belongs to others. Its log is
read as three accounts in the sense of the custody library. `held` is what
the contract can spend, by whom it belongs to. `owed` is what its live
withdrawal requests stand for. `locked` is what its pending requests lock at
sBTC.

`Kept` says that the variables of the contract and its account at sBTC are
what these books say. Every call and everything that happens outside keeps it.
-/

namespace Spox.SignerManager

open Spox.Lib
open Spox.RewardClaims (Principal ContractId ClaimResult)

variable {σ : Type}

/-! ## Reading the log -/

/-- To whom spendable sBTC belongs: the admins' fees, the rewards no staker
has claimed yet, and the refund of a rejected request. -/
inductive Pot where
  | fees
  | pool
  | refund (requestId : Nat)
deriving DecidableEq

open Custody (Entry Accounts)

def Event.held : Event → List (Entry Pot)
  | .claimedRewards total => [.deposit .pool total]
  | .distributed _ _ gross fees => [.reassign .pool .fees fees, .payOut .pool (gross - fees)]
  | .reclaimFailedWithdrawal id _ amount => [.payOut (.refund id) amount]
  | .withdrewFees amount _ => [.payOut .fees amount]
  | .sweepFeeRefunds amount _ => [.skim amount]
  | .received amount => [.gift amount]
  | .accepted _ _ dust => [.gift dust]
  | .rejected id refund => [.deposit (.refund id) refund]
  | .claimStakerRewards .. | .settleAcceptedWithdrawal .. | .updateAdmin .. |
    .updateFees .. => []

def Event.owed : Event → List (Entry Nat)
  | .claimStakerRewards _ (some l1) _ _ =>
      [.deposit l1.withdrawalRequest (l1.amount + l1.maxFee)]
  | .reclaimFailedWithdrawal id _ amount => [.payOut id amount]
  | .settleAcceptedWithdrawal id _ released => [.payOut id released]
  | .claimStakerRewards _ none _ _ | .updateAdmin .. | .updateFees .. |
    .sweepFeeRefunds .. | .claimedRewards .. | .distributed .. | .withdrewFees .. |
    .received .. | .accepted .. | .rejected .. => []

def Event.locked : Event → List (Entry Nat)
  | .claimStakerRewards _ (some l1) _ _ =>
      [.deposit l1.withdrawalRequest (l1.amount + l1.maxFee)]
  | .accepted id total _ => [.payOut id total]
  | .rejected id refund => [.payOut id refund]
  | .claimStakerRewards _ none _ _ | .reclaimFailedWithdrawal .. |
    .settleAcceptedWithdrawal .. | .updateAdmin .. | .updateFees .. |
    .sweepFeeRefunds .. | .claimedRewards .. | .distributed .. | .withdrewFees .. |
    .received .. => []

/-! ## Reading the state -/

/-- What a request the contract still tracks stands for. -/
def outstanding (m : Manager) (a : Account) (id : Nat) : Nat :=
  match m.withdrawalRequests id, a.requests id with
  | some _, some r => r.total
  | _, _ => 0

/-- What a tracked request that was rejected gave back to the contract. -/
def refundable (m : Manager) (a : Account) (id : Nat) : Nat :=
  match m.withdrawalRequests id, a.requests id with
  | some _, some r => if r.status = some false then r.total else 0
  | _, _ => 0

/-- What a pending request locks. -/
def pending (a : Account) (id : Nat) : Nat :=
  match a.requests id with
  | some r => if r.status = none then r.total else 0
  | none => 0

/-- The pots of the spendable sBTC. -/
def heldPots (m : Manager) (a : Account) : Pot → Nat
  | .fees => m.earnedFees
  | .pool => m.unclaimedStakerRewards
  | .refund id => refundable m a id

/-! ## The invariant -/

/-- The state of the contract and its account agree with the log. -/
structure Kept (m : Manager) (a : Account) (log : List Event) : Prop where
  held : Accounts (log.flatMap Event.held) (heldPots m a) a.available
  owed : Accounts (log.flatMap Event.owed) (outstanding m a) m.withdrawalLiability
  locked : Accounts (log.flatMap Event.locked) (pending a) a.locked
  /-- A tracked request is one the contract made, and not an empty one. -/
  tracked : ∀ id staker, m.withdrawalRequests id = some staker →
    ∃ r, a.requests id = some r ∧ 0 < r.total
  /-- A pending request of the contract is tracked. -/
  pending_tracked : ∀ id r, a.requests id = some r → r.status = none →
    (m.withdrawalRequests id).isSome
  liability_lt : m.withdrawalLiability < Tx.uintBound
  feesBips_lt : m.feesBips < maxBips
  cycleBips_lt : ∀ key bips, m.feeBipsForCycle key = some bips → bips < maxBips
  poxAddrs_valid : ∀ staker info, m.poxAddrs staker = some info → info.poxAddr.Valid

section Readings

variable {m : Manager} {a : Account} {id : Nat} {staker : Principal} {r : WithdrawalRequest}

theorem outstanding_of (hs : m.withdrawalRequests id = some staker)
    (hr : a.requests id = some r) : outstanding m a id = r.total := by
  simp only [outstanding, hs, hr]

theorem outstanding_of_none (hs : m.withdrawalRequests id = none) : outstanding m a id = 0 := by
  simp only [outstanding, hs]

theorem refundable_of (hs : m.withdrawalRequests id = some staker)
    (hr : a.requests id = some r) :
    refundable m a id = if r.status = some false then r.total else 0 := by
  simp only [refundable, hs, hr]

theorem refundable_of_none (hs : m.withdrawalRequests id = none) : refundable m a id = 0 := by
  simp only [refundable, hs]

theorem pending_of (hr : a.requests id = some r) :
    pending a id = if r.status = none then r.total else 0 := by
  simp only [pending, hr]

/-- The rate a claim is charged is below one. -/
theorem Kept.getFeeBips_lt {log : List Event} (h : Kept m a log) (key : FeeKey) :
    m.getFeeBipsForCycle key < maxBips := by
  unfold Manager.getFeeBipsForCycle
  cases hkey : m.feeBipsForCycle key with
  | none => decide
  | some bips => exact h.cycleBips_lt key bips hkey

/-- A tracked request stands for something. -/
theorem Kept.total_pos {log : List Event} (h : Kept m a log)
    (hs : m.withdrawalRequests id = some staker) (hr : a.requests id = some r) :
    0 < r.total := by
  obtain ⟨r', hr', hpos⟩ := h.tracked id staker hs
  rw [hr, Option.some_inj] at hr'
  rwa [hr']

/-- A request is not both refundable and pending. -/
theorem refundable_add_pending_le (hpending : ∀ id r, a.requests id = some r →
    r.status = none → (m.withdrawalRequests id).isSome) (id : Nat) :
    refundable m a id + pending a id ≤ outstanding m a id := by
  cases hr : a.requests id with
  | none => simp [refundable, pending, hr]
  | some r =>
      cases hs : m.withdrawalRequests id with
      | none =>
          have hstatus : r.status ≠ none := fun h => by simpa [hs] using hpending id r hr h
          rw [refundable_of_none hs, pending_of hr, if_neg hstatus]
          exact Nat.zero_le _
      | some staker =>
          rw [refundable_of hs hr, pending_of hr, outstanding_of hs hr]
          by_cases hstatus : r.status = none
          · simp [hstatus]
          · simp only [if_neg hstatus]
            split <;> omega

end Readings

/-! ## What each operation does to the books -/

section Operations

variable {m : Manager} {a : Account} {log : List Event} {id : Nat} {staker : Principal}
  {key : FeeKey} {r : WithdrawalRequest}

/-- A step that moves nothing and records nothing about money. -/
theorem Kept.quiet (h : Kept m a log) (m' : Manager) (events : List Event)
    (hheld : events.flatMap Event.held = []) (howed : events.flatMap Event.owed = [])
    (hlocked : events.flatMap Event.locked = [])
    (hpots : heldPots m' a = heldPots m a)
    (hrequests : m'.withdrawalRequests = m.withdrawalRequests)
    (hliability : m'.withdrawalLiability = m.withdrawalLiability)
    (hfees : m'.feesBips < maxBips)
    (hcycle : ∀ key bips, m'.feeBipsForCycle key = some bips → bips < maxBips)
    (haddrs : ∀ staker info, m'.poxAddrs staker = some info → info.poxAddr.Valid) :
    Kept m' a (log ++ events) where
  held := (hpots ▸ h.held).log_quiet hheld
  owed := by
    have houtstanding : outstanding m' a = outstanding m a := by
      funext id
      simp only [outstanding, hrequests]
    rw [houtstanding, hliability]
    exact h.owed.log_quiet howed
  locked := h.locked.log_quiet hlocked
  tracked := by
    rw [hrequests]
    exact h.tracked
  pending_tracked := by
    rw [hrequests]
    exact h.pending_tracked
  liability_lt := hliability ▸ h.liability_lt
  feesBips_lt := hfees
  cycleBips_lt := hcycle
  poxAddrs_valid := haddrs

/-- A snapshot of the fees moves nothing. -/
theorem Kept.snapshot {m' : Manager} (h : Kept m a log) (hsnapshot : Snapshot m m') :
    Kept m' a log := by
  have hkept := h.quiet m' [] rfl rfl rfl (by rw [hsnapshot.rest]; rfl)
    (by rw [hsnapshot.rest]) (by rw [hsnapshot.rest]) (by rw [hsnapshot.rest]; exact h.feesBips_lt)
    (fun key bips hkey => by
      rcases hsnapshot.taken key bips hkey with hold | rfl
      · exact h.cycleBips_lt key bips hold
      · exact h.feesBips_lt)
    (by rw [hsnapshot.rest]; exact h.poxAddrs_valid)
  rwa [List.append_nil] at hkept

/-- Rewards arrive in the pool. -/
theorem Kept.claimRewards (h : Kept m a log) (total : Nat) :
    Kept { m with unclaimedStakerRewards := m.unclaimedStakerRewards + total }
      (a.receive total) (log ++ [.claimedRewards total]) :=
  { h with
    held := by
      have hpots : heldPots { m with
            unclaimedStakerRewards := m.unclaimedStakerRewards + total } (a.receive total) =
          Function.update (heldPots m a) .pool (heldPots m a .pool + total) := by
        funext p
        cases p <;> simp [heldPots, refundable, Account.receive]
      rw [hpots]
      exact (h.held.deposit .pool total).log_append
    owed := h.owed.log_quiet rfl
    locked := h.locked.log_quiet rfl }

/-- A staker's rewards leave the pool: the fee is kept, the rest is spent. -/
theorem Kept.distribute (h : Kept m a log) {gross fees : Nat}
    (hpool : gross ≤ m.unclaimedStakerRewards) (hfees : fees ≤ gross) :
    Accounts (log.flatMap Event.held ++
        [.reassign .pool .fees fees, .payOut .pool (gross - fees)])
      (heldPots (m.distribute gross fees) a) (a.available - (gross - fees)) := by
  have hmoved := h.held.reassign .pool .fees (by decide) (hfees.trans hpool)
  have hleft : gross - fees ≤ Function.update (Function.update (heldPots m a) Pot.pool
      (heldPots m a .pool - fees)) Pot.fees (heldPots m a .fees + fees) .pool := by
    simp only [heldPots, ne_eq, reduceCtorEq, not_false_eq_true, Function.update_of_ne,
      Function.update_self]
    omega
  have hpaid := hmoved.payOut .pool hleft
  have hpots : heldPots (m.distribute gross fees) a = Function.update
      (Function.update (Function.update (heldPots m a) Pot.pool (heldPots m a .pool - fees))
        Pot.fees (heldPots m a .fees + fees)) Pot.pool
      (m.unclaimedStakerRewards - fees - (gross - fees)) := by
    funext p
    cases p with
    | fees => simp [heldPots, Manager.distribute]
    | pool =>
        simp only [heldPots, Manager.distribute, Function.update_self]
        omega
    | refund id => simp [heldPots, refundable, Manager.distribute]
  rw [hpots]
  simpa [heldPots] using hpaid

/-- A staker is paid in sBTC. -/
theorem Kept.paid (h : Kept m a log) (staker : Principal) (key : FeeKey) {gross fees : Nat}
    (hpool : gross ≤ m.unclaimedStakerRewards) (hfees : fees ≤ gross) :
    Kept (m.distribute gross fees) (a.spend (gross - fees))
      (log ++ [.distributed staker key gross fees,
        .claimStakerRewards (gross - fees) none staker key]) :=
  { h with
    held := (h.distribute hpool hfees).log_append
    owed := h.owed.log_quiet rfl
    locked := h.locked.log_quiet rfl }

/-- A staker is paid through a withdrawal request. -/
theorem Kept.requested (h : Kept m a log) (staker : Principal) (key : FeeKey)
    (poxAddr : PoxAddr) {gross fees : Nat}
    (hpool : gross ≤ m.unclaimedStakerRewards) (hfees : fees ≤ gross)
    (htotal : r.total = gross - fees) (hpending : r.status = none) (hpos : 0 < r.total)
    (hfresh : a.requests id = none) (huint : m.withdrawalLiability + r.total < Tx.uintBound) :
    Kept ((m.distribute gross fees).openRequest staker id r.total) (a.lock id r)
      (log ++ [.distributed staker key gross fees,
        .claimStakerRewards r.total (some ⟨poxAddr, r.maxFee, id, r.amount⟩) staker key]) := by
  have huntracked : m.withdrawalRequests id = none := by
    by_contra hsome
    obtain ⟨s, hs⟩ := Option.ne_none_iff_exists'.mp hsome
    obtain ⟨r', hr', -⟩ := h.tracked id s hs
    rw [hfresh] at hr'
    cases hr'
  refine
    { h with
      held := ?_, owed := ?_, locked := ?_, tracked := ?_, pending_tracked := ?_
      liability_lt := huint }
  · have hpots : heldPots ((m.distribute gross fees).openRequest staker id r.total)
        (a.lock id r) = heldPots (m.distribute gross fees) a := by
      funext p
      cases p with
      | fees => rfl
      | pool => rfl
      | refund id' =>
          by_cases hid : id' = id
          · subst hid
            simp [heldPots, refundable, Manager.openRequest, Manager.distribute, Account.lock,
              hpending, huntracked]
          · simp [heldPots, refundable, Manager.openRequest, Account.lock, hid]
    rw [hpots]
    refine Accounts.log_append ?_
    have hpaid := h.distribute hpool hfees
    rw [← htotal] at hpaid
    simpa [Event.held, Account.lock, ← htotal] using hpaid
  · have hpots : outstanding ((m.distribute gross fees).openRequest staker id r.total)
        (a.lock id r) = Function.update (outstanding m a) id (outstanding m a id + r.total) := by
      funext id'
      by_cases hid : id' = id
      · subst hid
        simp [outstanding, Manager.openRequest, Account.lock, huntracked]
      · simp [outstanding, Manager.openRequest, Manager.distribute, Account.lock, hid]
    rw [hpots]
    exact (h.owed.deposit id r.total).log_append
  · have hpots : pending (a.lock id r) =
        Function.update (pending a) id (pending a id + r.total) := by
      funext id'
      by_cases hid : id' = id
      · subst hid
        simp [pending, Account.lock, hpending, hfresh]
      · simp [pending, Account.lock, hid]
    rw [hpots]
    exact (h.locked.deposit id r.total).log_append
  · intro id' s hs
    by_cases hid : id' = id
    · subst hid
      exact ⟨r, by simp [Account.lock], hpos⟩
    · simp only [Manager.openRequest, Function.update_of_ne hid] at hs
      simpa [Account.lock, hid] using h.tracked id' s hs
  · intro id' r' hr' hstatus
    by_cases hid : id' = id
    · subst hid
      simp [Manager.openRequest]
    · simp only [Account.lock, Function.update_of_ne hid] at hr'
      simpa [Manager.openRequest, Manager.distribute, hid] using
        h.pending_tracked id' r' hr' hstatus

/-- A resolved request is retired: its refund, if there is one, is spent. -/
theorem Kept.closeRequest (h : Kept m a log) {events : List Event} {spent : Nat}
    (hs : m.withdrawalRequests id = some staker) (hr : a.requests id = some r)
    (hresolved : r.status ≠ none)
    (hheld : Accounts (log.flatMap Event.held ++ events.flatMap Event.held)
      (Function.update (heldPots m a) (.refund id) 0) (a.available - spent))
    (howed : events.flatMap Event.owed = [.payOut id r.total])
    (hlocked : events.flatMap Event.locked = []) :
    Kept (m.closeRequest id r.total) (a.spend spent) (log ++ events) := by
  have htracked : ∀ id' s, (m.closeRequest id r.total).withdrawalRequests id' = some s →
      id' ≠ id ∧ m.withdrawalRequests id' = some s := by
    intro id' s hs'
    by_cases hid : id' = id
    · subst hid
      simp [Manager.closeRequest] at hs'
    · exact ⟨hid, by simpa [Manager.closeRequest, hid] using hs'⟩
  refine
    { h with
      held := ?_, owed := ?_, locked := h.locked.log_quiet hlocked, tracked := ?_
      pending_tracked := ?_
      liability_lt := (Nat.sub_le _ _).trans_lt h.liability_lt }
  · have hpots : heldPots (m.closeRequest id r.total) (a.spend spent) =
        Function.update (heldPots m a) (.refund id) 0 := by
      funext p
      cases p with
      | fees => rfl
      | pool => rfl
      | refund id' =>
          by_cases hid : id' = id
          · subst hid
            simp [heldPots, refundable, Manager.closeRequest]
          · simp [heldPots, refundable, Manager.closeRequest, Account.spend, hid]
    rw [hpots]
    exact hheld.log_append
  · have hpots : outstanding (m.closeRequest id r.total) (a.spend spent) =
        Function.update (outstanding m a) id (outstanding m a id - r.total) := by
      funext id'
      by_cases hid : id' = id
      · subst hid
        simp [outstanding, Manager.closeRequest, hs, hr]
      · simp [outstanding, Manager.closeRequest, Account.spend, hid]
    rw [hpots]
    refine Accounts.log_append ?_
    rw [howed]
    exact h.owed.payOut id (outstanding_of hs hr).ge
  · intro id' s hs'
    exact h.tracked id' s (htracked id' s hs').2
  · intro id' r' hr' hstatus
    have hid : id' ≠ id := by
      rintro rfl
      rw [show (a.spend spent).requests id' = a.requests id' from rfl, hr] at hr'
      cases hr'
      exact hresolved hstatus
    simpa [Manager.closeRequest, hid] using h.pending_tracked id' r' hr' hstatus

/-- The staker of a rejected request is refunded. -/
theorem Kept.reclaimed (h : Kept m a log) (hs : m.withdrawalRequests id = some staker)
    (hr : a.requests id = some r) (hstatus : r.status = some false) :
    Kept (m.closeRequest id r.total) (a.spend r.total)
      (log ++ [.reclaimFailedWithdrawal id staker r.total]) := by
  have hrefund : heldPots m a (.refund id) = r.total := by
    rw [heldPots, refundable_of hs hr, if_pos hstatus]
  have hpaid := h.held.payOut (.refund id) hrefund.ge
  rw [hrefund, Nat.sub_self] at hpaid
  exact h.closeRequest hs hr (by simp [hstatus]) hpaid rfl rfl

/-- An accepted request is retired. -/
theorem Kept.settled (h : Kept m a log) (hs : m.withdrawalRequests id = some staker)
    (hr : a.requests id = some r) (hstatus : r.status = some true) :
    Kept (m.closeRequest id r.total) (a.spend 0)
      (log ++ [.settleAcceptedWithdrawal id staker r.total]) := by
  have hrefund : heldPots m a (.refund id) = 0 := by
    rw [heldPots, refundable_of hs hr, if_neg (by simp [hstatus])]
  refine h.closeRequest hs hr (by simp [hstatus]) ?_ rfl rfl
  rw [Function.update_eq_self_iff.mpr hrefund.symm]
  simpa [Event.held] using h.held

/-- The admins take fees out. -/
theorem Kept.withdrewFees (h : Kept m a log) {amount : Nat} (recipient : Principal)
    (hfees : amount ≤ m.earnedFees) :
    Kept { m with earnedFees := m.earnedFees - amount } (a.spend amount)
      (log ++ [.withdrewFees amount recipient]) :=
  { h with
    held := by
      have hpots : heldPots { m with earnedFees := m.earnedFees - amount } (a.spend amount) =
          Function.update (heldPots m a) .fees (heldPots m a .fees - amount) := by
        funext p
        cases p <;> simp [heldPots, refundable, Account.spend]
      rw [hpots]
      exact (h.held.payOut .fees hfees).log_append
    owed := h.owed.log_quiet rfl
    locked := h.locked.log_quiet rfl }

theorem gifted_owed (log : List Event) : ∀ e ∈ log.flatMap Event.owed, e.gifted = 0 := by
  intro e he
  obtain ⟨event, -, he⟩ := List.mem_flatMap.mp he
  unfold Event.owed at he
  split at he <;> simp_all [Entry.gifted]

theorem gifted_locked (log : List Event) : ∀ e ∈ log.flatMap Event.locked, e.gifted = 0 := by
  intro e he
  obtain ⟨event, -, he⟩ := List.mem_flatMap.mp he
  unfold Event.locked at he
  split at he <;> simp_all [Entry.gifted]

/-- Whatever exceeds the reserve belongs to nobody. The reserve counts a
pending request although it is not spendable, so `get-balance` may count what
is locked. -/
theorem Kept.exists_bound (h : Kept m a log) {amount : Nat}
    (hreserved : amount + (m.earnedFees + m.withdrawalLiability + m.unclaimedStakerRewards) ≤
      a.available + a.locked) :
    ∃ bound : Pot →₀ ℕ, (∀ p, heldPots m a p ≤ bound p) ∧
      amount + bound.degree ≤ a.available := by
  obtain ⟨owed, howed, howedSum⟩ := h.owed.exists_finsupp (gifted_owed log)
  obtain ⟨locked, hlocked, hlockedSum⟩ := h.locked.exists_finsupp (gifted_locked log)
  have hle : ∀ id, refundable m a id + locked id ≤ owed id := fun id => by
    rw [hlocked, howed]
    exact refundable_add_pending_le h.pending_tracked id
  have hsub : (owed - locked).degree + locked.degree = owed.degree := by
    rw [← map_add, tsub_add_cancel_of_le fun id => (Nat.le_add_left _ _).trans (hle id)]
  refine ⟨Finsupp.single .fees m.earnedFees + Finsupp.single .pool m.unclaimedStakerRewards +
    (owed - locked).mapDomain Pot.refund, fun p => ?_, ?_⟩
  · cases p with
    | fees => simp [heldPots]
    | pool => simp [heldPots]
    | refund id =>
        have hinj : Function.Injective Pot.refund := fun _ _ h => Pot.refund.inj h
        have hdomain := Finsupp.mapDomain_apply hinj (owed - locked) id
        simp only [heldPots, Finsupp.add_apply, hdomain, Finsupp.tsub_apply]
        have := hle id
        omega
  · simp only [map_add, Finsupp.degree_single, Finsupp.degree_mapDomain]
    omega

/-- The admins sweep what belongs to nobody. -/
theorem Kept.swept (h : Kept m a log) {amount : Nat} (recipient : Principal)
    (hreserved : amount + (m.earnedFees + m.withdrawalLiability + m.unclaimedStakerRewards) ≤
      a.available + a.locked) :
    Kept m (a.spend amount) (log ++ [.sweepFeeRefunds amount recipient]) :=
  { h with
    held := by
      obtain ⟨bound, hbound, hle⟩ := h.exists_bound hreserved
      exact (h.held.skim bound hbound hle).log_append
    owed := h.owed.log_quiet rfl
    locked := h.locked.log_quiet rfl }

/-! ## What happens outside -/

theorem Kept.received (h : Kept m a log) (amount : Nat) :
    Kept m (a.receive amount) (log ++ [.received amount]) :=
  { h with
    held := (h.held.gift amount).log_append
    owed := h.owed.log_quiet rfl
    locked := h.locked.log_quiet rfl }

/-- A pending request is resolved: what it locked is released, and what comes
back is a refund if it was rejected and surplus if it was accepted. -/
theorem Kept.resolve (h : Kept m a log) {event : Event} {accepted : Bool} {back : Nat}
    (hr : a.requests id = some r) (hpending : r.status = none)
    (hheld : Accounts (log.flatMap Event.held ++ event.held)
      (Function.update (heldPots m a) (.refund id) (if accepted then 0 else r.total))
      (a.available + back))
    (howed : event.owed = []) (hlocked : event.locked = [.payOut id r.total]) :
    Kept m (a.resolve id r accepted back) (log ++ [event]) := by
  obtain ⟨staker, hs⟩ := Option.isSome_iff_exists.mp (h.pending_tracked id r hr hpending)
  refine
    { h with
      held := ?_, owed := ?_, locked := ?_, tracked := ?_, pending_tracked := ?_ }
  · have hpots : heldPots m (a.resolve id r accepted back) =
        Function.update (heldPots m a) (.refund id) (if accepted then 0 else r.total) := by
      funext p
      cases p with
      | fees => rfl
      | pool => rfl
      | refund id' =>
          by_cases hid : id' = id
          · subst hid
            cases accepted <;>
              simp [heldPots, refundable, Account.resolve, hs, WithdrawalRequest.total]
          · simp [heldPots, refundable, Account.resolve, hid]
    rw [hpots]
    refine Accounts.log_append ?_
    simpa [Account.resolve] using hheld
  · have hpots : outstanding m (a.resolve id r accepted back) = outstanding m a := by
      funext id'
      by_cases hid : id' = id
      · subst hid
        simp [outstanding, Account.resolve, hs, hr, WithdrawalRequest.total]
      · simp [outstanding, Account.resolve, hid]
    rw [hpots]
    exact h.owed.log_quiet (by simpa using howed)
  · have hpots : pending (a.resolve id r accepted back) =
        Function.update (pending a) id (pending a id - r.total) := by
      funext id'
      by_cases hid : id' = id
      · subst hid
        simp [pending, Account.resolve, hr, hpending]
      · simp [pending, Account.resolve, hid]
    rw [hpots]
    refine Accounts.log_append ?_
    rw [List.flatMap_singleton, hlocked]
    exact h.locked.payOut id (by rw [pending_of hr, if_pos hpending])
  · intro id' s hs'
    by_cases hid : id' = id
    · subst hid
      obtain ⟨r', hr', hpos⟩ := h.tracked id' s hs'
      rw [hr] at hr'
      cases hr'
      exact ⟨{ r with status := some accepted }, by simp [Account.resolve], hpos⟩
    · simpa [Account.resolve, hid] using h.tracked id' s hs'
  · intro id' r' hr' hstatus
    by_cases hid : id' = id
    · subst hid
      simp [hs]
    · simp only [Account.resolve, Function.update_of_ne hid] at hr'
      exact h.pending_tracked id' r' hr' hstatus

/-- A request that is pending has no refund yet. -/
theorem Kept.refund_pending (h : Kept m a log) (hr : a.requests id = some r)
    (hpending : r.status = none) : heldPots m a (.refund id) = 0 := by
  obtain ⟨staker, hs⟩ := Option.isSome_iff_exists.mp (h.pending_tracked id r hr hpending)
  rw [heldPots, refundable_of hs hr, if_neg (by simp [hpending])]

theorem Kept.accepted (h : Kept m a log) {dust : Nat} (hr : a.requests id = some r)
    (hpending : r.status = none) :
    Kept m (a.resolve id r true dust) (log ++ [.accepted id r.total dust]) := by
  refine h.resolve hr hpending ?_ rfl rfl
  rw [if_pos rfl, Function.update_eq_self_iff.mpr (h.refund_pending hr hpending).symm]
  exact h.held.gift dust

theorem Kept.rejected (h : Kept m a log) (hr : a.requests id = some r)
    (hpending : r.status = none) :
    Kept m (a.resolve id r false r.total) (log ++ [.rejected id r.total]) := by
  refine h.resolve hr hpending ?_ rfl rfl
  have hdeposit := h.held.deposit (.refund id) r.total
  rw [h.refund_pending hr hpending, Nat.zero_add] at hdeposit
  exact hdeposit

end Operations

/-! ## Runs -/

section Runs

variable {ext : Externals σ} {w w' : World σ} {deployer : Principal}

/-- The invariant of a world. -/
abbrev Inv (ext : Externals σ) (w : World σ) : Prop :=
  Kept w.manager (ext.account w.chain) w.log

/-- What sbtc-registry tells about a tracked request is about the contract's
own one. -/
theorem Kept.own {id : Nat} {staker : Principal} {r : WithdrawalRequest} (hw : Inv ext w)
    (htracked : w.manager.withdrawalRequests id = some staker)
    (hrequest : ext.getWithdrawalRequest w.chain id = some r) :
    (ext.account w.chain).requests id = some r := by
  obtain ⟨r', hr', -⟩ := hw.tracked id staker htracked
  rw [← hrequest, ext.getWithdrawalRequest_of_account hr', hr']

/-- A contract that has just been deployed. -/
theorem inv_deployed (s : σ) (hrequests : ∀ id, (ext.account s).requests id = none)
    (hlocked : (ext.account s).locked = 0) : Inv ext (.deployed ext deployer s) where
  held := by
    have hpots : heldPots (.deployed deployer) (ext.account s) = fun _ => 0 := by
      funext p
      cases p <;> simp [heldPots, refundable, Manager.deployed]
    have hempty : Accounts ([] : List (Entry Pot)) (fun _ => 0) 0 := Accounts.nil
    have hgift := hempty.gift (ext.account s).available
    simp only [Nat.zero_add, List.nil_append] at hgift
    simpa [World.deployed, Event.held, hpots] using hgift
  owed := by
    have hpots : outstanding (.deployed deployer) (ext.account s) = fun _ => 0 := by
      funext id
      simp [outstanding, Manager.deployed]
    simpa [World.deployed, Manager.deployed, Event.owed] using hpots ▸ Accounts.nil
  locked := by
    have hpots : pending (ext.account s) = fun _ => 0 := by
      funext id
      simp [pending, hrequests]
    simpa [World.deployed, Event.locked, hpots, hlocked] using Accounts.nil
  tracked := fun id staker h => by simp [World.deployed, Manager.deployed] at h
  pending_tracked := fun id r h => by
    rw [show (ext.account (World.deployed ext deployer s).chain).requests id = none
      from hrequests id] at h
    cases h
  liability_lt := by
    rw [show (World.deployed ext deployer s).manager.withdrawalLiability = 0 from rfl]
    decide
  feesBips_lt := by
    rw [show (World.deployed ext deployer s).manager.feesBips = 0 from rfl]
    decide
  cycleBips_lt := fun key bips h => by simp [World.deployed, Manager.deployed] at h
  poxAddrs_valid := fun staker info h => by simp [World.deployed, Manager.deployed] at h

theorem Change.inv (hext : ext.Documented) {ctx : Ctx} (hchange : Change ext ctx w w')
    (hw : Inv ext w) : Inv ext w' := by
  cases hchange with
  | stake staker info hcaller hvalid h =>
      subst h
      have haddrs : ∀ staker' info', Function.update w.manager.poxAddrs staker info staker' =
          some info' → info'.poxAddr.Valid := by
        intro staker' info' hinfo
        by_cases hs : staker' = staker
        · subst hs
          exact hvalid info' (by simpa using hinfo)
        · exact hw.poxAddrs_valid staker' info' (by simpa [hs] using hinfo)
      have hkept := hw.quiet
        { w.manager with poxAddrs := Function.update w.manager.poxAddrs staker info } []
        rfl rfl rfl rfl rfl rfl hw.feesBips_lt hw.cycleBips_lt haddrs
      rw [List.append_nil] at hkept
      exact hkept
  | claimRewards rewardCycle result s huint haccount h =>
      subst h
      have hkept := hw.claimRewards result.totalRewards
      have hsnapshot := snapshot_snapshotFees rewardCycle result.bondRewards
        { w.manager with
          unclaimedStakerRewards := w.manager.unclaimedStakerRewards + result.totalRewards }
      rw [← haccount] at hkept
      have hquiet := hkept.snapshot hsnapshot
      exact hquiet
  | paid staker key gross s hgross hnet hpool huint hdirect hstaker hcovered haccount h =>
      subst h
      have hkept := hw.paid staker key hpool (w.feeOf_le hnet)
      rw [← List.singleton_append, ← List.append_assoc] at hkept
      change Kept _ (ext.account s) _
      rw [haccount]
      exact hkept
  | requested staker key gross info id s hgross hnet hpool huint hinfo hbudget hliability
      hfresh hcovered haccount h =>
      subst h
      have htotal : w.net key gross - info.maxFee + info.maxFee = w.net key gross :=
        Nat.sub_add_cancel hbudget
      have hrequestTotal : WithdrawalRequest.total
          ⟨w.net key gross - info.maxFee, info.maxFee, ext.currentContract, info.poxAddr, none⟩ =
            w.net key gross := htotal
      have hkept := hw.requested staker key info.poxAddr hpool (w.feeOf_le hnet) hrequestTotal
        rfl (by rwa [hrequestTotal]) hfresh (by rwa [hrequestTotal])
      rw [hrequestTotal, ← List.singleton_append, ← List.append_assoc, ← haccount] at hkept
      exact hkept
  | reclaimed id staker r s htracked hrequest hstatus hliability hstaker hcovered haccount
      hpaid h =>
      subst h
      have hkept := hw.reclaimed htracked (hw.own htracked hrequest) hstatus
      rw [← haccount] at hkept
      exact hkept
  | settled id staker r htracked hrequest hstatus hliability h =>
      subst h
      have hkept := hw.settled htracked (hw.own htracked hrequest) hstatus
      exact hkept
  | updateAdmin admin enabled hadmin h =>
      subst h
      exact hw.quiet _ _ rfl rfl rfl rfl rfl rfl hw.feesBips_lt hw.cycleBips_lt hw.poxAddrs_valid
  | updateFees newFees hadmin hbips h =>
      subst h
      exact hw.quiet _ _ rfl rfl rfl rfl rfl rfl hbips hw.cycleBips_lt hw.poxAddrs_valid
  | withdrewFees amount recipient s hadmin hfees hcovered haccount h =>
      subst h
      have hkept := hw.withdrewFees recipient hfees
      rw [← haccount] at hkept
      exact hkept
  | swept amount recipient s hadmin hpos hreserved hcovered haccount h =>
      subst h
      have hkept := hw.swept recipient
        (hreserved.le.trans (hext.balance_le w.chain))
      rw [← haccount] at hkept
      exact hkept
  | registered s hadmin haccount h =>
      subst h
      have hkept : Kept w.manager (ext.account s) w.log := haccount.symm ▸ hw
      exact hkept

/-- Every step keeps the books. -/
theorem inv_step (hext : ext.Documented) (hstep : Step ext w w') (hw : Inv ext w) :
    Inv ext w' := by
  cases hstep with
  | call ctx c hexec => exact (exec_change hext hexec).inv hext hw
  | outside houtside =>
      cases houtside with
      | received amount haccount =>
          have hkept := hw.received amount
          rw [← haccount] at hkept
          exact hkept
      | accepted id r dust hrequest hpending hdust haccount =>
          have hkept : Kept _ _ (w.log ++ [.accepted id r.total dust]) :=
            Kept.accepted hw hrequest hpending
          rw [← haccount] at hkept
          exact hkept
      | rejected id r hrequest hpending haccount =>
          have hkept := Kept.rejected hw hrequest hpending
          rw [← haccount] at hkept
          exact hkept

/-- So does every run. -/
theorem inv_run (hext : ext.Documented) (hrun : Run ext w w') (hw : Inv ext w) :
    Inv ext w' := by
  induction hrun with
  | refl => exact hw
  | tail _ hstep ih => exact inv_step hext hstep ih

theorem inv_reachable (hext : ext.Documented) (h : Reachable ext deployer w) : Inv ext w := by
  obtain ⟨s, hrequests, hlocked, hrun⟩ := h
  exact inv_run hext hrun (inv_deployed s hrequests hlocked)

end Runs

end Spox.SignerManager
