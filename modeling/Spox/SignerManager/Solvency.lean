import Spox.SignerManager.Books

/-!
# Signer-manager — solvency

What the books mean for the people whose sBTC the contract holds: the
reserve is covered in every state a run can reach, the liability counter is
exactly what the live requests stand for, and whoever is owed a refund gets
it in full. The flows over a whole run are read off the log.
-/

namespace Spox.SignerManager

open Spox.Lib
open Spox.Lib.Custody (Entry Accounts)
open Spox.RewardClaims (Principal ContractId ClaimResult)

variable {σ : Type} {ext : Externals σ} {w : World σ} {deployer : Principal}

/-! ## The reserve -/

/-- Fees, unclaimed rewards and the refunds of any set of requests are covered
together. -/
theorem Kept.reserve_le {m : Manager} {a : Account} {log : List Event} (h : Kept m a log)
    (ids : Finset Nat) :
    m.earnedFees + m.unclaimedStakerRewards + ∑ id ∈ ids, refundable m a id ≤ a.available := by
  have hinj : Function.Injective Pot.refund := fun _ _ h => Pot.refund.inj h
  have hfees : Pot.fees ∉ insert Pot.pool (ids.map ⟨Pot.refund, hinj⟩) := by simp
  have hpool : Pot.pool ∉ ids.map ⟨Pot.refund, hinj⟩ := by simp
  have hsum := h.held.sum_le (insert .fees (insert .pool (ids.map ⟨Pot.refund, hinj⟩)))
  rw [Finset.sum_insert hfees, Finset.sum_insert hpool, Finset.sum_map, ← Nat.add_assoc] at hsum
  exact hsum

/-- The contract is solvent: in every state it can reach, what it can spend
covers the earned fees, the unclaimed rewards and the refunds of all rejected
requests at once. -/
theorem reachable_solvent (hext : ext.Documented) (h : Reachable ext deployer w)
    (ids : Finset Nat) :
    w.manager.earnedFees + w.manager.unclaimedStakerRewards +
      ∑ id ∈ ids, refundable w.manager (ext.account w.chain) id ≤
        (ext.account w.chain).available :=
  (inv_reachable hext h).reserve_le ids

theorem rejected_solvent :
    Chain.rejected.manager.earnedFees + Chain.rejected.manager.unclaimedStakerRewards +
      ∑ id ∈ {7}, refundable Chain.rejected.manager
        (Chain.externals.account Chain.rejected.chain) id ≤
        (Chain.externals.account Chain.rejected.chain).available :=
  reachable_solvent Chain.externals_documented Chain.reachable_rejected {7}

/-! ## The liability -/

/-- The tracked requests are finitely many, each is a request of the contract
for a positive amount, and `withdrawal-liability` is their sum. -/
theorem reachable_liability (hext : ext.Documented) (h : Reachable ext deployer w) :
    ∃ live : Finset Nat,
      (∀ id, id ∈ live ↔ (w.manager.withdrawalRequests id).isSome) ∧
      (∀ id ∈ live, ∃ r, ext.getWithdrawalRequest w.chain id = some r ∧
        r.sender = ext.currentContract ∧ 0 < r.amount + r.maxFee ∧
        outstanding w.manager (ext.account w.chain) id = r.amount + r.maxFee) ∧
      w.manager.withdrawalLiability =
        ∑ id ∈ live, outstanding w.manager (ext.account w.chain) id := by
  have hw := inv_reachable hext h
  obtain ⟨owed, howed, hsum⟩ := hw.owed.exists_finsupp (gifted_owed w.log)
  have hlive : ∀ id, id ∈ owed.support ↔ (w.manager.withdrawalRequests id).isSome := by
    intro id
    rw [Finsupp.mem_support_iff, howed]
    cases hs : w.manager.withdrawalRequests id with
    | none => simp [outstanding_of_none hs]
    | some staker =>
        obtain ⟨r, hr, hpos⟩ := hw.tracked id staker hs
        rw [outstanding_of hs hr]
        simp
        omega
  refine ⟨owed.support, hlive, fun id hid => ?_, ?_⟩
  · obtain ⟨staker, hs⟩ := Option.isSome_iff_exists.mp ((hlive id).mp hid)
    obtain ⟨r, hr, hpos⟩ := hw.tracked id staker hs
    have hsender := (Option.filter_eq_some_iff.mp hr).2
    exact ⟨r, ext.getWithdrawalRequest_of_account hr, by simpa using hsender, hpos,
      outstanding_of hs hr⟩
  · rw [← hsum, Finsupp.degree_apply]
    exact Finset.sum_congr rfl fun id _ => howed id

theorem rejected_liability :
    ∃ live : Finset Nat,
      (∀ id, id ∈ live ↔ (Chain.rejected.manager.withdrawalRequests id).isSome) ∧
      (∀ id ∈ live, ∃ r, Chain.externals.getWithdrawalRequest Chain.rejected.chain id = some r ∧
        r.sender = Chain.externals.currentContract ∧ 0 < r.amount + r.maxFee ∧
        outstanding Chain.rejected.manager (Chain.externals.account Chain.rejected.chain) id =
          r.amount + r.maxFee) ∧
      Chain.rejected.manager.withdrawalLiability =
        ∑ id ∈ live, outstanding Chain.rejected.manager
          (Chain.externals.account Chain.rejected.chain) id :=
  reachable_liability Chain.externals_documented Chain.reachable_rejected

/-! ## Everyone is paid -/

section Paid

variable {id : Nat} {staker : Principal} {r : WithdrawalRequest}

/-- A transfer stays within an allowance of its amount. -/
theorem transfer_within {amount : Nat} {recipient : Principal} {s s' : σ}
    (hext : ext.Documented)
    (htransfer : ext.transfer ext.currentContract amount ext.currentContract recipient s =
      .ok () s') :
    (ext.account s).available - (ext.account s').available ≤ amount := by
  obtain ⟨hcovered, -, hspend, -⟩ := hext.transfer htransfer
  rw [hspend, Account.spend, Nat.sub_sub_self hcovered]

/-- Reclaiming a rejected request pays its staker in full. -/
theorem run_reclaimFailedWithdrawal (hext : ext.Documented) (hw : Inv ext w)
    (hs : w.manager.withdrawalRequests id = some staker)
    (hr : ext.getWithdrawalRequest w.chain id = some r) (hstatus : r.status = some false)
    (hstaker : staker ≠ ext.currentContract) :
    ∃ s, reclaimFailedWithdrawal ext id w =
        .ok true (((w.closeRequest id r.total).emit
          [.reclaimFailedWithdrawal id staker r.total]).onChain s) ∧
      ext.getBalanceAvailable s staker = ext.getBalanceAvailable w.chain staker + r.total := by
  have hr' := hw.own hs hr
  have hpos := hw.total_pos hs hr'
  have hliability : r.total ≤ w.manager.withdrawalLiability :=
    (outstanding_of hs hr').ge.trans (hw.owed.le id)
  have hcovered : r.total ≤ (ext.account w.chain).available := by
    have hpot := hw.held.le (.refund id)
    rwa [heldPots, refundable_of hs hr', if_pos hstatus] at hpot
  obtain ⟨s, htransfer⟩ := hext.transfer_succeeds hpos hcovered hstaker
  have hpaid := (hext.transfer htransfer).2.2.2
  have hadd : r.amount + r.maxFee < Tx.uintBound := hliability.trans_lt hw.liability_lt
  have hsub : r.amount + r.maxFee ≤ w.manager.withdrawalLiability := hliability
  refine ⟨s, ?_, hpaid⟩
  simp only [reclaimFailedWithdrawal, Tx.run_bind, Tx.run_get, hs, hr, Tx.unwrap, Tx.run_pure,
    Tx.add, Tx.uint, if_pos hadd, Tx.asserts, if_pos hstatus, Tx.run_modify, Tx.sub,
    if_pos hsub, print]
  refine run_asContract ?_ (transfer_within hext htransfer)
  exact Tx.run_bind_ok (run_contractCall htransfer)

/-- Retiring an accepted request always succeeds. -/
theorem run_settleAcceptedWithdrawal (hw : Inv ext w)
    (hs : w.manager.withdrawalRequests id = some staker)
    (hr : ext.getWithdrawalRequest w.chain id = some r) (hstatus : r.status = some true) :
    settleAcceptedWithdrawal ext id w =
      .ok true ((w.closeRequest id r.total).emit
        [.settleAcceptedWithdrawal id staker r.total]) := by
  have hr' := hw.own hs hr
  have hsub : r.amount + r.maxFee ≤ w.manager.withdrawalLiability :=
    (outstanding_of hs hr').ge.trans (hw.owed.le id)
  have hadd : r.amount + r.maxFee < Tx.uintBound := hsub.trans_lt hw.liability_lt
  simp only [settleAcceptedWithdrawal, Tx.run_bind, Tx.run_get, hs, hr, Tx.unwrap,
    Tx.run_pure, Tx.add, Tx.uint, if_pos hadd, Tx.asserts, if_pos hstatus, Tx.run_modify,
    Tx.sub, if_pos hsub, print]
  rfl

/-- In every state the contract can reach, anyone can close any resolved
request: a rejected one pays its staker, who is not the contract itself, the
whole amount and fee budget, an accepted one releases its part of the
liability. -/
theorem reachable_request_closes (hext : ext.Documented) (h : Reachable ext deployer w)
    {accepted : Bool} (hs : w.manager.withdrawalRequests id = some staker)
    (hr : ext.getWithdrawalRequest w.chain id = some r) (hstatus : r.status = some accepted)
    (hstaker : accepted = false → staker ≠ ext.currentContract) (ctx : Ctx) :
    ∃ w', exec ext ctx
        (if accepted then .settleAcceptedWithdrawal id else .reclaimFailedWithdrawal id) w =
          .ok (.bool true) w' ∧
      w'.manager = w.manager.closeRequest id (r.amount + r.maxFee) ∧
      r.amount + r.maxFee ≤ w.manager.withdrawalLiability ∧
      ext.getBalanceAvailable w'.chain staker = ext.getBalanceAvailable w.chain staker +
        (if accepted then 0 else r.amount + r.maxFee) := by
  have hw := inv_reachable hext h
  have hliability : r.total ≤ w.manager.withdrawalLiability :=
    (outstanding_of hs (hw.own hs hr)).ge.trans (hw.owed.le id)
  cases accepted with
  | true =>
      have hexec : exec ext ctx (.settleAcceptedWithdrawal id) w =
          .ok (.bool true) ((w.closeRequest id r.total).emit
            [.settleAcceptedWithdrawal id staker r.total]) := by
        simp only [exec, Tx.atomic, dispatch, Tx.run_bind, Tx.run_pure,
          run_settleAcceptedWithdrawal hw hs hr hstatus]
      exact ⟨_, hexec, rfl, hliability, rfl⟩
  | false =>
      obtain ⟨s, hrun, hpaid⟩ := run_reclaimFailedWithdrawal hext hw hs hr hstatus
        (hstaker rfl)
      have hexec : exec ext ctx (.reclaimFailedWithdrawal id) w =
          .ok (.bool true) (((w.closeRequest id r.total).emit
            [.reclaimFailedWithdrawal id staker r.total]).onChain s) := by
        simp only [exec, Tx.atomic, dispatch, Tx.run_bind, Tx.run_pure, hrun]
      exact ⟨_, hexec, rfl, hliability, hpaid⟩

theorem rejected_request_closes :
    ∃ w', exec Chain.externals ⟨.standard 8, .standard 8⟩
        (if false then .settleAcceptedWithdrawal 7 else .reclaimFailedWithdrawal 7)
        Chain.rejected = .ok (.bool true) w' ∧
      w'.manager = Chain.rejected.manager.closeRequest 7 (590 + 10) ∧
      590 + 10 ≤ Chain.rejected.manager.withdrawalLiability ∧
      Chain.externals.getBalanceAvailable w'.chain Chain.staker =
        Chain.externals.getBalanceAvailable Chain.rejected.chain Chain.staker +
          (if false then 0 else 590 + 10) := by
  have hs : Chain.rejected.manager.withdrawalRequests 7 = some Chain.staker := by decide +kernel
  have hr : Chain.externals.getWithdrawalRequest Chain.rejected.chain 7 =
      some Chain.rejectedRequest := by decide +kernel
  have hstatus : Chain.rejectedRequest.status = some false := rfl
  exact reachable_request_closes Chain.externals_documented Chain.reachable_rejected hs hr
    hstatus (fun _ => by decide) _

/-- A claim of rewards that are in the pool never fails for lack of money: a
staker without an L1 address is paid the net amount at once. -/
theorem reachable_claim_pays (hext : ext.Documented) (h : Reachable ext deployer w)
    {key : FeeKey} {gross : Nat} {s : σ} (ctx : Ctx)
    (hclaim : ext.claimStakerRewardsForSigner ext.currentContract staker key w.chain =
      .ok gross s)
    (hpos : 0 < gross) (hpool : gross ≤ w.manager.unclaimedStakerRewards)
    (hmul : gross * w.manager.getFeeBipsForCycle key < Tx.uintBound)
    (hfees : w.manager.earnedFees + gross < Tx.uintBound)
    (hdirect : w.manager.poxAddrs staker = none) (hstaker : staker ≠ ext.currentContract) :
    ∃ w', exec ext ctx (.claimStakerRewards staker key) w =
        .ok (.claim ⟨w.net key gross, none⟩) w' ∧
      0 < w.net key gross ∧
      w'.manager = w.manager.distribute gross (gross - w.net key gross) ∧
      ext.getBalanceAvailable w'.chain staker =
        ext.getBalanceAvailable s staker + w.net key gross := by
  have hw := inv_reachable hext h
  obtain ⟨haccount, -⟩ := hext.claimStakerRewards hclaim
  have hlt : feeOf gross (w.manager.getFeeBipsForCycle key) < gross :=
    feeOf_lt (hw.getFeeBips_lt key) hpos
  have hnet : 0 < w.net key gross := Nat.sub_pos_of_lt hlt
  have hcovered : w.net key gross ≤ (ext.account s).available := by
    rw [haccount]
    exact ((Nat.sub_le _ _).trans hpool).trans (hw.held.le .pool)
  have hbalance : 0 < ext.getBalance s ext.currentContract :=
    (hnet.trans_le hcovered).trans_le (hext.available_le_balance s)
  obtain ⟨s', htransfer⟩ := hext.transfer_succeeds hnet hcovered hstaker
  obtain ⟨-, -, -, hpaid⟩ := hext.transfer htransfer
  have hadd : w.manager.earnedFees + feeOf gross (w.manager.getFeeBipsForCycle key) <
      Tx.uintBound := by omega
  have hpanic : unwrapPanic (contractCall
      (ext.claimStakerRewardsForSigner ext.currentContract staker key)) w =
        .ok gross (w.onChain s) := by
    simp only [unwrapPanic, Tx.run_bind, Tx.attempt, run_contractCall hclaim, Tx.run_pure]
  have hbody : claimStakerRewards ext staker key w = .ok ⟨w.net key gross, none⟩
      (((w.distribute staker key gross).emit
        [.claimStakerRewards (w.net key gross) none staker key]).onChain s') := by
    have hsplit : splitFees gross (w.manager.getFeeBipsForCycle key) (w.onChain s) =
        .ok ⟨w.net key gross, feeOf gross (w.manager.getFeeBipsForCycle key)⟩
          (w.onChain s) := by
      refine (Tx.run_bind_ok (Tx.run_mul _ hmul)).trans ?_
      exact (Tx.run_bind_ok (Tx.run_sub _ hlt.le)).trans rfl
    refine (Tx.run_bind_ok hpanic).trans ?_
    refine (Tx.run_bind_ok (Tx.run_get _)).trans ?_
    refine (Tx.run_bind_ok hsplit).trans ?_
    refine (Tx.run_bind_ok (Tx.run_asserts _ hnet)).trans ?_
    refine (Tx.run_bind_ok (Tx.run_asserts _ hpool)).trans ?_
    refine (Tx.run_bind_ok (Tx.run_asserts _ hbalance)).trans ?_
    refine (Tx.run_bind_ok (Tx.run_add _ hadd)).trans ?_
    refine (Tx.run_bind_ok (Tx.run_modify _ _)).trans ?_
    refine (Tx.run_bind_ok (Tx.run_sub _ hpool)).trans ?_
    refine (Tx.run_bind_ok (Tx.run_modify _ _)).trans ?_
    refine (Tx.run_bind_ok (Tx.run_modify _ _)).trans ?_
    have hpay : asContract ext (w.net key gross) (payStaker ext staker key (w.net key gross))
        ((w.distribute staker key gross).onChain s) =
          .ok none (((w.distribute staker key gross).emit
            [.claimStakerRewards (w.net key gross) none staker key]).onChain s') := by
      refine run_asContract ?_ (transfer_within hext htransfer)
      refine (Tx.run_bind_ok (Tx.run_get _)).trans ?_
      have hinfo : ((w.distribute staker key gross).onChain s).manager.poxAddrs staker = none :=
        hdirect
      rw [hinfo]
      refine (Tx.run_bind_ok (Tx.run_modify _ _)).trans ?_
      exact Tx.run_bind_ok (run_contractCall htransfer)
    exact (Tx.run_bind_ok hpay).trans rfl
  have hback : gross - w.net key gross = feeOf gross (w.manager.getFeeBipsForCycle key) :=
    Nat.sub_sub_self hlt.le
  refine ⟨_, by simp only [exec, Tx.atomic, dispatch, Tx.run_bind, hbody, Tx.run_pure]; rfl,
    hnet, ?_, hpaid⟩
  rw [hback]
  rfl

/-- At a fee of five percent, 30 of the 600 sats are kept. -/
theorem funded_claim_pays :
    ∃ w', exec Chain.externals ⟨.standard 8, .standard 8⟩
        (.claimStakerRewards Chain.staker ⟨5, none⟩) Chain.funded =
          .ok (.claim ⟨570, none⟩) w' ∧
      w'.manager = Chain.funded.manager.distribute 600 30 ∧
      Chain.externals.getBalanceAvailable w'.chain Chain.staker = 0 + 570 := by
  have hnet : Chain.funded.net ⟨5, none⟩ 600 = 570 := by decide +kernel
  obtain ⟨s, hclaim, hbefore⟩ : ∃ s, Chain.externals.claimStakerRewardsForSigner
      Chain.externals.currentContract Chain.staker ⟨5, none⟩ Chain.funded.chain = .ok 600 s ∧
      Chain.externals.getBalanceAvailable s Chain.staker = 0 := ⟨_, rfl, by decide +kernel⟩
  obtain ⟨w', hexec, -, hmanager, hpaid⟩ :=
    reachable_claim_pays Chain.externals_documented Chain.reachable_funded
      ⟨.standard 8, .standard 8⟩ hclaim (by decide) (by decide +kernel) (by decide +kernel)
      (by decide +kernel) (by decide +kernel) (by decide)
  rw [hnet] at hexec hmanager hpaid
  exact ⟨w', hexec, hmanager, hbefore ▸ hpaid⟩

end Paid

/-! ## The flows of a run -/

section Flows

/-- The sum of a reading of the log. -/
def total (read : Event → Nat) (log : List Event) : Nat := (log.map read).sum

/-- Rewards pulled in from pox-5. -/
def Event.pulled : Event → Nat
  | .claimedRewards amount => amount
  | _ => 0

/-- Fees taken from rewards, and what was left of them for the staker. -/
def Event.feeTaken : Event → Nat
  | .distributed _ _ _ fees => fees
  | _ => 0

def Event.net : Event → Nat
  | .distributed _ _ gross fees => gross - fees
  | _ => 0

/-- Fees the admins withdrew, and surplus they swept. -/
def Event.feesOut : Event → Nat
  | .withdrewFees amount _ => amount
  | _ => 0

def Event.swept : Event → Nat
  | .sweepFeeRefunds amount _ => amount
  | _ => 0

/-- What rejected requests gave back, and what stakers reclaimed of it. -/
def Event.returned : Event → Nat
  | .rejected _ refund => refund
  | _ => 0

def Event.reclaimed : Event → Nat
  | .reclaimFailedWithdrawal _ _ amount => amount
  | _ => 0

/-- What nobody in particular has a claim to: sBTC sent to the contract, and
the unused fee budgets of accepted requests. -/
def Event.given : Event → Nat
  | .received amount => amount
  | .accepted _ _ dust => dust
  | _ => 0

/-- A reading of the entries as a reading of the events. -/
theorem total_flatMap {κ : Type} (read : Event → List (Entry κ)) (quantity : Entry κ → Nat)
    (log : List Event) :
    ((log.flatMap read).map quantity).sum =
      total (fun e => ((read e).map quantity).sum) log := by
  induction log with
  | nil => rfl
  | cons e log ih => simp [total, ih]

theorem total_add (f g : Event → Nat) (log : List Event) :
    total (fun e => f e + g e) log = total f log + total g log :=
  List.sum_map_add

section Entries

variable (e : Event)

theorem held_debit_pool :
    (e.held.map (Entry.debit .pool)).sum = e.feeTaken + e.net := by
  cases e <;> simp [Event.held, Entry.debit, Event.feeTaken, Event.net]

theorem held_credit_pool : (e.held.map (Entry.credit .pool)).sum = e.pulled := by
  cases e <;> simp [Event.held, Entry.credit, Event.pulled]

theorem held_debit_fees : (e.held.map (Entry.debit .fees)).sum = e.feesOut := by
  cases e <;> simp [Event.held, Entry.debit, Event.feesOut]

theorem held_credit_fees : (e.held.map (Entry.credit .fees)).sum = e.feeTaken := by
  cases e <;> simp [Event.held, Entry.credit, Event.feeTaken]

theorem held_skimmed : (e.held.map Entry.skimmed).sum = e.swept := by
  cases e <;> simp [Event.held, Entry.skimmed, Event.swept]

theorem held_gifted : (e.held.map Entry.gifted).sum = e.given := by
  cases e <;> simp [Event.held, Entry.gifted, Event.given]

theorem held_outgo :
    (e.held.map Entry.outgo).sum = e.net + e.feesOut + e.reclaimed + e.swept := by
  cases e <;>
    simp [Event.held, Entry.outgo, Event.net, Event.feesOut, Event.reclaimed, Event.swept]

theorem held_income :
    (e.held.map Entry.income).sum = e.pulled + e.returned + e.given := by
  cases e <;> simp [Event.held, Entry.income, Event.pulled, Event.returned, Event.given]

end Entries

/-- The flows, read off the books. -/
theorem Kept.flows {m : Manager} {a : Account} {log : List Event} (h : Kept m a log) :
    m.unclaimedStakerRewards + total Event.feeTaken log + total Event.net log =
        total Event.pulled log ∧
      m.earnedFees + total Event.feesOut log = total Event.feeTaken log ∧
      total Event.swept log ≤ total Event.given log ∧
      a.available + total Event.net log + total Event.feesOut log +
          total Event.reclaimed log + total Event.swept log =
        total Event.pulled log + total Event.returned log + total Event.given log := by
  have hpool := h.held.pot_flow .pool
  have hfees := h.held.pot_flow .fees
  have hswept := h.held.skimmed_le_gifted
  have hbalance := h.held.balance_flow
  simp only [total_flatMap, held_debit_pool, held_credit_pool, held_debit_fees,
    held_credit_fees, held_skimmed, held_gifted, held_outgo, held_income, total_add]
    at hpool hfees hswept hbalance
  have hpulled : m.unclaimedStakerRewards +
      (total Event.feeTaken log + total Event.net log) = total Event.pulled log := hpool
  exact ⟨by omega, hfees, hswept, by omega⟩

/-- Nothing gets lost over any run. Rewards are in the pool, were kept as a
fee or went out for a staker; fees are in the pot or were withdrawn; no more
is swept than was given; and what the contract can spend is what came in less
what went out. -/
theorem reachable_flows (hext : ext.Documented) (h : Reachable ext deployer w) :
    w.manager.unclaimedStakerRewards + total Event.feeTaken w.log + total Event.net w.log =
        total Event.pulled w.log ∧
      w.manager.earnedFees + total Event.feesOut w.log = total Event.feeTaken w.log ∧
      total Event.swept w.log ≤ total Event.given w.log ∧
      (ext.account w.chain).available + total Event.net w.log + total Event.feesOut w.log +
          total Event.reclaimed w.log + total Event.swept w.log =
        total Event.pulled w.log + total Event.returned w.log + total Event.given w.log :=
  (inv_reachable hext h).flows

theorem rejected_flows :
    Chain.rejected.manager.unclaimedStakerRewards +
        total Event.feeTaken Chain.rejected.log + total Event.net Chain.rejected.log =
        total Event.pulled Chain.rejected.log ∧
      Chain.rejected.manager.earnedFees + total Event.feesOut Chain.rejected.log =
        total Event.feeTaken Chain.rejected.log ∧
      total Event.swept Chain.rejected.log ≤ total Event.given Chain.rejected.log ∧
      (Chain.externals.account Chain.rejected.chain).available +
          total Event.net Chain.rejected.log + total Event.feesOut Chain.rejected.log +
          total Event.reclaimed Chain.rejected.log + total Event.swept Chain.rejected.log =
        total Event.pulled Chain.rejected.log + total Event.returned Chain.rejected.log +
          total Event.given Chain.rejected.log :=
  reachable_flows Chain.externals_documented Chain.reachable_rejected

end Flows

end Spox.SignerManager
