import Spox.SignerManager.Books

/-!
# Signer-manager — the life of a withdrawal request

What the log says about one request id, over a whole run. A request is opened
once, by a claim; the sBTC signers resolve it once; and after that it is closed
at most once, by a refund to the staker whose rewards opened it if it was
rejected, and without a payment if it was accepted.
-/

namespace Spox.SignerManager

open Spox.Lib
open Spox.RewardClaims (Principal ContractId ClaimResult)

variable {σ : Type}

/-- What can be recorded about a request. -/
inductive Phase where
  | requested (staker : Principal) (total : Nat)
  | resolved (accepted : Bool)
  | refunded (staker : Principal) (amount : Nat)
  | retired (staker : Principal) (released : Nat)
deriving DecidableEq

/-- What an event says about the request `id`. -/
def Event.phase (id : Nat) : Event → Option Phase
  | .claimStakerRewards _ (some l1) staker _ =>
      if l1.withdrawalRequest = id then some (.requested staker (l1.amount + l1.maxFee))
      else none
  | .accepted id' _ _ => if id' = id then some (.resolved true) else none
  | .rejected id' _ => if id' = id then some (.resolved false) else none
  | .reclaimFailedWithdrawal id' staker amount =>
      if id' = id then some (.refunded staker amount) else none
  | .settleAcceptedWithdrawal id' staker released =>
      if id' = id then some (.retired staker released) else none
  | .claimStakerRewards _ none _ _ | .updateAdmin .. | .updateFees .. | .sweepFeeRefunds .. |
    .claimedRewards .. | .distributed .. | .withdrewFees .. | .received .. => none

/-- The history of the request `id`. -/
def phases (id : Nat) (log : List Event) : List Phase := log.filterMap (Event.phase id)

/-- The histories a request can have, each with what the contract and
sbtc-registry then record about it. -/
inductive Life (m : Manager) (a : Account) (id : Nat) : List Phase → Prop
  | unknown (hs : m.withdrawalRequests id = none) (hr : a.requests id = none) : Life m a id []
  | pending (staker : Principal) (r : WithdrawalRequest)
      (hs : m.withdrawalRequests id = some staker) (hr : a.requests id = some r)
      (hstatus : r.status = none) : Life m a id [.requested staker r.total]
  | resolved (staker : Principal) (r : WithdrawalRequest) (accepted : Bool)
      (hs : m.withdrawalRequests id = some staker) (hr : a.requests id = some r)
      (hstatus : r.status = some accepted) :
      Life m a id [.requested staker r.total, .resolved accepted]
  | refunded (staker : Principal) (r : WithdrawalRequest)
      (hs : m.withdrawalRequests id = none) (hr : a.requests id = some r)
      (hstatus : r.status = some false) :
      Life m a id [.requested staker r.total, .resolved false, .refunded staker r.total]
  | retired (staker : Principal) (r : WithdrawalRequest)
      (hs : m.withdrawalRequests id = none) (hr : a.requests id = some r)
      (hstatus : r.status = some true) :
      Life m a id [.requested staker r.total, .resolved true, .retired staker r.total]

namespace Life

variable {m m' : Manager} {a a' : Account} {id : Nat} {l : List Phase} {staker : Principal}
  {r : WithdrawalRequest}

/-- What is recorded about other requests does not matter. -/
theorem frame (h : Life m a id l) (hs : m'.withdrawalRequests id = m.withdrawalRequests id)
    (hr : a'.requests id = a.requests id) : Life m' a' id l := by
  cases h with
  | unknown hs' hr' => exact .unknown (hs.trans hs') (hr.trans hr')
  | pending staker r hs' hr' hstatus =>
      exact .pending staker r (hs.trans hs') (hr.trans hr') hstatus
  | resolved staker r accepted hs' hr' hstatus =>
      exact .resolved staker r accepted (hs.trans hs') (hr.trans hr') hstatus
  | refunded staker r hs' hr' hstatus =>
      exact .refunded staker r (hs.trans hs') (hr.trans hr') hstatus
  | retired staker r hs' hr' hstatus =>
      exact .retired staker r (hs.trans hs') (hr.trans hr') hstatus

/-- A request sbtc-registry does not know has no history. -/
theorem eq_nil (h : Life m a id l) (hr : a.requests id = none) : l = [] := by
  cases h <;> simp_all

/-- A pending request has been opened, and nothing else. -/
theorem of_pending (h : Life m a id l) (hr : a.requests id = some r)
    (hstatus : r.status = none) :
    ∃ staker, m.withdrawalRequests id = some staker ∧ l = [.requested staker r.total] := by
  cases h <;> simp_all

/-- A tracked request that is resolved has not been closed. -/
theorem of_resolved (h : Life m a id l) {accepted : Bool}
    (hs : m.withdrawalRequests id = some staker) (hr : a.requests id = some r)
    (hstatus : r.status = some accepted) :
    l = [.requested staker r.total, .resolved accepted] := by
  cases h <;> simp_all

/-- A tracked request was opened for its staker. -/
theorem of_tracked (h : Life m a id l) (hs : m.withdrawalRequests id = some staker) :
    ∃ total rest, l = .requested staker total :: rest := by
  cases h <;> simp_all

end Life

section Accounts

variable {a a' : Account} {amount : Nat}

theorem requests_of_receive (h : a' = a.receive amount) : a'.requests = a.requests := by
  rw [h, Account.receive]

theorem requests_of_spend (h : a' = a.spend amount) : a'.requests = a.requests := by
  rw [h, Account.spend]

end Accounts

section Steps

variable {ext : Externals σ} {w w' : World σ} {deployer : Principal}

/-- Every request has one of the histories. -/
abbrev Lives (ext : Externals σ) (w : World σ) : Prop :=
  ∀ id, Life w.manager (ext.account w.chain) id (phases id w.log)

/-- A step that says nothing about any request. -/
theorem lives_quiet {m : Manager} {a : Account} {m' : Manager} {a' : Account}
    {log events : List Event} (h : ∀ id, Life m a id (phases id log))
    (hevents : ∀ id, events.filterMap (Event.phase id) = [])
    (hs : m'.withdrawalRequests = m.withdrawalRequests) (hr : a'.requests = a.requests) :
    ∀ id, Life m' a' id (phases id (log ++ events)) := by
  intro id
  rw [phases, List.filterMap_append, hevents, List.append_nil]
  exact (h id).frame (congrFun hs id) (congrFun hr id)

/-- A step that says one thing about one request. -/
theorem lives_at {m : Manager} {a : Account} {m' : Manager} {a' : Account}
    {log events : List Event} (h : ∀ id, Life m a id (phases id log)) (id : Nat)
    (hother : ∀ id' ≠ id, events.filterMap (Event.phase id') = [] ∧
      m'.withdrawalRequests id' = m.withdrawalRequests id' ∧ a'.requests id' = a.requests id')
    (hid : Life m' a' id (phases id log ++ events.filterMap (Event.phase id))) :
    ∀ id', Life m' a' id' (phases id' (log ++ events)) := by
  intro id'
  rw [phases, List.filterMap_append]
  by_cases heq : id' = id
  · subst heq
    exact hid
  · obtain ⟨hevents, hs, hr⟩ := hother id' heq
    rw [hevents, List.append_nil]
    exact (h id').frame hs hr

theorem Change.lives {ctx : Ctx} (hchange : Change ext ctx w w') (hw : Inv ext w)
    (h : Lives ext w) : Lives ext w' := by
  have hclose : ∀ (id total : Nat), ∀ id' ≠ id,
      (w.manager.closeRequest id total).withdrawalRequests id' =
        w.manager.withdrawalRequests id' := by
    intro id total id' hid
    simp [Manager.closeRequest, hid]
  cases hchange with
  | stake staker info hcaller hvalid heq =>
      subst heq
      exact fun id => (h id).frame rfl rfl
  | claimRewards rewardCycle result s huint haccount heq =>
      subst heq
      exact lives_quiet h (fun _ => rfl)
        (snapshot_snapshotFees rewardCycle result.bondRewards _).withdrawalRequests
        (requests_of_receive haccount)
  | paid staker key gross s hgross hnet hpool huint hdirect hstaker hcovered haccount heq =>
      subst heq
      have hfirst : Lives ext (w.distribute staker key gross) :=
        lives_quiet h (fun _ => rfl) rfl rfl
      exact lives_quiet hfirst (fun _ => rfl) rfl (requests_of_spend haccount)
  | requested staker key gross info id s hgross hnet hpool huint hinfo hbudget hliability
      hfresh hcovered haccount heq =>
      subst heq
      have hfirst : Lives ext (w.distribute staker key gross) :=
        lives_quiet h (fun _ => rfl) rfl rfl
      have hrequests : (ext.account s).requests = Function.update
          (ext.account w.chain).requests id (some ⟨w.net key gross - info.maxFee, info.maxFee,
            ext.currentContract, info.poxAddr, none⟩) := congrArg Account.requests haccount
      refine lives_at hfirst id (fun id' hid => ⟨by simp [Event.phase, Ne.symm hid],
        Function.update_of_ne hid _ _, ?_⟩) ?_
      · exact (congrFun hrequests id').trans (Function.update_of_ne hid _ _)
      · rw [(hfirst id).eq_nil hfresh]
        simp only [Event.phase, List.filterMap_cons, if_pos, List.filterMap_nil, List.nil_append]
        exact .pending staker _ (Function.update_self _ _ _)
          ((congrFun hrequests id).trans (Function.update_self _ _ _)) rfl
  | reclaimed id staker r s htracked hrequest hstatus hliability hstaker hcovered haccount
      hpaid heq =>
      subst heq
      have hr := hw.own htracked hrequest
      have hrequests : (ext.account s).requests = (ext.account w.chain).requests :=
        requests_of_spend haccount
      refine lives_at h id (fun id' hid => ⟨by simp [Event.phase, Ne.symm hid],
        hclose id r.total id' hid, congrFun hrequests id'⟩) ?_
      show Life _ _ _ (phases id w.log ++ _)
      rw [(h id).of_resolved htracked hr hstatus]
      simp only [Event.phase, List.filterMap_cons, if_pos, List.filterMap_nil]
      exact .refunded staker r (by simp [World.closeRequest, Manager.closeRequest])
        ((congrFun hrequests id).trans hr) hstatus
  | settled id staker r htracked hrequest hstatus hliability heq =>
      subst heq
      have hr := hw.own htracked hrequest
      refine lives_at h id (fun id' hid => ⟨by simp [Event.phase, Ne.symm hid],
        hclose id r.total id' hid, rfl⟩) ?_
      show Life _ _ _ (phases id w.log ++ _)
      rw [(h id).of_resolved htracked hr hstatus]
      simp only [Event.phase, List.filterMap_cons, if_pos, List.filterMap_nil]
      exact .retired staker r (by simp [World.closeRequest, Manager.closeRequest]) hr hstatus
  | updateAdmin admin enabled hadmin heq =>
      subst heq
      exact lives_quiet h (fun _ => rfl) rfl rfl
  | updateFees newFees hadmin hbips heq =>
      subst heq
      exact lives_quiet h (fun _ => rfl) rfl rfl
  | withdrewFees amount recipient s hadmin hfees hcovered haccount heq =>
      subst heq
      exact lives_quiet h (fun _ => rfl) rfl (requests_of_spend haccount)
  | swept amount recipient s hadmin hpos hreserved hcovered haccount heq =>
      subst heq
      exact lives_quiet h (fun _ => rfl) rfl (requests_of_spend haccount)
  | registered s hadmin haccount heq =>
      subst heq
      exact fun id => (h id).frame rfl (congrFun (congrArg Account.requests haccount) id)

theorem lives_step (hext : ext.Documented) (hstep : Step ext w w') (hw : Inv ext w)
    (h : Lives ext w) : Lives ext w' := by
  -- when a pending request is resolved, that is the next entry of its history
  have hresolve : ∀ {s : σ} {event : Event} {id : Nat} {r : WithdrawalRequest}
      {accepted : Bool} {back : Nat}, (ext.account w.chain).requests id = some r →
      r.status = none → ext.account s = (ext.account w.chain).resolve id r accepted back →
      event.phase id = some (.resolved accepted) →
      (∀ id' ≠ id, event.phase id' = none) → Lives ext ((w.onChain s).emit [event]) := by
    intro s event id r accepted back hr hpending haccount hphase hother
    have hrequests : (ext.account s).requests = Function.update (ext.account w.chain).requests
        id (some { r with status := some accepted }) := congrArg Account.requests haccount
    refine lives_at h id (fun id' hid => ⟨by simp [hother id' hid], rfl,
      (congrFun hrequests id').trans (Function.update_of_ne hid _ _)⟩) ?_
    obtain ⟨staker, hs, hphases⟩ := (h id).of_pending hr hpending
    show Life _ _ _ (phases id w.log ++ _)
    rw [hphases, List.filterMap_cons, hphase]
    exact .resolved staker { r with status := some accepted } accepted hs
      ((congrFun hrequests id).trans (Function.update_self _ _ _)) rfl
  cases hstep with
  | call ctx c hexec => exact (exec_change hext hexec).lives hw h
  | outside houtside =>
      cases houtside with
      | received amount haccount =>
          exact lives_quiet h (fun _ => rfl) rfl (requests_of_receive haccount)
      | accepted id r dust hrequest hpending hdust haccount =>
          exact hresolve hrequest hpending haccount (if_pos rfl)
            fun id' hid => if_neg (Ne.symm hid)
      | rejected id r hrequest hpending haccount =>
          exact hresolve hrequest hpending haccount (if_pos rfl)
            fun id' hid => if_neg (Ne.symm hid)

/-- A claim that answers with a request id tracks it for the staker. -/
theorem claimStakerRewards_tracks (staker : Principal) (key : FeeKey) :
    Tx.wp (claimStakerRewards ext staker key) w
      (fun result w' => ∀ id, result.withdrawalRequest = some id →
        w'.manager.withdrawalRequests id = some staker)
      (fun _ _ => True) True := by
  simp only [claimStakerRewards, Tx.wp_bind, wp_unwrapPanic]
  refine wp_contractCall (fun gross s hclaim => ?_) (fun _ => trivial) trivial
  simp only [Tx.wp_get]
  refine wp_splitFees fun _ => ?_
  simp only [Tx.wp_asserts, Tx.wp_add, Tx.wp_sub, Tx.wp_modify, wp_history, Tx.wp_pure]
  refine ⟨fun _ => ⟨fun _ => ⟨fun _ => ⟨fun _ => ⟨fun _ => ?_, fun _ => trivial⟩,
    fun _ => trivial⟩, fun _ => trivial⟩, fun _ => trivial⟩, fun _ => trivial⟩
  refine wp_asContract ?_
  simp only [payStaker, Tx.wp_bind, Tx.wp_get]
  split
  · split
    · simp only [Tx.wp_bind, Tx.wp_pure]
      refine wp_contractCall (fun id s' _ => ?_) (fun _ => trivial) trivial
      simp only [wp_print, Tx.wp_modify, Tx.wp_get, Tx.wp_add]
      refine ⟨fun _ => ⟨fun _ id' hid => ?_, fun _ => trivial⟩, fun _ => trivial⟩
      cases hid
      simp
    · trivial
  · simp only [Tx.wp_bind, wp_print, Tx.wp_pure]
    exact wp_contractCall (fun _ _ _ id hid => by cases hid) (fun _ => trivial) trivial

/-- Every state a run can reach has both invariants. -/
theorem reachable_lives (hext : ext.Documented) (h : Reachable ext deployer w) :
    Inv ext w ∧ Lives ext w := by
  obtain ⟨s, hrequests, hlocked, hrun⟩ := h
  have hstart : Inv ext (.deployed ext deployer s) := inv_deployed s hrequests hlocked
  induction hrun with
  | refl => exact ⟨hstart, fun id => .unknown rfl (hrequests id)⟩
  | tail _ hstep ih => exact ⟨inv_step hext hstep ih.1, lives_step hext hstep ih.1 ih.2⟩

/-- In every state the contract can reach, every request has gone through an
initial part of one of the two lives: opened, rejected, refunded to the staker
who opened it; or opened, accepted, retired. -/
theorem reachable_life (hext : ext.Documented) (h : Reachable ext deployer w) (id : Nat) :
    Life w.manager (ext.account w.chain) id (phases id w.log) :=
  (reachable_lives hext h).2 id

theorem rejected_life :
    Life Chain.rejected.manager (Chain.externals.account Chain.rejected.chain) 7
      (phases 7 Chain.rejected.log) :=
  reachable_life Chain.externals_documented Chain.reachable_rejected 7

end Steps

end Spox.SignerManager
