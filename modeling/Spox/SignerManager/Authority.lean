import Spox.Lib.Runs
import Spox.SignerManager.Solvency

/-!
# Signer-manager — who can do what

Runs labelled by the caller of each step. What admins and pox-5 can do is what
a run without them cannot: such a run only moves sBTC to stakers, and only to
where pox-5 says. A fee rate that has been taken for a reward cycle is out of
everybody's hands.
-/

namespace Spox.SignerManager

open Spox.Lib
open Spox.RewardClaims (Principal ContractId ClaimResult)

variable {σ : Type} {ext : Externals σ} {w w' : World σ}

/-- A step with the context of its call, or `none` if it happened outside. -/
inductive StepBy (ext : Externals σ) : Option Ctx → World σ → World σ → Prop
  | call {w w' : World σ} {value : Value} (ctx : Ctx) (c : Call)
      (hexec : exec ext ctx c w = .ok value w') : StepBy ext (some ctx) w w'
  | outside {w : World σ} {s : σ} {event : Event} (h : ext.Outside w.chain s event) :
      StepBy ext none w ((w.onChain s).emit [event])

theorem StepBy.step {caller : Option Ctx} (h : StepBy ext caller w w') : Step ext w w' := by
  cases h with
  | call ctx c hexec => exact .call ctx c hexec
  | outside h => exact .outside h

theorem Step.stepBy (h : Step ext w w') : ∃ caller, StepBy ext caller w w' := by
  cases h with
  | call ctx c hexec => exact ⟨some ctx, .call ctx c hexec⟩
  | outside h => exact ⟨none, .outside h⟩

/-- The runs in which every caller is one that is allowed. -/
abbrev RunBy (ext : Externals σ) (allowed : Ctx → Prop) : World σ → World σ → Prop :=
  Runs (StepBy ext) fun caller => ∀ ctx, caller = some ctx → allowed ctx

theorem RunBy.run {allowed : Ctx → Prop} (h : RunBy ext allowed w w') : Run ext w w' :=
  Relation.ReflTransGen.mono (fun _ _ hstep => by
    obtain ⟨caller, -, hstep⟩ := hstep
    exact hstep.step) _ _ h

/-- What every change by an allowed caller and every outside event does to a
pair of worlds, a run does, if it holds of a world and itself and composes. -/
theorem RunBy.induct {allowed : Ctx → Prop} (hext : ext.Documented)
    (post : World σ → World σ → Prop) (hrefl : ∀ w, post w w)
    (htrans : ∀ {w w' w''}, post w w' → post w' w'' → post w w'')
    (hcall : ∀ {ctx w w'}, allowed ctx → Inv ext w → Change ext ctx w w' → post w w')
    (houtside : ∀ {w : World σ} {s event}, ext.Outside w.chain s event →
      post w ((w.onChain s).emit [event]))
    (h : RunBy ext allowed w w') (hw : Inv ext w) : post w w' := by
  have hboth : Inv ext w' ∧ post w w' := by
    refine Runs.invariant (fun v => Inv ext v ∧ post w v) h ?_ ⟨hw, hrefl w⟩
    intro caller v v' hallowed hstep ih
    refine ⟨inv_step hext hstep.step ih.1, htrans ih.2 ?_⟩
    cases hstep with
    | call ctx c hexec => exact hcall (hallowed ctx rfl) ih.1 (exec_change hext hexec)
    | outside hout => exact houtside hout
  exact hboth.2

theorem Run.runBy (h : Run ext w w') : RunBy ext (fun _ => True) w w' :=
  Relation.ReflTransGen.mono (fun _ _ hstep => by
    obtain ⟨caller, hstep⟩ := hstep.stepBy
    exact ⟨caller, fun _ _ => trivial, hstep⟩) _ _ h

/-- The small chain's claim as a run of its caller's. -/
theorem Chain.runBy_requested {allowed : Ctx → Prop}
    (h : ∀ ctx, ctx = ⟨Chain.staker, Chain.staker⟩ → allowed ctx) :
    RunBy Chain.externals allowed Chain.pulled Chain.requested := by
  unfold Chain.requested Chain.send Tx.commit
  cases hexec : exec Chain.externals ⟨Chain.staker, Chain.staker⟩
      (.claimStakerRewards Chain.staker ⟨5, none⟩) Chain.pulled with
  | ok value w' =>
      exact .single (fun ctx hctx => h ctx (Option.some_inj.mp hctx).symm)
        (.call _ _ hexec)
  | err => exact .refl
  | abort => exact .refl

/-- The log only grows, by events of which `good` holds. -/
def World.Extends (good : Event → Prop) (w w' : World σ) : Prop :=
  ∃ events, w'.log = w.log ++ events ∧ ∀ e ∈ events, good e

namespace World.Extends

variable {good : Event → Prop} {w'' : World σ}

theorem refl (w : World σ) : Extends good w w := ⟨[], by simp, by simp⟩

theorem trans (h : Extends good w w') (h' : Extends good w' w'') : Extends good w w'' := by
  obtain ⟨l, hl, hgood⟩ := h
  obtain ⟨l', hl', hgood'⟩ := h'
  refine ⟨l ++ l', by rw [hl', hl, List.append_assoc], fun e he => ?_⟩
  rcases List.mem_append.mp he with he | he
  · exact hgood e he
  · exact hgood' e he

theorem of_log {e : Event} (hlog : w'.log = w.log ++ [e]) (h : good e) :
    Extends good w w' :=
  ⟨[e], hlog, by simpa using h⟩

end World.Extends

theorem World.Extends.mono {good good' : Event → Prop} (h : w.Extends good w')
    (hsub : ∀ e, good e → good' e) : w.Extends good' w' := by
  obtain ⟨l, hl, hgood⟩ := h
  exact ⟨l, hl, fun e he => hsub e (hgood e he)⟩

/-- Where a payout of `amount` goes, given the address on record. -/
def PaidTo (amount : Nat) (l1Withdrawal : Option L1Withdrawal) : Option L1Info → Prop
  | none => l1Withdrawal = none
  | some info => info.maxFee ≤ amount ∧
      ∃ id, l1Withdrawal = some ⟨info.poxAddr, info.maxFee, id, amount - info.maxFee⟩

/-- What a call that is made in `w` can record. -/
def Event.By (ctx : Ctx) (m : Manager) : Event → Prop
  | .distributed _ key gross fees =>
      fees = feeOf gross (m.getFeeBipsForCycle key) ∧ fees < gross
  | .claimStakerRewards amount l1Withdrawal staker _ =>
      PaidTo amount l1Withdrawal (m.poxAddrs staker)
  | .withdrewFees .. | .sweepFeeRefunds .. | .updateFees .. | .updateAdmin .. => ctx.IsAdmin m
  | .received .. | .accepted .. | .rejected .. => False
  | .claimedRewards .. | .reclaimFailedWithdrawal .. | .settleAcceptedWithdrawal .. => True

theorem Change.extends {ctx : Ctx} (hchange : Change ext ctx w w') :
    w.Extends (Event.By ctx w.manager) w' := by
  cases hchange with
  | stake staker info hcaller hvalid heq =>
      subst heq
      exact .refl w
  | claimRewards rewardCycle result s huint haccount heq =>
      subst heq
      exact .of_log rfl trivial
  | paid staker key gross s hgross hnet hpool huint hdirect hstaker hcovered haccount heq =>
      subst heq
      have hfees := Nat.lt_of_sub_pos hnet
      have hfirst : w.Extends (Event.By ctx w.manager) (w.distribute staker key gross) :=
        .of_log rfl ⟨rfl, hfees⟩
      refine hfirst.trans (.of_log rfl ?_)
      simp only [Event.By, hdirect]
      rfl
  | requested staker key gross info id s hgross hnet hpool huint hinfo hbudget hliability
      hfresh hcovered haccount heq =>
      subst heq
      have hfees := Nat.lt_of_sub_pos hnet
      have hfirst : w.Extends (Event.By ctx w.manager) (w.distribute staker key gross) :=
        .of_log rfl ⟨rfl, hfees⟩
      refine hfirst.trans (.of_log rfl ?_)
      simp only [Event.By, hinfo]
      exact ⟨hbudget, id, rfl⟩
  | reclaimed id staker r s htracked hrequest hstatus hliability hstaker hcovered haccount
      hpaid heq =>
      subst heq
      exact .of_log rfl trivial
  | settled id staker r htracked hrequest hstatus hliability heq =>
      subst heq
      exact .of_log rfl trivial
  | updateAdmin admin enabled hadmin heq =>
      subst heq
      exact .of_log rfl hadmin
  | updateFees newFees hadmin hbips heq =>
      subst heq
      exact .of_log rfl hadmin
  | withdrewFees amount recipient s hadmin hfees hcovered haccount heq =>
      subst heq
      exact .of_log rfl hadmin
  | swept amount recipient s hadmin hpos hreserved hcovered haccount heq =>
      subst heq
      exact .of_log rfl hadmin
  | registered s hadmin haccount heq =>
      subst heq
      exact .refl w

/-- What happens outside records one of its own events. -/
theorem Externals.Outside.extends {s : σ} {event : Event} (h : ext.Outside w.chain s event)
    {good : Event → Prop} (hreceived : ∀ n, good (.received n))
    (haccepted : ∀ id n m, good (.accepted id n m)) (hrejected : ∀ id n, good (.rejected id n)) :
    w.Extends good ((w.onChain s).emit [event]) := by
  cases h with
  | received amount h => exact .of_log rfl (hreceived amount)
  | accepted id r dust => exact .of_log rfl (haccepted id r.total dust)
  | rejected id r => exact .of_log rfl (hrejected id r.total)

/-- The log of the contract only grows. -/
theorem run_log (hext : ext.Documented) (hrun : Run ext w w') :
    w.Extends (fun _ => True) w' := by
  induction hrun with
  | refl => exact .refl w
  | tail _ hstep ih =>
      refine ih.trans ?_
      cases hstep with
      | call ctx c hexec => exact (exec_change hext hexec).extends.mono fun _ _ => trivial
      | outside hout =>
          exact hout.extends (fun _ => trivial) (fun _ _ _ => trivial) fun _ _ => trivial

/-! ## The rate of a fee -/

/-- A fee on a reward of `key` is at the rate `bips`, and leaves something. -/
def Event.ChargedAt (key : FeeKey) (bips : Nat) : Event → Prop
  | .distributed _ key' gross fees =>
      key' = key → fees = gross * bips / maxBips ∧ fees < gross
  | _ => True

/-- The fee entries only grow. -/
theorem Change.feeBips {ctx : Ctx} (hchange : Change ext ctx w w') {key : FeeKey} {bips : Nat}
    (hkey : w.manager.feeBipsForCycle key = some bips) :
    w'.manager.feeBipsForCycle key = some bips := by
  cases hchange with
  | claimRewards rewardCycle result s huint haccount heq =>
      subst heq
      exact (snapshot_snapshotFees rewardCycle result.bondRewards _).kept key bips hkey
  | stake _ _ _ _ heq => subst heq; exact hkey
  | paid _ _ _ _ _ _ _ _ _ _ _ _ heq => subst heq; exact hkey
  | requested _ _ _ _ _ _ _ _ _ _ _ _ _ _ _ _ heq => subst heq; exact hkey
  | reclaimed _ _ _ _ _ _ _ _ _ _ _ _ heq => subst heq; exact hkey
  | settled _ _ _ _ _ _ _ heq => subst heq; exact hkey
  | updateAdmin _ _ _ heq => subst heq; exact hkey
  | updateFees _ _ _ heq => subst heq; exact hkey
  | withdrewFees _ _ _ _ _ _ _ heq => subst heq; exact hkey
  | swept _ _ _ _ _ _ _ _ heq => subst heq; exact hkey
  | registered _ _ _ heq => subst heq; exact hkey

/-- A rate that has been taken for a reward cycle and a bond is below one and
stays: whatever anyone does afterwards, every later claim for them is charged
at that rate, rounded down, and something is left for the staker. -/
theorem run_rate (hext : ext.Documented) {deployer : Principal}
    (h : Reachable ext deployer w) (hrun : Run ext w w') {key : FeeKey} {bips : Nat}
    (hkey : w.manager.feeBipsForCycle key = some bips) :
    bips < maxBips ∧ w'.manager.feeBipsForCycle key = some bips ∧
      w.Extends (Event.ChargedAt key bips) w' := by
  have hw := inv_reachable hext h
  have hbips : bips < maxBips := by
    have hlt := hw.getFeeBips_lt key
    rwa [Manager.getFeeBipsForCycle, hkey, Option.getD_some] at hlt
  refine ⟨hbips, ?_⟩
  refine RunBy.induct hext (fun w w' => w.manager.feeBipsForCycle key = some bips →
    w'.manager.feeBipsForCycle key = some bips ∧ w.Extends (Event.ChargedAt key bips) w')
    (fun w hkey => ⟨hkey, .refl w⟩) ?_ ?_ ?_ hrun.runBy hw hkey
  · intro w w' w'' h h' hkey
    obtain ⟨hkey', hlog⟩ := h hkey
    obtain ⟨hkey'', hlog'⟩ := h' hkey'
    exact ⟨hkey'', hlog.trans hlog'⟩
  · intro ctx w w' _ _ hchange hkey
    refine ⟨hchange.feeBips hkey, hchange.extends.mono fun e he => ?_⟩
    cases e with
    | distributed staker key' gross fees =>
        rintro rfl
        have hrate : w.manager.getFeeBipsForCycle key' = bips := by
          rw [Manager.getFeeBipsForCycle, hkey, Option.getD_some]
        exact hrate ▸ he
    | _ => trivial
  · intro w s event hout hkey
    exact ⟨hkey, hout.extends (fun _ => trivial) (fun _ _ _ => trivial) fun _ _ => trivial⟩

/-- The fee of five percent was taken for cycle 5; the admin then lowers it. -/
theorem funded_rate :
    ∃ w', Run Chain.externals Chain.funded w' ∧ w'.manager.feesBips = 100 ∧ 500 < maxBips ∧
      w'.manager.feeBipsForCycle ⟨5, none⟩ = some 500 ∧
      Chain.funded.Extends (Event.ChargedAt ⟨5, none⟩ 500) w' := by
  have hlowered : Run Chain.externals Chain.funded _ :=
    run_call ⟨Chain.admin, Chain.admin⟩ (.updateFees 100) Chain.funded
  have hrun := hlowered.trans (Chain.run_send (.claimStakerRewards Chain.staker ⟨5, none⟩) _)
  exact ⟨_, hrun, by decide +kernel, run_rate Chain.externals_documented Chain.reachable_funded
    hrun (by decide +kernel)⟩

/-! ## Without the admins -/

/-- An outsider's call leaves the admins and the rate alone. -/
theorem Change.admins {ctx : Ctx} (hchange : Change ext ctx w w')
    (hctx : ¬ ctx.IsAdmin w.manager) :
    w'.manager.admins = w.manager.admins ∧ w'.manager.feesBips = w.manager.feesBips ∧
      w.manager.earnedFees ≤ w'.manager.earnedFees := by
  cases hchange with
  | claimRewards rewardCycle result s huint haccount heq =>
      subst heq
      have hsnapshot := snapshot_snapshotFees rewardCycle result.bondRewards { w.manager with
        unclaimedStakerRewards := w.manager.unclaimedStakerRewards + result.totalRewards }
      exact ⟨hsnapshot.admins, hsnapshot.feesBips, hsnapshot.earnedFees.ge⟩
  | stake _ _ _ _ heq => subst heq; exact ⟨rfl, rfl, le_rfl⟩
  | paid _ _ _ _ _ _ _ _ _ _ _ _ heq => subst heq; exact ⟨rfl, rfl, Nat.le_add_right _ _⟩
  | requested _ _ _ _ _ _ _ _ _ _ _ _ _ _ _ _ heq =>
      subst heq
      exact ⟨rfl, rfl, Nat.le_add_right _ _⟩
  | reclaimed _ _ _ _ _ _ _ _ _ _ _ _ heq => subst heq; exact ⟨rfl, rfl, le_rfl⟩
  | settled _ _ _ _ _ _ _ heq => subst heq; exact ⟨rfl, rfl, le_rfl⟩
  | updateAdmin _ _ hadmin _ => exact absurd hadmin hctx
  | updateFees _ hadmin _ _ => exact absurd hadmin hctx
  | withdrewFees _ _ _ hadmin _ _ _ _ => exact absurd hadmin hctx
  | swept _ _ _ hadmin _ _ _ _ _ => exact absurd hadmin hctx
  | registered _ hadmin _ _ => exact absurd hadmin hctx

/-- A log extended by events that count nothing has the same total. -/
theorem World.Extends.total {read : Event → Nat} (h : w.Extends (fun e => read e = 0) w') :
    total read w'.log = total read w.log := by
  obtain ⟨events, hlog, hzero⟩ := h
  have hsum : (events.map read).sum = 0 := by
    rw [List.sum_eq_zero_iff]
    intro n hn
    obtain ⟨e, he, rfl⟩ := List.mem_map.mp hn
    exact hzero e he
  rw [hlog, SignerManager.total, List.map_append, List.sum_append, hsum, Nat.add_zero,
    SignerManager.total]

theorem World.Extends.total_le {good : Event → Prop} (h : w.Extends good w')
    (read : Event → Nat) : SignerManager.total read w.log ≤ SignerManager.total read w'.log := by
  obtain ⟨events, hlog, -⟩ := h
  rw [hlog, SignerManager.total, SignerManager.total, List.map_append, List.sum_append]
  exact Nat.le_add_right _ _

/-- An outsider's call takes out no fee and no surplus. -/
theorem Event.By.outsider {ctx : Ctx} {m : Manager} (hctx : ¬ ctx.IsAdmin m) {e : Event}
    (he : e.By ctx m) : e.feesOut = 0 ∧ e.swept = 0 := by
  cases e with
  | withdrewFees => exact absurd he hctx
  | sweepFeeRefunds => exact absurd he hctx
  | _ => exact ⟨rfl, rfl⟩

/-- In a run in which no admin acts, the admins and the rate stay, no earned
fee is lost, and whatever leaves the contract goes out for a staker: what it
can spend falls by no more than net rewards and refunds. -/
theorem outsiders_pay_stakers (hext : ext.Documented) {deployer : Principal}
    (h : Reachable ext deployer w)
    (hrun : RunBy ext (fun ctx => ¬ ctx.IsAdmin w.manager) w w') :
    w'.manager.admins = w.manager.admins ∧ w'.manager.feesBips = w.manager.feesBips ∧
      w.manager.earnedFees ≤ w'.manager.earnedFees ∧
      (ext.account w.chain).available + total Event.net w.log + total Event.reclaimed w.log ≤
        (ext.account w'.chain).available + total Event.net w'.log +
          total Event.reclaimed w'.log := by
  have hpost := RunBy.induct hext
    (fun v v' => v.manager.admins = w.manager.admins →
      (v'.manager.admins = w.manager.admins ∧ v'.manager.feesBips = v.manager.feesBips ∧
        v.manager.earnedFees ≤ v'.manager.earnedFees) ∧
      v.Extends (fun e => e.feesOut = 0 ∧ e.swept = 0) v')
    (fun v hv => ⟨⟨hv, rfl, le_rfl⟩, .refl v⟩) ?_ ?_ ?_ hrun (inv_reachable hext h) rfl
  · obtain ⟨⟨hadmins, hbips, hfees⟩, hlog⟩ := hpost
    have hfeesOut := (hlog.mono fun e he => he.1).total
    have hswept := (hlog.mono fun e he => he.2).total
    have hw := inv_reachable hext h
    obtain ⟨-, -, -, hbefore⟩ := hw.flows
    obtain ⟨-, -, -, hafter⟩ := (inv_run hext hrun.run hw).flows
    have hpulled := hlog.total_le Event.pulled
    have hreturned := hlog.total_le Event.returned
    have hgiven := hlog.total_le Event.given
    exact ⟨hadmins, hbips, hfees, by omega⟩
  · intro v v' v'' hfirst hsecond hv
    obtain ⟨⟨hadmins, hbips, hfees⟩, hlog⟩ := hfirst hv
    obtain ⟨⟨hadmins', hbips', hfees'⟩, hlog'⟩ := hsecond hadmins
    exact ⟨⟨hadmins', hbips'.trans hbips, hfees.trans hfees'⟩, hlog.trans hlog'⟩
  · intro ctx v v' hallowed _ hchange hv
    have hctx : ¬ ctx.IsAdmin v.manager := by
      rwa [Ctx.IsAdmin, Manager.isAdmin, hv]
    obtain ⟨hadmins, hbips, hfees⟩ := hchange.admins hctx
    exact ⟨⟨hadmins.trans hv, hbips, hfees⟩,
      hchange.extends.mono fun e he => he.outsider hctx⟩
  · intro v s event hout hv
    exact ⟨⟨hv, rfl, le_rfl⟩, hout.extends (fun _ => ⟨rfl, rfl⟩) (fun _ _ _ => ⟨rfl, rfl⟩)
      fun _ _ => ⟨rfl, rfl⟩⟩

theorem requested_outsiders_pay_stakers :
    Chain.requested.manager.admins = Chain.pulled.manager.admins ∧
      Chain.requested.manager.feesBips = Chain.pulled.manager.feesBips ∧
      Chain.pulled.manager.earnedFees ≤ Chain.requested.manager.earnedFees ∧
      (Chain.externals.account Chain.pulled.chain).available +
          total Event.net Chain.pulled.log + total Event.reclaimed Chain.pulled.log ≤
        (Chain.externals.account Chain.requested.chain).available +
          total Event.net Chain.requested.log + total Event.reclaimed Chain.requested.log :=
  outsiders_pay_stakers Chain.externals_documented Chain.reachable_pulled
    (Chain.runBy_requested fun ctx h => by
      subst h
      decide +kernel)

/-! ## Where payouts go -/

/-- Only pox-5 changes an address. -/
theorem Change.poxAddrs {ctx : Ctx} (hchange : Change ext ctx w w')
    (hctx : ctx.contractCaller ≠ ext.pox5) : w'.manager.poxAddrs = w.manager.poxAddrs := by
  cases hchange with
  | stake _ _ hcaller _ _ => exact absurd hcaller hctx
  | claimRewards rewardCycle result s huint haccount heq =>
      subst heq
      exact (snapshot_snapshotFees rewardCycle result.bondRewards _).poxAddrs
  | paid _ _ _ _ _ _ _ _ _ _ _ _ heq => subst heq; rfl
  | requested _ _ _ _ _ _ _ _ _ _ _ _ _ _ _ _ heq => subst heq; rfl
  | reclaimed _ _ _ _ _ _ _ _ _ _ _ _ heq => subst heq; rfl
  | settled _ _ _ _ _ _ _ heq => subst heq; rfl
  | updateAdmin _ _ _ heq => subst heq; rfl
  | updateFees _ _ _ heq => subst heq; rfl
  | withdrewFees _ _ _ _ _ _ _ heq => subst heq; rfl
  | swept _ _ _ _ _ _ _ _ heq => subst heq; rfl
  | registered _ _ _ heq => subst heq; rfl

/-- A payout goes to the address on record in `poxAddrs`, which is valid. -/
def Event.Follows (poxAddrs : Principal → Option L1Info) : Event → Prop
  | .claimStakerRewards amount l1Withdrawal staker _ =>
      PaidTo amount l1Withdrawal (poxAddrs staker) ∧
        ∀ l1, l1Withdrawal = some l1 → l1.poxAddr.Valid ∧ l1.amount + l1.maxFee = amount
  | _ => True

/-- The request a payout to an address opened, as sbtc-registry tells about it:
it holds the amount and the fee budget of the payout, was made by the contract
and goes to the address of the payout. -/
def Event.Sent (ext : Externals σ) (s : σ) : Event → Prop
  | .claimStakerRewards _ (some l1) _ _ => ∃ status,
      ext.getWithdrawalRequest s l1.withdrawalRequest =
        some ⟨l1.amount, l1.maxFee, ext.currentContract, l1.poxAddr, status⟩
  | _ => True

/-- A request of the contract stays what it is but for its status. -/
def Account.Keeps (a a' : Account) : Prop :=
  ∀ id r, a.requests id = some r → ∃ status, a'.requests id = some { r with status := status }

theorem Account.Keeps.refl (a : Account) : a.Keeps a := fun _ r h => ⟨r.status, h⟩

theorem Account.Keeps.trans {a a' a'' : Account} (h : a.Keeps a') (h' : a'.Keeps a'') :
    a.Keeps a'' := by
  intro id r hr
  obtain ⟨status, hr'⟩ := h id r hr
  obtain ⟨status', hr''⟩ := h' id _ hr'
  exact ⟨status', hr''⟩

theorem Account.keeps_receive (a : Account) (amount : Nat) : a.Keeps (a.receive amount) :=
  fun _ r h => ⟨r.status, h⟩

theorem Account.keeps_spend (a : Account) (amount : Nat) : a.Keeps (a.spend amount) :=
  fun _ r h => ⟨r.status, h⟩

/-- A request the contract opens is a new one. -/
theorem Account.keeps_lock {a : Account} {id : Nat} (r : WithdrawalRequest)
    (hfresh : a.requests id = none) : a.Keeps (a.lock id r) := by
  intro id' r' hr'
  have hne : id' ≠ id := by
    rintro rfl
    exact Option.some_ne_none r' (hr'.symm.trans hfresh)
  exact ⟨r'.status, (Function.update_of_ne hne _ _).trans hr'⟩

/-- The signers only set the status of a request. -/
theorem Account.keeps_resolve {a : Account} {id : Nat} {r : WithdrawalRequest}
    (hr : a.requests id = some r) (accepted : Bool) (back : Nat) :
    a.Keeps (a.resolve id r accepted back) := by
  intro id' r' hr'
  by_cases hid : id' = id
  · subst hid
    cases hr.symm.trans hr'
    exact ⟨some accepted, Function.update_self _ _ _⟩
  · exact ⟨r'.status, (Function.update_of_ne hid _ _).trans hr'⟩

theorem Change.keeps {ctx : Ctx} (hchange : Change ext ctx w w') :
    (ext.account w.chain).Keeps (ext.account w'.chain) := by
  cases hchange with
  | claimRewards _ _ _ _ haccount heq =>
      subst heq
      exact Eq.substr haccount (Account.keeps_receive _ _)
  | paid _ _ _ _ _ _ _ _ _ _ _ haccount heq =>
      subst heq
      exact Eq.substr haccount (Account.keeps_spend _ _)
  | requested _ _ _ _ _ _ _ _ _ _ _ _ _ hfresh _ haccount heq =>
      subst heq
      exact Eq.substr haccount (Account.keeps_lock _ hfresh)
  | reclaimed _ _ _ _ _ _ _ _ _ _ haccount _ heq =>
      subst heq
      exact Eq.substr haccount (Account.keeps_spend _ _)
  | withdrewFees _ _ _ _ _ _ haccount heq =>
      subst heq
      exact Eq.substr haccount (Account.keeps_spend _ _)
  | swept _ _ _ _ _ _ _ haccount heq =>
      subst heq
      exact Eq.substr haccount (Account.keeps_spend _ _)
  | registered _ _ haccount heq =>
      subst heq
      exact Eq.substr haccount (.refl _)
  | stake _ _ _ _ heq => subst heq; exact .refl _
  | settled _ _ _ _ _ _ _ heq => subst heq; exact .refl _
  | updateAdmin _ _ _ heq => subst heq; exact .refl _
  | updateFees _ _ _ heq => subst heq; exact .refl _

theorem Externals.Outside.keeps {s s' : σ} {event : Event} (h : ext.Outside s s' event) :
    (ext.account s).Keeps (ext.account s') := by
  cases h with
  | received amount h => exact h ▸ Account.keeps_receive _ amount
  | accepted id r dust hrequest _ _ h => exact h ▸ Account.keeps_resolve hrequest true dust
  | rejected id r hrequest _ h => exact h ▸ Account.keeps_resolve hrequest false r.total

/-- What was sent stays sent. -/
theorem Event.Sent.keeps {s s' : σ} {e : Event}
    (hkeeps : (ext.account s).Keeps (ext.account s')) (he : e.Sent ext s) : e.Sent ext s' := by
  cases e with
  | claimStakerRewards amount l1Withdrawal staker key =>
      cases l1Withdrawal with
      | none => trivial
      | some l1 =>
          obtain ⟨status, hrequest⟩ := he
          have hown : (ext.account s).requests l1.withdrawalRequest =
              some ⟨l1.amount, l1.maxFee, ext.currentContract, l1.poxAddr, status⟩ := by
            simp [Externals.account, hrequest]
          obtain ⟨status', hrequest'⟩ := hkeeps _ _ hown
          exact ⟨status', ext.getWithdrawalRequest_of_account hrequest'⟩
  | _ => trivial

/-- The requests of the payouts of one call are there after it. -/
theorem Change.sent {ctx : Ctx} (hchange : Change ext ctx w w') :
    w.Extends (Event.Sent ext w'.chain) w' := by
  cases hchange with
  | requested staker key gross info id s hgross hnet hpool huint hinfo hbudget hliability
      hfresh hcovered haccount heq =>
      subst heq
      have hopened : (ext.account s).requests id = some
          ⟨w.net key gross - info.maxFee, info.maxFee, ext.currentContract, info.poxAddr,
            none⟩ := by
        rw [haccount]
        exact Function.update_self _ _ _
      have hfirst : w.Extends (Event.Sent ext s) (w.distribute staker key gross) :=
        .of_log rfl trivial
      exact hfirst.trans (.of_log rfl ⟨none, ext.getWithdrawalRequest_of_account hopened⟩)
  | paid staker key gross s _ _ _ _ _ _ _ _ heq =>
      subst heq
      have hfirst : w.Extends (Event.Sent ext s) (w.distribute staker key gross) :=
        .of_log rfl trivial
      exact hfirst.trans (.of_log rfl trivial)
  | stake _ _ _ _ heq => subst heq; exact .refl w
  | claimRewards _ _ _ _ _ heq => subst heq; exact .of_log rfl trivial
  | reclaimed _ _ _ _ _ _ _ _ _ _ _ _ heq => subst heq; exact .of_log rfl trivial
  | settled _ _ _ _ _ _ _ heq => subst heq; exact .of_log rfl trivial
  | updateAdmin _ _ _ heq => subst heq; exact .of_log rfl trivial
  | updateFees _ _ _ heq => subst heq; exact .of_log rfl trivial
  | withdrewFees _ _ _ _ _ _ _ heq => subst heq; exact .of_log rfl trivial
  | swept _ _ _ _ _ _ _ _ heq => subst heq; exact .of_log rfl trivial
  | registered _ _ _ heq => subst heq; exact .refl w

/-- The requests of a run's payouts are in the registry at its end. -/
theorem run_sent (hext : ext.Documented) (hrun : Run ext w w') (hw : Inv ext w) :
    w.Extends (Event.Sent ext w'.chain) w' := by
  have hpost := RunBy.induct hext (fun v v' =>
    (ext.account v.chain).Keeps (ext.account v'.chain) ∧ v.Extends (Event.Sent ext v'.chain) v')
    (fun v => ⟨.refl _, .refl v⟩) ?_ ?_ ?_ hrun.runBy hw
  · exact hpost.2
  · intro v v' v'' hfirst hsecond
    exact ⟨hfirst.1.trans hsecond.1,
      (hfirst.2.mono fun _ he => he.keeps hsecond.1).trans hsecond.2⟩
  · exact fun _ _ hchange => ⟨hchange.keeps, hchange.sent⟩
  · exact fun hout => ⟨hout.keeps,
      hout.extends (fun _ => trivial) (fun _ _ _ => trivial) fun _ _ => trivial⟩

/-- The payouts recorded in a run without pox-5 follow the addresses. -/
theorem run_recorded (hext : ext.Documented) (hw : Inv ext w)
    (hrun : RunBy ext (fun ctx => ctx.contractCaller ≠ ext.pox5) w w') :
    w'.manager.poxAddrs = w.manager.poxAddrs ∧
      w.Extends (Event.Follows w.manager.poxAddrs) w' := by
  refine RunBy.induct hext (fun v v' => v'.manager.poxAddrs = v.manager.poxAddrs ∧
    v.Extends (Event.Follows v.manager.poxAddrs) v') (fun v => ⟨rfl, .refl v⟩) ?_ ?_ ?_ hrun hw
  · intro v v' v'' hfirst hsecond
    obtain ⟨haddrs, hlog⟩ := hfirst
    obtain ⟨haddrs', hlog'⟩ := hsecond
    rw [haddrs] at haddrs' hlog'
    exact ⟨haddrs', hlog.trans hlog'⟩
  · intro ctx v v' hallowed hv hchange
    refine ⟨hchange.poxAddrs hallowed, hchange.extends.mono fun e he => ?_⟩
    cases e with
    | claimStakerRewards amount l1Withdrawal staker key =>
        refine ⟨he, fun l1 hl1 => ?_⟩
        cases hinfo : v.manager.poxAddrs staker with
        | none =>
            simp only [Event.By, hinfo, PaidTo, hl1] at he
            cases he
        | some info =>
            simp only [Event.By, hinfo, PaidTo, hl1, Option.some_inj] at he
            obtain ⟨hbudget, id, rfl⟩ := he
            exact ⟨hv.poxAddrs_valid staker info hinfo, Nat.sub_add_cancel hbudget⟩
    | _ => trivial
  · intro v s event hout
    exact ⟨rfl, hout.extends (fun _ => trivial) (fun _ _ _ => trivial) fun _ _ => trivial⟩

/-- In a run in which pox-5 does not call, nobody can redirect a payout. The
addresses stay, and every payout goes to the one on record for its staker, in
sBTC if there is none, and is the whole net reward: a payout to an address is
a request in the registry for that address to the end of the run, and any
claim that is then made credits its staker, or opens such a request, by the
address on record when the run began. -/
theorem run_follows (hext : ext.Documented) {deployer : Principal}
    (h : Reachable ext deployer w)
    (hrun : RunBy ext (fun ctx => ctx.contractCaller ≠ ext.pox5) w w') :
    w'.manager.poxAddrs = w.manager.poxAddrs ∧
      w.Extends (Event.Follows w.manager.poxAddrs) w' ∧
      w.Extends (Event.Sent ext w'.chain) w' ∧
      ∀ ctx staker key result w'',
        exec ext ctx (.claimStakerRewards staker key) w' = .ok (.claim result) w'' →
        ∃ gross mid,
          ext.claimStakerRewardsForSigner ext.currentContract staker key w'.chain =
            .ok gross mid ∧
          result.earned = w'.net key gross ∧
          match w.manager.poxAddrs staker with
          | none => result.withdrawalRequest = none ∧
              ext.getBalanceAvailable w''.chain staker =
                ext.getBalanceAvailable mid staker + w'.net key gross
          | some info => info.maxFee ≤ w'.net key gross ∧ ∃ id,
              result.withdrawalRequest = some id ∧ (ext.account mid).requests id = none ∧
              (ext.account w''.chain).requests id = some
                ⟨w'.net key gross - info.maxFee, info.maxFee, ext.currentContract,
                  info.poxAddr, none⟩ := by
  have hw := inv_reachable hext h
  obtain ⟨haddrs, hfollows⟩ := run_recorded hext hw hrun
  refine ⟨haddrs, hfollows, run_sent hext hrun.run hw, ?_⟩
  intro ctx staker key result w'' hexec
  have hclaimed := exec_claimed hext hexec
  rwa [Claimed, haddrs] at hclaimed

/-- The staker's claim has gone to the address it set; the other staker has
set none, and its claim is paid in sBTC. -/
theorem requested_follows :
    Chain.pulled.Extends (Event.Sent Chain.externals Chain.requested.chain) Chain.requested ∧
      Chain.externals.getWithdrawalRequest Chain.requested.chain 7 = some Chain.pendingRequest ∧
      ∃ w'', exec Chain.externals ⟨Chain.staker, Chain.staker⟩
          (.claimStakerRewards Chain.other ⟨5, none⟩) Chain.requested =
            .ok (.claim ⟨300, none⟩) w'' ∧
        Chain.externals.getBalanceAvailable w''.chain Chain.other = 0 + 300 := by
  have hrun : RunBy Chain.externals (fun ctx => ctx.contractCaller ≠ Chain.externals.pox5)
      Chain.pulled Chain.requested := Chain.runBy_requested fun ctx h => by
    subst h
    decide
  obtain ⟨-, -, hsent, hclaim⟩ :=
    run_follows Chain.externals_documented Chain.reachable_pulled hrun
  refine ⟨hsent, by decide +kernel, _, rfl, ?_⟩
  obtain ⟨gross, mid, hmid, -, hpaid⟩ :=
    hclaim ⟨Chain.staker, Chain.staker⟩ Chain.other ⟨5, none⟩ ⟨300, none⟩ _ rfl
  cases hmid
  exact hpaid.2

end Spox.SignerManager
