import Spox.SignerManager.Functions

/-!
# Signer-manager — what a call does

`Change` lists what a public call that answers ok can do, guards included.
`exec_change` shows that nothing else happens; every invariant of the contract
is then one case for each constructor.
-/

namespace Spox.SignerManager

open Spox.Lib
open Spox.RewardClaims (Principal ContractId ClaimResult)

variable {σ : Type}

/-- The fee on a gross reward. -/
def feeOf (gross bips : Nat) : Nat := gross * bips / maxBips

/-- At a rate below one something is left of a reward. -/
theorem feeOf_lt {gross bips : Nat} (hbips : bips < maxBips) (hpos : 0 < gross) :
    feeOf gross bips < gross :=
  Nat.div_lt_of_lt_mul (by
    rw [Nat.mul_comm maxBips]
    exact Nat.mul_lt_mul_of_pos_left hbips hpos)

namespace Manager

/-- A gross reward leaves the pool of unclaimed rewards, and the fee on it is
kept. -/
def distribute (m : Manager) (gross fees : Nat) : Manager :=
  { m with
    earnedFees := m.earnedFees + fees,
    unclaimedStakerRewards := m.unclaimedStakerRewards - gross }

/-- A withdrawal request is tracked for its staker. -/
def openRequest (m : Manager) (staker : Principal) (id total : Nat) : Manager :=
  { m with
    withdrawalRequests := Function.update m.withdrawalRequests id (some staker),
    withdrawalLiability := m.withdrawalLiability + total }

/-- A tracked request is retired. -/
def closeRequest (m : Manager) (id total : Nat) : Manager :=
  { m with
    withdrawalRequests := Function.update m.withdrawalRequests id none,
    withdrawalLiability := m.withdrawalLiability - total }

end Manager

namespace World

def distribute (w : World σ) (staker : Principal) (key : FeeKey) (gross : Nat) : World σ :=
  let fees := feeOf gross (w.manager.getFeeBipsForCycle key)
  (w.onManager (Manager.distribute · gross fees)).emit [.distributed staker key gross fees]

def openRequest (w : World σ) (staker : Principal) (id total : Nat) : World σ :=
  w.onManager (Manager.openRequest · staker id total)

def closeRequest (w : World σ) (id total : Nat) : World σ :=
  w.onManager (Manager.closeRequest · id total)

/-- The net part of a gross reward. -/
def net (w : World σ) (key : FeeKey) (gross : Nat) : Nat :=
  gross - feeOf gross (w.manager.getFeeBipsForCycle key)

theorem feeOf_le (w : World σ) {key : FeeKey} {gross : Nat} (h : 0 < w.net key gross) :
    feeOf gross (w.manager.getFeeBipsForCycle key) ≤ gross :=
  Nat.le_of_lt (Nat.lt_of_sub_pos h)

end World

/-- The caller acts for itself and is an admin. -/
def Ctx.IsAdmin (ctx : Ctx) (m : Manager) : Prop :=
  ctx.contractCaller = ctx.txSender ∧ m.isAdmin ctx.txSender = true

instance (ctx : Ctx) (m : Manager) : Decidable (ctx.IsAdmin m) :=
  inferInstanceAs (Decidable (_ ∧ _))

/-- What a public call that answers ok does. -/
inductive Change (ext : Externals σ) (ctx : Ctx) (w w' : World σ) : Prop
  | stake (staker : Principal) (info : Option L1Info)
      (hcaller : ctx.contractCaller = ext.pox5)
      (hvalid : ∀ i, info = some i → i.poxAddr.Valid)
      (h : w' = w.onManager fun m =>
        { m with poxAddrs := Function.update m.poxAddrs staker info })
  | claimRewards (rewardCycle : Nat) (result : RewardsClaimed) (s : σ)
      (huint : w.manager.unclaimedStakerRewards + result.totalRewards < Tx.uintBound)
      (haccount : ext.account s = (ext.account w.chain).receive result.totalRewards)
      (h : w' = ((w.onChain s).onManager fun m =>
        snapshotFees rewardCycle result.bondRewards
          { m with
            unclaimedStakerRewards :=
              m.unclaimedStakerRewards + result.totalRewards }).emit
        [.claimedRewards result.totalRewards])
  | paid (staker : Principal) (key : FeeKey) (gross : Nat) (s : σ)
      (hgross : gross = ext.getEarnedStakerRewards w.chain ext.currentContract key staker)
      (hnet : 0 < w.net key gross) (hpool : gross ≤ w.manager.unclaimedStakerRewards)
      (huint : w.manager.earnedFees + (gross - w.net key gross) < Tx.uintBound)
      (hdirect : w.manager.poxAddrs staker = none) (hstaker : staker ≠ ext.currentContract)
      (hcovered : w.net key gross ≤ (ext.account w.chain).available)
      (haccount : ext.account s = (ext.account w.chain).spend (w.net key gross))
      (h : w' = ((w.distribute staker key gross).emit
        [.claimStakerRewards (w.net key gross) none staker key]).onChain s)
  | requested (staker : Principal) (key : FeeKey) (gross : Nat) (info : L1Info) (id : Nat)
      (s : σ)
      (hgross : gross = ext.getEarnedStakerRewards w.chain ext.currentContract key staker)
      (hnet : 0 < w.net key gross) (hpool : gross ≤ w.manager.unclaimedStakerRewards)
      (huint : w.manager.earnedFees + (gross - w.net key gross) < Tx.uintBound)
      (hinfo : w.manager.poxAddrs staker = some info)
      (hbudget : info.maxFee ≤ w.net key gross)
      (hliability : w.manager.withdrawalLiability + w.net key gross < Tx.uintBound)
      (hfresh : (ext.account w.chain).requests id = none)
      (hcovered : w.net key gross ≤ (ext.account w.chain).available)
      (haccount : ext.account s = (ext.account w.chain).lock id
        ⟨w.net key gross - info.maxFee, info.maxFee, ext.currentContract, info.poxAddr, none⟩)
      (h : w' = (((w.distribute staker key gross).emit
        [.claimStakerRewards (w.net key gross)
          (some ⟨info.poxAddr, info.maxFee, id, w.net key gross - info.maxFee⟩)
          staker key]).openRequest staker id (w.net key gross)).onChain s)
  | reclaimed (id : Nat) (staker : Principal) (r : WithdrawalRequest) (s : σ)
      (htracked : w.manager.withdrawalRequests id = some staker)
      (hrequest : ext.getWithdrawalRequest w.chain id = some r)
      (hstatus : r.status = some false) (hliability : r.total ≤ w.manager.withdrawalLiability)
      (hstaker : staker ≠ ext.currentContract)
      (hcovered : r.total ≤ (ext.account w.chain).available)
      (haccount : ext.account s = (ext.account w.chain).spend r.total)
      (hpaid : ext.getBalanceAvailable s staker =
        ext.getBalanceAvailable w.chain staker + r.total)
      (h : w' = ((w.closeRequest id r.total).emit
        [.reclaimFailedWithdrawal id staker r.total]).onChain s)
  | settled (id : Nat) (staker : Principal) (r : WithdrawalRequest)
      (htracked : w.manager.withdrawalRequests id = some staker)
      (hrequest : ext.getWithdrawalRequest w.chain id = some r)
      (hstatus : r.status = some true) (hliability : r.total ≤ w.manager.withdrawalLiability)
      (h : w' = (w.closeRequest id r.total).emit
        [.settleAcceptedWithdrawal id staker r.total])
  | updateAdmin (admin : Principal) (enabled : Bool) (hadmin : ctx.IsAdmin w.manager)
      (h : w' = (w.onManager fun m =>
        { m with admins := Function.update m.admins admin (some enabled) }).emit
        [.updateAdmin admin enabled])
  | updateFees (newFees : Nat) (hadmin : ctx.IsAdmin w.manager) (hbips : newFees < maxBips)
      (h : w' = (w.onManager fun m => { m with feesBips := newFees }).emit
        [.updateFees w.manager.feesBips newFees])
  | withdrewFees (amount : Nat) (recipient : Principal) (s : σ)
      (hadmin : ctx.IsAdmin w.manager) (hfees : amount ≤ w.manager.earnedFees)
      (hcovered : amount ≤ (ext.account w.chain).available)
      (haccount : ext.account s = (ext.account w.chain).spend amount)
      (h : w' = ((w.onManager fun m => { m with earnedFees := m.earnedFees - amount }).emit
        [.withdrewFees amount recipient]).onChain s)
  | swept (amount : Nat) (recipient : Principal) (s : σ) (hadmin : ctx.IsAdmin w.manager)
      (hpos : 0 < amount)
      (hreserved : amount + (w.manager.earnedFees + w.manager.withdrawalLiability +
        w.manager.unclaimedStakerRewards) = ext.getBalance w.chain ext.currentContract)
      (hcovered : amount ≤ (ext.account w.chain).available)
      (haccount : ext.account s = (ext.account w.chain).spend amount)
      (h : w' = (w.emit [.sweepFeeRefunds amount recipient]).onChain s)
  | registered (s : σ) (hadmin : ctx.IsAdmin w.manager)
      (haccount : ext.account s = ext.account w.chain) (h : w' = w.onChain s)

/-- Where a claim has sent the net reward: to the staker in sBTC, or through a
pending withdrawal request to the address on record. In `mid` pox-5 has just
crystallized the reward. -/
def Claimed (ext : Externals σ) (w : World σ) (staker : Principal) (key : FeeKey)
    (result : ClaimResult) (w' : World σ) : Prop :=
  ∃ gross mid,
    ext.claimStakerRewardsForSigner ext.currentContract staker key w.chain = .ok gross mid ∧
    result.earned = w.net key gross ∧
    match w.manager.poxAddrs staker with
    | none => result.withdrawalRequest = none ∧
        ext.getBalanceAvailable w'.chain staker =
          ext.getBalanceAvailable mid staker + w.net key gross
    | some info => info.maxFee ≤ w.net key gross ∧ ∃ id,
        result.withdrawalRequest = some id ∧ (ext.account mid).requests id = none ∧
        (ext.account w'.chain).requests id = some
          ⟨w.net key gross - info.maxFee, info.maxFee, ext.currentContract, info.poxAddr, none⟩

/-! ## Taking a snapshot of the fees -/

/-- Only fee entries change: those that are there stay, and the new ones are
at the current rate. -/
structure Snapshot (m m' : Manager) : Prop where
  rest : m' = { m with feeBipsForCycle := m'.feeBipsForCycle }
  kept : ∀ key bips, m.feeBipsForCycle key = some bips → m'.feeBipsForCycle key = some bips
  taken : ∀ key bips, m'.feeBipsForCycle key = some bips →
    m.feeBipsForCycle key = some bips ∨ bips = m.feesBips

namespace Snapshot

variable {m m' : Manager}

theorem admins (h : Snapshot m m') : m'.admins = m.admins := by rw [h.rest]

theorem feesBips (h : Snapshot m m') : m'.feesBips = m.feesBips := by rw [h.rest]

theorem earnedFees (h : Snapshot m m') : m'.earnedFees = m.earnedFees := by rw [h.rest]

theorem poxAddrs (h : Snapshot m m') : m'.poxAddrs = m.poxAddrs := by rw [h.rest]

theorem withdrawalRequests (h : Snapshot m m') :
    m'.withdrawalRequests = m.withdrawalRequests := by rw [h.rest]

end Snapshot

theorem Snapshot.trans {m m' m'' : Manager} (h : Snapshot m m') (h' : Snapshot m' m'') :
    Snapshot m m'' where
  rest := by
    have hrest := h'.rest
    rw [h.rest] at hrest
    exact hrest
  kept key bips hkey := h'.kept key bips (h.kept key bips hkey)
  taken key bips hkey := by
    rcases h'.taken key bips hkey with hold | hnew
    · exact h.taken key bips hold
    · exact .inr (hnew.trans h.feesBips)

theorem snapshot_insertFeeBips (m : Manager) (key : FeeKey) :
    Snapshot m (m.insertFeeBips key m.feesBips) where
  rest := rfl
  kept key' bips h := by
    by_cases hkey : key' = key
    · subst hkey
      simp [Manager.insertFeeBips, h]
    · simpa [Manager.insertFeeBips, hkey] using h
  taken key' bips h := by
    by_cases hkey : key' = key
    · subst hkey
      cases hold : m.feeBipsForCycle key' with
      | none => exact .inr (by simpa [Manager.insertFeeBips, hold, eq_comm] using h)
      | some old => exact .inl (by simpa [Manager.insertFeeBips, hold] using h)
    · exact .inl (by simpa [Manager.insertFeeBips, hkey] using h)

theorem snapshot_snapshotFees (rewardCycle : Nat) (bondRewards : List BondReward)
    (m : Manager) : Snapshot m (snapshotFees rewardCycle bondRewards m) := by
  have hfold : ∀ (l : List BondReward) (m' : Manager), Snapshot m m' →
      Snapshot m (l.foldl (snapshotBondFee rewardCycle) m') := by
    intro l
    induction l with
    | nil => exact fun _ h => h
    | cons bond l ih =>
        intro m' h
        exact ih _ (h.trans (snapshot_insertFeeBips m' _))
  exact hfold bondRewards _ (snapshot_insertFeeBips m _)

/-! ## One lemma for each function -/

section Functions

variable {ext : Externals σ} {w : World σ}

/-- A function of the contract does what `Change` says, or fails. -/
abbrev Does {α : Type} (ext : Externals σ) (ctx : Ctx) (w : World σ) (m : M σ α) : Prop :=
  Tx.wp m w (fun _ w' => Change ext ctx w w') (fun _ _ => True) True

theorem Does.answer {α β : Type} {ctx : Ctx} {m : M σ α} {f : α → β}
    (h : Does ext ctx w m) : Does ext ctx w (do let a ← m; pure (f a)) := by
  simpa only [Does, Tx.wp_bind, Tx.wp_pure] using h

theorem wp_authorizeAdmin {ctx : Ctx} {ok : Unit → World σ → Prop}
    (hok : ctx.IsAdmin w.manager → ok () w) :
    Tx.wp (authorizeAdmin ctx) w ok (fun _ _ => True) True := by
  simp only [authorizeAdmin, Tx.wp_bind, Tx.wp_get, Tx.wp_asserts]
  exact ⟨hok, fun _ => trivial⟩

theorem validateStake_does (ctx : Ctx) (staker : Principal)
    (signerCalldata : Option (Buff 500)) :
    Does ext ctx w (validateStake ext ctx staker signerCalldata) := by
  simp only [Does, validateStake, authorizePox5, Tx.wp_bind, Tx.wp_asserts]
  refine ⟨fun hcaller => ?_, fun _ => trivial⟩
  cases signerCalldata with
  | none => exact .stake staker none hcaller (fun i h => by cases h) rfl
  | some calldata =>
      simp only [checkPoxAddr, Tx.wp_bind, Tx.wp_unwrap, Tx.wp_asserts, Tx.wp_modify,
        Tx.wp_pure]
      refine ⟨fun info _ => ⟨fun hvalid => ?_, fun _ => trivial⟩, fun _ => trivial⟩
      exact .stake staker (some info) hcaller (fun i h => by cases h; exact hvalid) rfl

theorem claimRewards_does (hext : ext.Documented) (ctx : Ctx) (bonds : List Nat)
    (rewardCycle : Nat) : Does ext ctx w (claimRewards ext bonds rewardCycle) := by
  simp only [Does, claimRewards, Tx.wp_bind]
  refine wp_contractCall (fun result s hrun => ?_) (fun _ => trivial) trivial
  simp only [Tx.wp_get, Tx.wp_add, Tx.wp_modify, wp_history, Tx.wp_pure]
  exact ⟨fun huint => .claimRewards rewardCycle result s huint (hext.claimRewards hrun) rfl,
    fun _ => trivial⟩

/-- The split either gives a fee that is at most the gross amount, or aborts. -/
theorem wp_splitFees {gross bips : Nat} {ok : EarnedRewards → World σ → Prop}
    (hok : feeOf gross bips ≤ gross → ok ⟨gross - feeOf gross bips, feeOf gross bips⟩ w) :
    Tx.wp (splitFees gross bips) w ok (fun _ _ => True) True := by
  simp only [splitFees, Tx.wp_bind, Tx.wp_mul, Tx.wp_sub, Tx.wp_pure]
  exact ⟨fun _ => ⟨hok, fun _ => trivial⟩, fun _ => trivial⟩

theorem claimStakerRewards_claims (hext : ext.Documented) (ctx : Ctx) (staker : Principal)
    (key : FeeKey) :
    Tx.wp (claimStakerRewards ext staker key) w
      (fun result w' => Change ext ctx w w' ∧ Claimed ext w staker key result w')
      (fun _ _ => True) True := by
  simp only [claimStakerRewards, Tx.wp_bind, wp_unwrapPanic]
  refine wp_contractCall (fun gross s hclaim => ?_) (fun _ => trivial) trivial
  obtain ⟨haccount, hgross⟩ := hext.claimStakerRewards hclaim
  simp only [Tx.wp_get]
  refine wp_splitFees fun hfees => ?_
  simp only [Tx.wp_asserts, Tx.wp_add, Tx.wp_sub, Tx.wp_modify, wp_history, Tx.wp_pure]
  refine ⟨fun hnet => ⟨fun hpool => ⟨fun _ => ⟨fun huint => ⟨fun _ => ?_, fun _ => trivial⟩,
    fun _ => trivial⟩, fun _ => trivial⟩, fun _ => trivial⟩, fun _ => trivial⟩
  have hback : gross - (gross - feeOf gross (w.manager.getFeeBipsForCycle key)) =
    feeOf gross (w.manager.getFeeBipsForCycle key) := Nat.sub_sub_self hfees
  refine wp_asContract ?_
  simp only [payStaker, Tx.wp_bind, Tx.wp_get, World.emit_manager, World.onManager_manager,
    World.onChain_manager]
  cases hinfo : w.manager.poxAddrs staker with
  | none =>
      simp only [Tx.wp_bind, wp_print, Tx.wp_pure]
      refine wp_contractCall (fun _ s' htransfer => ?_) (fun _ => trivial) trivial
      obtain ⟨hcovered, hstaker, hspend, hpaid⟩ := hext.transfer htransfer
      refine ⟨?_, gross, s, hclaim, rfl, by rw [hinfo]; exact ⟨rfl, hpaid⟩⟩
      exact .paid staker key gross s' hgross hnet hpool (by rwa [World.net, hback]) hinfo hstaker
        (haccount ▸ hcovered) (haccount ▸ hspend) rfl
  | some info =>
      have hnetEq : w.net key gross = gross - feeOf gross (w.manager.getFeeBipsForCycle key) :=
        rfl
      simp only [World.onChain_manager, ← hnetEq] at hback huint ⊢
      by_cases hbudget : info.maxFee ≤ w.net key gross
      · have htotal : w.net key gross - info.maxFee + info.maxFee = w.net key gross :=
          Nat.sub_add_cancel hbudget
        rw [if_pos hbudget]
        simp only [Tx.wp_bind, Tx.wp_pure]
        refine wp_contractCall (fun id s' hinitiate => ?_) (fun _ => trivial) trivial
        obtain ⟨hcovered, hfresh, hlock⟩ := hext.initiate hinitiate
        simp only [wp_print, Tx.wp_modify, Tx.wp_get, Tx.wp_add]
        refine ⟨fun _ => ⟨fun hliability => ?_, fun _ => trivial⟩, fun _ => trivial⟩
        have hsum : w.manager.withdrawalLiability + (w.net key gross - info.maxFee) +
            info.maxFee = w.manager.withdrawalLiability + w.net key gross := by
          rw [Nat.add_assoc, htotal]
        have hopened : (ext.account s').requests id = some
            ⟨w.net key gross - info.maxFee, info.maxFee, ext.currentContract, info.poxAddr,
              none⟩ := by
          rw [hlock]
          exact Function.update_self _ _ _
        refine ⟨?_, gross, s, hclaim, rfl, by rw [hinfo]; exact ⟨hbudget, id, rfl, hfresh, hopened⟩⟩
        refine .requested staker key gross info id s' hgross hnet hpool (by rwa [hback]) hinfo
          hbudget (hsum ▸ hliability) (haccount ▸ hfresh) ?_ (haccount ▸ hlock) ?_
        · rw [htotal] at hcovered
          exact haccount ▸ hcovered
        · simp only [World.onChain, World.onManager, World.emit, World.openRequest,
            World.distribute, Manager.openRequest, Manager.distribute, hsum]
      · rw [if_neg hbudget]
        trivial

theorem claimStakerRewards_does (hext : ext.Documented) (ctx : Ctx) (staker : Principal)
    (key : FeeKey) : Does ext ctx w (claimStakerRewards ext staker key) :=
  (claimStakerRewards_claims hext ctx staker key).mono (fun _ _ h => h.1) (fun _ _ h => h) id

/-- A public claim that answers ok has paid what it answers. -/
theorem exec_claimed (hext : ext.Documented) {ctx : Ctx} {staker : Principal} {key : FeeKey}
    {result : ClaimResult} {w' : World σ}
    (h : exec ext ctx (.claimStakerRewards staker key) w = .ok (.claim result) w') :
    Claimed ext w staker key result w' := by
  have hdispatch : Tx.wp (dispatch ext ctx (.claimStakerRewards staker key)) w
      (fun value w' => ∀ result, value = .claim result → Claimed ext w staker key result w')
      (fun _ _ => True) True := by
    simp only [dispatch, Tx.wp_bind, Tx.wp_pure]
    refine (claimStakerRewards_claims hext ctx staker key).mono (fun _ _ h result hvalue => ?_)
      (fun _ _ h => h) id
    cases hvalue
    exact h.2
  exact (Tx.wp_atomic_of hdispatch).of_ok h result rfl

theorem reclaimFailedWithdrawal_does (hext : ext.Documented) (ctx : Ctx) (id : Nat) :
    Does ext ctx w (reclaimFailedWithdrawal ext id) := by
  simp only [Does, reclaimFailedWithdrawal, Tx.wp_bind, Tx.wp_get, Tx.wp_unwrap, Tx.wp_add,
    Tx.wp_asserts, Tx.wp_modify, Tx.wp_sub, wp_print]
  refine ⟨fun staker htracked => ⟨fun r hrequest => ⟨fun _ => ⟨fun hstatus =>
    ⟨fun hliability => ?_, fun _ => trivial⟩, fun _ => trivial⟩, fun _ => trivial⟩,
    fun _ => trivial⟩, fun _ => trivial⟩
  refine wp_asContract ?_
  simp only [Tx.wp_bind, Tx.wp_pure]
  refine wp_contractCall (fun _ s htransfer => ?_) (fun _ => trivial) trivial
  obtain ⟨hcovered, hstaker, hspend, hpaid⟩ := hext.transfer htransfer
  exact .reclaimed id staker r s htracked hrequest hstatus hliability hstaker hcovered hspend
    hpaid rfl

theorem settleAcceptedWithdrawal_does (ctx : Ctx) (id : Nat) :
    Does ext ctx w (settleAcceptedWithdrawal ext id) := by
  simp only [Does, settleAcceptedWithdrawal, Tx.wp_bind, Tx.wp_get, Tx.wp_unwrap, Tx.wp_add,
    Tx.wp_asserts, Tx.wp_modify, Tx.wp_sub, wp_print, Tx.wp_pure]
  exact ⟨fun staker htracked => ⟨fun r hrequest => ⟨fun _ => ⟨fun hstatus =>
    ⟨fun hliability => .settled id staker r htracked hrequest hstatus hliability rfl,
    fun _ => trivial⟩, fun _ => trivial⟩, fun _ => trivial⟩, fun _ => trivial⟩,
    fun _ => trivial⟩

theorem updateAdmin_does (ctx : Ctx) (admin : Principal) (enabled : Bool) :
    Does ext ctx w (updateAdmin ctx admin enabled) := by
  simp only [Does, updateAdmin, Tx.wp_bind]
  exact wp_authorizeAdmin fun hadmin => .updateAdmin admin enabled hadmin rfl

theorem updateFees_does (ctx : Ctx) (newFees : Nat) :
    Does ext ctx w (updateFees ctx newFees) := by
  simp only [Does, updateFees, Tx.wp_bind]
  refine wp_authorizeAdmin fun hadmin => ?_
  simp only [Tx.wp_asserts, Tx.wp_get, wp_print, Tx.wp_modify, Tx.wp_pure]
  exact ⟨fun hbips => .updateFees newFees hadmin hbips rfl, fun _ => trivial⟩

theorem withdrawFees_does (hext : ext.Documented) (ctx : Ctx) (amount : Nat)
    (recipient : Principal) : Does ext ctx w (withdrawFees ext ctx amount recipient) := by
  simp only [Does, withdrawFees, Tx.wp_bind, Tx.wp_get]
  refine wp_authorizeAdmin fun hadmin => ?_
  simp only [Tx.wp_asserts, Tx.wp_sub, Tx.wp_modify, wp_history, Tx.wp_pure]
  refine ⟨fun hfees => ⟨fun _ => ?_, fun _ => trivial⟩, fun _ => trivial⟩
  refine wp_asContract ?_
  refine wp_contractCall (fun _ s htransfer => ?_) (fun _ => trivial) trivial
  obtain ⟨hcovered, -, hspend, -⟩ := hext.transfer htransfer
  exact .withdrewFees amount recipient s hadmin hfees hcovered hspend rfl

theorem sweepFeeRefunds_does (hext : ext.Documented) (ctx : Ctx) (recipient : Principal) :
    Does ext ctx w (sweepFeeRefunds ext ctx recipient) := by
  simp only [Does, sweepFeeRefunds, Tx.wp_bind, Tx.wp_get, Tx.wp_add]
  refine ⟨fun _ => ⟨fun _ => ?_, fun _ => trivial⟩, fun _ => trivial⟩
  refine wp_authorizeAdmin fun hadmin => ?_
  simp only [Tx.wp_asserts, wp_print, Tx.wp_pure]
  refine ⟨fun hpos => ?_, fun _ => trivial⟩
  refine wp_asContract ?_
  refine wp_contractCall (fun _ s htransfer => ?_) (fun _ => trivial) trivial
  obtain ⟨hcovered, -, hspend, -⟩ := hext.transfer htransfer
  refine .swept _ recipient s hadmin hpos ?_ hcovered hspend rfl
  split at hpos
  · rename_i hreserved
    rw [if_pos hreserved]
    exact Nat.sub_add_cancel hreserved
  · exact absurd hpos (Nat.lt_irrefl 0)

theorem registerSelf_does (hext : ext.Documented) (ctx : Ctx) (signerManager : ContractId)
    (signerKey : Buff 33) (authId : Nat) (signerSig : Buff 65) :
    Does ext ctx w (registerSelf ext ctx signerManager signerKey authId signerSig) := by
  simp only [Does, registerSelf, Tx.wp_bind]
  refine wp_authorizeAdmin fun hadmin => ?_
  refine wp_contractCall (fun _ s hgrant => ?_) (fun _ => trivial) trivial
  refine wp_contractCall (fun _ s' hregister => ?_) (fun _ => trivial) trivial
  exact .registered s' hadmin ((hext.registerSigner hregister).trans (hext.grantSignerKey hgrant))
    rfl

/-- Every public call does what `Change` says, or leaves the world as it
was. -/
theorem exec_change (hext : ext.Documented) {ctx : Ctx} {c : Call} {value : Value}
    {w' : World σ} (h : exec ext ctx c w = .ok value w') : Change ext ctx w w' := by
  have hdispatch : Does ext ctx w (dispatch ext ctx c) := by
    cases c with
    | validateStake staker signerCalldata =>
        exact .answer (validateStake_does ctx staker signerCalldata)
    | claimRewards bonds rewardCycle => exact .answer (claimRewards_does hext ctx bonds rewardCycle)
    | claimStakerRewards staker key => exact .answer (claimStakerRewards_does hext ctx staker key)
    | reclaimFailedWithdrawal id => exact .answer (reclaimFailedWithdrawal_does hext ctx id)
    | settleAcceptedWithdrawal id => exact .answer (settleAcceptedWithdrawal_does ctx id)
    | updateAdmin admin enabled => exact .answer (updateAdmin_does ctx admin enabled)
    | updateFees newFees => exact .answer (updateFees_does ctx newFees)
    | withdrawFees amount recipient => exact .answer (withdrawFees_does hext ctx amount recipient)
    | sweepFeeRefunds recipient => exact .answer (sweepFeeRefunds_does hext ctx recipient)
    | registerSelf signerManager signerKey authId signerSig =>
        exact .answer (registerSelf_does hext ctx signerManager signerKey authId signerSig)
  exact (Tx.wp_atomic_of hdispatch).of_ok h

end Functions

end Spox.SignerManager
