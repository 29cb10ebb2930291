import Spox.Keeper.Submission

/-!
# Keeper — a tick among other transactions

The batches of a tick are made of what the registry listed at one chain tip;
the node executes them later, each on its own, with transactions of anybody
else before and after. A listed installment waits until it is claimed or its
registration is cancelled, whoever does it (`Pending.step`), and a batch that
still finds it waiting claims it. A listed withdrawal is settled once and for
all, by the batch or by somebody before it.

What this rests on is that the chain goes forward: pox-5 does not take back a
distribution, sbtc-registry does not take back a status.
-/

namespace Spox.Keeper

open Spox.Lib Spox.RewardClaims Spox.Client

variable {σ : Type} {views : Views σ} {R : σ → σ → Prop} {base : Nat} {w s s' w' : World σ}

/-! ## Executing a transaction -/

/-- From `w` to `w'` the call is executed, with anything that `R` allows
before it and after it; the signer-manager it names answers. -/
inductive Executed (views : Views σ) (R : σ → σ → Prop) (sm : ContractId) (call : Call)
    (w : World σ) : World σ → Prop
  | intro {s w' : World σ} (code : Code σ) (depth : Nat) (ctx : Ctx)
      (hbefore : Run views R w s) (hcode : code.Respects R)
      (hreturns : (interpret code (exec views code depth)).Returns sm)
      (hcycle : views.currentDistributionCycle s.ext + 1 < Tx.uintBound)
      (hafter : Run views R (s.call views code (depth + 1) ctx call) w') :
      Executed views R sm call w w'

theorem runs_ext {allowed : Label → Prop} (h : Runs (Change views R) allowed w w') :
    Relation.ReflTransGen R w.ext w'.ext :=
  h.invariant (fun s => Relation.ReflTransGen R w.ext s.ext)
    (fun _ _ _ _ hstep hs => hs.trans hstep.ext_steps) .refl

theorem runs_log {allowed : Label → Prop} (h : Runs (Change views R) allowed w w')
    (hinv : Inv base w) : ∃ es, w'.log = w.log ++ es := by
  refine (h.invariant (fun s => Inv base s ∧ ∃ es, s.log = w.log ++ es) ?_
    ⟨hinv, [], (List.append_nil _).symm⟩).2
  intro l s s' _ hstep hs
  obtain ⟨hs, es, hlog⟩ := hs
  obtain ⟨es', hlog'⟩ := (hstep.recorded hs).log_extends
  exact ⟨hstep.inv hs, es ++ es', by rw [hlog', hlog, List.append_assoc]⟩

/-! ## A pending installment -/

/-- pox-5 goes forward. -/
structure Forward (views : Views σ) (ext ext' : σ) : Prop where
  cycle : views.currentDistributionCycle ext ≤ views.currentDistributionCycle ext'
  calculated : ∀ distribution,
    rewardsCalculatedForClaimDistribution distribution
      (getLastRewardsComputeDistribution views ext) = true →
    rewardsCalculatedForClaimDistribution distribution
      (getLastRewardsComputeDistribution views ext') = true

theorem Forward.refl (ext : σ) : Forward views ext ext :=
  ⟨Nat.le_refl _, fun _ h => h⟩

theorem Forward.of_steps {ext ext' : σ}
    (h : Relation.ReflTransGen (Forward views) ext ext') : Forward views ext ext' := by
  induction h with
  | refl => exact .refl ext
  | tail _ hstep ih =>
      exact ⟨ih.cycle.trans hstep.cycle, fun d hd => hstep.calculated d (ih.calculated d hd)⟩

/-- An installment that is due stays due while it is not claimed. -/
theorem Forward.isPending {ext ext' : σ} (h : Forward views ext ext')
    {row row' : Registration}
    (hdue : isPending row (views.currentDistributionCycle ext)
      (getLastRewardsComputeDistribution views ext) = true)
    (hnext : row'.nextClaimDistribution = row.nextClaimDistribution) :
    isPending row' (views.currentDistributionCycle ext')
      (getLastRewardsComputeDistribution views ext') = true := by
  unfold RewardClaims.isPending at hdue ⊢
  rw [Bool.and_eq_true, decide_eq_true_eq] at hdue ⊢
  rw [hnext]
  exact ⟨Nat.lt_of_lt_of_le hdue.1 h.cycle, h.calculated _ hdue.2⟩

/-- Whether an event is the end of the installment of a distribution: its
claim, or the cancellation of its registration. -/
def ends (key : RegistrationKey) (distribution : Nat) : Event → Prop
  | .claimed claim => claim.key = key ∧ claim.before.nextClaimDistribution = distribution
  | .cancelRegistration cancelled .. => cancelled = key
  | _ => False

/-- Since `w` the installment has come to its end. -/
def Ended (key : RegistrationKey) (distribution : Nat) (w s : World σ) : Prop :=
  ∃ es, s.log = w.log ++ es ∧ ∃ e ∈ es, ends key distribution e

theorem Ended.extend {key : RegistrationKey} {distribution : Nat}
    (h : Ended key distribution w s) {es : List Event} (hlog : s'.log = s.log ++ es) :
    Ended key distribution w s' := by
  obtain ⟨es₁, hlog₁, e, he, hends⟩ := h
  exact ⟨es₁ ++ es, by rw [hlog, hlog₁, List.append_assoc], e, List.mem_append_left es he, hends⟩

theorem Ended.since {key : RegistrationKey} {distribution : Nat}
    (h : Ended key distribution s s') {es : List Event} (hlog : s.log = w.log ++ es) :
    Ended key distribution w s' := by
  obtain ⟨es₁, hlog₁, e, he, hends⟩ := h
  exact ⟨es ++ es₁, by rw [hlog₁, hlog, List.append_assoc], e, List.mem_append_right es he, hends⟩

/-- What has become of an installment since `w`: it has ended or it is still
the next one of its registration. -/
structure Pending (base : Nat) (key : RegistrationKey) (distribution : Nat)
    (w s : World σ) : Prop where
  inv : Inv base s
  log : ∃ es, s.log = w.log ++ es
  fate : Ended key distribution w s ∨ ∃ row, s.registry.registrations key = some row ∧
    row.nextClaimDistribution = distribution

section Pending

variable {key : RegistrationKey} {distribution : Nat}

/-- **A business event** leaves an installment waiting or is its end. -/
theorem Pending.step (h : Pending base key distribution w s) {l : Label}
    (hstep : Change views R l s s') : Pending base key distribution w s' := by
  obtain ⟨hinv, ⟨es, hlog⟩, hfate⟩ := h
  have hrecorded := hstep.recorded hinv
  obtain ⟨es', hlog'⟩ := hrecorded.log_extends
  refine ⟨hstep.inv hinv, ⟨es ++ es', by rw [hlog', hlog, List.append_assoc]⟩, ?_⟩
  rcases hfate with hended | ⟨row, hrow, hnext⟩
  · exact .inl (hended.extend hlog')
  cases hrecorded with
  | idle _ _ _ _ hmap => exact .inr ⟨row, by rw [hmap, hrow], hnext⟩
  | entry es₁ e q before after hlog₁ _ _ hentry hbefore hmap =>
      rw [hmap]
      by_cases hq : key = q
      · subst hq
        rw [hrow] at hbefore
        have hmem : e ∈ es ++ (es₁ ++ [e]) :=
          List.mem_append_right _ (List.mem_append_right _ (List.mem_singleton_self e))
        have hext : s'.log = w.log ++ (es ++ (es₁ ++ [e])) := by
          rw [hlog₁, hlog, List.append_assoc]
        cases hentry with
        | register => cases hbefore
        | addClaims row' =>
            cases hbefore
            exact .inr ⟨_, Function.update_self .., hnext⟩
        | cancel => exact .inl ⟨_, hext, _, hmem, rfl⟩
        | claim row' =>
            cases hbefore
            exact .inl ⟨_, hext, _, hmem, rfl, hnext⟩
      · exact .inr ⟨row, by rw [Function.update_of_ne hq, hrow], hnext⟩

theorem Pending.runs (h : Pending base key distribution w s) {allowed : Label → Prop}
    (hruns : Runs (Change views R) allowed s s') : Pending base key distribution w s' :=
  hruns.invariant (Pending base key distribution w) (fun _ _ _ _ hstep hs => hs.step hstep) h

end Pending

/-! ## A batch of claims -/

section Claims

variable {managers : SignerManagers σ} {sm : ContractId} {cycle : Nat} {covered : Option Nat}

/-- A claim is the end of the installment it consumes. -/
theorem claimed_ended (key : RegistrationKey) (row : Registration) (cycle : Nat)
    (covered : Option Nat) (earned : Nat) (claimError stored : Option Nat) (w : World σ) :
    Ended key row.nextClaimDistribution w
      (w.claimed key row cycle covered earned claimError stored) := by
  refine ⟨burnEvents (burnAmount row) ++ [.processRewardClaim key
    (row.nextClaimDistribution / 2) row.nextClaimDistribution row.bondIndex earned claimError
    stored, .claimed ⟨key, row, consume row cycle, cycle, covered⟩], ?_,
    .claimed ⟨key, row, consume row cycle, cycle, covered⟩, by simp, rfl, rfl⟩
  simp [World.claimed, World.advanced, burnEscrow_log]

/-- A claim of a batch is a run, and the end of the installment if that is
due. -/
theorem countClaim_ends (hinv : Inv base s)
    (hidle : s.registry.signerManagerCallActive = false) (hframes : managers.Frames sm R False)
    (hcycle : cycle + 1 < Tx.uintBound) (n : Nat) (staker : Principal) :
    Tx.wp (countClaim views managers sm cycle covered n staker) s
      (fun _ s' => Runs (Change views R) (fun _ => True) s s' ∧
        ∀ row, s.registry.registrations ⟨staker, .contract sm⟩ = some row →
          isPending row cycle covered = true →
          Ended ⟨staker, .contract sm⟩ row.nextClaimDistribution s s')
      (fun _ _ => False) False := by
  simp only [countClaim, Tx.wp_bind, Tx.wp_attempt]
  refine (processRewardClaimImpl_spec views hinv hidle staker sm hframes covered
    fun hbound => absurd hcycle (by omega)).mono ?_ ?_ id
  · intro stored s' hpost
    obtain ⟨row, s₁, s₂, earned, claimError, hrow, hdue, hcall, htracked, hpaid, rfl⟩ := hpost
    have hclaim : Change views R (.claim ⟨staker, .contract sm⟩) s₁ _ :=
      .claim s₁ s₂ _ row cycle covered earned claimError stored htracked hpaid
        (hcall.registrations ▸ hrow) hdue
    refine ⟨.trans (.single trivial (.outside hcall)) (.single trivial hclaim), ?_⟩
    intro row' hrow' _
    cases hrow.symm.trans hrow'
    obtain ⟨es, hlog, -⟩ := hcall.log
    obtain ⟨es', hlog', -⟩ := htracked.recorded
    exact ((claimed_ended _ row cycle covered earned claimError stored s₂).since hlog').since hlog
  · intro error s' hpost
    obtain ⟨rfl, hnot⟩ := hpost
    refine ⟨.refl, fun row hrow hdue => ?_⟩
    rw [hnot row hrow] at hdue
    cases hdue

/-- **A batch** that still finds an installment waiting is the end of it,
whatever its other claims do. -/
theorem exec_processRewardClaims_ends {code : Code σ} {depth : Nat} (hcode : code.Respects R)
    (hreturns : (interpret code (exec views code depth)).Returns sm)
    (hidle : s.registry.signerManagerCallActive = false)
    (hcycle : views.currentDistributionCycle s.ext + 1 < Tx.uintBound) (ctx : Ctx)
    {stakers : List Principal} (hlen : stakers.length ≤ 100) {staker : Principal}
    (hstaker : staker ∈ stakers) {distribution : Nat}
    (hpending : Pending base ⟨staker, .contract sm⟩ distribution w s)
    (hdue : ∀ row : Registration, row.nextClaimDistribution = distribution →
      isPending row (views.currentDistributionCycle s.ext)
        (getLastRewardsComputeDistribution views s.ext) = true) :
    Tx.wp (exec views code (depth + 1) ctx (.processRewardClaims sm stakers)) s
      (fun _ s' => Runs (Change views R) (fun _ => True) s s' ∧
        Ended ⟨staker, .contract sm⟩ distribution w s')
      (fun _ _ => False) False := by
  have hframes := (interpret_frames hcode depth sm).total hreturns
  rw [exec, Tx.wp_atomic]
  simp only [dispatch, processRewardClaims, Tx.wp_bind, wp_withMaxLen, wp_validateNoReentrancy,
    Tx.wp_get, Tx.wp_pure]
  refine ⟨fun _ => ⟨fun _ => ?_, fun h => absurd h (by simp [hidle])⟩,
    fun h => absurd hlen (by omega)⟩
  -- a claim is done once the installment has ended, if it is the one in question
  refine (Tx.wp_foldlM_all (fun v => Runs (Change views R) (fun _ => True) s v)
    (fun c v => c = staker → Ended ⟨staker, .contract sm⟩ distribution w v) .refl ?_).mono
    (fun _ _ h => ⟨h.1, h.2.1 staker hstaker rfl⟩) (fun _ _ h => h) id
  intro n v c _ hv
  have hwaiting := hpending.runs hv
  refine (countClaim_ends hwaiting.inv ((runs_active hv).trans hidle) hframes hcycle n c).mono
    ?_ (fun _ _ h => h) id
  intro n' v' hpost
  obtain ⟨hv', hends⟩ := hpost
  obtain ⟨es', hlog'⟩ := runs_log hv' hwaiting.inv
  refine ⟨hv.trans hv', ?_, fun c' hdone hc' => (hdone hc').extend hlog'⟩
  rintro rfl
  rcases hwaiting.fate with hended | ⟨row, hrow, hnext⟩
  · exact hended.extend hlog'
  · obtain ⟨es, hlog⟩ := hwaiting.log
    exact (hnext ▸ hends row hrow (hdue row hnext)).since hlog

/-- A batch is the end of what was due when it was made, if nobody was faster. -/
theorem Executed.ends {stakers : List Principal} (hinv : Inv base w)
    (hidle : w.registry.signerManagerCallActive = false)
    (h : Executed views (Forward views) sm (.processRewardClaims sm stakers) w w')
    (hlen : stakers.length ≤ 100) {staker : Principal} (hstaker : staker ∈ stakers)
    {row : Registration} (hrow : w.registry.registrations ⟨staker, .contract sm⟩ = some row)
    (hdue : isPending row (views.currentDistributionCycle w.ext)
      (getLastRewardsComputeDistribution views w.ext) = true) :
    Ended ⟨staker, .contract sm⟩ row.nextClaimDistribution w w' := by
  obtain ⟨code, depth, ctx, hbefore, hcode, hreturns, hcycle, hafter⟩ := h
  have hstart : Pending base ⟨staker, .contract sm⟩ row.nextClaimDistribution w w :=
    ⟨hinv, ⟨[], (List.append_nil _).symm⟩, .inr ⟨row, hrow, rfl⟩⟩
  have hruns := hbefore.changes hinv hidle
  have hpending := hstart.runs hruns
  have hforward := Forward.of_steps (runs_ext hruns)
  obtain ⟨value, v, hrun, hpost⟩ | ⟨_, _, _, hfalse⟩ := (exec_processRewardClaims_ends hcode
    hreturns ((runs_active hruns).trans hidle) hcycle ctx hlen hstaker hpending
    fun row' hnext => hforward.isPending hdue hnext).total
  · rw [World.call, Tx.commit_of_ok hrun] at hafter
    have hinv' := hpending.inv.runs hpost.1
    have hidle' := (runs_active hpost.1).trans ((runs_active hruns).trans hidle)
    obtain ⟨es, hlog⟩ := runs_log (hafter.changes hinv' hidle') hinv'
    exact hpost.2.extend hlog
  · exact hfalse.elim

/-- A pending registration is in a batch. -/
theorem exists_claimBatch (hinv : Inv base w) {key : RegistrationKey}
    (hpending : pendingAt views w key = true)
    {iteration : List (ContractId × List Principal)}
    (hiteration : iteration.Perm (claimGroups ((liveKeys w).filterMap (claimAt views w)))) :
    ∃ batch ∈ batchClaims iteration,
      ∃ staker ∈ batch.stakers, key = ⟨staker, .contract batch.signerManager⟩ := by
  have hentries := (batchClaims_entries hiteration (List.Perm.refl _)).map entryKey
  rw [List.map_map] at hentries
  have hmem : key ∈ ((liveKeys w).filterMap (claimAt views w)).map
      PendingClaim.registrationKey := by
    rw [(getPendingClaims_readsAll hinv).rows]
    exact (mem_pendingKeys hinv).mpr hpending
  obtain ⟨entry, hentry, rfl⟩ := List.mem_map.mp (hentries.mem_iff.mpr hmem)
  obtain ⟨batch, hbatch, hentry⟩ := List.mem_flatMap.mp hentry
  obtain ⟨staker, hstaker, rfl⟩ := List.mem_map.mp hentry
  exact ⟨batch, hbatch, staker, hstaker, rfl⟩

end Claims

/-! ## A resolved withdrawal -/

/-- A withdrawal of a resolved request: it is still indexed, or its
signer-manager has been called the way its status asks for. -/
structure Resolved (views : Views σ) (base : Nat) (key : WithdrawalKey) (accepted : Bool)
    (s : World σ) : Prop where
  inv : Inv base s
  history : WithdrawalHistory views s
  status : views.getWithdrawalRequest s.ext key.requestId = some ⟨some accepted⟩
  fate : (s.registry.pendingWithdrawals key).isSome = true ∨ (key, accepted) ∈ invocations s.log

/-- A withdrawal that is done with: it is not indexed, and its signer-manager
has been called for it once in all, the way its status asks for. -/
structure Closed (key : WithdrawalKey) (accepted : Bool) (s : World σ) : Prop where
  gone : s.registry.pendingWithdrawals key = none
  invoked : (key, accepted) ∈ invocations s.log
  once : ((invocations s.log).map Prod.fst).count key = 1

section Resolved

variable {key : WithdrawalKey} {accepted : Bool}

/-- Only a settlement takes an entry out, and it calls the signer-manager. -/
theorem Resolved.step (h : Resolved views base key accepted s) {l : Label}
    (hstep : Change views (StatusMono views) l s s') : Resolved views base key accepted s' := by
  obtain ⟨es, hlog⟩ := (hstep.recorded h.inv).log_extends
  refine ⟨hstep.inv h.inv, hstep.withdrawalHistory h.inv h.history,
    (StatusMono.of_steps hstep.ext_steps).final _ _ h.status, ?_⟩
  rcases h.fate with hindexed | hinvoked
  · cases hstep.entryStep key with
    | kept hsame => exact .inl (by rw [hsame, hindexed])
    | created _ _ _ hfree =>
        rw [hfree] at hindexed
        cases hindexed
    | removed hlabel =>
        subst hlabel
        have hstatus := h.status
        cases hstep with
        | settle _ w₁ _ accepted' _ hstatus' hcall =>
            rw [hstatus'] at hstatus
            cases hstatus
            obtain ⟨es', hlog', -⟩ := hcall.log
            refine .inr ?_
            simp [World.unindexed, hlog', Event.invocation]
        | prune _ _ _ hstatus' =>
            rw [hstatus'] at hstatus
            cases hstatus
  · refine .inr ?_
    rw [hlog, invocations_append]
    exact List.mem_append_left _ hinvoked

theorem Resolved.runs (h : Resolved views base key accepted s) {allowed : Label → Prop}
    (hruns : Runs (Change views (StatusMono views)) allowed s s') :
    Resolved views base key accepted s' :=
  hruns.invariant (Resolved views base key accepted) (fun _ _ _ _ hstep hs => hs.step hstep) h

/-- Once called, the signer-manager is not called again and the entry does
not come back. -/
theorem Resolved.closed (h : Resolved views base key accepted s)
    (hinvoked : (key, accepted) ∈ invocations s.log) : Closed key accepted s where
  gone := (h.history.invokedSpent _ hinvoked).2
  invoked := hinvoked
  once := List.count_eq_one_of_mem h.history.invokedOnce (List.mem_map_of_mem hinvoked)

/-- A batch closes what was resolved when it was made, if nobody was faster. -/
theorem Executed.closes {sm : ContractId} {items : List WithdrawalItem}
    (hstart : Resolved views base key accepted w)
    (hidle : w.registry.signerManagerCallActive = false)
    (h : Executed views (StatusMono views) sm (.settlePendingWithdrawals sm items) w w')
    (hlen : items.length ≤ 100) {item : WithdrawalItem} (hitem : item ∈ items)
    (hkey : key = ⟨item.staker, .contract sm, item.requestId⟩) : Closed key accepted w' := by
  obtain ⟨code, depth, ctx, hbefore, hcode, hreturns, -, hafter⟩ := h
  have hruns := hbefore.changes hstart.inv hidle
  have hresolved := hstart.runs hruns
  have hsidle := (runs_active hruns).trans hidle
  obtain ⟨hrun, hidle'⟩ := run_settlePendingWithdrawals hsidle hcode hreturns ctx hlen
  rw [World.call, Tx.commit_of_ok hrun] at hafter
  have hcall := (exec_runs hcode hresolved.inv hsidle (depth + 1) ctx _).of_ok hrun
  have hafterCall := hresolved.runs hcall
  subst hkey
  have hgone := (exec_settlePendingWithdrawals hcode hsidle ctx hitem hresolved.status).of_ok hrun
  have hinvoked := hafterCall.fate.resolve_left (by rw [hgone]; exact Bool.false_ne_true)
  have hruns' := hafter.changes hafterCall.inv hidle'
  obtain ⟨es, hlog⟩ := runs_log hruns' hafterCall.inv
  refine (hafterCall.runs hruns').closed ?_
  rw [hlog, invocations_append]
  exact List.mem_append_left _ hinvoked

end Resolved

/-- A withdrawal that is ready to settle is in a batch. -/
theorem exists_withdrawalBatch (hinv : Inv base w) (hstored : StoredWithdrawals views w)
    {key : WithdrawalKey} (hready : readyAt views w key = true)
    {iteration : List (ContractId × List WithdrawalItem)}
    (hiteration : iteration.Perm
      (withdrawalGroups ((indexedKeys w).filterMap (withdrawalAt views w)))) :
    ∃ batch ∈ batchWithdrawals iteration, ∃ item ∈ batch.items,
      key = ⟨item.staker, .contract batch.signerManager, item.requestId⟩ := by
  have hentries := (batchWithdrawals_entries hiteration (List.Perm.refl _)).map settlementKey
  rw [List.map_map] at hentries
  have hmem : key ∈ ((indexedKeys w).filterMap (withdrawalAt views w)).map
      PendingWithdrawal.withdrawalKey := by
    rw [map_filterMap_withdrawalAt hstored]
    exact (mem_readyRows hinv).mpr hready
  obtain ⟨entry, hentry, rfl⟩ := List.mem_map.mp (hentries.mem_iff.mpr hmem)
  obtain ⟨batch, hbatch, hentry⟩ := List.mem_flatMap.mp hentry
  obtain ⟨item, hitem, rfl⟩ := List.mem_map.mp hentry
  exact ⟨batch, hbatch, item, hitem, rfl⟩

/-! ## A tick -/

/-- The calls of a tick are those of its batches. -/
theorem tick_submits (sign : List UInt8 → StacksTransaction → List UInt8) (node : Node)
    (n : UInt64) (claims : Except Error (List RewardClaimsBatch))
    (withdrawals : Except Error (List WithdrawalsBatch)) (state : RewardClaimState) :
    ∃ new, (tick sign node ⟨.ok n, claims, withdrawals⟩ state).submitted =
        state.submitted ++ new ∧
      new.map Submission.payload = (fetched claims).map RewardClaimsBatch.call ++
        (fetched withdrawals).map WithdrawalsBatch.call := by
  have hend := ((submits_setNonce n state).processClaims sign node claims).processWithdrawals
    sign node withdrawals
  obtain ⟨new, hnew, hcalls, -⟩ := hend.submitted
  exact ⟨new, hnew, hcalls⟩

/-- **A tick's claims among other transactions.** The batches a tick submits
for what was pending when it read the registry name every pending
registration; and whatever is executed before, after and in between, with any
changes of the chain that take no distribution back, the execution of the
batch with a registration means that the installment that was due at the time
of the reading has been claimed, or its registration cancelled. -/
theorem tick_claims (h : Reachable views R w) {fuel : Nat} (hpos : 0 < fuel)
    (hfuel : (liveKeys w).length ≤ 100 * fuel) :
    ∃ claims, getAllPendingClaims views w fuel = some (.ok claims) ∧
      ∀ iteration, iteration.Perm (claimGroups claims) →
      ∀ sign node n withdrawals state, ∃ new,
        (tick sign node ⟨.ok n, .ok (batchClaims iteration), withdrawals⟩ state).submitted =
          state.submitted ++ new ∧
        ∀ key row, w.registry.registrations key = some row →
          isPending row (views.currentDistributionCycle w.ext)
            (getLastRewardsComputeDistribution views w.ext) = true →
          ∃ sm, key.signerManager = .contract sm ∧ ∃ submission ∈ new, ∀ w',
            Executed views (Forward views) sm submission.payload w w' →
            Ended key row.nextClaimDistribution w w' := by
  obtain ⟨base, hinv⟩ := h.inv
  refine ⟨_, getAllPendingClaims_complete hinv hpos hfuel, ?_⟩
  intro iteration hiteration sign node n withdrawals state
  obtain ⟨new, hnew, hcalls⟩ := tick_submits sign node n (.ok (batchClaims iteration))
    withdrawals state
  refine ⟨new, hnew, ?_⟩
  intro key row hrow hdue
  have hpending : pendingAt views w key = true := by
    rw [pendingAt, hrow]
    exact hdue
  obtain ⟨batch, hbatch, staker, hstaker, rfl⟩ := exists_claimBatch hinv hpending hiteration
  have hcall : batch.call ∈ new.map Submission.payload := by
    rw [hcalls]
    exact List.mem_append_left _ (List.mem_map_of_mem hbatch)
  obtain ⟨submission, hsubmission, hpayload⟩ := List.mem_map.mp hcall
  refine ⟨batch.signerManager, rfl, submission, hsubmission, fun w' hexec => ?_⟩
  rw [hpayload] at hexec
  exact hexec.ends hinv h.idle (length_le_of_mem_batchClaims hbatch) hstaker hrow hdue

namespace Sample

/-- The batch over the one registration of the small chain. -/
def claimBatch : RewardClaimsBatch := ⟨Chain.signerManager, [Chain.staker]⟩

/-- The staker adds a claim and a distribution passes before the batch is
executed, another one after it. -/
def served : World Chain :=
  Chain.become ⟨6, 4, some ⟨none⟩⟩ (Chain.send claimBatch.call
    (Chain.become ⟨5, 3, some ⟨none⟩⟩
      (Chain.send (.addClaims Chain.staker (.contract Chain.signerManager) 1) Chain.due)))

theorem forward {chain chain' : Chain} (hcycle : chain.cycle ≤ chain'.cycle)
    (hpos : 0 < chain.covered) (hcovered : chain.covered ≤ chain'.covered) :
    Forward Chain.views chain chain' := by
  have hlast : getLastRewardsComputeDistribution Chain.views chain = some chain.covered :=
    if_neg (Nat.ne_of_gt hpos)
  have hlast' : getLastRewardsComputeDistribution Chain.views chain' = some chain'.covered :=
    if_neg (Nat.ne_of_gt (Nat.lt_of_lt_of_le hpos hcovered))
  refine ⟨hcycle, fun d hd => ?_⟩
  rw [hlast, rewardsCalculatedForClaimDistribution, decide_eq_true_eq] at hd
  rw [hlast', rewardsCalculatedForClaimDistribution, decide_eq_true_eq]
  exact hd.trans hcovered

/-- The only call of a tick is that of any of its submissions. -/
theorem payload_eq {new : List Submission} {call : Call}
    (hcalls : new.map Submission.payload = [call]) {submission : Submission}
    (hmem : submission ∈ new) : submission.payload = call := by
  have hmem := List.mem_map_of_mem (f := Submission.payload) hmem
  rw [hcalls] at hmem
  exact List.mem_singleton.mp hmem

theorem executed_claims :
    Executed Chain.views (Forward Chain.views) Chain.signerManager claimBatch.call Chain.due
      served :=
  .intro Chain.paying 1 Chain.byStaker
    (Chain.run_become _ (Chain.run_send _ .refl)
      (forward (by decide) (by decide) (by decide)))
    (Chain.paying_respects _) (Chain.paying_returns _ _) (by decide)
    (Chain.run_become _ .refl (forward (by decide) (by decide) (by decide)))

end Sample

theorem tick_claims_due : Ended Chain.key 2 Chain.due Sample.served := by
  have hreach : Reachable Chain.views (fun _ _ => True) Chain.due :=
    ⟨_, _, Chain.run_due trivial⟩
  have hfuel : (liveKeys Chain.due).length ≤ 100 * 1 := by decide
  obtain ⟨claims, hfetch, htick⟩ := tick_claims hreach Nat.one_pos hfuel
  have hclaims : claims = [⟨Chain.signerManager, Chain.staker, none, 1⟩] := by
    obtain ⟨base, hinv⟩ := hreach.inv
    cases (getAllPendingClaims_complete hinv Nat.one_pos hfuel).symm.trans hfetch
    decide
  subst hclaims
  obtain ⟨new, hnew, hends⟩ :=
    htick _ (.refl _) Sample.sign Sample.accepting 0 (.ok []) Sample.state
  have hcalls : new.map Submission.payload = [Sample.claimBatch.call] :=
    (congrArg (List.map Submission.payload) hnew).symm.trans rfl
  obtain ⟨sm, hsm, submission, hmem, hends⟩ := hends Chain.key _ rfl rfl
  cases hsm
  rw [Sample.payload_eq hcalls hmem] at hends
  exact hends _ Sample.executed_claims

/-- **A tick's settlements among other transactions.** The batches a tick
submits for what was ready when it read the registry name every ready
withdrawal; and whatever is executed before, after and in between, with any
changes of the chain that take no status back, the execution of the batch with
a withdrawal means that the withdrawal is out of the index for good and that
its signer-manager has been called for it exactly once. -/
theorem tick_settlements (h : Reachable views (StatusMono views) w) (hfit : views.HeightsFit) :
    ∃ withdrawals,
      (∀ calls, getAllPendingWithdrawals views w calls =
        if calls < pageCount 100 (indexedKeys w).length then none
        else some (.ok withdrawals)) ∧
      ∀ iteration, iteration.Perm (withdrawalGroups withdrawals) →
      ∀ sign node n claims state, ∃ new,
        (tick sign node ⟨.ok n, claims, .ok (batchWithdrawals iteration)⟩ state).submitted =
          state.submitted ++ new ∧
        ∀ key, readyAt views w key = true → ∃ sm accepted, key.signerManager = .contract sm ∧
          views.getWithdrawalRequest w.ext key.requestId = some ⟨some accepted⟩ ∧
          ∃ submission ∈ new, ∀ w',
            Executed views (StatusMono views) sm submission.payload w w' →
            Closed key accepted w' := by
  have hidle := h.idle
  have hstored := h.stored
  obtain ⟨stx, ext, hrun⟩ := h
  have hinv := Run.inv hrun
  have hhistory : WithdrawalHistory views w := withdrawalHistory_of_runs
    (Run.changes_of_deployed hrun) (inv_deployed stx ext) (withdrawalHistory_deployed stx ext)
  refine ⟨_, (getPendingWithdrawals_readsAll hfit hinv hstored).loop, ?_⟩
  intro iteration hiteration sign node n claims state
  obtain ⟨new, hnew, hcalls⟩ := tick_submits sign node n claims
    (.ok (batchWithdrawals iteration)) state
  refine ⟨new, hnew, ?_⟩
  intro key hready
  obtain ⟨height, hheight, -, accepted, hstatus⟩ := readyAt_iff.mp hready
  obtain ⟨batch, hbatch, item, hitem, hkey⟩ :=
    exists_withdrawalBatch hinv hstored hready hiteration
  have hcall : batch.call ∈ new.map Submission.payload := by
    rw [hcalls]
    exact List.mem_append_right _ (List.mem_map_of_mem hbatch)
  obtain ⟨submission, hsubmission, hpayload⟩ := List.mem_map.mp hcall
  refine ⟨batch.signerManager, accepted, by rw [hkey], hstatus, submission, hsubmission,
    fun w' hexec => ?_⟩
  rw [hpayload] at hexec
  exact hexec.closes ⟨hinv, hhistory, hstatus, .inl (by rw [hheight]; rfl)⟩ hidle
    (length_le_of_mem_batchWithdrawals hbatch) hitem hkey

namespace Sample

/-- The batch over the one indexed withdrawal of the small chain. -/
def withdrawalBatch : WithdrawalsBatch := ⟨Chain.signerManager, [⟨Chain.staker, 7⟩]⟩

/-- The staker settles it before the batch is executed. -/
def closed : World Chain :=
  (Chain.ready.call Chain.bounded Chain.paying 2 Chain.byStaker
    (.settlePendingWithdrawal Chain.staker Chain.signerManager 7)).call Chain.bounded
    Chain.paying 2 Chain.byStaker withdrawalBatch.call

theorem statusMono {chain chain' : Chain} (h : StatusMono Chain.views chain chain') :
    StatusMono Chain.bounded chain chain' := ⟨h.kept, h.final⟩

theorem reachable_ready : Reachable Chain.bounded (StatusMono Chain.bounded) Chain.ready := by
  refine ⟨Function.update (fun _ => 0) Chain.staker 1000000, ⟨2, 0, none⟩, ?_⟩
  have hcode := Chain.paying_respects (StatusMono Chain.bounded)
  have hpending : StatusMono Chain.views ⟨2, 0, none⟩ ⟨4, 2, some ⟨none⟩⟩ :=
    Chain.statusMono (by simp) (by simp)
  have haccepted : StatusMono Chain.views ⟨4, 2, some ⟨none⟩⟩ ⟨11, 2, some ⟨some true⟩⟩ :=
    Chain.statusMono (by simp) (by simp)
  have hregister : Run Chain.bounded (StatusMono Chain.bounded) (Chain.start ⟨2, 0, none⟩) _ :=
    run_call hcode 2 Chain.byStaker
      (.registerForClaims Chain.staker Chain.signerManager 1 false 3) _
  have hdue := hregister.tail (.outside (Chain.mk 4 2 (some ⟨none⟩)) (fun _ => 0) 0
    (statusMono hpending))
  have hclaimed := hdue.trans (run_call hcode 2 Chain.byStaker
    (.processRewardClaim Chain.staker Chain.signerManager) _)
  exact hclaimed.tail (.outside (Chain.mk 11 2 (some ⟨some true⟩)) (fun _ => 0) 0
    (statusMono haccepted))

theorem executed_settlements :
    Executed Chain.bounded (StatusMono Chain.bounded) Chain.signerManager withdrawalBatch.call
      Chain.ready closed :=
  .intro Chain.paying 1 Chain.byStaker
    (run_call (Chain.paying_respects _) 2 Chain.byStaker _ Chain.ready)
    (Chain.paying_respects _) (Chain.paying_returns _ _) (by decide) .refl

end Sample

theorem tick_settlements_ready : Closed Chain.withdrawalKey true Sample.closed := by
  obtain ⟨withdrawals, hfetch, htick⟩ :=
    tick_settlements Sample.reachable_ready Chain.bounded_heightsFit
  have hrows : getAllPendingWithdrawals Chain.bounded Chain.ready 1 =
      some (.ok [⟨Chain.signerManager, ⟨Chain.staker, 7⟩⟩]) := rfl
  rw [hfetch, if_neg (by decide)] at hrows
  cases hrows
  obtain ⟨new, hnew, hcloses⟩ :=
    htick _ (.refl _) Sample.sign Sample.accepting 0 (.ok []) Sample.state
  have hcalls : new.map Submission.payload = [Sample.withdrawalBatch.call] :=
    (congrArg (List.map Submission.payload) hnew).symm.trans rfl
  obtain ⟨sm, accepted, hsm, hstatus, submission, hmem, hcloses⟩ :=
    hcloses Chain.withdrawalKey (by decide)
  cases hsm
  cases hstatus
  rw [Sample.payload_eq hcalls hmem] at hcloses
  exact hcloses _ Sample.executed_settlements

end Spox.Keeper
