import Spox.Contract.History
import Spox.Contract.Listing

/-!
# Reward claim registry — withdrawals

The life of an indexed withdrawal over a whole run, on the assumption that
sbtc-registry never deletes a request and never changes the status of a
resolved one. An entry is indexed once, by a claim, while its request is
pending; it leaves once, in a settlement, when its request is resolved; and
from then on the request can no longer be indexed.
-/

namespace Spox.RewardClaims

open Spox.Lib

variable {σ : Type} {views : Views σ} {R : σ → σ → Prop} {base : Nat} {w w' : World σ}

/-! ## The status of a request -/

/-- What sbtc-registry promises: requests are never deleted and a resolved
status is final. -/
structure StatusMono (views : Views σ) (ext ext' : σ) : Prop where
  kept : ∀ id, views.getWithdrawalRequest ext id ≠ none →
    views.getWithdrawalRequest ext' id ≠ none
  final : ∀ id accepted, views.getWithdrawalRequest ext id = some ⟨some accepted⟩ →
    views.getWithdrawalRequest ext' id = some ⟨some accepted⟩

theorem StatusMono.refl (ext : σ) : StatusMono views ext ext :=
  ⟨fun _ h => h, fun _ _ h => h⟩

theorem StatusMono.trans {ext ext' ext'' : σ} (h : StatusMono views ext ext')
    (h' : StatusMono views ext' ext'') : StatusMono views ext ext'' :=
  ⟨fun id hid => h'.kept id (h.kept id hid),
    fun id accepted hid => h'.final id accepted (h.final id accepted hid)⟩

theorem StatusMono.of_steps {ext ext' : σ}
    (h : Relation.ReflTransGen (StatusMono views) ext ext') : StatusMono views ext ext' := by
  induction h with
  | refl => exact .refl ext
  | tail _ hstep ih => exact ih.trans hstep

/-- A request that is known and not pending is resolved. -/
theorem resolved_of_known {ext : σ} {id : Nat}
    (hknown : views.getWithdrawalRequest ext id ≠ none)
    (hnot : views.getWithdrawalRequest ext id ≠ some ⟨none⟩) :
    ∃ accepted, views.getWithdrawalRequest ext id = some ⟨some accepted⟩ := by
  cases hrequest : views.getWithdrawalRequest ext id with
  | none => exact absurd hrequest hknown
  | some request =>
      obtain ⟨status⟩ := request
      cases status with
      | none => exact absurd hrequest hnot
      | some accepted => exact ⟨accepted, rfl⟩

/-! ## What has been invoked -/

/-- The settle (`true`) or reclaim (`false`) call an event marks. -/
def Event.invocation : Event → Option (WithdrawalKey × Bool)
  | .invoked key accepted => some (key, accepted)
  | _ => none

/-- All settle and reclaim calls made on signer-managers, oldest first. -/
def invocations (log : List Event) : List (WithdrawalKey × Bool) :=
  log.filterMap Event.invocation

@[simp] theorem invocations_append (l l' : List Event) :
    invocations (l ++ l') = invocations l ++ invocations l' :=
  List.filterMap_append

@[simp] theorem invocations_nil : invocations [] = [] := rfl

@[simp] theorem invocations_cons (e : Event) (l : List Event) :
    invocations (e :: l) = e.invocation.toList ++ invocations l := by
  cases h : e.invocation <;> simp [invocations, h]

@[simp] theorem invocations_transferEvents (amount : Nat) (sender recipient : Principal) :
    invocations (transferEvents amount sender recipient) = [] := by
  unfold transferEvents; split <;> rfl

@[simp] theorem invocations_burnEvents (amount : Nat) :
    invocations (burnEvents amount) = [] := by
  unfold burnEvents; split <;> rfl

theorem outside_invocations {es : List Event} (h : ∀ e ∈ es, e.isOutside = true) :
    invocations es = [] := by
  refine List.filterMap_eq_nil_iff.mpr fun e he => ?_
  have hout := h e he
  cases e <;> first | rfl | simp [Event.isOutside] at hout

theorem EscrowOnly.invocations_eq (h : EscrowOnly w w') :
    invocations w'.log = invocations w.log := by
  obtain ⟨es, hlog, hes⟩ := h.log
  have hnone : invocations es = [] := List.filterMap_eq_nil_iff.mpr fun e he => by
    have hescrow := hes e he
    cases e <;> first | rfl | cases hescrow
  rw [hlog, invocations_append, hnone, List.append_nil]

/-! ## The history of a withdrawal -/

/-- The past of the index, as the log and the present status of the requests
tell it. -/
structure WithdrawalHistory (views : Views σ) (w : World σ) : Prop where
  known : ∀ key, (w.registry.pendingWithdrawals key).isSome = true →
    views.getWithdrawalRequest w.ext key.requestId ≠ none
  /-- An entry that is gone was settled on a final status. -/
  spent : ∀ key ∈ indexings w.log, w.registry.pendingWithdrawals key = none →
    ∃ accepted, views.getWithdrawalRequest w.ext key.requestId = some ⟨some accepted⟩
  indexedOnce : (indexings w.log).Nodup
  invokedOnce : ((invocations w.log).map Prod.fst).Nodup
  invokedSpent : ∀ invocation ∈ invocations w.log, invocation.1 ∈ indexings w.log ∧
    w.registry.pendingWithdrawals invocation.1 = none
  choice : ∀ invocation ∈ invocations w.log,
    views.getWithdrawalRequest w.ext invocation.1.requestId = some ⟨some invocation.2⟩

theorem withdrawalHistory_deployed (stx : Principal → Nat) (ext : σ) :
    WithdrawalHistory views (.deployed stx ext) := by
  constructor <;> simp [World.deployed, Registry.deployed, indexings, invocations]

/-- The history reads only part of the world. -/
theorem WithdrawalHistory.congr (h : WithdrawalHistory views w)
    (hpending : w'.registry.pendingWithdrawals = w.registry.pendingWithdrawals)
    (hindexings : indexings w'.log = indexings w.log)
    (hinvocations : invocations w'.log = invocations w.log)
    (hext : StatusMono views w.ext w'.ext) : WithdrawalHistory views w' := by
  constructor
  · intro key hkey
    rw [hpending] at hkey
    exact hext.kept _ (h.known key hkey)
  · intro key hkey hnone
    rw [hindexings] at hkey
    rw [hpending] at hnone
    obtain ⟨accepted, hstatus⟩ := h.spent key hkey hnone
    exact ⟨accepted, hext.final _ _ hstatus⟩
  · rw [hindexings]
    exact h.indexedOnce
  · rw [hinvocations]
    exact h.invokedOnce
  · rw [hinvocations, hindexings, hpending]
    exact h.invokedSpent
  · rw [hinvocations]
    exact fun invocation hmem => hext.final _ _ (h.choice invocation hmem)

theorem WithdrawalHistory.outside (h : WithdrawalHistory views w)
    (hout : Outside (StatusMono views) w w') : WithdrawalHistory views w' := by
  obtain ⟨es, hlog, hes, -⟩ := hout.log
  obtain ⟨-, hindexings, -⟩ := outside_readings hes
  exact h.congr hout.pendingWithdrawals (by simp [hlog, hindexings])
    (by simp [hlog, outside_invocations hes]) (.of_steps hout.ext)

/-- Indexing a pending request: it cannot have been indexed before, for then
its status would be final. -/
theorem WithdrawalHistory.indexedAt (h : WithdrawalHistory views w) {key : WithdrawalKey}
    (height : Nat) (hstatus : views.getWithdrawalRequest w.ext key.requestId = some ⟨none⟩)
    (hfree : w.registry.pendingWithdrawals key = none) :
    WithdrawalHistory views (w.indexedAt key height) := by
  -- an id that was indexed before and is free now is resolved for good
  have hnew : key ∉ indexings w.log := by
    intro hmem
    obtain ⟨accepted, hfinal⟩ := h.spent key hmem hfree
    simp [hstatus] at hfinal
  have hindexings : indexings (w.indexedAt key height).log = indexings w.log ++ [key] := by
    simp [World.indexedAt, Event.indexing]
  have hinvocations : invocations (w.indexedAt key height).log = invocations w.log := by
    simp [World.indexedAt, Event.invocation]
  have hother : ∀ q, q ≠ key → (w.indexedAt key height).registry.pendingWithdrawals q =
      w.registry.pendingWithdrawals q := fun q hq => by simp [World.indexedAt, hq]
  constructor
  · intro q hq
    by_cases hqk : q = key
    · subst hqk
      simp [World.indexedAt, hstatus]
    · rw [hother q hqk] at hq
      exact h.known q hq
  · intro q hq hnone
    have hqk : q ≠ key := by
      rintro rfl
      simp [World.indexedAt] at hnone
    rw [hother q hqk] at hnone
    refine h.spent q ?_ hnone
    simpa [hindexings, hqk] using hq
  · rw [hindexings, List.nodup_append]
    exact ⟨h.indexedOnce, List.nodup_singleton key, fun a ha b hb => by
      rintro rfl
      exact hnew (List.mem_singleton.mp hb ▸ ha)⟩
  · rw [hinvocations]
    exact h.invokedOnce
  · rw [hinvocations, hindexings]
    intro invocation hmem
    obtain ⟨hindexed, hnone⟩ := h.invokedSpent invocation hmem
    have hqk : invocation.1 ≠ key := fun heq => hnew (heq ▸ hindexed)
    exact ⟨List.mem_append_left _ hindexed, (hother _ hqk).trans hnone⟩
  · rw [hinvocations]
    exact h.choice

/-- Dropping an entry whose request is resolved. -/
theorem WithdrawalHistory.unindexed (h : WithdrawalHistory views w) {key : WithdrawalKey}
    {accepted : Bool}
    (hstatus : views.getWithdrawalRequest w.ext key.requestId = some ⟨some accepted⟩) :
    WithdrawalHistory views (w.unindexed key) := by
  have hother : ∀ q, q ≠ key → (w.unindexed key).registry.pendingWithdrawals q =
      w.registry.pendingWithdrawals q := fun q hq => by simp [World.unindexed, hq]
  have hself : (w.unindexed key).registry.pendingWithdrawals key = none := by
    simp [World.unindexed]
  constructor
  · intro q hq
    have hqk : q ≠ key := by
      rintro rfl
      simp [hself] at hq
    rw [hother q hqk] at hq
    exact h.known q hq
  · intro q hq hnone
    by_cases hqk : q = key
    · exact ⟨accepted, hqk ▸ hstatus⟩
    · rw [hother q hqk] at hnone
      exact h.spent q hq hnone
  · exact h.indexedOnce
  · exact h.invokedOnce
  · intro invocation hmem
    obtain ⟨hindexed, hnone⟩ := h.invokedSpent invocation hmem
    refine ⟨hindexed, ?_⟩
    by_cases hqk : invocation.1 = key
    · rw [hqk]
      exact hself
    · exact (hother _ hqk).trans hnone
  · exact h.choice

/-- The first invocation for an entry that is gone. -/
theorem WithdrawalHistory.invoked (h : WithdrawalHistory views w) {key : WithdrawalKey}
    {accepted : Bool} (hindexed : key ∈ indexings w.log)
    (hgone : w.registry.pendingWithdrawals key = none)
    (hnew : key ∉ (invocations w.log).map Prod.fst)
    (hstatus : views.getWithdrawalRequest w.ext key.requestId = some ⟨some accepted⟩) :
    WithdrawalHistory views (w.emit [.invoked key accepted]) := by
  have hindexings : indexings (w.emit [.invoked key accepted]).log = indexings w.log := by
    simp [Event.indexing]
  have hinvocations : invocations (w.emit [.invoked key accepted]).log =
      invocations w.log ++ [(key, accepted)] := by
    simp [Event.invocation]
  have hlast : ∀ invocation ∈ invocations w.log ++ [(key, accepted)],
      invocation ∈ invocations w.log ∨ invocation = (key, accepted) := fun _ hmem => by
    simpa using hmem
  constructor
  · exact h.known
  · rw [hindexings]
    exact h.spent
  · rw [hindexings]
    exact h.indexedOnce
  · rw [hinvocations, List.map_append, List.nodup_append]
    refine ⟨h.invokedOnce, List.nodup_singleton key, fun a ha b hb => ?_⟩
    rintro rfl
    have hkey : a = key := List.mem_singleton.mp hb
    exact hnew (hkey ▸ ha)
  · rw [hinvocations, hindexings]
    intro invocation hmem
    rcases hlast invocation hmem with hmem | rfl
    · exact h.invokedSpent invocation hmem
    · exact ⟨hindexed, hgone⟩
  · rw [hinvocations]
    intro invocation hmem
    rcases hlast invocation hmem with hmem | rfl
    · exact h.choice invocation hmem
    · exact hstatus

theorem WithdrawalHistory.escrow (h : WithdrawalHistory views w) (hescrow : EscrowOnly w w') :
    WithdrawalHistory views w' :=
  h.congr hescrow.pendingWithdrawals hescrow.indexings_eq hescrow.invocations_eq
    (hescrow.ext ▸ .refl _)

/-- **Every business event keeps the history.** -/
theorem Change.withdrawalHistory {l : Label} (h : Change views (StatusMono views) l w w')
    (hinv : Inv base w) (hhist : WithdrawalHistory views w) : WithdrawalHistory views w' := by
  cases h with
  | outside h => exact hhist.outside h
  | register => exact hhist.escrow (escrowOnly_registered _ _ _ _)
  | addClaims => exact hhist.escrow (escrowOnly_toppedUp _ _ _ _ _)
  | cancel => exact hhist.escrow (escrowOnly_cancelled _ _ _)
  | claim w w₁ key row cycle covered earned claimError stored htracked =>
      have htracked : WithdrawalHistory views w₁ := by
        cases htracked with
        | none => exact hhist
        | known => exact hhist
        | fresh id hstatus hfree => exact hhist.indexedAt _ hstatus hfree
      exact htracked.congr (by simp [World.claimed, World.advanced])
        (by simp [World.claimed, World.advanced, burnEscrow_log, Event.indexing])
        (by simp [World.claimed, World.advanced, burnEscrow_log, Event.invocation])
        (by simpa [World.claimed, World.advanced] using .refl _)
  | settle w w₁ key accepted hindexed hstatus hcall =>
      -- as if the entry left before the call: nothing in between reads it
      have hunspent : key ∉ (invocations w.log).map Prod.fst := by
        intro hmem
        obtain ⟨invocation, hinvocation, rfl⟩ := List.mem_map.mp hmem
        rw [(hhist.invokedSpent invocation hinvocation).2] at hindexed
        simp at hindexed
      have hinvoked : WithdrawalHistory views
          ((w.unindexed key).emit [.invoked key accepted]) :=
        (hhist.unindexed hstatus).invoked (hinv.indexed key hindexed)
          (by simp [World.unindexed]) hunspent hstatus
      obtain ⟨es, hlog, hes, -⟩ := hcall.log
      obtain ⟨-, hindexings, -⟩ := outside_readings hes
      refine hinvoked.congr ?_ ?_ ?_ (.of_steps hcall.ext)
      · simp [World.unindexed, hcall.pendingWithdrawals]
      · simp [World.unindexed, hlog, hindexings, Event.indexing]
      · simp [World.unindexed, hlog, outside_invocations hes, Event.invocation]
  | prune w key hindexed hstatus => exact absurd hstatus (hhist.known key hindexed)

theorem withdrawalHistory_of_runs {allowed : Label → Prop}
    (h : Runs (Change views (StatusMono views)) allowed w w') (hinv : Inv base w)
    (hhist : WithdrawalHistory views w) : WithdrawalHistory views w' :=
  (h.invariant (fun v => Inv base v ∧ WithdrawalHistory views v)
    (fun _ _ _ _ hstep hv => ⟨hstep.inv hv.1, hstep.withdrawalHistory hv.1 hv.2⟩)
    ⟨hinv, hhist⟩).2

/-! ## One entry across one call -/

/-- What a business event does to one entry: nothing, or it indexes it, or
it settles it. -/
inductive EntryStep (views : Views σ) (l : Label) (key : WithdrawalKey) (w w' : World σ) : Prop
  | kept (h : w'.registry.pendingWithdrawals key = w.registry.pendingWithdrawals key)
  | created (hlabel : l = .claim ⟨key.staker, key.signerManager⟩)
      (hstatus : views.getWithdrawalRequest w.ext key.requestId = some ⟨none⟩)
      (hprint : ∃ rewardCycle claimDistribution bondIndex earned es,
        w'.log = w.log ++ es ∧ .processRewardClaim ⟨key.staker, key.signerManager⟩ rewardCycle
          claimDistribution bondIndex earned none (some key.requestId) ∈ es)
      (hfree : w.registry.pendingWithdrawals key = none)
  | removed (hlabel : l = .settle key)
      (hstatus : views.getWithdrawalRequest w.ext key.requestId ≠ some ⟨none⟩)
      (hgone : w'.registry.pendingWithdrawals key = none)

theorem Change.entryStep {l : Label} (h : Change views R l w w') (key : WithdrawalKey) :
    EntryStep views l key w w' := by
  cases h with
  | outside h => exact .kept (by rw [h.pendingWithdrawals])
  | register => exact .kept (by rw [(escrowOnly_registered _ _ _ _).pendingWithdrawals])
  | addClaims => exact .kept (by rw [(escrowOnly_toppedUp _ _ _ _ _).pendingWithdrawals])
  | cancel => exact .kept (by rw [(escrowOnly_cancelled _ _ _).pendingWithdrawals])
  | claim w w₁ q row cycle covered earned claimError stored htracked hpaid =>
      have hsame : (w₁.claimed q row cycle covered earned claimError stored
          ).registry.pendingWithdrawals = w₁.registry.pendingWithdrawals := by
        simp [World.claimed, World.advanced]
      cases htracked with
      | none => exact .kept (by rw [hsame])
      | known => exact .kept (by rw [hsame])
      | fresh id hstatus hfree =>
          by_cases hkey : key = ⟨q.staker, q.signerManager, id⟩
          · subst hkey
            refine .created rfl hstatus ⟨row.nextClaimDistribution / 2,
              row.nextClaimDistribution, row.bondIndex, earned,
              [.indexed ⟨q.staker, q.signerManager, id⟩] ++ burnEvents (burnAmount row) ++
                [.processRewardClaim q (row.nextClaimDistribution / 2)
                  row.nextClaimDistribution row.bondIndex earned claimError (some id),
                  .claimed ⟨q, row, consume row cycle, cycle, covered⟩], ?_, ?_⟩ hfree
            · simp [World.claimed, World.advanced, burnEscrow_log, World.indexedAt]
            · simp [hpaid]
          · refine .kept ?_
            rw [hsame]
            simp [World.indexedAt, hkey]
  | settle w w₁ q accepted hindexed hstatus hcall =>
      by_cases hkey : key = q
      · subst hkey
        exact .removed rfl (by simp [hstatus]) (by simp [World.unindexed])
      · refine .kept ?_
        simp [World.unindexed, hkey, hcall.pendingWithdrawals]
  | prune w q hindexed hstatus =>
      by_cases hkey : key = q
      · subst hkey
        exact .removed rfl (by simp [hstatus]) (by simp [World.unindexed])
      · exact .kept (by simp [World.unindexed, hkey])

/-- What a call did to one entry from `w` to `w'`. An entry that appears was
created by a claim the call is allowed, while its request was pending; one
that disappears was removed by a settlement the call is allowed, and its
request is resolved; otherwise nothing of it changed. -/
structure EntryAcross (views : Views σ) (allowed : Label → Prop) (key : WithdrawalKey)
    (w w' : World σ) : Prop where
  created : w.registry.pendingWithdrawals key = none →
    (w'.registry.pendingWithdrawals key).isSome = true →
    allowed (.claim ⟨key.staker, key.signerManager⟩) ∧
    (∃ ext, StatusMono views w.ext ext ∧ StatusMono views ext w'.ext ∧
      views.getWithdrawalRequest ext key.requestId = some ⟨none⟩) ∧
    ∃ rewardCycle claimDistribution bondIndex earned es, w'.log = w.log ++ es ∧
      .processRewardClaim ⟨key.staker, key.signerManager⟩ rewardCycle claimDistribution
        bondIndex earned none (some key.requestId) ∈ es
  removed : (w.registry.pendingWithdrawals key).isSome = true →
    w'.registry.pendingWithdrawals key = none →
    allowed (.settle key) ∧
      ∃ accepted, views.getWithdrawalRequest w'.ext key.requestId = some ⟨some accepted⟩
  kept : (w.registry.pendingWithdrawals key).isSome = true → ¬ allowed (.settle key) →
    w'.registry.pendingWithdrawals key = w.registry.pendingWithdrawals key

theorem Recorded.log_extends (h : Recorded w w') : ∃ es, w'.log = w.log ++ es := by
  cases h with
  | idle es hlog => exact ⟨es, hlog⟩
  | entry es e key before after hlog => exact ⟨es ++ [e], hlog⟩

theorem Change.ext_steps {l : Label} (h : Change views R l w w') :
    Relation.ReflTransGen R w.ext w'.ext := by
  cases h with
  | outside h => exact h.ext
  | register => exact (escrowOnly_registered _ _ _ _).ext ▸ .refl
  | addClaims => exact (escrowOnly_toppedUp _ _ _ _ _).ext ▸ .refl
  | cancel => exact (escrowOnly_cancelled _ _ _).ext ▸ .refl
  | claim w w₁ q row cycle covered earned claimError stored htracked =>
      have htracked : w₁.ext = w.ext := by cases htracked <;> rfl
      simpa [World.claimed, World.advanced, htracked] using .refl
  | settle w w₁ q accepted hindexed hstatus hcall => exact hcall.ext
  | prune => exact .refl

/-- What a run keeps for the entry of a key: the invariant and the history
at its end, the promise of sbtc-registry, a log that only grows, and what may
have become of the entry. -/
structure EntryRun (views : Views σ) (base : Nat) (allowed : Label → Prop)
    (key : WithdrawalKey) (w v : World σ) : Prop where
  inv : Inv base v
  history : WithdrawalHistory views v
  mono : StatusMono views w.ext v.ext
  log : ∃ es, v.log = w.log ++ es
  across : EntryAcross views allowed key w v

theorem EntryRun.refl {allowed : Label → Prop} {key : WithdrawalKey} (hinv : Inv base w)
    (hhist : WithdrawalHistory views w) : EntryRun views base allowed key w w where
  inv := hinv
  history := hhist
  mono := .refl _
  log := ⟨[], by simp⟩
  across :=
    { created := fun hfree hsome => by simp [hfree] at hsome
      removed := fun hsome hgone => by simp [hgone] at hsome
      kept := fun _ _ => rfl }

section EntryStep

variable {allowed : Label → Prop} {key : WithdrawalKey} {l : Label} {v v' : World σ}

/-- A step that leaves the entry as it is. -/
theorem EntryAcross.keep (h : EntryAcross views allowed key w v)
    (hmono : StatusMono views v.ext v'.ext) {es : List Event} (hlog : v'.log = v.log ++ es)
    (hsame : v'.registry.pendingWithdrawals key = v.registry.pendingWithdrawals key) :
    EntryAcross views allowed key w v' := by
  constructor
  · intro hfree hsome
    rw [hsame] at hsome
    obtain ⟨hclaim, ⟨ext, hto, hfrom, hstatus⟩, r, d, b, e, es₁, hes₁, hprint⟩ :=
      h.created hfree hsome
    exact ⟨hclaim, ⟨ext, hto, hfrom.trans hmono, hstatus⟩, r, d, b, e, es₁ ++ es,
      by simp [hes₁, hlog], List.mem_append_left _ hprint⟩
  · intro hsome hgone
    rw [hsame] at hgone
    obtain ⟨hsettle, accepted, hstatus⟩ := h.removed hsome hgone
    exact ⟨hsettle, accepted, hmono.final _ _ hstatus⟩
  · intro hsome hnot
    rw [hsame]
    exact h.kept hsome hnot

/-- **A business event** a call is allowed keeps what may become of an
entry. -/
theorem EntryRun.step (h : EntryRun views base allowed key w v) (hl : allowed l)
    (hstep : Change views (StatusMono views) l v v') :
    EntryRun views base allowed key w v' := by
  obtain ⟨hinv, hhist, hmono, ⟨es, hlog⟩, hacross⟩ := h
  have hmono' : StatusMono views v.ext v'.ext := .of_steps hstep.ext_steps
  obtain ⟨es', hlog'⟩ := (hstep.recorded hinv).log_extends
  refine ⟨hstep.inv hinv, hstep.withdrawalHistory hinv hhist, hmono.trans hmono',
    ⟨es ++ es', by simp [hlog, hlog']⟩, ?_⟩
  cases hstep.entryStep key with
  | kept hsame => exact hacross.keep hmono' hlog' hsame
  | created hlabel hstatus hprint hfree =>
      subst hlabel
      obtain ⟨r, d, b, e, es₁, hes₁, hprint⟩ := hprint
      constructor
      · intro _ _
        exact ⟨hl, ⟨v.ext, hmono, hmono', hstatus⟩, r, d, b, e, es ++ es₁,
          by simp [hlog, hes₁], List.mem_append_right _ hprint⟩
      · intro hsome _
        obtain ⟨-, accepted, hfinal⟩ := hacross.removed hsome hfree
        simp [hstatus] at hfinal
      · intro hsome hnot
        rw [← hacross.kept hsome hnot, hfree] at hsome
        simp at hsome
  | removed hlabel hstatus hgone =>
      subst hlabel
      constructor
      · intro _ hsome
        simp [hgone] at hsome
      · intro hsome _
        refine ⟨hl, ?_⟩
        cases hentry : v.registry.pendingWithdrawals key with
        | some height =>
            -- the entry was still there, so its request was known then
            obtain ⟨accepted, hfinal⟩ :=
              resolved_of_known (hhist.known key (by simp [hentry])) hstatus
            exact ⟨accepted, hmono'.final _ _ hfinal⟩
        | none =>
            obtain ⟨-, accepted, hfinal⟩ := hacross.removed hsome hentry
            exact ⟨accepted, hmono'.final _ _ hfinal⟩
      · intro _ hnot
        exact absurd hl hnot

end EntryStep

section Resolved

variable {code : Code σ} {staker : Principal} {sm : ContractId} {requestId : Nat}
  {accepted : Bool}

theorem Settled.pendingWithdrawals {key : WithdrawalKey} (h : Settled views R key w w') :
    w'.registry.pendingWithdrawals =
      Function.update w.registry.pendingWithdrawals key none := by
  cases h with
  | called w₁ accepted hindexed hstatus hcall => simp [World.unindexed, hcall.pendingWithdrawals]
  | pruned => simp [World.unindexed]

/-- A settlement touches the registrations and their list in no way, and logs
nothing that moves STX but what comes in. -/
theorem Settled.frame {key : WithdrawalKey} (h : Settled views R key w w') :
    w'.registry.registrations = w.registry.registrations ∧
      w'.registry.registrationLl = w.registry.registrationLl ∧
      ∃ es, w'.log = w.log ++ es ∧ indexings es = [] ∧
        w'.stx currentContract = w.stx currentContract + received es := by
  cases h with
  | called w₁ accepted hindexed hstatus hcall =>
      obtain ⟨es, hlog, hes, hstx⟩ := hcall.log
      obtain ⟨-, hindexings, -⟩ := outside_readings hes
      refine ⟨hcall.registrations, hcall.registrationLl,
        [.invoked key accepted] ++ es ++ [.settlePendingWithdrawal key accepted], ?_, ?_, ?_⟩
      · simp [World.unindexed, hlog]
      · simp [hindexings, Event.indexing]
      · simp [World.unindexed, hstx, Event.donation]
  | pruned hindexed hstatus =>
      exact ⟨rfl, rfl, [.prunePendingWithdrawal key], rfl, rfl, rfl⟩

theorem Settled.ext_steps {key : WithdrawalKey} (h : Settled views R key w w') :
    Relation.ReflTransGen R w.ext w'.ext := h.change.ext_steps

/-- So does settling a batch with a resolved withdrawal in it. -/
theorem exec_settlePendingWithdrawals {depth : Nat} (hcode : code.Respects (StatusMono views))
    (hidle : w.registry.signerManagerCallActive = false) (ctx : Ctx)
    {items : List WithdrawalItem} (hitem : ⟨staker, requestId⟩ ∈ items)
    (hstatus : views.getWithdrawalRequest w.ext requestId = some ⟨some accepted⟩) :
    Tx.wp (exec views code (depth + 1) ctx (.settlePendingWithdrawals sm items)) w
      (fun _ w' => w'.registry.pendingWithdrawals ⟨staker, .contract sm, requestId⟩ = none)
      (fun _ _ => False) True := by
  have hframes : (interpret code (exec views code depth)).Frames sm (StatusMono views) True :=
    interpret_frames hcode depth sm
  rw [exec, Tx.wp_atomic]
  simp only [dispatch, settlePendingWithdrawals, Tx.wp_bind, wp_withMaxLen,
    wp_validateNoReentrancy, Tx.wp_pure]
  refine ⟨fun _ => ⟨fun _ => ?_, fun hactive => absurd hactive (by simp [hidle])⟩,
    fun _ => trivial⟩
  -- an item is done once the entry is gone, if it is the one in question
  refine (Tx.wp_foldlM_all
    (fun s => s.registry.signerManagerCallActive = false ∧
      views.getWithdrawalRequest s.ext requestId = some ⟨some accepted⟩)
    (fun item s => item = ⟨staker, requestId⟩ →
      s.registry.pendingWithdrawals ⟨staker, .contract sm, requestId⟩ = none)
    ⟨hidle, hstatus⟩ ?_).mono (fun _ _ h => h.2.1 _ hitem rfl) (fun _ _ h => h) id
  rintro n s item - ⟨hsidle, hsstatus⟩
  simp only [countSettlement, Tx.wp_bind, Tx.wp_attempt]
  refine (settlePendingWithdrawalImpl_spec hsidle item.staker sm hframes
    item.requestId).mono ?_ ?_ id
  · intro didResolve s' hpost
    rcases hpost with ⟨rfl, hsettled⟩ | ⟨rfl, rfl, hpending⟩
    · have hext := StatusMono.of_steps hsettled.ext_steps
      refine ⟨⟨(hsettled.change.active).trans hsidle, hext.final _ _ hsstatus⟩, ?_, ?_⟩
      · rintro rfl
        simp [hsettled.pendingWithdrawals]
      · intro item' hdone hitem'
        rw [hsettled.pendingWithdrawals]
        by_cases hkey : (⟨staker, .contract sm, requestId⟩ : WithdrawalKey) =
            ⟨item.staker, .contract sm, item.requestId⟩
        · simp [hkey]
        · rw [Function.update_of_ne hkey]
          exact hdone hitem'
    · refine ⟨⟨hsidle, hsstatus⟩, ?_, fun _ h => h⟩
      rintro rfl
      simp [hsstatus] at hpending
  · intro error s' hpost
    obtain ⟨rfl, hnone⟩ := hpost
    refine ⟨⟨hsidle, hsstatus⟩, ?_, fun _ h => h⟩
    rintro rfl
    exact hnone

end Resolved

/-! ## The whole claim -/

/-- Request 7 is accepted and settled. -/
def Chain.settled : World Chain :=
  Chain.send (.settlePendingWithdrawal Chain.staker Chain.signerManager 7)
    (Chain.become ⟨4, 2, some ⟨some true⟩⟩ Chain.claimed)

theorem Chain.statusMono {chain chain' : Chain}
    (hkept : chain.request ≠ none → chain'.request ≠ none)
    (hfinal : ∀ accepted, chain.request = some ⟨some accepted⟩ →
      chain'.request = some ⟨some accepted⟩) : StatusMono Chain.views chain chain' := by
  constructor
  · intro id
    by_cases hid : id = 7
    · simpa [Chain.views, hid] using hkept
    · simp [Chain.views, hid]
  · intro id accepted
    by_cases hid : id = 7
    · simpa [Chain.views, hid] using hfinal accepted
    · simp [Chain.views, hid]

end Spox.RewardClaims
