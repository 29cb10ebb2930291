import Spox.Contract.Progress

/-!
# Reward claim registry — who may change a registration

A public call changes a registration only if it is addressed to it, and then
only as its function may: `add-claims` of the sponsor adds installments, a
cancel of the staker or the sponsor ends it, a claim consumes one installment.
What is agreed at registration stays as it is for the whole lifetime.

`RowChange` is what one business event of a call may do to the row of a key;
every call is a sequence of them (`call_rowChanges`). Calls made while a
signer-manager is being called change no row at all.
-/

namespace Spox.RewardClaims

open Spox.Lib

variable {σ : Type} {views : Views σ} {R : σ → σ → Prop} {base : Nat} {w w' : World σ}
  {key : RegistrationKey}

/-! ## What a call is addressed to -/

/-- The call asks for the registration of a key. -/
def Call.Registers (key : RegistrationKey) : Call → Prop
  | .registerForClaims staker sm _ _ _ => key = ⟨staker, .contract sm⟩
  | .registerManyForClaims sm stakers =>
      key.signerManager = .contract sm ∧ ∃ entry ∈ stakers, entry.staker = key.staker
  | _ => False

/-- The call adds claims to a key. -/
def Call.TopsUp (key : RegistrationKey) : Call → Prop
  | .addClaims staker signerManager _ => key = ⟨staker, signerManager⟩
  | _ => False

/-- The call asks to cancel a key. -/
def Call.Cancels (key : RegistrationKey) : Call → Prop
  | .cancelRegistration staker signerManager => key = ⟨staker, signerManager⟩
  | .cancelManyRegistrations signerManager stakers =>
      key.signerManager = signerManager ∧ key.staker ∈ stakers
  | _ => False

/-- The call claims for a key. -/
def Call.Claims (key : RegistrationKey) : Call → Prop
  | .processRewardClaim staker sm => key = ⟨staker, .contract sm⟩
  | .processRewardClaims sm stakers => key.signerManager = .contract sm ∧ key.staker ∈ stakers
  | _ => False

def Call.Addresses (key : RegistrationKey) (c : Call) : Prop :=
  c.Registers key ∨ c.TopsUp key ∨ c.Cancels key ∨ c.Claims key

section Permits

variable {ctx : Ctx} {c : Call} {sender : Principal}

theorem registers_of_permits (h : c.permits ctx (.register key sender)) : c.Registers key := by
  cases c with
  | registerForClaims => exact h.1
  | registerManyForClaims => exact ⟨h.1, h.2.1⟩
  | _ => exact h.elim

theorem topsUp_of_permits (h : c.permits ctx (.addClaims key sender)) :
    c.TopsUp key ∧ sender = ctx.txSender := by
  cases c with
  | addClaims => exact h
  | _ => exact h.elim

theorem cancels_of_permits (h : c.permits ctx (.cancel key sender)) :
    c.Cancels key ∧ sender = ctx.txSender := by
  cases c with
  | cancelRegistration => exact h
  | cancelManyRegistrations => exact ⟨⟨h.1, h.2.1⟩, h.2.2⟩
  | _ => exact h.elim

theorem claims_of_permits (h : c.permits ctx (.claim key)) : c.Claims key := by
  cases c with
  | processRewardClaim => exact h
  | processRewardClaims => exact h
  | _ => exact h.elim

end Permits

/-! ## What an event does to a row -/

/-- The successful claims for a key, oldest first. -/
def claimsFor (key : RegistrationKey) (log : List Event) : List Claim :=
  (claims log).filter (·.key = key)

/-- What one business event of the call `c` may do to the row of `key`. -/
inductive RowChange (ctx : Ctx) (c : Call) (key : RegistrationKey) (s s' : World σ) : Prop
  | same (hrow : s'.registry.registrations key = s.registry.registrations key)
      (hclaims : claimsFor key s'.log = claimsFor key s.log)
  | register (row : Registration) (hcall : c.Registers key)
      (hbefore : s.registry.registrations key = none)
      (hafter : s'.registry.registrations key = some row)
      (hclaims : claimsFor key s'.log = claimsFor key s.log)
  | addClaims (row : Registration) (numClaims escrowed : Nat) (hcall : c.TopsUp key)
      (hsender : ctx.txSender = row.sponsor)
      (hbefore : s.registry.registrations key = some row)
      (hafter : s'.registry.registrations key = some
        { row with
          remainingClaims := row.remainingClaims + numClaims
          prepaidUstx := row.prepaidUstx + escrowed })
      (hclaims : claimsFor key s'.log = claimsFor key s.log)
  | cancel (row : Registration) (hcall : c.Cancels key)
      (hsender : ctx.txSender = key.staker ∨ ctx.txSender = row.sponsor)
      (hbefore : s.registry.registrations key = some row)
      (hafter : s'.registry.registrations key = none)
      (hclaims : claimsFor key s'.log = claimsFor key s.log)
  | claim (row : Registration) (claim : Claim) (hcall : c.Claims key)
      (hbefore : s.registry.registrations key = some row)
      (hafter : s'.registry.registrations key = claim.after)
      (hinstallment : Installment row claim.after)
      (hclaims : claimsFor key s'.log = claimsFor key s.log ++ [claim])

/-- An event about another key, or about none. -/
theorem RowChange.of_update {ctx : Ctx} {c : Call} {q : RegistrationKey}
    {value : Option Registration} (hne : key ≠ q)
    (hmap : w'.registry.registrations = Function.update w.registry.registrations q value)
    (hclaims : claimsFor key w'.log = claimsFor key w.log) : RowChange ctx c key w w' :=
  .same (by rw [hmap, Function.update_of_ne hne]) hclaims

theorem claimsFor_append (key : RegistrationKey) (l l' : List Event) :
    claimsFor key (l ++ l') = claimsFor key l ++ claimsFor key l' := by
  simp [claimsFor]

theorem claimsFor_of_claims {log log' : List Event} (h : claims log' = claims log) :
    claimsFor key log' = claimsFor key log := by
  rw [claimsFor, h, claimsFor]

/-- **One business event of a call** changes a row only as the call may. -/
theorem Change.rowChange {l : Label} (h : Change views R l w w') (hinv : Inv base w)
    {ctx : Ctx} {c : Call} (hl : c.permits ctx l) (key : RegistrationKey) :
    RowChange ctx c key w w' := by
  cases h with
  | outside h =>
      obtain ⟨es, hlog, hes, -⟩ := h.log
      refine .same (by rw [h.registrations]) (claimsFor_of_claims ?_)
      rw [hlog, claims_append, (outside_readings hes).2.2, List.append_nil]
  | register w q row start hrow hfree hstart =>
      have hclaims := (escrowOnly_registered q row w start).claims_eq
      have hmap := registered_registrations q row w start
      by_cases hkey : key = q
      · subst hkey
        exact .register row (registers_of_permits hl) hfree
          (by rw [hmap, Function.update_self]) (claimsFor_of_claims hclaims)
      · exact .of_update hkey hmap (claimsFor_of_claims hclaims)
  | addClaims w q row numClaims escrowed hrow =>
      have hclaims := (escrowOnly_toppedUp q row w numClaims escrowed).claims_eq
      have hmap := toppedUp_registrations q row w numClaims escrowed
      by_cases hkey : key = q
      · subst hkey
        obtain ⟨hcall, hsender⟩ := topsUp_of_permits hl
        exact .addClaims row numClaims escrowed hcall hsender.symm hrow
          (by rw [hmap, Function.update_self]) (claimsFor_of_claims hclaims)
      · exact .of_update hkey hmap (claimsFor_of_claims hclaims)
  | cancel w q row sender hrow hsender =>
      have hclaims := (escrowOnly_cancelled q row w).claims_eq
      have hmap := cancelled_registrations q row w
      by_cases hkey : key = q
      · subst hkey
        obtain ⟨hcall, hctx⟩ := cancels_of_permits hl
        rw [hctx] at hsender
        exact .cancel row hcall hsender hrow (by rw [hmap, Function.update_self])
          (claimsFor_of_claims hclaims)
      · exact .of_update hkey hmap (claimsFor_of_claims hclaims)
  | claim w w₁ q row cycle covered earned claimError stored htracked hpaid hrow hdue =>
      have hconsumed : Consumed q row cycle covered w
          (w₁.claimed q row cycle covered earned claimError stored) :=
        consumed_claimed (Outside.refl (R := R) w) htracked cycle covered earned claimError
      by_cases hkey : key = q
      · subst hkey
        refine .claim row ⟨key, row, consume row cycle, cycle, covered⟩ (claims_of_permits hl)
          hrow (by rw [hconsumed.registrations, Function.update_self])
          (installment_consume (hinv.rows key row hrow).remaining cycle) ?_
        rw [claimsFor, hconsumed.claims, List.filter_append, claimsFor]
        simp
      · refine .of_update hkey hconsumed.registrations ?_
        rw [claimsFor, hconsumed.claims, List.filter_append, claimsFor]
        simp [Ne.symm hkey]
  | settle w w₁ q accepted hindexed hstatus hcall =>
      obtain ⟨es, hlog, hes, -⟩ := hcall.log
      refine .same (by simp [World.unindexed, hcall.registrations]) (claimsFor_of_claims ?_)
      simp [World.unindexed, hlog, (outside_readings hes).2.2, Event.claim]
  | prune w q hindexed hstatus =>
      exact .same (by simp [World.unindexed])
        (claimsFor_of_claims (by simp [World.unindexed, Event.claim]))

/-- **A call changes a row only as it may**, event by event. -/
theorem call_rowChanges (hinv : Inv base w) {ctx : Ctx} {c : Call}
    (h : Runs (Change views R) (c.permits ctx) w w') (key : RegistrationKey) :
    Relation.ReflTransGen (RowChange ctx c key) w w' := by
  induction h with
  | refl => exact .refl
  | tail hruns hlast ih =>
      obtain ⟨l, hl, hchange⟩ := hlast
      exact ih.tail (hchange.rowChange (hinv.runs hruns) hl key)

theorem RowChange.row_eq {ctx : Ctx} {c : Call} (h : RowChange ctx c key w w')
    (hc : ¬ c.Addresses key) :
    w'.registry.registrations key = w.registry.registrations key := by
  cases h with
  | same hrow => exact hrow
  | register _ hcall => exact absurd (.inl hcall) hc
  | addClaims _ _ _ hcall => exact absurd (.inr (.inl hcall)) hc
  | cancel _ hcall => exact absurd (.inr (.inr (.inl hcall))) hc
  | claim _ _ hcall => exact absurd (.inr (.inr (.inr hcall))) hc

/-- A call addressed to other keys leaves the row alone. -/
theorem row_eq_of_rowChanges {ctx : Ctx} {c : Call} (hc : ¬ c.Addresses key)
    (h : Relation.ReflTransGen (RowChange ctx c key) w w') :
    w'.registry.registrations key = w.registry.registrations key := by
  induction h with
  | refl => rfl
  | tail _ hlast ih => exact (hlast.row_eq hc).trans ih

/-! ## Lifetimes -/

/-- What is agreed at registration. -/
structure SameTerms (row row' : Registration) : Prop where
  sponsor : row'.sponsor = row.sponsor
  bondIndex : row'.bondIndex = row.bondIndex
  oneClaimPerRewardCycle : row'.oneClaimPerRewardCycle = row.oneClaimPerRewardCycle

/-- A live row goes back to the last registration of its key: it has that
sponsor and that cadence, it is not behind its start, and it is past every
distribution claimed since. -/
def Origin (log : List Event) (key : RegistrationKey) (row : Registration) : Prop :=
  ∃ pre post start numClaims escrowed,
    log = pre ++ .registerForClaims key row.sponsor start row.oneClaimPerRewardCycle numClaims
      escrowed :: post ∧
    key ∉ creations post ∧ 2 * start ≤ row.nextClaimDistribution ∧
    ∀ claim ∈ claimsFor key post, claim.before.nextClaimDistribution < row.nextClaimDistribution

theorem Origin.append {log es : List Event} {row row' : Registration} (h : Origin log key row)
    (hes : key ∉ creations es) (hterms : SameTerms row row')
    (hnext : row.nextClaimDistribution ≤ row'.nextClaimDistribution)
    (hclaims : ∀ claim ∈ claimsFor key es,
      claim.before.nextClaimDistribution < row'.nextClaimDistribution) :
    Origin (log ++ es) key row' := by
  obtain ⟨pre, post, start, numClaims, escrowed, hlog, hpost, hstart, hpast⟩ := h
  refine ⟨pre, post ++ es, start, numClaims, escrowed, ?_, ?_, Nat.le_trans hstart hnext, ?_⟩
  · rw [hterms.sponsor, hterms.oneClaimPerRewardCycle, hlog, List.append_assoc, List.cons_append]
  · rw [creations_append, List.mem_append]
    exact fun hmem => hmem.elim hpost hes
  · intro claim hclaim
    rw [claimsFor_append, List.mem_append] at hclaim
    rcases hclaim with hclaim | hclaim
    · exact Nat.lt_of_lt_of_le (hpast claim hclaim) hnext
    · exact hclaims claim hclaim

theorem SameTerms.refl (row : Registration) : SameTerms row row := ⟨rfl, rfl, rfl⟩

theorem SameTerms.trans {row row' row'' : Registration} (h : SameTerms row row')
    (h' : SameTerms row' row'') : SameTerms row row'' :=
  ⟨h'.sponsor.trans h.sponsor, h'.bondIndex.trans h.bondIndex,
    h'.oneClaimPerRewardCycle.trans h.oneClaimPerRewardCycle⟩

theorem readings_idle {es : List Event} (h : ∀ e ∈ es, e.isIdle = true) :
    creations es = [] ∧ claims es = [] := by
  refine ⟨List.filterMap_eq_nil_iff.mpr ?_, List.filterMap_eq_nil_iff.mpr ?_⟩
  · intro e he
    have hidle := h e he
    cases e <;> first | rfl | simp [Event.isIdle] at hidle
  · intro e he
    have hidle := h e he
    cases e <;> first | rfl | simp [Event.isIdle] at hidle

/-- A row that an event leaves live keeps its terms and gets past what the
event claims, unless the event created it. -/
theorem Entry.terms {e : Event} {before : Option Registration} {row' : Registration}
    (h : Entry e key before (some row')) :
    (∃ start numClaims escrowed, e = .registerForClaims key row'.sponsor start
        row'.oneClaimPerRewardCycle numClaims escrowed ∧ before = none ∧
        2 * start ≤ row'.nextClaimDistribution) ∨
      e.created = none ∧ ∃ row, before = some row ∧ SameTerms row row' ∧
        row.nextClaimDistribution ≤ row'.nextClaimDistribution ∧
        ∀ claim ∈ e.claim, claim.before.nextClaimDistribution < row'.nextClaimDistribution := by
  generalize hafter : some row' = after at h
  cases h with
  | register _ row start hrow hstart =>
      cases hafter
      refine .inl ⟨start, _, _, rfl, rfl, ?_⟩
      rw [hstart, scheduleStart]
      omega
  | addClaims _ row numClaims escrowed hrow =>
      cases hafter
      exact .inr ⟨rfl, row, rfl, ⟨rfl, rfl, rfl⟩, Nat.le_refl _, by simp [Event.claim]⟩
  | cancel => cases hafter
  | claim _ row cycle covered hrow hdue =>
      refine .inr ⟨rfl, row, rfl, ?_⟩
      unfold consume at hafter
      split at hafter
      · cases hafter
      · cases hafter
        refine ⟨⟨rfl, rfl, rfl⟩, Nat.le_of_lt (lt_scheduleNext _ _ _), ?_⟩
        intro claim hclaim
        cases hclaim
        exact lt_scheduleNext _ _ _

/-- An entry of another key neither creates this one nor claims for it. -/
theorem Entry.other {e : Event} {q : RegistrationKey} {before after : Option Registration}
    (h : Entry e q before after) (hkey : key ≠ q) :
    key ∉ creations [e] ∧ claimsFor key [e] = [] := by
  cases h with
  | register => exact ⟨by simpa [Event.created] using hkey, by simp [claimsFor, Event.claim]⟩
  | addClaims => exact ⟨by simp [Event.created], by simp [claimsFor, Event.claim]⟩
  | cancel => exact ⟨by simp [Event.created], by simp [claimsFor, Event.claim]⟩
  | claim => exact ⟨by simp [Event.created], by simp [claimsFor, Event.claim, Ne.symm hkey]⟩

/-- The events of one step and the live row they leave: the row was created by
one of them, or it was there with the same terms. -/
theorem Recorded.terms (h : Recorded w w') {key : RegistrationKey} {row' : Registration}
    (hrow' : w'.registry.registrations key = some row') :
    ∃ es, w'.log = w.log ++ es ∧
      ((key ∉ creations es ∧
          (∀ claim ∈ claimsFor key es,
            claim.before.nextClaimDistribution < row'.nextClaimDistribution) ∧
          ∃ row, w.registry.registrations key = some row ∧ SameTerms row row' ∧
            row.nextClaimDistribution ≤ row'.nextClaimDistribution) ∨
        (key ∈ creations es ∧ Origin es key row')) := by
  cases h with
  | idle es hlog hidle hcauses hmap =>
      obtain ⟨hcreations, hclaims⟩ := readings_idle hidle
      refine ⟨es, hlog, .inl ⟨by simp [hcreations], by simp [claimsFor, hclaims], row', ?_,
        .refl row', Nat.le_refl _⟩⟩
      rw [← hmap]
      exact hrow'
  | entry es e q before after hlog hidle hcauses hentry hbefore hmap =>
      obtain ⟨hcreations, hclaims⟩ := readings_idle hidle
      refine ⟨es ++ [e], hlog, ?_⟩
      rw [hmap] at hrow'
      by_cases hkey : key = q
      · subst hkey
        rw [Function.update_self] at hrow'
        subst hrow'
        rcases hentry.terms with ⟨start, numClaims, escrowed, rfl, hnone, hstart⟩ |
          ⟨hcreated, row, hrow, hterms, hle, hpast⟩
        · exact .inr ⟨by simp [Event.created], es, [], start, numClaims, escrowed, rfl,
            by simp, hstart, by simp [claimsFor]⟩
        · refine .inl ⟨by simp [hcreations, hcreated], ?_, row, hbefore.trans hrow, hterms, hle⟩
          intro claim hclaim
          rw [claimsFor, claims_append, hclaims, List.nil_append, claims_cons, claims_nil,
            List.append_nil] at hclaim
          exact hpast claim (by simpa using (List.mem_filter.mp hclaim).1)
      · rw [Function.update_of_ne hkey] at hrow'
        obtain ⟨hcreated, hclaim⟩ := hentry.other hkey
        refine .inl ⟨?_, ?_, row', hrow', .refl row', Nat.le_refl _⟩
        · rw [creations_append, hcreations, List.nil_append]
          exact hcreated
        · rw [claimsFor_append, hclaim, List.append_nil]
          simp [claimsFor, hclaims]

/-- **Every live row goes back to its registration.** -/
theorem origin_of_runs {stx : Principal → Nat} {ext : σ}
    (h : Runs (Change views R) (fun _ => True) (.deployed stx ext) w) :
    ∀ key row, w.registry.registrations key = some row → Origin w.log key row := by
  refine (h.invariant (fun s => Inv (stx currentContract) s ∧
    ∀ key row, s.registry.registrations key = some row → Origin s.log key row) ?_
    ⟨inv_deployed stx ext, ?_⟩).2
  · intro l s s' _ hstep hs
    refine ⟨hstep.inv hs.1, ?_⟩
    intro key row' hrow'
    obtain ⟨es, hlog, hkept | hnew⟩ := (hstep.recorded hs.1).terms hrow'
    · obtain ⟨hes, hpast, row, hrow, hterms, hle⟩ := hkept
      rw [hlog]
      exact (hs.2 key row hrow).append hes hterms hle hpast
    · obtain ⟨-, pre, post, start, numClaims, escrowed, hes, hpost, hrest⟩ := hnew
      refine ⟨s.log ++ pre, post, start, numClaims, escrowed, ?_, hpost, hrest⟩
      rw [hlog, hes, List.append_assoc]
  · intro key row hrow
    simp [World.deployed, Registry.deployed] at hrow

/-- **The terms hold for a lifetime**: along a run in which a key is not
registered anew, a live row was there before, with the same terms. -/
theorem terms_of_runs (hinv : Inv base w)
    (h : Runs (Change views R) (fun _ => True) w w') (key : RegistrationKey) :
    ∃ es, w'.log = w.log ++ es ∧ (key ∉ creations es →
      ∀ row', w'.registry.registrations key = some row' →
        ∃ row, w.registry.registrations key = some row ∧ SameTerms row row') := by
  induction h with
  | refl => exact ⟨[], by simp, fun _ row' hrow' => ⟨row', hrow', .refl row'⟩⟩
  | @tail s s' hruns hlast ih =>
      obtain ⟨l, -, hchange⟩ := hlast
      obtain ⟨es, hlog, hes⟩ := ih
      have hrecorded := hchange.recorded (hinv.runs hruns)
      cases hrow' : s'.registry.registrations key with
      | none =>
          have hlog' : ∃ es', s'.log = s.log ++ es' := by
            cases hrecorded with
            | idle es' hlog' => exact ⟨es', hlog'⟩
            | entry es' e _ _ _ hlog' => exact ⟨es' ++ [e], hlog'⟩
          obtain ⟨es', hlog'⟩ := hlog'
          refine ⟨es ++ es', by rw [hlog', hlog, List.append_assoc], ?_⟩
          intro _ row' hsome
          cases hsome
      | some row' =>
          obtain ⟨es', hlog', hcase⟩ := hrecorded.terms hrow'
          refine ⟨es ++ es', by rw [hlog', hlog, List.append_assoc], ?_⟩
          intro hnew row'' hrow''
          cases hrow''
          rw [creations_append, List.mem_append, not_or] at hnew
          rcases hcase with ⟨-, -, row, hrow, hterms, -⟩ | ⟨hmem, -⟩
          · obtain ⟨row₀, hrow₀, hterms₀⟩ := hes hnew.1 row hrow
            exact ⟨row₀, hrow₀, hterms₀.trans hterms⟩
          · exact absurd hmem hnew.2

/-! ## Authority and frame -/

/-- **Registration authority and frame.** Every public call changes the row of
any key only as it may, event by event, and not at all if it is addressed to
other keys; a call made while a signer-manager is being called changes no
row, nor does the rest of the chain; the terms of a registration hold for its
lifetime; and a live row has a claim left and is not behind its start. -/
theorem registration_authority_frame (h : Reachable views R w) :
    (∀ code : Code σ, code.Respects R → ∀ depth ctx c value w',
      exec views code depth ctx c w = .ok value w' → ∀ key,
        Relation.ReflTransGen (RowChange ctx c key) w w' ∧
        (¬ c.Addresses key →
          w'.registry.registrations key = w.registry.registrations key)) ∧
    (∀ (code : Code σ) depth ctx c value v v',
      v.registry.signerManagerCallActive = true →
      exec views code depth ctx c v = .ok value v' →
      v'.registry.registrations = v.registry.registrations) ∧
    (∀ ext stx amount,
      (w.outside ext stx amount).registry.registrations = w.registry.registrations) ∧
    (∀ w' es key row', Run views R w w' → w'.log = w.log ++ es → key ∉ creations es →
      w'.registry.registrations key = some row' →
      ∃ row, w.registry.registrations key = some row ∧ SameTerms row row') ∧
    ∀ key row, w.registry.registrations key = some row →
      1 ≤ row.remainingClaims ∧ Origin w.log key row := by
  obtain ⟨base, hinv⟩ := h.inv
  refine ⟨?_, ?_, fun _ _ _ => rfl, ?_, ?_⟩
  · intro code hcode depth ctx c value w' hexec key
    have hchanges := call_rowChanges hinv
      ((exec_runs hcode hinv h.idle depth ctx c).of_ok hexec) key
    exact ⟨hchanges, fun hc => row_eq_of_rowChanges hc hchanges⟩
  · intro code depth ctx c value v v' hactive hexec
    have houtside := (exec_while_active (R := fun _ _ => True) code depth ctx c hactive).of_ok hexec
    exact houtside.registrations
  · intro w' es key row' hrun hlog hes hrow'
    obtain ⟨es', hlog', hterms⟩ := terms_of_runs hinv (Run.changes hrun hinv h.idle) key
    have hsame : es' = es := List.append_cancel_left (hlog'.symm.trans hlog)
    subst hsame
    exact hterms hes row' hrow'
  · intro key row hrow
    obtain ⟨stx, ext, hrun⟩ := h
    exact ⟨(hinv.rows key row hrow).remaining,
      origin_of_runs (Run.changes_of_deployed hrun) key row hrow⟩

/-- The row of a small chain, one claim into its lifetime. -/
theorem registration_authority_frame_claimed :
    ∃ row, Chain.claimed.registry.registrations Chain.key = some row ∧
      1 ≤ row.remainingClaims ∧ Origin Chain.claimed.log Chain.key row := by
  obtain ⟨-, -, -, -, hrows⟩ := registration_authority_frame
    ⟨_, _, Chain.run_claimed (R := fun _ _ => True) trivial⟩
  have hrow : Chain.claimed.registry.registrations Chain.key =
      some ⟨none, 2, false, 4, 20000, Chain.staker⟩ := by decide
  exact ⟨_, hrow, hrows Chain.key _ hrow⟩

end Spox.RewardClaims
