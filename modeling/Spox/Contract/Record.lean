import Spox.Contract.Authority

/-!
# Reward claim registry — the progress record

`max-processed-distribution` keeps one number for each staker, whatever
signer-managers it is registered under and however often it starts anew. It
is the maximum of the distributions of all successful claims for the staker,
so it only ever grows, and only a claim for that staker moves it.
-/

namespace Spox.RewardClaims

open Spox.Lib

variable {σ : Type} {views : Views σ} {R : σ → σ → Prop} {base : Nat} {w w' : World σ}

/-- `get-max-processed-distribution`. -/
def getMaxProcessedDistribution (w : World σ) (staker : Principal) : Option Nat :=
  w.registry.maxProcessedDistribution staker

/-- The distributions of the successful claims for a staker, oldest first. -/
def processed (staker : Principal) (log : List Event) : List Nat :=
  ((claims log).filter (·.key.staker = staker)).map (·.before.nextClaimDistribution)

/-- The record of every staker is the maximum of its history. -/
def RecordExact (w : World σ) : Prop :=
  ∀ staker, getMaxProcessedDistribution w staker = (processed staker w.log).max?

theorem max?_concat (l : List Nat) (d : Nat) :
    (l ++ [d]).max? = some (World.raised l.max? d) := by
  cases l with
  | nil => rfl
  | cons a l =>
      rw [List.cons_append, List.max?_cons', List.max?_cons', List.foldl_append, World.raised]
      simp only [List.foldl_cons, List.foldl_nil]
      split
      · next hlt => rw [Nat.max_eq_right (Nat.le_of_lt hlt)]
      · next hle => rw [Nat.max_eq_left (Nat.le_of_not_lt hle)]

/-! ## One business event -/

/-- What one event does to the record: nothing, unless it is a claim, which
enters its distribution for its staker. -/
inductive RecordStep (l : Label) (w w' : World σ) : Prop
  | same (hrecord : w'.registry.maxProcessedDistribution = w.registry.maxProcessedDistribution)
      (hclaims : claims w'.log = claims w.log)
  | claim (claim : Claim) (hlabel : l = .claim claim.key)
      (hrecord : w'.registry.maxProcessedDistribution =
        Function.update w.registry.maxProcessedDistribution claim.key.staker
          (some (World.raised (w.registry.maxProcessedDistribution claim.key.staker)
            claim.before.nextClaimDistribution)))
      (hclaims : claims w'.log = claims w.log ++ [claim])

theorem EscrowOnly.recordStep (h : EscrowOnly w w') (l : Label) : RecordStep l w w' :=
  .same h.maxProcessedDistribution h.claims_eq

theorem Change.recordStep {l : Label} (h : Change views R l w w') : RecordStep l w w' := by
  cases h with
  | outside h =>
      obtain ⟨es, hlog, hes, -⟩ := h.log
      exact .same h.maxProcessedDistribution (by simp [hlog, (outside_readings hes).2.2])
  | register => exact (escrowOnly_registered _ _ _ _).recordStep _
  | addClaims => exact (escrowOnly_toppedUp _ _ _ _ _).recordStep _
  | cancel => exact (escrowOnly_cancelled _ _ _).recordStep _
  | claim w w₁ key row cycle covered earned claimError stored htracked =>
      have hconsumed : Consumed key row cycle covered w
          (w₁.claimed key row cycle covered earned claimError stored) :=
        consumed_claimed (Outside.refl (R := R) w) htracked cycle covered earned claimError
      exact .claim ⟨key, row, consume row cycle, cycle, covered⟩ rfl
        hconsumed.maxProcessedDistribution hconsumed.claims
  | settle w w₁ key accepted hindexed hstatus hcall =>
      obtain ⟨es, hlog, hes, -⟩ := hcall.log
      refine .same (by simp [World.unindexed, hcall.maxProcessedDistribution]) ?_
      simp [World.unindexed, hlog, (outside_readings hes).2.2, Event.claim]
  | prune =>
      exact .same (by simp [World.unindexed]) (by simp [World.unindexed, Event.claim])

theorem RecordStep.exact {l : Label} (h : RecordStep l w w') (hw : RecordExact w) :
    RecordExact w' := by
  intro staker
  cases h with
  | same hrecord hclaims =>
      rw [getMaxProcessedDistribution, hrecord, processed, hclaims]
      exact hw staker
  | claim claim _ hrecord hclaims =>
      rw [getMaxProcessedDistribution, hrecord, processed, hclaims, List.filter_append,
        List.map_append]
      by_cases hstaker : staker = claim.key.staker
      · subst hstaker
        have hbefore : w.registry.maxProcessedDistribution claim.key.staker = _ :=
          hw claim.key.staker
        rw [Function.update_self, hbefore]
        simp only [decide_true, List.filter_cons_of_pos, List.filter_nil, List.map_cons,
          List.map_nil, max?_concat, processed]
      · have hskip : [claim].filter (fun c => decide (c.key.staker = staker)) = [] := by
          simp [Ne.symm hstaker]
        rw [Function.update_of_ne hstaker, hskip, List.map_nil, List.append_nil]
        exact hw staker

/-- The record of a staker after it holds at least what it held before. -/
def Raises (w w' : World σ) (staker : Principal) : Prop :=
  ∀ d, getMaxProcessedDistribution w staker = some d →
    ∃ d', getMaxProcessedDistribution w' staker = some d' ∧ d ≤ d'

theorem RecordStep.raises {l : Label} (h : RecordStep l w w') (staker : Principal) :
    Raises w w' staker := by
  intro d hd
  cases h with
  | same hrecord => exact ⟨d, by rw [getMaxProcessedDistribution, hrecord]; exact hd, Nat.le_refl d⟩
  | claim claim _ hrecord =>
      rw [getMaxProcessedDistribution, hrecord]
      by_cases hstaker : staker = claim.key.staker
      · subst hstaker
        have hd : w.registry.maxProcessedDistribution claim.key.staker = some d := hd
        rw [Function.update_self, hd, World.raised]
        refine ⟨_, rfl, ?_⟩
        split <;> omega
      · rw [Function.update_of_ne hstaker]
        exact ⟨d, hd, Nat.le_refl d⟩

/-- An event that claims nothing for a staker leaves its record alone. -/
theorem RecordStep.eq_of_not_claim {l : Label} (h : RecordStep l w w') {staker : Principal}
    (hl : ∀ key, l = .claim key → key.staker ≠ staker) :
    getMaxProcessedDistribution w' staker = getMaxProcessedDistribution w staker := by
  cases h with
  | same hrecord => rw [getMaxProcessedDistribution, hrecord, getMaxProcessedDistribution]
  | claim claim hlabel hrecord =>
      rw [getMaxProcessedDistribution, hrecord, Function.update_of_ne (hl _ hlabel).symm,
        getMaxProcessedDistribution]

/-! ## Runs -/

theorem recordExact_of_runs {stx : Principal → Nat} {ext : σ}
    (h : Runs (Change views R) (fun _ => True) (.deployed stx ext) w) : RecordExact w :=
  h.invariant RecordExact (fun _ _ _ _ hstep hs => hstep.recordStep.exact hs) fun _ => rfl

theorem raises_of_runs {allowed : Label → Prop} (h : Runs (Change views R) allowed w w')
    (staker : Principal) : Raises w w' staker := by
  refine h.invariant (fun s => Raises w s staker) ?_ fun d hd => ⟨d, hd, Nat.le_refl d⟩
  intro l s s' _ hstep hs d hd
  obtain ⟨d', hd', hle⟩ := hs d hd
  obtain ⟨d'', hd'', hle'⟩ := hstep.recordStep.raises staker d' hd'
  exact ⟨d'', hd'', Nat.le_trans hle hle'⟩

/-- **The progress record.** It is the maximum over all successful claims for
the staker, none without one; it never decreases along a run; a call that
claims nothing for the staker leaves it alone; and the next distribution of a
live registration is above every one claimed in its lifetime. -/
theorem progress_record (h : Reachable views R w) :
    (∀ staker, getMaxProcessedDistribution w staker = (processed staker w.log).max?) ∧
    (∀ staker, getMaxProcessedDistribution w staker = none ↔ processed staker w.log = []) ∧
    (∀ w' staker, Run views R w w' → Raises w w' staker) ∧
    (∀ code : Code σ, code.Respects R → ∀ depth ctx c value w' staker,
      exec views code depth ctx c w = .ok value w' →
      (∀ key, key.staker = staker → ¬ c.Claims key) →
      getMaxProcessedDistribution w' staker = getMaxProcessedDistribution w staker) ∧
    ∀ key row, w.registry.registrations key = some row →
      ∃ pre post sponsor start oneClaim numClaims escrowed,
        w.log = pre ++ .registerForClaims key sponsor start oneClaim numClaims escrowed :: post ∧
        key ∉ creations post ∧ ∀ claim ∈ claimsFor key post,
          claim.before.nextClaimDistribution < row.nextClaimDistribution := by
  obtain ⟨base, hinv⟩ := h.inv
  have hidle := h.idle
  obtain ⟨stx, ext, hrun⟩ := h
  have hexact := recordExact_of_runs (Run.changes_of_deployed hrun)
  refine ⟨hexact, ?_, ?_, ?_, ?_⟩
  · intro staker
    rw [hexact staker, List.max?_eq_none_iff]
  · intro w' staker hrun'
    exact raises_of_runs (Run.changes hrun' hinv hidle) staker
  · intro code hcode depth ctx c value w' staker hexec hc
    refine ((exec_runs hcode hinv hidle depth ctx c).of_ok hexec).invariant
      (fun s => getMaxProcessedDistribution s staker = getMaxProcessedDistribution w staker) ?_ rfl
    intro l s s' hl hstep hs
    refine (hstep.recordStep.eq_of_not_claim ?_).trans hs
    intro key hkey hstaker
    subst hkey
    exact hc key hstaker (claims_of_permits hl)
  · intro key row hrow
    obtain ⟨pre, post, start, numClaims, escrowed, hlog, hpost, -, hpast⟩ :=
      origin_of_runs (Run.changes_of_deployed hrun) key row hrow
    exact ⟨pre, post, row.sponsor, start, row.oneClaimPerRewardCycle, numClaims, escrowed, hlog,
      hpost, hpast⟩

/-- One claim, of distribution 2. -/
theorem progress_record_claimed :
    getMaxProcessedDistribution Chain.claimed Chain.staker = some 2 ∧
      (processed Chain.staker Chain.claimed.log).max? = some 2 := by
  obtain ⟨hexact, -⟩ := progress_record ⟨_, _, Chain.run_claimed (R := fun _ _ => True) trivial⟩
  have hrecord : getMaxProcessedDistribution Chain.claimed Chain.staker = some 2 := by decide
  exact ⟨hrecord, (hexact Chain.staker).symm.trans hrecord⟩

end Spox.RewardClaims
