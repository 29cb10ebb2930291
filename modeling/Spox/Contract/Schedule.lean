import Spox.Contract.History
import Spox.Lib.Timetable

/-!
# Reward claim registry — the claim schedule

The claims of one registration, from its creation until its key is
registered anew, follow a timetable: they start at `scheduleStart` and each
one leads to `scheduleNext` of its own distribution. The law of either
cadence is a fact about such timetables; nothing is assumed about the clock
or the keeper.
-/

namespace Spox.RewardClaims

open Spox.Lib

variable {σ : Type} {views : Views σ} {R : σ → σ → Prop} {w : World σ}

/-! ## One lifetime -/

/-- The reward cycle a claim is for. -/
def Claim.rewardCycle (claim : Claim) : Nat := claim.before.nextClaimDistribution / 2

/-- The distribution a claim is for and the distribution cycle at the time. -/
def Claim.visit (claim : Claim) : Nat × Nat :=
  (claim.before.nextClaimDistribution, claim.currentDistributionCycle)

/-- The claims for a key in the events up to its next registration. -/
def lifetime (key : RegistrationKey) (log : List Event) : List Claim :=
  (claims (log.takeWhile fun e => e.created ≠ some key)).filter (·.key = key)

section Lifetime

variable {key : RegistrationKey} {log : List Event} {e : Event}

theorem lifetime_nil : lifetime key [] = [] := rfl

theorem lifetime_created (h : e.created = some key) : lifetime key (e :: log) = [] := by
  simp [lifetime, h, claims]

theorem lifetime_claimed {claim : Claim} (h : claim.key = key) :
    lifetime key (.claimed claim :: log) = claim :: lifetime key log := by
  simp [lifetime, Event.created, claims, Event.claim, h]

theorem lifetime_skip (hcreated : e.created ≠ some key)
    (hclaim : ∀ claim, e = .claimed claim → claim.key ≠ key) :
    lifetime key (e :: log) = lifetime key log := by
  rw [lifetime, List.takeWhile_cons_of_pos (by simpa using hcreated), lifetime]
  cases hread : e.claim with
  | none => simp [claims, hread]
  | some claim =>
      have he : e = .claimed claim := by
        cases e <;> simp_all [Event.claim]
      simp [claims, hread, hclaim claim he]

end Lifetime

/-! ## The timetable the log keeps -/

/-- Where a live registration stands: its cadence and its next distribution. -/
abbrev Timetable : Type := RegistrationKey → Option (Bool × Nat)

def Registration.slot (row : Registration) : Bool × Nat :=
  (row.oneClaimPerRewardCycle, row.nextClaimDistribution)

/-- Enter an event. A claim must be for the distribution the registration
stands at, which must have ended, and move it as `next-claim-after` says. -/
def Timetable.apply (timetable : Timetable) : Event → Option Timetable
  | .registerForClaims key _ start oneClaim _ _ =>
      some (Function.update timetable key (some (oneClaim, scheduleStart start oneClaim)))
  | .cancelRegistration key _ _ => some (Function.update timetable key none)
  | .claimed claim =>
      if timetable claim.key = some claim.before.slot ∧
          claim.before.nextClaimDistribution < claim.currentDistributionCycle ∧
          claim.after = consume claim.before claim.currentDistributionCycle then
        some (Function.update timetable claim.key (claim.after.map Registration.slot))
      else none
  | _ => some timetable

/-- Where the rows stand. -/
def timetable (rows : RegistrationKey → Option Registration) : Timetable := fun key =>
  (rows key).map Registration.slot

theorem timetable_update (rows : RegistrationKey → Option Registration)
    (key : RegistrationKey) (value : Option Registration) :
    timetable (Function.update rows key value) =
      Function.update (timetable rows) key (value.map Registration.slot) := by
  funext q
  by_cases hq : q = key
  · simp [timetable, hq]
  · simp [timetable, hq]

theorem Timetable.apply_idle (e : Event) (t : Timetable) (h : e.isIdle = true) :
    t.apply e = some t := by
  cases e <;> first | rfl | simp [Event.isIdle] at h

/-- The timetable follows every entry. -/
theorem Timetable.apply_entry (e : Event) (key : RegistrationKey)
    (before after : Option Registration) (rows : RegistrationKey → Option Registration)
    (h : Entry e key before after) (hbefore : rows key = before) :
    (timetable rows).apply e = some (timetable (Function.update rows key after)) := by
  have hslot : timetable rows key = before.map Registration.slot := by
    simp [timetable, hbefore]
  rw [timetable_update]
  cases h with
  | register key row start hrow hstart =>
      simp [Timetable.apply, Registration.slot, hstart]
  | addClaims key row numClaims escrowed hrow =>
      simp only [Timetable.apply, Option.map_some]
      rw [Function.update_eq_self_iff.mpr]
      rw [hslot]
      rfl
  | cancel key row hrow => rfl
  | claim key row cycle covered hrow hdue =>
      simp only [isPending, Bool.and_eq_true, decide_eq_true_eq] at hdue
      simp only [Timetable.apply]
      rw [if_pos ⟨hslot, hdue.1, trivial⟩]

/-- An event that neither creates nor claims a registration leaves its slot
or ends it. -/
theorem Timetable.apply_other {key : RegistrationKey} {e : Event} {t t₁ : Timetable}
    (happly : t.apply e = some t₁) (hcreated : e.created ≠ some key)
    (hclaim : ¬ ∃ claim, e = .claimed claim ∧ claim.key = key) :
    t₁ key = t key ∨ t₁ key = none := by
  cases e with
  | registerForClaims q =>
      simp only [Timetable.apply, Option.some.injEq] at happly
      subst happly
      refine .inl (Function.update_of_ne ?_ _ _)
      intro hq
      exact hcreated (congrArg some hq.symm)
  | cancelRegistration q =>
      simp only [Timetable.apply, Option.some.injEq] at happly
      subst happly
      by_cases hq : key = q
      · exact .inr (by simp [hq])
      · exact .inl (Function.update_of_ne hq _ _)
  | claimed claim =>
      simp only [Timetable.apply, Option.ite_none_right_eq_some, Option.some.injEq] at happly
      obtain ⟨-, rfl⟩ := happly
      refine .inl (Function.update_of_ne ?_ _ _)
      exact fun hq => hclaim ⟨claim, rfl, hq.symm⟩
  | _ =>
      simp only [Timetable.apply, Option.some.injEq] at happly
      exact .inl (by rw [happly])

/-- What a log that the timetable accepts says about the claims for a key. -/
theorem lifetime_follows {key : RegistrationKey} {log : List Event} {t t' : Timetable}
    (h : replay Timetable.apply t log = some t') :
    (t key = none → lifetime key log = []) ∧
      ∀ oneClaim d, t key = some (oneClaim, d) →
        Follows (fun d now => scheduleNext d oneClaim now) d
          ((lifetime key log).map Claim.visit) ∧
        ∀ claim ∈ lifetime key log,
          claim.before.nextClaimDistribution < claim.currentDistributionCycle := by
  induction log generalizing t with
  | nil => simp [lifetime_nil, Follows]
  | cons e log ih =>
      rw [replay_cons] at h
      obtain ⟨t₁, happly, h⟩ := Option.bind_eq_some_iff.mp h
      by_cases hcreated : e.created = some key
      · simp [lifetime_created hcreated, Follows]
      by_cases hclaim : ∃ claim, e = .claimed claim ∧ claim.key = key
      · -- a claim for the key: the timetable checks it and moves on
        obtain ⟨claim, rfl, rfl⟩ := hclaim
        simp only [Timetable.apply, Option.ite_none_right_eq_some] at happly
        obtain ⟨⟨hslot, hended, hafter⟩, happly⟩ := happly
        cases happly
        rw [lifetime_claimed rfl]
        refine ⟨fun hnone => by simp [hnone] at hslot, fun oneClaim d hd => ?_⟩
        rw [hd] at hslot
        simp only [Option.some.injEq, Registration.slot, Prod.mk.injEq] at hslot
        obtain ⟨rfl, rfl⟩ := hslot
        have hrest := ih h
        rw [Function.update_self, hafter] at hrest
        by_cases hlast : claim.before.remainingClaims ≤ 1
        · rw [hrest.1 (by simp [consume, hlast])]
          exact ⟨⟨rfl, trivial⟩, by simpa using hended⟩
        · obtain ⟨hfollows, hall⟩ := hrest.2 claim.before.oneClaimPerRewardCycle
            (scheduleNext claim.before.nextClaimDistribution
              claim.before.oneClaimPerRewardCycle claim.currentDistributionCycle)
            (by simp [consume, hlast, Registration.slot])
          exact ⟨⟨rfl, hfollows⟩, by simpa using ⟨hended, hall⟩⟩
      · -- any other event: at most the key's registration ends
        have hskip : lifetime key (e :: log) = lifetime key log :=
          lifetime_skip hcreated fun claim he hkey => hclaim ⟨claim, he, hkey⟩
        rw [hskip]
        have hkeep := Timetable.apply_other happly hcreated hclaim
        obtain ⟨hnone, hsome⟩ := ih h
        rcases hkeep with hkeep | hgone
        · rw [hkeep] at hnone hsome
          exact ⟨hnone, hsome⟩
        · rw [hnone hgone]
          simp [Follows]

/-- The claims of a lifetime follow its schedule, each for a distribution
that has ended. -/
theorem lifetime_of_runs {stx : Principal → Nat} {ext : σ}
    (h : Runs (Change views R) (fun _ => True) (.deployed stx ext) w)
    {pre post : List Event} {key : RegistrationKey} {sponsor : Principal} {start : Nat}
    {oneClaim : Bool} {numClaims escrowed : Nat}
    (hlog : w.log =
      pre ++ .registerForClaims key sponsor start oneClaim numClaims escrowed :: post) :
    Follows (fun d now => scheduleNext d oneClaim now) (scheduleStart start oneClaim)
        ((lifetime key post).map Claim.visit) ∧
      ∀ claim ∈ lifetime key post,
        claim.before.nextClaimDistribution < claim.currentDistributionCycle := by
  have hreplay := (replay_of_runs timetable h Timetable.apply_idle Timetable.apply_entry).2
  rw [hlog, replay_append] at hreplay
  obtain ⟨t, -, hreplay⟩ := Option.bind_eq_some_iff.mp hreplay
  rw [replay_cons] at hreplay
  obtain ⟨t₁, happly, hreplay⟩ := Option.bind_eq_some_iff.mp hreplay
  simp only [Timetable.apply, Option.some.injEq] at happly
  subst happly
  exact (lifetime_follows hreplay).2 oneClaim _ (by simp)

/-! ## The law of either cadence -/

/-- At most once in each reward cycle: consecutive cycles, each on its second
half. -/
structure SlowLaw (start : Nat) (lifetime : List Claim) : Prop where
  cycles : lifetime.map Claim.rewardCycle = List.range' start lifetime.length
  odd : ∀ claim ∈ lifetime, claim.before.nextClaimDistribution % 2 = 1

/-- Up to twice in each reward cycle: no cycle is skipped, and one that is
claimed once and left behind had fully elapsed. -/
structure FastLaw (start : Nat) (lifetime : List Claim) : Prop where
  first : ∀ claim ∈ lifetime.head?, claim.rewardCycle = start
  next : (lifetime.map Claim.rewardCycle).IsChain fun r r' => r' = r ∨ r' = r + 1
  twice : ∀ r, (lifetime.map Claim.rewardCycle).count r ≤ 2
  increasing : (lifetime.map fun claim => claim.before.nextClaimDistribution).Pairwise (· < ·)
  once : ∀ claim ∈ lifetime,
    (lifetime.map Claim.rewardCycle).getLast? ≠ some claim.rewardCycle →
    (lifetime.map Claim.rewardCycle).count claim.rewardCycle = 1 →
    2 * claim.rewardCycle + 1 < claim.currentDistributionCycle

section Law

variable {start : Nat} {cs : List Claim}

theorem rewardCycle_eq_map (cs : List Claim) :
    cs.map Claim.rewardCycle = ((cs.map Claim.visit).map Prod.fst).map (· / 2) := by
  simp [Claim.rewardCycle, Claim.visit]

theorem slowLaw_of_follows
    (h : Follows (fun d now => scheduleNext d true now) (scheduleStart start true)
      (cs.map Claim.visit)) : SlowLaw start cs := by
  have hrange : (cs.map Claim.visit).map Prod.fst =
      List.range' (2 * start + 1) cs.length 2 := by
    simpa [scheduleStart, claimStep] using
      h.eq_range' (n := 2) fun d now => by simp [scheduleNext]
  constructor
  · rw [rewardCycle_eq_map, hrange, map_half_range']
  · intro claim hclaim
    have hmem : claim.before.nextClaimDistribution ∈ (cs.map Claim.visit).map Prod.fst :=
      List.mem_map_of_mem (f := Prod.fst) (List.mem_map_of_mem (f := Claim.visit) hclaim)
    rw [hrange, List.mem_range'] at hmem
    obtain ⟨i, -, hi⟩ := hmem
    omega

/-- A fast claim of an ended distribution stays in its cycle only when the
cycle has not fully elapsed, and else goes to the next one. -/
theorem scheduleNext_fast {d now : Nat} (hended : d < now) :
    (scheduleNext d false now = d + 1 ∧ d % 2 = 0 ∧ now ≤ d + 1) ∨
      (scheduleNext d false now / 2 = d / 2 + 1 ∧ 2 * (d / 2) + 1 < now) := by
  simp only [scheduleNext, Bool.false_eq_true, if_false]
  split
  · next hlate => exact .inr ⟨by omega, hlate⟩
  · next hearly => exact .inl ⟨rfl, by omega, by omega⟩

/-- A cycle that is claimed once and left behind had fully elapsed: its second
half would have followed. -/
theorem elapsed_of_claimed_once {claim : Claim}
    (h : Follows (fun d now => scheduleNext d false now) start (cs.map Claim.visit))
    (hclaim : claim ∈ cs)
    (hended : claim.before.nextClaimDistribution < claim.currentDistributionCycle)
    (hlast : (cs.map Claim.rewardCycle).getLast? ≠ some claim.rewardCycle)
    (honce : (cs.map Claim.rewardCycle).count claim.rewardCycle = 1) :
    2 * claim.rewardCycle + 1 < claim.currentDistributionCycle := by
  obtain ⟨before, rest, rfl⟩ := List.append_of_mem hclaim
  cases rest with
  | nil => simp at hlast
  | cons second rest =>
      have hstep : second.before.nextClaimDistribution =
          scheduleNext claim.before.nextClaimDistribution false
            claim.currentDistributionCycle := by
        rw [List.map_append, List.map_cons, List.map_cons] at h
        exact h.next_of_split
      rcases scheduleNext_fast hended with ⟨hnext, heven, -⟩ | ⟨-, helapsed⟩
      · -- the second half follows, so the cycle occurs twice
        have hsame : second.rewardCycle = claim.rewardCycle := by
          simp only [Claim.rewardCycle]
          omega
        have htwice : 2 ≤ ((before ++ claim :: second :: rest).map
            Claim.rewardCycle).count claim.rewardCycle := by
          simp only [List.map_append, List.map_cons, List.count_append, List.count_cons,
            hsame, beq_self_eq_true, if_true]
          omega
        omega
      · exact helapsed

theorem fastLaw_of_follows
    (h : Follows (fun d now => scheduleNext d false now) (scheduleStart start false)
      (cs.map Claim.visit))
    (hended : ∀ claim ∈ cs,
      claim.before.nextClaimDistribution < claim.currentDistributionCycle) :
    FastLaw start cs := by
  have hlt := h.pairwise_lt fun d now => lt_scheduleNext d false now
  have hvisits : ∀ visit ∈ cs.map Claim.visit, visit.1 < visit.2 := by
    intro visit hvisit
    obtain ⟨claim, hclaim, rfl⟩ := List.mem_map.mp hvisit
    exact hended claim hclaim
  constructor
  · intro claim hclaim
    cases cs with
    | nil => simp at hclaim
    | cons first rest =>
        simp only [List.head?_cons, Option.mem_def, Option.some.injEq] at hclaim
        subst hclaim
        have hfirst := h.1
        simp only [Claim.visit, scheduleStart, claimStep] at hfirst
        simp only [Claim.rewardCycle]
        simp at hfirst
        omega
  · rw [rewardCycle_eq_map, List.isChain_map]
    refine h.isChain fun visit hvisit => ?_
    rcases scheduleNext_fast (hvisits visit hvisit) with ⟨hstep, -⟩ | ⟨hstep, -⟩ <;> omega
  · intro r
    rw [rewardCycle_eq_map]
    exact count_half_le_two hlt r
  · simpa [Claim.visit, List.map_map, Function.comp_def] using hlt
  · intro claim hclaim hlast honce
    exact elapsed_of_claimed_once h hclaim (hended claim hclaim) hlast honce

end Law

/-- The seed of a slow schedule is odd and each step keeps it so. -/
theorem Entry.odd {e : Event} {key : RegistrationKey} {before after : Option Registration}
    (h : Entry e key before after)
    (hbefore : ∀ row, before = some row → row.oneClaimPerRewardCycle = true →
      row.nextClaimDistribution % 2 = 1) :
    ∀ row, after = some row → row.oneClaimPerRewardCycle = true →
      row.nextClaimDistribution % 2 = 1 := by
  intro row hrow hslow
  cases h with
  | register key row start hok hstart =>
      cases hrow
      rw [hstart, scheduleStart, hslow, claimStep]
      simp
  | addClaims key row numClaims escrowed hok =>
      cases hrow
      exact hbefore row rfl hslow
  | cancel key row hok => cases hrow
  | claim key row cycle covered hok hdue =>
      unfold consume at hrow
      split at hrow
      · cases hrow
      · cases hrow
        have hodd := hbefore row rfl hslow
        have hslow' : row.oneClaimPerRewardCycle = true := hslow
        simp only [scheduleNext, hslow', if_true]
        omega

/-- **The claim schedule law.** Take any registration in the log of a
reachable world and the claims for it until its key is registered again. On
the slow cadence they go through consecutive reward cycles from the start
cycle on, on odd distributions; on the fast one they start there, never skip
a cycle, never return, and visit none more than twice. No claim is for a
distribution that has not ended, and a live slow registration always stands
at an odd one. -/
theorem claim_schedule_law (h : Reachable views R w) :
    (∀ pre post key sponsor start oneClaim numClaims escrowed,
      w.log = pre ++ .registerForClaims key sponsor start oneClaim numClaims escrowed :: post →
      (oneClaim = true → SlowLaw start (lifetime key post)) ∧
      (oneClaim = false → FastLaw start (lifetime key post)) ∧
      ∀ claim ∈ lifetime key post,
        claim.before.nextClaimDistribution < claim.currentDistributionCycle) ∧
    ∀ key row, w.registry.registrations key = some row → row.oneClaimPerRewardCycle = true →
      row.nextClaimDistribution % 2 = 1 := by
  obtain ⟨stx, ext, hrun⟩ := h
  have hruns := Run.changes_of_deployed hrun
  refine ⟨?_, (rows_of_runs (fun _ row => row.oneClaimPerRewardCycle = true →
    row.nextClaimDistribution % 2 = 1) (fun _ _ _ _ hentry hbefore =>
      hentry.odd hbefore) hruns).1⟩
  intro pre post key sponsor start oneClaim numClaims escrowed hlog
  obtain ⟨hfollows, hended⟩ := lifetime_of_runs hruns hlog
  refine ⟨?_, ?_, hended⟩
  · rintro rfl
    exact slowLaw_of_follows hfollows
  · rintro rfl
    exact fastLaw_of_follows hfollows hended

theorem claim_schedule_law_claimed :
    ∃ pre post, Chain.claimed.log =
        pre ++ .registerForClaims Chain.key Chain.staker 1 false 3 30000 :: post ∧
      (lifetime Chain.key post).length = 1 ∧ FastLaw 1 (lifetime Chain.key post) := by
  obtain ⟨hlaw, -⟩ :=
    claim_schedule_law ⟨_, _, Chain.run_claimed (R := fun _ _ => True) trivial⟩
  have hlog : Chain.claimed.log = Chain.claimed.log.take 1 ++
      .registerForClaims Chain.key Chain.staker 1 false 3 30000 ::
        Chain.claimed.log.drop 2 := by decide
  exact ⟨_, _, hlog, by decide, (hlaw _ _ _ _ _ _ _ _ hlog).2.1 rfl⟩

/-! ## Coverage -/

/-- The claim moves past the second half of reward cycle `r`, which the
registration then never claims again. -/
def Claim.LeavesBehind (claim : Claim) (r : Nat) : Prop :=
  ∃ row, claim.after = some row ∧ claim.before.nextClaimDistribution ≤ 2 * r + 1 ∧
    2 * r + 1 < row.nextClaimDistribution

/-- At the time of the claim `calculate-rewards` had covered `distribution`. -/
def Claim.Covers (claim : Claim) (distribution : Nat) : Prop :=
  rewardsCalculatedForClaimDistribution distribution claim.lastComputeDistribution = true

instance (claim : Claim) (distribution : Nat) : Decidable (claim.Covers distribution) :=
  inferInstanceAs (Decidable (_ = true))

/-- The catch-up case of `next-claim-after` on rewards that are not there yet:
the first half of a reward cycle is claimed with installments left, time is
past the second half, and `calculate-rewards` is not. -/
def Claim.JumpsAhead (claim : Claim) : Prop :=
  claim.before.oneClaimPerRewardCycle = false ∧
    claim.before.nextClaimDistribution % 2 = 0 ∧
    1 < claim.before.remainingClaims ∧
    claim.before.nextClaimDistribution + 1 < claim.currentDistributionCycle ∧
    ¬ claim.Covers (claim.before.nextClaimDistribution + 1)

/-- One claim: exactly the jump ahead leaves uncovered rewards behind. -/
theorem coverage_consume (key : RegistrationKey) {row : Registration} {cycle : Nat}
    {covered : Option Nat} (hdue : isPending row cycle covered = true)
    (hodd : row.oneClaimPerRewardCycle = true → row.nextClaimDistribution % 2 = 1)
    (claim : Claim) (hclaim : claim = ⟨key, row, consume row cycle, cycle, covered⟩) :
    (∀ r, claim.LeavesBehind r → claim.Covers (2 * r + 1)) ↔ ¬ claim.JumpsAhead := by
  subst hclaim
  simp only [isPending, Bool.and_eq_true, decide_eq_true_eq] at hdue
  obtain ⟨hended, hcovered⟩ := hdue
  simp only [Claim.LeavesBehind, Claim.Covers, Claim.JumpsAhead]
  constructor
  · intro hcovers hskipped
    obtain ⟨hfast, heven, hmore, hlate, hnot⟩ := hskipped
    have hround : 2 * (row.nextClaimDistribution / 2) + 1 = row.nextClaimDistribution + 1 := by
      omega
    have hnext : scheduleNext row.nextClaimDistribution row.oneClaimPerRewardCycle cycle =
        2 * (row.nextClaimDistribution / 2 + 1) := by
      simp only [scheduleNext, hfast, Bool.false_eq_true, if_false]
      exact if_pos (by omega)
    refine hnot (hround ▸ hcovers (row.nextClaimDistribution / 2)
      ⟨_, if_neg (Nat.not_le_of_lt hmore), ?_, ?_⟩)
    · omega
    · simp only [hnext]
      omega
  · intro hjump r hskipped
    obtain ⟨row', hafter, hle, hlt⟩ := hskipped
    simp only [consume] at hafter
    split at hafter
    · cases hafter
    · next hmore =>
        cases hafter
        simp only at hle hlt
        by_cases hhalf : row.nextClaimDistribution = 2 * r + 1
        · exact hhalf ▸ hcovered
        -- the claimed distribution is the first half of cycle `r`
        by_cases hslow : row.oneClaimPerRewardCycle = true
        · have := hodd hslow
          simp only [scheduleNext, hslow, if_true] at hlt
          omega
        · have hfast : row.oneClaimPerRewardCycle = false := by simpa using hslow
          simp only [scheduleNext, hfast, Bool.false_eq_true, if_false] at hlt
          split at hlt
          · next hlate =>
              have heven : row.nextClaimDistribution = 2 * r := by omega
              by_contra hnot
              exact hjump ⟨hfast, by omega, by omega, by omega, by simpa only [heven] using hnot⟩
          · omega

/-- **No second half is left behind before it is computed**, except by the
catch-up jump: a successful claim in any run moves past the second half of a
reward cycle only with `calculate-rewards` past it, if and only if the claim
is not a jump ahead. -/
theorem claim_coverage (h : Reachable views R w) :
    ∀ claim ∈ claims w.log,
      (∀ r, claim.LeavesBehind r → claim.Covers (2 * r + 1)) ↔ ¬ claim.JumpsAhead := by
  obtain ⟨stx, ext, hrun⟩ := h
  obtain ⟨-, hevents⟩ := rows_of_runs (fun _ row => row.oneClaimPerRewardCycle = true →
    row.nextClaimDistribution % 2 = 1) (fun _ _ _ _ hentry hbefore => hentry.odd hbefore)
    (Run.changes_of_deployed hrun)
  intro claim hclaim
  obtain ⟨e, he, hread⟩ := List.mem_filterMap.mp hclaim
  have hevent : e = .claimed claim := by
    cases e <;> simp_all [Event.claim]
  subst hevent
  rcases hevents _ he with hidle | ⟨key, before, after, hentry, hodd⟩
  · simp [Event.isIdle] at hidle
  · cases hentry with
    | claim key row cycle covered hrow hdue =>
        exact coverage_consume key hdue (hodd row rfl) _ rfl

theorem claim_coverage_claimed :
    (claims Chain.claimed.log).length = 1 ∧ ∀ claim ∈ claims Chain.claimed.log,
      (∀ r, claim.LeavesBehind r → claim.Covers (2 * r + 1)) ↔ ¬ claim.JumpsAhead :=
  ⟨by decide, claim_coverage ⟨_, _, Chain.run_claimed (R := fun _ _ => True) trivial⟩⟩

/-- The first half of cycle 1, claimed in distribution cycle 4 with rewards
computed through 2. -/
def Chain.firstClaim : Claim where
  key := Chain.key
  before := ⟨none, 3, false, 2, 30000, Chain.staker⟩
  after := some ⟨none, 2, false, 4, 20000, Chain.staker⟩
  currentDistributionCycle := 4
  lastComputeDistribution := some 2

/-- Its schedule jumps to 4, so distribution 3 is left behind uncovered. -/
theorem claim_coverage_fails :
    ¬ ∀ (w : World Chain), Reachable Chain.views (fun _ _ => True) w →
      ∀ claim ∈ claims w.log, ∀ r, claim.LeavesBehind r → claim.Covers (2 * r + 1) := by
  intro hall
  have hmem : Chain.firstClaim ∈ claims Chain.claimed.log := by decide
  have hclaim := hall Chain.claimed ⟨_, _, Chain.run_claimed trivial⟩ _ hmem 1
  exact absurd (hclaim ⟨_, rfl, by decide, by decide⟩) (by decide)

end Spox.RewardClaims
