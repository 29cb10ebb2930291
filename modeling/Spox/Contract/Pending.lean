import Spox.Contract.Soundness
import Spox.Lib.Paging

/-!
# Reward claim registry — the list of pending claims

`get-pending-claims` walks the linked list of registrations from a cursor for
at most `PENDING_TICKS` nodes and answers with a row for each registration
that is pending, and with the first node it did not visit. In a reachable
world a page from any cursor the walk itself handed out is the next stretch of
the list (`getPendingClaims_page`).
-/

namespace Spox.RewardClaims

open Spox.Lib

variable {σ : Type} {views : Views σ} {R : σ → σ → Prop} {w : World σ}

/-! ## The walk -/

/-- A row of `get-pending-claims`. -/
structure PendingClaimRow where
  signerManager : Principal
  staker : Principal
  bondIndex : Option Nat
  rewardCycle : Nat
deriving DecidableEq, Repr

/-- The registration a row is about. -/
def PendingClaimRow.key (row : PendingClaimRow) : RegistrationKey :=
  ⟨row.staker, row.signerManager⟩

/-- The accumulator of `pending-claims-step`. -/
structure PendingClaimsWalk where
  node : Option RegistrationKey
  currentDistributionCycle : Nat
  lastComputeDistribution : Option Nat
  rows : List PendingClaimRow

/-- `as-max-len?`. -/
def asMaxLen {α : Type} (bound : Nat) (l : List α) : Option (List α) :=
  if l.length ≤ bound then some l else none

/-- `PENDING_TICKS`. -/
def pendingTicks : List Nat := List.replicate 100 0

/-- `pending-claims-step`. -/
def pendingClaimsStep (r : Registry) (acc : PendingClaimsWalk) (_tick : Nat) :
    PendingClaimsWalk :=
  match acc.node with
  | some key =>
      let nextNode := r.registrationLl.next key
      match r.registrations key with
      | some registration =>
          if isPending registration acc.currentDistributionCycle acc.lastComputeDistribution then
            { acc with
              node := nextNode
              rows := (asMaxLen 100 (acc.rows ++ [
                { signerManager := key.signerManager
                  staker := key.staker
                  bondIndex := registration.bondIndex
                  rewardCycle := registration.nextClaimDistribution / 2 }])).getD acc.rows }
          else { acc with node := nextNode }
      | none => { acc with node := nextNode }
  | none => acc

/-- `get-pending-claims`. -/
def getPendingClaims (views : Views σ) (w : World σ) (cursor : Option RegistrationKey) :
    Page RegistrationKey PendingClaimRow :=
  let start :=
    match cursor with
    | some cursorKey => some cursorKey
    | none => w.registry.registrationLl.head
  let walk := pendingTicks.foldl (pendingClaimsStep w.registry)
    { node := start
      currentDistributionCycle := views.currentDistributionCycle w.ext
      lastComputeDistribution := getLastRewardsComputeDistribution views w.ext
      rows := [] }
  ⟨walk.rows, walk.node⟩

/-! ## The walk as a walk of the library -/

/-- The row of a key, if its registration is pending. -/
def pendingRow (r : Registry) (cycle : Nat) (covered : Option Nat) (key : RegistrationKey) :
    Option PendingClaimRow :=
  match r.registrations key with
  | some registration =>
      if isPending registration cycle covered then
        some ⟨key.signerManager, key.staker, registration.bondIndex,
          registration.nextClaimDistribution / 2⟩
      else none
  | none => none

/-- What the library walk has of the accumulator. -/
def PendingClaimsWalk.walk (acc : PendingClaimsWalk) : Walk RegistrationKey PendingClaimRow :=
  ⟨acc.node, acc.rows⟩

section Walk

variable (r : Registry) (acc : PendingClaimsWalk)

theorem pendingClaimsStep_readings (tick : Nat) :
    (pendingClaimsStep r acc tick).currentDistributionCycle = acc.currentDistributionCycle ∧
      (pendingClaimsStep r acc tick).lastComputeDistribution = acc.lastComputeDistribution := by
  unfold pendingClaimsStep
  split
  · split
    · split <;> exact ⟨rfl, rfl⟩
    · exact ⟨rfl, rfl⟩
  · exact ⟨rfl, rfl⟩

theorem pendingClaimsStep_walk (tick : Nat) :
    (pendingClaimsStep r acc tick).walk =
      acc.walk.tick r.registrationLl.next
        (pendingRow r acc.currentDistributionCycle acc.lastComputeDistribution) 100 := by
  obtain ⟨node, cycle, covered, rows⟩ := acc
  cases node with
  | none => rfl
  | some key =>
      simp only [pendingClaimsStep, PendingClaimsWalk.walk, Walk.tick, pendingRow]
      cases r.registrations key with
      | none => rfl
      | some registration =>
          by_cases hpending : isPending registration cycle covered = true
          · simp only [if_pos hpending, appendWithin, asMaxLen]
            split <;> rfl
          · simp only [if_neg hpending]

theorem pendingClaims_fold (ticks : List Nat) :
    (ticks.foldl (pendingClaimsStep r) acc).walk =
      Walk.run r.registrationLl.next
        (pendingRow r acc.currentDistributionCycle acc.lastComputeDistribution) 100
        ticks.length acc.walk := by
  induction ticks generalizing acc with
  | nil => rfl
  | cons tick ticks ih =>
      obtain ⟨hcycle, hcovered⟩ := pendingClaimsStep_readings r acc tick
      rw [List.foldl_cons, ih, hcycle, hcovered, pendingClaimsStep_walk]
      rfl

end Walk

/-! ## Pages -/

/-- The row of a key in a world. -/
def pendingRowAt (views : Views σ) (w : World σ) (key : RegistrationKey) :
    Option PendingClaimRow :=
  pendingRow w.registry (views.currentDistributionCycle w.ext)
    (getLastRewardsComputeDistribution views w.ext) key

/-- **A page** from a cursor that leads to `ks` holds the pending ones of the
next hundred keys, and its cursor leads to the rest. -/
theorem getPendingClaims_page {cursor : Option RegistrationKey} {ks : List RegistrationKey}
    (h : Visits w.registry.registrationLl.next (cursor.or w.registry.registrationLl.head) ks) :
    getPendingClaims views w cursor =
      ⟨(ks.take 100).filterMap (pendingRowAt views w), (ks.drop 100).head?⟩ := by
  have hpage : getPendingClaims views w cursor =
      ⟨(pendingTicks.foldl (pendingClaimsStep w.registry)
          ⟨cursor.or w.registry.registrationLl.head, views.currentDistributionCycle w.ext,
            getLastRewardsComputeDistribution views w.ext, []⟩).walk.rows,
        (pendingTicks.foldl (pendingClaimsStep w.registry)
          ⟨cursor.or w.registry.registrationLl.head, views.currentDistributionCycle w.ext,
            getLastRewardsComputeDistribution views w.ext, []⟩).walk.node⟩ := by
    cases cursor with
    | none => simp only [getPendingClaims, PendingClaimsWalk.walk, Option.none_or]
    | some key => simp only [getPendingClaims, PendingClaimsWalk.walk, Option.some_or]
  have hlen : pendingTicks.length = 100 := List.length_replicate
  rw [hpage, pendingClaims_fold, hlen, Walk.run_visits h (by simp [PendingClaimsWalk.walk])]
  rfl

/-- The walk from the head visits the live registrations. -/
theorem Inv.visits {base : Nat} (hinv : Inv base w) :
    Visits w.registry.registrationLl.next w.registry.registrationLl.head (liveKeys w) :=
  hinv.list.visits

end Spox.RewardClaims
