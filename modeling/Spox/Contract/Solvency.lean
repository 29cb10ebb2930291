import Spox.Contract.History

/-!
# Reward claim registry — escrow solvency

The books of the contract, read off its log. Replaying the entries gives for
every key the escrow and the sponsor on record, and refuses an event that
pays out anything but what the escrow on record drops by. The ledger that
comes out is the contract's own map, and the balance is its total and what
was sent to the contract.
-/

namespace Spox.RewardClaims

open Spox.Lib

variable {σ : Type} {views : Views σ} {R : σ → σ → Prop} {base : Nat} {w w' : World σ}

/-! ## The ledger -/

/-- The escrow on record for a registration and whose it is. -/
structure Account where
  sponsor : Principal
  prepaid : Nat
deriving DecidableEq

abbrev Ledger : Type := RegistrationKey → Option Account

def Registration.account (row : Registration) : Account := ⟨row.sponsor, row.prepaidUstx⟩

/-- Enter an event. A cancellation must pay the whole escrow on record to the
sponsor on record; a claim must start from the escrow on record and leave no
more of it to the same sponsor. -/
def Ledger.apply (ledger : Ledger) : Event → Option Ledger
  | .registerForClaims key sponsor _ _ _ escrowed =>
      if ledger key = none then some (Function.update ledger key (some ⟨sponsor, escrowed⟩))
      else none
  | .addClaims key sponsor _ escrowed =>
      match ledger key with
      | some account =>
          if account.sponsor = sponsor then
            some (Function.update ledger key (some ⟨sponsor, account.prepaid + escrowed⟩))
          else none
      | none => none
  | .cancelRegistration key sponsor refund =>
      if ledger key = some ⟨sponsor, refund⟩ then some (Function.update ledger key none)
      else none
  | .claimed claim =>
      if ledger claim.key = some claim.before.account ∧
          ∀ row ∈ claim.after, row.sponsor = claim.before.sponsor ∧
            row.prepaidUstx ≤ claim.before.prepaidUstx then
        some (Function.update ledger claim.key (claim.after.map Registration.account))
      else none
  | _ => some ledger

/-- The escrow the rows record. -/
def ledger (rows : RegistrationKey → Option Registration) : Ledger := fun key =>
  (rows key).map Registration.account

theorem ledger_update (rows : RegistrationKey → Option Registration) (key : RegistrationKey)
    (value : Option Registration) :
    ledger (Function.update rows key value) =
      Function.update (ledger rows) key (value.map Registration.account) := by
  funext q
  by_cases hq : q = key
  · simp [ledger, hq]
  · simp [ledger, hq]

theorem consume_account (row : Registration) (cycle : Nat) :
    ∀ row' ∈ consume row cycle, row'.sponsor = row.sponsor ∧
      row'.prepaidUstx ≤ row.prepaidUstx := by
  intro row' h
  unfold consume at h
  split at h
  · simp at h
  · cases h
    exact ⟨rfl, Nat.sub_le _ _⟩

theorem Ledger.apply_idle (e : Event) (accounts : Ledger) (h : e.isIdle = true) :
    accounts.apply e = some accounts := by
  cases e <;> first | rfl | simp [Event.isIdle] at h

/-- The ledger follows every entry. -/
theorem Ledger.apply_entry (e : Event) (key : RegistrationKey)
    (before after : Option Registration) (rows : RegistrationKey → Option Registration)
    (h : Entry e key before after) (hbefore : rows key = before) :
    (ledger rows).apply e = some (ledger (Function.update rows key after)) := by
  have haccount : ledger rows key = before.map Registration.account := by
    simp [ledger, hbefore]
  rw [ledger_update]
  cases h with
  | register key row start hrow hstart =>
      simp [Ledger.apply, haccount, Registration.account]
  | addClaims key row numClaims escrowed hrow =>
      simp [Ledger.apply, haccount, Registration.account]
  | cancel key row hrow => simp [Ledger.apply, haccount, Registration.account]
  | claim key row cycle covered hrow hdue =>
      simp only [Ledger.apply]
      rw [if_pos ⟨haccount, consume_account row cycle⟩]

/-! ## Solvency -/

/-- What the escrow of a world satisfies: the balance is the recorded escrow
and what came from outside, every movement of the balance is one the ledger
calls for, and the ledger is the contract's own map. -/
structure Solvent (base : Nat) (w : World σ) : Prop where
  nodup : (liveKeys w).Nodup
  live : ∀ key, key ∈ liveKeys w ↔ (w.registry.registrations key).isSome = true
  balance : w.stx currentContract =
    base + received w.log + ((liveKeys w).map (prepaid w)).sum
  caused : movements w.log = causes w.log
  ledger : replay Ledger.apply (fun _ => none) w.log =
    some (RewardClaims.ledger w.registry.registrations)

/-- The two payments of the contract go through. -/
structure Pays (w : World σ) : Prop where
  burn : ∀ key row, w.registry.registrations key = some row → 0 < burnAmount row →
    stxBurn currentContract (burnAmount row) currentContract w =
      .ok () (w.burn (burnAmount row) currentContract)
  refund : ∀ key row, w.registry.registrations key = some row → 0 < row.prepaidUstx →
    stxTransfer currentContract row.prepaidUstx currentContract row.sponsor w =
      .ok () (w.move row.prepaidUstx currentContract row.sponsor)
  advance : ∀ key row cycle code w', w.registry.registrations key = some row →
    advanceRegistration key row cycle w ≠ .err code w'
  cancel : ∀ (ctx : Ctx) key row, w.registry.registrations key = some row →
    (ctx.txSender = key.staker ∨ ctx.txSender = row.sponsor) →
    cancelRegistrationImpl ctx key.staker key.signerManager w =
      .ok row.prepaidUstx (w.cancelled key row)

theorem Inv.pays (hinv : Inv base w) : Pays w where
  burn key row hrow hpos :=
    run_stxBurn hpos rfl ((burnAmount_le row).trans (hinv.prepaid_le hrow))
  refund key row hrow hpos :=
    run_stxTransfer hpos (Ne.symm (hinv.rows key row hrow).sponsor) rfl (hinv.prepaid_le hrow)
  advance key row cycle code w' hrow herr := by
    have hspec : Tx.wp (advanceRegistration key row cycle) w
        (fun _ w' => w' = w.advanced key row cycle) (fun _ _ => False) True :=
      advanceRegistration_spec hinv hrow cycle fun _ => trivial
    exact hspec.of_err herr
  cancel ctx key row hrow hauth := by
    rcases (cancelRegistrationImpl_spec hinv ctx key.staker key.signerManager).total with
      ⟨refund, w', hrun, row', hrow', -, rfl, rfl⟩ | ⟨code, w', -, -, hcode⟩
    · rw [hrow] at hrow'
      cases hrow'
      exact hrun
    · rcases hcode with ⟨-, hnone⟩ | ⟨-, row', hrow', hnot⟩
      · rw [hrow] at hnone
        cases hnone
      · rw [hrow] at hrow'
        cases hrow'
        exact absurd hauth hnot

/-- **Escrow solvency.** In every reachable world the balance of the contract
is the escrow of all live registrations and what was sent to it; every unit
that ever left was burned or paid to a sponsor as the escrow on record of a
registration dropped by it; and neither the burn of an installment nor a
refund can fail, in that world or between two business events of a call made
in it. -/
theorem escrow_solvency {stx : Principal → Nat} {ext : σ}
    (h : Run views R (.deployed stx ext) w) :
    Solvent (stx currentContract) w ∧
      ∀ v, Runs (Change views R) (fun _ => True) w v → Pays v := by
  have hinv := Run.inv h
  obtain ⟨hcaused, hledger⟩ := replay_of_runs ledger
    (Run.changes_of_deployed h) Ledger.apply_idle Ledger.apply_entry
  exact ⟨⟨liveKeys_nodup, fun key => hinv.mem_liveKeys, hinv.solvent, hcaused, hledger⟩,
    fun v hv => (hinv.runs hv).pays⟩

/-- One of three registrations is cancelled: its 10000 micro-STX went back, the
50000 of the other two are held. -/
theorem escrow_solvency_thinned :
    liveKeys Chain.thinned = [Chain.key, Chain.keyOf Chain.latecomer] ∧
      Chain.thinned.stx currentContract = 50000 ∧ Solvent 0 Chain.thinned ∧
      ∀ v, Runs (Change Chain.views fun _ _ => True) (fun _ => True) Chain.thinned v →
        Pays v :=
  ⟨by decide, by decide, escrow_solvency (Chain.run_thinned (R := fun _ _ => True))⟩

end Spox.RewardClaims
