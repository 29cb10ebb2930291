import Spox.Contract.Authority
import Spox.Contract.Batches
import Spox.Lib.Installments

/-!
# Reward claim registry — the burn of an installment

Each claim burns the rounded down share of the escrow that is left, the last
one all of it. As long as nobody adds claims to a registration or cancels it,
its burns are therefore the installments of its escrow, in order, whatever
else happens in between and whoever claims; and a cancel refunds what they
leave.
-/

namespace Spox.RewardClaims

open Spox.Lib

variable {σ : Type} {views : Views σ} {R : σ → σ → Prop} {base : Nat} {w w' : World σ}

/-- The registration an event creates, tops up or cancels. -/
def Event.managed : Event → Option RegistrationKey
  | .registerForClaims key .. => some key
  | .addClaims key .. => some key
  | .cancelRegistration key .. => some key
  | _ => none

/-- What the claims for a key have burned, oldest first. -/
def burned (key : RegistrationKey) (log : List Event) : List Nat :=
  (claimsFor key log).map Claim.released

theorem burned_append (key : RegistrationKey) (l l' : List Event) :
    burned key (l ++ l') = burned key l ++ burned key l' := by
  rw [burned, claimsFor_append, List.map_append, burned, burned]

/-- The burns that are still to come. -/
def burnsLeft : Option Registration → List Nat
  | some row => installments row.prepaidUstx row.remainingClaims
  | none => []

/-- A claim makes the next of them. -/
theorem burnsLeft_consume {row : Registration} (hpos : 1 ≤ row.remainingClaims) (cycle : Nat) :
    burnsLeft (some row) = burnAmount row :: burnsLeft (consume row cycle) := by
  obtain ⟨bond, remaining, oneClaim, next, prepaid, sponsor⟩ := row
  have hpos : 1 ≤ remaining := hpos
  rcases Nat.lt_or_eq_of_le hpos with hmore | rfl
  · have hnot : ¬ remaining ≤ 1 := by omega
    obtain ⟨left, rfl⟩ : ∃ left, remaining = left + 1 := ⟨remaining - 1, by omega⟩
    simp only [burnsLeft, installments, burnAmount, consume, if_neg hnot, Nat.add_sub_cancel]
  · simp only [burnsLeft, installments, burnAmount, consume, Nat.le_refl, if_true, Nat.zero_add,
      Nat.div_one]

theorem Entry.of_not_managed {e : Event} {q : RegistrationKey}
    {before after : Option Registration} (h : Entry e q before after)
    (hmanaged : e.managed ≠ some q) :
    ∃ row cycle covered, e = .claimed ⟨q, row, consume row cycle, cycle, covered⟩ ∧
      before = some row ∧ after = consume row cycle ∧ 1 ≤ row.remainingClaims := by
  cases h with
  | register => exact absurd rfl hmanaged
  | addClaims => exact absurd rfl hmanaged
  | cancel => exact absurd rfl hmanaged
  | claim _ row cycle covered hrow => exact ⟨row, cycle, covered, rfl, rfl, rfl, hrow.remaining⟩

/-- The burns of one step come off those that were left. -/
theorem Recorded.burns (h : Recorded w w') (key : RegistrationKey) :
    ∃ es, w'.log = w.log ++ es ∧ movements es = causes es ∧
      ((∀ e ∈ es, e.managed ≠ some key) →
        burnsLeft (w.registry.registrations key) =
          burned key es ++ burnsLeft (w'.registry.registrations key)) := by
  cases h with
  | idle es hlog hidle hcauses hmap =>
      refine ⟨es, hlog, hcauses, ?_⟩
      intro _
      rw [burned, claimsFor, (readings_idle hidle).2, hmap]
      rfl
  | entry es e q before after hlog hidle hcauses hentry hbefore hmap =>
      refine ⟨es ++ [e], hlog, hcauses, ?_⟩
      intro hes
      have hskip : burned key es = [] := by
        rw [burned, claimsFor, (readings_idle hidle).2]
        rfl
      rw [burned_append, hskip, List.nil_append, hmap]
      by_cases hkey : key = q
      · subst hkey
        obtain ⟨row, cycle, covered, rfl, rfl, rfl, hpos⟩ :=
          hentry.of_not_managed (hes e (by simp))
        rw [hbefore, Function.update_self, burnsLeft_consume hpos cycle,
          ← released_consume key row cycle covered]
        simp [burned, claimsFor, Event.claim]
      · rw [burned, (hentry.other hkey).2, Function.update_of_ne hkey]
        rfl

theorem burns_of_runs (hinv : Inv base w) (h : Runs (Change views R) (fun _ => True) w w')
    (key : RegistrationKey) :
    ∃ es, w'.log = w.log ++ es ∧ movements es = causes es ∧
      ((∀ e ∈ es, e.managed ≠ some key) →
        burnsLeft (w.registry.registrations key) =
          burned key es ++ burnsLeft (w'.registry.registrations key)) := by
  induction h with
  | refl => exact ⟨[], by simp, rfl, fun _ => rfl⟩
  | tail hruns hlast ih =>
      obtain ⟨l, -, hchange⟩ := hlast
      obtain ⟨es, hlog, hcauses, hes⟩ := ih
      obtain ⟨es', hlog', hcauses', hes'⟩ := (hchange.recorded (hinv.runs hruns)).burns key
      refine ⟨es ++ es', by rw [hlog', hlog, List.append_assoc], by simp [hcauses, hcauses'], ?_⟩
      intro hall
      rw [hes fun e he => hall e (List.mem_append_left es' he),
        hes' fun e he => hall e (List.mem_append_right es he), burned_append, List.append_assoc]

/-! ## Fairness -/

/-- Nothing is left to burn exactly if the registration is gone. -/
theorem burnsLeft_length_eq_zero (hinv : Inv base w) (key : RegistrationKey) :
    (burnsLeft (w.registry.registrations key)).length = 0 ↔
      w.registry.registrations key = none := by
  cases hrow : w.registry.registrations key with
  | none => exact ⟨fun _ => rfl, fun _ => rfl⟩
  | some row =>
      have hlen := length_installments row.prepaidUstx row.remainingClaims
      have hpos := (hinv.rows key row hrow).remaining
      rw [burnsLeft, hlen]
      constructor
      · intro hzero
        omega
      · intro hnone
        cases hnone

/-- A row that was not registered anew has kept its sponsor. -/
theorem sponsor_of_not_managed (hinv : Inv base w)
    (h : Runs (Change views R) (fun _ => True) w w') {key : RegistrationKey}
    {row row' : Registration} (hrow : w.registry.registrations key = some row)
    (hrow' : w'.registry.registrations key = some row') {es : List Event}
    (hlog : w'.log = w.log ++ es) (hes : ∀ e ∈ es, e.managed ≠ some key) :
    row'.sponsor = row.sponsor := by
  have hcreated : key ∉ creations es := by
    intro hmem
    obtain ⟨e, he, hcreated⟩ := List.mem_filterMap.mp hmem
    refine hes e he ?_
    cases e <;> first | exact hcreated | cases hcreated
  obtain ⟨es', hlog', hterms⟩ := terms_of_runs hinv h key
  have hsame : es' = es := List.append_cancel_left (hlog'.symm.trans hlog)
  subst hsame
  obtain ⟨row₀, hrow₀, hsponsor, -, -⟩ := hterms hcreated row' hrow'
  rw [hrow] at hrow₀
  cases hrow₀
  exact hsponsor

/-- A cancel in a reachable world refunds the escrow of the row. -/
theorem exec_cancelRegistration (hinv : Inv base w)
    (hidle : w.registry.signerManagerCallActive = false) (code : Code σ) (depth : Nat) {ctx : Ctx}
    {key : RegistrationKey} {row : Registration}
    (hrow : w.registry.registrations key = some row)
    (hauth : ctx.txSender = key.staker ∨ ctx.txSender = row.sponsor) :
    exec views code (depth + 1) ctx (.cancelRegistration key.staker key.signerManager) w =
      .ok (.uint row.prepaidUstx) (w.cancelled key row) :=
  run_public_ok .uint hidle (hinv.pays.cancel ctx key row hrow hauth)

/-- **Fair installment burn.** Take a registration in a reachable world and
any run in which it is neither topped up nor cancelled nor registered anew.
The claims for it have burned a fair part of its escrow, at most one
installment for each claim it had; it is deleted exactly when they have made
all of them; and short of that a cancel refunds what they left. -/
theorem fair_installment_burn (h : Reachable views R w) {key : RegistrationKey}
    {row : Registration} (hrow : w.registry.registrations key = some row)
    (hrun : Run views R w w') {es : List Event} (hlog : w'.log = w.log ++ es)
    (hes : ∀ e ∈ es, e.managed ≠ some key) :
    FairSplit row.prepaidUstx row.remainingClaims (burned key es) ∧
      movements es = causes es ∧
      (w'.registry.registrations key = none ↔ (burned key es).length = row.remainingClaims) ∧
      ((burned key es).length < row.remainingClaims → ∀ (code : Code σ) depth ctx,
        (ctx.txSender = key.staker ∨ ctx.txSender = row.sponsor) →
        ∃ w'', exec views code (depth + 1) ctx
            (.cancelRegistration key.staker key.signerManager) w' =
            .ok (.uint (row.prepaidUstx - (burned key es).sum)) w'' ∧
          w''.registry.registrations key = none ∧
          movements w''.log = movements w'.log ++
            (Movement.payout (row.prepaidUstx - (burned key es).sum)
              row.sponsor).nonzero.toList) := by
  obtain ⟨base, hinv⟩ := h.inv
  have hruns := Run.changes hrun hinv h.idle
  have hinv' := hinv.runs hruns
  have hpos : 0 < row.remainingClaims := (hinv.rows key row hrow).remaining
  obtain ⟨es', hlog', hcauses, hsplit⟩ := burns_of_runs hinv hruns key
  have hsame : es' = es := List.append_cancel_left (hlog'.symm.trans hlog)
  subst hsame
  have hsplit := hsplit hes
  rw [hrow, burnsLeft] at hsplit
  have hlen := length_installments row.prepaidUstx row.remainingClaims
  have hsum := sum_installments hpos row.prepaidUstx
  rw [hsplit, List.length_append] at hlen
  rw [hsplit, List.sum_append] at hsum
  refine ⟨fairSplit_of_append hpos hsplit, hcauses, ?_, ?_⟩
  · rw [← burnsLeft_length_eq_zero hinv' key]
    omega
  · intro hlt code depth ctx hauth
    cases hrow' : w'.registry.registrations key with
    | none =>
        rw [hrow', burnsLeft, List.length_nil, Nat.add_zero] at hlen
        omega
    | some row' =>
        have hpos' := (hinv'.rows key row' hrow').remaining
        rw [hrow', burnsLeft, sum_installments hpos' row'.prepaidUstx] at hsum
        have hrefund : row'.prepaidUstx = row.prepaidUstx - (burned key es').sum := by omega
        have hsponsor := sponsor_of_not_managed hinv hruns hrow hrow' hlog hes
        have hidle' : w'.registry.signerManagerCallActive = false :=
          (runs_active hruns).trans h.idle
        rw [← hrefund, ← hsponsor]
        refine ⟨w'.cancelled key row', exec_cancelRegistration hinv' hidle' code depth hrow'
          (hsponsor ▸ hauth), by rw [cancelled_registrations, Function.update_self], ?_⟩
        simp [cancelled_log, movements_payout, Event.movement]

/-- One of three claims, of an escrow of 30000. -/
theorem fair_installment_burn_claimed :
    FairSplit 30000 3 (burned Chain.key
        (Chain.claimed.log.drop Chain.registered.log.length)) ∧
      burned Chain.key (Chain.claimed.log.drop Chain.registered.log.length) = [10000] := by
  have hrow : Chain.registered.registry.registrations Chain.key =
      some ⟨none, 3, false, 2, 30000, Chain.staker⟩ := by decide
  have hrun : Run Chain.views (fun _ _ => True) Chain.registered Chain.claimed :=
    Chain.run_send _ (Chain.run_become _ .refl trivial)
  have hlog : Chain.claimed.log =
      Chain.registered.log ++ Chain.claimed.log.drop Chain.registered.log.length := by decide
  obtain ⟨hfair, -⟩ :=
    fair_installment_burn ⟨_, _, Chain.run_registered⟩ hrow hrun hlog (by decide)
  exact ⟨hfair, by decide⟩

end Spox.RewardClaims
