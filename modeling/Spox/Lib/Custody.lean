import Mathlib.Data.Finsupp.Order
import Mathlib.Data.Finsupp.Weight

/-!
# Custody

A custodian holds one balance that belongs to several owners. Each owner has
a pot; what is in no pot is the surplus. The balance is not stored beside the
pots but is their total, so that a custody that owes more than it holds
cannot be built: overdrawing is not a state, it is an entry that cannot be
posted.

An account of what happened is a list of entries (`Custody.replay`). Its
rules say that nothing is lost: the balance, each pot and the surplus are
what was put in less what was taken out.
-/

namespace Spox.Lib

/-- What a custodian holds for each owner, and what it holds for nobody. -/
@[ext] structure Custody (κ : Type) where
  pots : κ →₀ ℕ
  surplus : ℕ

namespace Custody

variable {κ : Type}

/-- Nothing is held. -/
noncomputable def empty : Custody κ := ⟨0, 0⟩

/-- All that is held. -/
noncomputable def balance (c : Custody κ) : ℕ := c.pots.degree + c.surplus

/-- One thing that happens to what is held. -/
inductive Entry (κ : Type) where
  | deposit (pot : κ) (amount : ℕ)
  | payOut (pot : κ) (amount : ℕ)
  | reassign (source target : κ) (amount : ℕ)
  | gift (amount : ℕ)
  | skim (amount : ℕ)

/-- Post an entry; `none` when it takes more than there is. -/
noncomputable def post (c : Custody κ) : Entry κ → Option (Custody κ)
  | .deposit pot amount => some { c with pots := c.pots + Finsupp.single pot amount }
  | .payOut pot amount =>
      if amount ≤ c.pots pot then
        some { c with pots := c.pots - Finsupp.single pot amount }
      else none
  | .reassign source target amount =>
      if amount ≤ c.pots source then
        some { c with
          pots := c.pots - Finsupp.single source amount + Finsupp.single target amount }
      else none
  | .gift amount => some { c with surplus := c.surplus + amount }
  | .skim amount =>
      if amount ≤ c.surplus then some { c with surplus := c.surplus - amount } else none

/-- Post a list of entries, in order. -/
noncomputable def replay (c : Custody κ) (entries : List (Entry κ)) : Option (Custody κ) :=
  entries.foldlM post c

@[simp] theorem replay_nil (c : Custody κ) : c.replay [] = some c := rfl

@[simp] theorem replay_cons (c : Custody κ) (e : Entry κ) (l : List (Entry κ)) :
    c.replay (e :: l) = (c.post e).bind (·.replay l) := by
  simp [replay, List.foldlM_cons]

theorem replay_append (c : Custody κ) (l m : List (Entry κ)) :
    c.replay (l ++ m) = (c.replay l).bind (·.replay m) := by
  simp [replay, List.foldlM_append]

theorem replay_append_of {c c' : Custody κ} {l m : List (Entry κ)}
    (h : c.replay l = some c') : c.replay (l ++ m) = c'.replay m := by
  rw [replay_append, h, Option.bind_some]

/-! ## What is covered -/

/-- Any set of pots is covered, and what is left covers the surplus. -/
theorem sum_pots_add_surplus_le (c : Custody κ) (s : Finset κ) :
    (∑ k ∈ s, c.pots k) + c.surplus ≤ c.balance := by
  classical
  have hsum : ∑ k ∈ s, c.pots k ≤ c.pots.degree := by
    rw [Finsupp.degree_apply, ← Finset.sum_filter_ne_zero]
    exact Finset.sum_le_sum_of_subset fun k hk =>
      Finsupp.mem_support_iff.mpr (Finset.mem_filter.mp hk).2
  exact Nat.add_le_add_right hsum c.surplus

theorem pot_le_balance (c : Custody κ) (pot : κ) : c.pots pot ≤ c.balance := by
  have hpot := Finsupp.le_degree pot c.pots
  exact hpot.trans (Nat.le_add_right _ _)

/-- What exceeds an upper bound of every pot is surplus. -/
theorem le_surplus {c : Custody κ} {bound : κ →₀ ℕ} (hbound : ∀ k, c.pots k ≤ bound k)
    {amount : ℕ} (h : amount + bound.degree ≤ c.balance) : amount ≤ c.surplus := by
  have hdegree : c.pots.degree ≤ bound.degree := Finsupp.degree_mono hbound
  unfold balance at h
  omega

/-! ## Posting one entry -/

/-- Taking from a pot what is in it takes that much from the total. -/
theorem degree_sub_single {f : κ →₀ ℕ} {k : κ} {n : ℕ} (h : n ≤ f k) :
    (f - Finsupp.single k n).degree + n = f.degree := by
  have hle : Finsupp.single k n ≤ f := by simpa using h
  have hadd := congrArg Finsupp.degree (tsub_add_cancel_of_le hle)
  rwa [map_add, Finsupp.degree_single] at hadd

theorem post_payOut_iff {c c' : Custody κ} {pot : κ} {amount : ℕ} :
    c.post (.payOut pot amount) = some c' ↔
      amount ≤ c.pots pot ∧ c' = { c with pots := c.pots - Finsupp.single pot amount } := by
  rw [post, Option.ite_none_right_eq_some, Option.some_inj, eq_comm]

theorem post_reassign_iff {c c' : Custody κ} {source target : κ} {amount : ℕ} :
    c.post (.reassign source target amount) = some c' ↔
      amount ≤ c.pots source ∧ c' = { c with
        pots := c.pots - Finsupp.single source amount + Finsupp.single target amount } := by
  rw [post, Option.ite_none_right_eq_some, Option.some_inj, eq_comm]

theorem post_skim_iff {c c' : Custody κ} {amount : ℕ} :
    c.post (.skim amount) = some c' ↔
      amount ≤ c.surplus ∧ c' = { c with surplus := c.surplus - amount } := by
  rw [post, Option.ite_none_right_eq_some, Option.some_inj, eq_comm]

variable [DecidableEq κ]

/-- What an entry brings in, and what it takes out. -/
def Entry.income : Entry κ → ℕ
  | .deposit _ amount => amount
  | .gift amount => amount
  | .payOut _ _ | .reassign _ _ _ | .skim _ => 0

def Entry.outgo : Entry κ → ℕ
  | .payOut _ amount => amount
  | .skim amount => amount
  | .deposit _ _ | .reassign _ _ _ | .gift _ => 0

/-- What an entry puts into a pot, and what it takes from it. -/
def Entry.credit (pot : κ) : Entry κ → ℕ
  | .deposit k amount => if k = pot then amount else 0
  | .reassign _ k amount => if k = pot then amount else 0
  | .payOut _ _ | .gift _ | .skim _ => 0

def Entry.debit (pot : κ) : Entry κ → ℕ
  | .payOut k amount => if k = pot then amount else 0
  | .reassign k _ amount => if k = pot then amount else 0
  | .deposit _ _ | .gift _ | .skim _ => 0

/-- What an entry adds to the surplus, and what it takes from it. -/
def Entry.gifted : Entry κ → ℕ
  | .gift amount => amount
  | .deposit _ _ | .payOut _ _ | .reassign _ _ _ | .skim _ => 0

def Entry.skimmed : Entry κ → ℕ
  | .skim amount => amount
  | .deposit _ _ | .payOut _ _ | .reassign _ _ _ | .gift _ => 0

omit [DecidableEq κ] in
theorem post_balance {c c' : Custody κ} {e : Entry κ} (h : c.post e = some c') :
    c'.balance + e.outgo = c.balance + e.income := by
  cases e with
  | deposit pot amount =>
      cases h
      simp only [balance, Entry.outgo, Entry.income, map_add, Finsupp.degree_single]
      omega
  | payOut pot amount =>
      obtain ⟨hle, rfl⟩ := post_payOut_iff.mp h
      have hdegree := degree_sub_single hle
      simp only [balance, Entry.outgo, Entry.income]
      omega
  | reassign source target amount =>
      obtain ⟨hle, rfl⟩ := post_reassign_iff.mp h
      have hdegree := degree_sub_single hle
      simp only [balance, Entry.outgo, Entry.income, map_add, Finsupp.degree_single]
      omega
  | gift amount =>
      cases h
      simp only [balance, Entry.outgo, Entry.income]
      omega
  | skim amount =>
      obtain ⟨hle, rfl⟩ := post_skim_iff.mp h
      simp only [balance, Entry.outgo, Entry.income]
      omega

theorem post_pot {c c' : Custody κ} {e : Entry κ} (h : c.post e = some c') (pot : κ) :
    c'.pots pot + e.debit pot = c.pots pot + e.credit pot := by
  cases e with
  | deposit k amount =>
      cases h
      simp only [Entry.debit, Entry.credit, Finsupp.add_apply, Finsupp.single_apply]
      omega
  | payOut k amount =>
      obtain ⟨hle, rfl⟩ := post_payOut_iff.mp h
      simp only [Entry.debit, Entry.credit, Finsupp.tsub_apply, Finsupp.single_apply]
      split <;> simp_all
  | reassign source target amount =>
      obtain ⟨hle, rfl⟩ := post_reassign_iff.mp h
      simp only [Entry.debit, Entry.credit, Finsupp.add_apply, Finsupp.tsub_apply,
        Finsupp.single_apply]
      by_cases hs : source = pot
      · subst hs
        simp only [if_true]
        omega
      · simp only [if_neg hs]
        omega
  | gift amount => cases h; rfl
  | skim amount =>
      obtain ⟨-, rfl⟩ := post_skim_iff.mp h
      rfl

omit [DecidableEq κ] in
theorem post_surplus {c c' : Custody κ} {e : Entry κ} (h : c.post e = some c') :
    c'.surplus + e.skimmed = c.surplus + e.gifted := by
  cases e with
  | deposit pot amount => cases h; rfl
  | payOut pot amount =>
      obtain ⟨-, rfl⟩ := post_payOut_iff.mp h
      rfl
  | reassign source target amount =>
      obtain ⟨-, rfl⟩ := post_reassign_iff.mp h
      rfl
  | gift amount => cases h; rfl
  | skim amount =>
      obtain ⟨hle, rfl⟩ := post_skim_iff.mp h
      exact (Nat.sub_add_cancel hle).trans (Nat.add_zero _).symm

/-! ## Posting a list of entries -/

omit [DecidableEq κ] in
/-- A quantity that each entry changes by its own two amounts is changed by
a list of entries by their sums. -/
theorem replay_quantity (quantity : Custody κ → ℕ) (plus minus : Entry κ → ℕ)
    (hpost : ∀ c c' e, post c e = some c' → quantity c' + minus e = quantity c + plus e)
    {c c' : Custody κ} {l : List (Entry κ)} (h : c.replay l = some c') :
    quantity c' + (l.map minus).sum = quantity c + (l.map plus).sum := by
  induction l generalizing c with
  | nil => cases h; rfl
  | cons e l ih =>
      rw [replay_cons, Option.bind_eq_some_iff] at h
      obtain ⟨d, hd, h⟩ := h
      have hhead := hpost c d e hd
      have htail := ih h
      simp only [List.map_cons, List.sum_cons]
      omega

omit [DecidableEq κ] in
/-- The balance is what came in less what went out. -/
theorem replay_balance {c c' : Custody κ} {l : List (Entry κ)} (h : c.replay l = some c') :
    c'.balance + (l.map Entry.outgo).sum = c.balance + (l.map Entry.income).sum :=
  replay_quantity balance _ _ (fun _ _ _ => post_balance) h

/-- A pot holds what was credited to it less what was debited. -/
theorem replay_pot {c c' : Custody κ} {l : List (Entry κ)} (h : c.replay l = some c')
    (pot : κ) :
    c'.pots pot + (l.map (Entry.debit pot)).sum =
      c.pots pot + (l.map (Entry.credit pot)).sum :=
  replay_quantity (fun c => c.pots pot) _ _ (fun _ _ _ h => post_pot h pot) h

omit [DecidableEq κ] in
/-- The surplus is what was given less what was skimmed. -/
theorem replay_surplus {c c' : Custody κ} {l : List (Entry κ)} (h : c.replay l = some c') :
    c'.surplus + (l.map Entry.skimmed).sum = c.surplus + (l.map Entry.gifted).sum :=
  replay_quantity surplus _ _ (fun _ _ _ => post_surplus) h

/-! ## Keeping accounts

`Accounts entries pots balance`: starting from nothing, the entries can all be
posted, and leave these pots and this balance. The rules follow the entries;
a program that keeps books is verified by one of them for each thing it does. -/

/-- What a list of entries leaves, as functions of the pots. -/
def Accounts (entries : List (Entry κ)) (pots : κ → ℕ) (balance : ℕ) : Prop :=
  ∃ c : Custody κ, empty.replay entries = some c ∧ (∀ k, c.pots k = pots k) ∧
    c.balance = balance

namespace Accounts

variable {entries : List (Entry κ)} {pots : κ → ℕ} {balance amount : ℕ}

omit [DecidableEq κ] in
theorem nil : Accounts ([] : List (Entry κ)) (fun _ => 0) 0 :=
  ⟨empty, rfl, fun _ => rfl, by simp [Custody.balance, empty]⟩

section Log

variable {ε : Type} {read : ε → List (Entry κ)} {log events : List ε}

omit [DecidableEq κ] in
/-- The account of a longer log. -/
theorem log_append (h : Accounts (log.flatMap read ++ events.flatMap read) pots balance) :
    Accounts ((log ++ events).flatMap read) pots balance := by
  rwa [List.flatMap_append]

omit [DecidableEq κ] in
/-- Events that post nothing. -/
theorem log_quiet (h : Accounts (log.flatMap read) pots balance)
    (hquiet : events.flatMap read = []) :
    Accounts ((log ++ events).flatMap read) pots balance := by
  rwa [List.flatMap_append, hquiet, List.append_nil]

end Log

/-- One more entry that can be posted. -/
theorem snoc {e : Entry κ} {pots' : κ → ℕ} {balance' : ℕ} (h : Accounts entries pots balance)
    (hpost : ∀ c : Custody κ, (∀ k, c.pots k = pots k) → c.balance = balance →
      ∃ c', c.post e = some c')
    (hpots : ∀ k, pots' k + e.debit k = pots k + e.credit k)
    (hbalance : balance' + e.outgo = balance + e.income) :
    Accounts (entries ++ [e]) pots' balance' := by
  obtain ⟨c, hreplay, hc, hb⟩ := h
  obtain ⟨c', hc'⟩ := hpost c hc hb
  have hall : empty.replay (entries ++ [e]) = some c' := by
    rw [replay_append_of hreplay, replay_cons, hc']
    rfl
  refine ⟨c', hall, fun k => ?_, ?_⟩
  · have hpot := post_pot hc' k
    have := hpots k
    rw [hc k] at hpot
    omega
  · have hbal := post_balance hc'
    omega

theorem deposit (h : Accounts entries pots balance) (pot : κ) (amount : ℕ) :
    Accounts (entries ++ [.deposit pot amount])
      (Function.update pots pot (pots pot + amount)) (balance + amount) := by
  refine h.snoc (fun _ _ _ => ⟨_, rfl⟩) (fun k => ?_) rfl
  by_cases hk : k = pot
  · subst hk
    simp [Entry.debit, Entry.credit]
  · simp [Entry.debit, Entry.credit, Function.update_of_ne hk, Ne.symm hk]

theorem payOut (h : Accounts entries pots balance) (pot : κ) (hle : amount ≤ pots pot) :
    Accounts (entries ++ [.payOut pot amount])
      (Function.update pots pot (pots pot - amount)) (balance - amount) := by
  obtain ⟨c, hreplay, hc, hb⟩ := h
  have hcovered : amount ≤ balance := (hle.trans (hc pot).ge).trans (hb ▸ c.pot_le_balance pot)
  refine snoc ⟨c, hreplay, hc, hb⟩
    (fun d hd _ => ⟨_, post_payOut_iff.mpr ⟨hle.trans (hd pot).ge, rfl⟩⟩) (fun k => ?_)
    (Nat.sub_add_cancel hcovered)
  by_cases hk : k = pot
  · subst hk
    simpa [Entry.debit, Entry.credit] using Nat.sub_add_cancel hle
  · simp [Entry.debit, Entry.credit, Function.update_of_ne hk, Ne.symm hk]

theorem reassign (h : Accounts entries pots balance) (source target : κ)
    (hne : target ≠ source) (hle : amount ≤ pots source) :
    Accounts (entries ++ [.reassign source target amount])
      (Function.update (Function.update pots source (pots source - amount)) target
        (pots target + amount)) balance := by
  refine h.snoc (fun c hc _ => ⟨_, post_reassign_iff.mpr ⟨hle.trans (hc source).ge, rfl⟩⟩)
    (fun k => ?_) rfl
  by_cases ht : k = target
  · subst ht
    simp [Entry.debit, Entry.credit, Ne.symm hne]
  · by_cases hs : k = source
    · subst hs
      simpa [Entry.debit, Entry.credit, Function.update_of_ne ht, hne] using
        Nat.sub_add_cancel hle
    · simp [Entry.debit, Entry.credit, Function.update_of_ne ht, Function.update_of_ne hs,
        Ne.symm ht, Ne.symm hs]

theorem gift (h : Accounts entries pots balance) (amount : ℕ) :
    Accounts (entries ++ [.gift amount]) pots (balance + amount) :=
  h.snoc (fun _ _ _ => ⟨_, rfl⟩) (fun _ => rfl) rfl

/-- What exceeds an upper bound of all pots can be skimmed. -/
theorem skim (h : Accounts entries pots balance) (bound : κ →₀ ℕ)
    (hbound : ∀ k, pots k ≤ bound k) (hle : amount + bound.degree ≤ balance) :
    Accounts (entries ++ [.skim amount]) pots (balance - amount) :=
  h.snoc
    (fun _ hc hb => ⟨_, post_skim_iff.mpr
      ⟨le_surplus (fun k => (hc k).trans_le (hbound k)) (hb.symm ▸ hle), rfl⟩⟩)
    (fun _ => rfl) (Nat.sub_add_cancel ((Nat.le_add_right _ _).trans hle))

omit [DecidableEq κ] in
/-- Any set of pots is covered by the balance. -/
theorem sum_le (h : Accounts entries pots balance) (s : Finset κ) :
    ∑ k ∈ s, pots k ≤ balance := by
  obtain ⟨c, -, hc, rfl⟩ := h
  have hcovered := c.sum_pots_add_surplus_le s
  simp only [hc] at hcovered
  omega

omit [DecidableEq κ] in
theorem le (h : Accounts entries pots balance) (pot : κ) : pots pot ≤ balance := by
  obtain ⟨c, -, hc, rfl⟩ := h
  exact (hc pot).ge.trans (c.pot_le_balance pot)

/-- The pots hold what was credited to them less what was debited. -/
theorem pot_flow (h : Accounts entries pots balance) (pot : κ) :
    pots pot + (entries.map (Entry.debit pot)).sum =
      (entries.map (Entry.credit pot)).sum := by
  obtain ⟨c, hreplay, hc, -⟩ := h
  have hflow := replay_pot hreplay pot
  rw [hc pot] at hflow
  simpa [empty] using hflow

omit [DecidableEq κ] in
/-- The balance is what came in less what went out. -/
theorem balance_flow (h : Accounts entries pots balance) :
    balance + (entries.map Entry.outgo).sum = (entries.map Entry.income).sum := by
  obtain ⟨c, hreplay, -, rfl⟩ := h
  have hflow := replay_balance hreplay
  simpa [Custody.balance, empty] using hflow

omit [DecidableEq κ] in
/-- Nothing is skimmed that was not given. -/
theorem skimmed_le_gifted (h : Accounts entries pots balance) :
    (entries.map Entry.skimmed).sum ≤ (entries.map Entry.gifted).sum := by
  obtain ⟨c, hreplay, -, -⟩ := h
  have hflow := replay_surplus hreplay
  simp only [empty] at hflow
  omega

omit [DecidableEq κ] in
/-- Without gifts the pots are all there is. -/
theorem exists_finsupp (h : Accounts entries pots balance)
    (hgifted : ∀ e ∈ entries, e.gifted = 0) :
    ∃ f : κ →₀ ℕ, (∀ k, f k = pots k) ∧ f.degree = balance := by
  obtain ⟨c, hreplay, hc, rfl⟩ := h
  have hflow := replay_surplus hreplay
  have hzero : (entries.map Entry.gifted).sum = 0 := by
    simpa [List.sum_eq_zero_iff] using hgifted
  have hsurplus : c.surplus = 0 := by
    rw [hzero] at hflow
    simp only [empty] at hflow
    omega
  exact ⟨c.pots, hc, by rw [Custody.balance, hsurplus, Nat.add_zero]⟩

end Accounts

end Custody

end Spox.Lib
