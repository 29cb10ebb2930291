import Spox.Lib.Tx

/-!
# Transactions one after another

A transaction commits its writes if it returns a value and leaves the state
alone otherwise (`Tx.commit`). `Tx.commits` runs a list of transactions and
ignores the ones that fail; `Tx.scores` adds up what they return.

A fold that attempts a computation for each item and counts the successes
looks the same from outside, but it is not: an attempt keeps the writes of a
computation that failed. `foldlM_commits` is the rule for proving that the
fold and the sequence agree: a relation between their states that one item
keeps.
-/

namespace Spox.Lib.Tx

variable {S α γ : Type}

/-- The state after a transaction: unchanged if it fails. -/
def commit (m : Tx S α) (s : S) : S :=
  match m s with
  | .ok _ s' => s'
  | .err _ _ => s
  | .abort => s

/-- What a transaction adds to a count: nothing if it fails. -/
def score (weight : α → Nat) (m : Tx S α) (s : S) : Nat :=
  match m s with
  | .ok a _ => weight a
  | .err _ _ => 0
  | .abort => 0

/-- The state after transactions run one after another. -/
def commits (m : γ → Tx S α) : List γ → S → S
  | [], s => s
  | c :: l, s => commits m l ((m c).commit s)

/-- The count after transactions run one after another. -/
def scores (weight : α → Nat) (m : γ → Tx S α) : List γ → S → Nat
  | [], _ => 0
  | c :: l, s => (m c).score weight s + scores weight m l ((m c).commit s)

variable {m : Tx S α} {weight : α → Nat} {s s' : S}

theorem commit_of_ok {a : α} (h : m s = .ok a s') : m.commit s = s' := by
  rw [commit, h]

theorem commit_of_err {code : Nat} (h : m s = .err code s') : m.commit s = s := by
  rw [commit, h]

theorem score_of_ok {a : α} (h : m s = .ok a s') : m.score weight s = weight a := by
  rw [score, h]

theorem score_of_err {code : Nat} (h : m s = .err code s') : m.score weight s = 0 := by
  rw [score, h]

section Map

variable {β : Type} (t : γ → Tx S α) (g : β → γ)

theorem commits_map (l : List β) (s : S) :
    commits t (l.map g) s = commits (fun b => t (g b)) l s := by
  induction l generalizing s with
  | nil => rfl
  | cons b l ih => exact ih _

theorem scores_map (l : List β) (s : S) :
    scores weight t (l.map g) s = scores weight (fun b => t (g b)) l s := by
  induction l generalizing s with
  | nil => rfl
  | cons b l ih =>
      rw [List.map_cons, scores, scores, ih]

end Map

section FlatMap

variable {δ β : Type} {t : γ → Tx S α} {t' : δ → Tx S β} {weight' : β → Nat}

theorem commits_append (l l' : List γ) (s : S) :
    commits t (l ++ l') s = commits t l' (commits t l s) := by
  induction l generalizing s with
  | nil => rfl
  | cons c l ih => exact ih _

theorem scores_append (l l' : List γ) (s : S) :
    scores weight t (l ++ l') s =
      scores weight t l s + scores weight t l' (commits t l s) := by
  induction l generalizing s with
  | nil =>
      show _ = 0 + _
      rw [Nat.zero_add]
      rfl
  | cons c l ih =>
      rw [List.cons_append, scores, ih, scores, commits, Nat.add_assoc]

/-- Transactions that each do what several others do one after another do
what all of those do. -/
theorem commits_flatMap (g : γ → List δ) (inv : S → Prop) {l : List γ}
    (hstep : ∀ c s, c ∈ l → inv s → (t c).commit s = commits t' (g c) s ∧
      (t c).score weight s = scores weight' t' (g c) s ∧ inv ((t c).commit s))
    {s : S} (hs : inv s) :
    commits t l s = commits t' (l.flatMap g) s ∧
      scores weight t l s = scores weight' t' (l.flatMap g) s := by
  induction l generalizing s with
  | nil => exact ⟨rfl, rfl⟩
  | cons c l ih =>
      obtain ⟨hcommit, hscore, hinv⟩ := hstep c s List.mem_cons_self hs
      obtain ⟨hcommits, hscores⟩ := ih
        (fun c' s' hc' => hstep c' s' (List.mem_cons_of_mem c hc')) hinv
      rw [commits, scores, List.flatMap_cons, commits_append, scores_append, hscore, hcommits,
        hscores, hcommit]
      exact ⟨rfl, rfl⟩

end FlatMap

/-- **The rule for a batch.** If each item of a counting fold does what its
transaction does, up to `sim`, the fold returns the count of the sequence and
ends in a state related to its state. -/
theorem foldlM_commits (t : γ → Tx S α) (f : Nat → γ → Tx S Nat) (sim : S → S → Prop)
    (l : List γ)
    (hstep : ∀ n c s₁ s₂, c ∈ l → sim s₁ s₂ →
      ∃ s₁', f n c s₁ = .ok (n + (t c).score weight s₂) s₁' ∧ sim s₁' ((t c).commit s₂))
    (n : Nat) {s₁ s₂ : S} (hs : sim s₁ s₂) :
    ∃ s₁', l.foldlM f n s₁ = .ok (n + scores weight t l s₂) s₁' ∧
      sim s₁' (commits t l s₂) := by
  induction l generalizing n s₁ s₂ with
  | nil => exact ⟨s₁, rfl, hs⟩
  | cons c l ih =>
      obtain ⟨s, hrun, hsim⟩ := hstep n c s₁ s₂ List.mem_cons_self hs
      obtain ⟨s', hrest, hsim'⟩ := ih
        (fun n' c' s₁' s₂' hc' => hstep n' c' s₁' s₂' (List.mem_cons_of_mem c hc')) _ hsim
      refine ⟨s', ?_, hsim'⟩
      rw [List.foldlM_cons, run_bind_ok hrun, hrest, scores, Nat.add_assoc]

end Spox.Lib.Tx
