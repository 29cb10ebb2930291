import Mathlib.Algebra.Group.Nat.Defs
import Mathlib.Logic.Basic
import Mathlib.Tactic.Common

/-!
# Transactional computations

A computation in the style of an on-chain contract: it reads and writes a
state and ends in one of three ways. It returns a value, it returns an
error code, or it aborts the whole transaction.

An error is not a rollback. A private function that returns an error keeps
every write it made before the error (`Outcome.err` carries the state), and
only the boundary of a public function (`Tx.atomic`) undoes them. Keeping
the two apart is what makes statements about swallowed errors meaningful.

`Tx.wp` is the weakest precondition: what must hold before for the three
postconditions to hold after. The postcondition of an abort is a plain
proposition: `True` gives partial correctness, `False` gives totality, and
one specification serves both.
-/

namespace Spox.Lib

/-- How a computation ends. -/
inductive Outcome (S α : Type) where
  /-- It returned a value. -/
  | ok (value : α) (state : S)
  /-- It returned an error code; the writes made before it stand. -/
  | err (code : Nat) (state : S)
  /-- The whole transaction is void. -/
  | abort

/-- A computation over the state `S`. -/
def Tx (S α : Type) : Type := S → Outcome S α

namespace Tx

variable {S α β γ : Type}

instance : Monad (Tx S) where
  pure a := fun s => .ok a s
  bind m f := fun s =>
    match m s with
    | .ok a s' => f a s'
    | .err code s' => .err code s'
    | .abort => .abort

/-- The current state. -/
def get : Tx S S := fun s => .ok s s

/-- Replace the state. -/
def modify (f : S → S) : Tx S Unit := fun s => .ok () (f s)

/-- Return the error `code`. -/
def fail (code : Nat) : Tx S α := fun s => .err code s

/-- Void the transaction. -/
def abort : Tx S α := fun _ => .abort

/-- Continue only if the condition holds. -/
def asserts (condition : Prop) [Decidable condition] (code : Nat) : Tx S Unit :=
  if condition then pure () else fail code

/-- The value of an option, or the error `code`. -/
def unwrap (value : Option α) (code : Nat) : Tx S α :=
  match value with
  | some a => pure a
  | none => fail code

/-- Run a computation and hand its result over as a value: what matching on
a response does. The writes stand either way. -/
def attempt (m : Tx S α) : Tx S (Except Nat α) := fun s =>
  match m s with
  | .ok a s' => .ok (.ok a) s'
  | .err code s' => .ok (.error code) s'
  | .abort => .abort

/-- The boundary of a public function: an error undoes every write. -/
def atomic (m : Tx S α) : Tx S α := fun s =>
  match m s with
  | .ok a s' => .ok a s'
  | .err code _ => .err code s
  | .abort => .abort

/-- Run a computation on each element, in order. -/
def mapEach (f : α → Tx S β) : List α → Tx S (List β)
  | [] => pure []
  | a :: l => do
      let b ← f a
      let bs ← mapEach f l
      pure (b :: bs)

/-! ## Bounded arithmetic -/

/-- One more than the largest unsigned integer. -/
def uintBound : Nat := 2 ^ 128

/-- A value that must fit an unsigned integer. -/
def uint (n : Nat) : Tx S Nat := if n < uintBound then pure n else abort

/-- Addition; overflow voids the transaction. -/
def add (a b : Nat) : Tx S Nat := uint (a + b)

/-- Multiplication; overflow voids the transaction. -/
def mul (a b : Nat) : Tx S Nat := uint (a * b)

/-- Subtraction; underflow voids the transaction. -/
def sub (a b : Nat) : Tx S Nat := if b ≤ a then pure (a - b) else abort

/-! ## Running a computation -/

section Run

variable (s : S)

@[simp] theorem run_pure (a : α) : (pure a : Tx S α) s = .ok a s := rfl

@[simp] theorem run_get : (get : Tx S S) s = .ok s s := rfl

@[simp] theorem run_modify (f : S → S) : modify f s = .ok () (f s) := rfl

@[simp] theorem run_fail (code : Nat) : (fail code : Tx S α) s = .err code s := rfl

@[simp] theorem run_abort : (abort : Tx S α) s = .abort := rfl

theorem run_bind (m : Tx S α) (f : α → Tx S β) :
    (m >>= f) s = match m s with
      | .ok a s' => f a s'
      | .err code s' => .err code s'
      | .abort => .abort := rfl

theorem run_bind_ok {m : Tx S α} {f : α → Tx S β} {s s' : S} {a : α}
    (h : m s = .ok a s') : (m >>= f) s = f a s' := by
  rw [run_bind, h]

theorem run_asserts {condition : Prop} [Decidable condition] {code : Nat} (h : condition) :
    asserts condition code s = .ok () s := by
  rw [asserts, if_pos h, run_pure]

theorem run_unwrap {value : Option α} {a : α} {code : Nat} (h : value = some a) :
    unwrap value code s = .ok a s := by
  rw [h]
  rfl

theorem run_add {a b : Nat} (h : a + b < uintBound) : add a b s = .ok (a + b) s := by
  rw [add, uint, if_pos h, run_pure]

theorem run_mul {a b : Nat} (h : a * b < uintBound) : mul a b s = .ok (a * b) s := by
  rw [mul, uint, if_pos h, run_pure]

theorem run_sub {a b : Nat} (h : b ≤ a) : sub a b s = .ok (a - b) s := by
  rw [sub, if_pos h, run_pure]

/-- A fold whose steps only read. -/
theorem run_foldlM_reads {f : β → γ → Tx S β} {g : β → γ → β} {s : S}
    (h : ∀ b c, f b c s = .ok (g b c) s) (l : List γ) (b : β) :
    l.foldlM f b s = .ok (l.foldl g b) s := by
  induction l generalizing b with
  | nil => rfl
  | cons c l ih => rw [List.foldlM_cons, run_bind_ok (h b c), ih, List.foldl_cons]

end Run

/-! ## Weakest preconditions -/

/-- From `s` the computation either returns with `ok`, or returns an error
with `err`, or aborts with `void`. -/
def wp (m : Tx S α) (s : S) (ok : α → S → Prop) (err : Nat → S → Prop)
    (void : Prop) : Prop :=
  match m s with
  | .ok a s' => ok a s'
  | .err code s' => err code s'
  | .abort => void

section Wp

variable {s : S} {ok : α → S → Prop} {err : Nat → S → Prop} {void : Prop}

@[simp] theorem wp_pure (a : α) : wp (pure a) s ok err void ↔ ok a s := Iff.rfl

@[simp] theorem wp_bind (m : Tx S β) (f : β → Tx S α) :
    wp (m >>= f) s ok err void ↔
      wp m s (fun b s' => wp (f b) s' ok err void) err void := by
  simp only [wp, run_bind]
  cases m s <;> rfl

@[simp] theorem wp_get {ok : S → S → Prop} : wp get s ok err void ↔ ok s s := Iff.rfl

@[simp] theorem wp_modify {ok : Unit → S → Prop} (f : S → S) :
    wp (modify f) s ok err void ↔ ok () (f s) := Iff.rfl

@[simp] theorem wp_fail (code : Nat) : wp (fail code) s ok err void ↔ err code s := Iff.rfl

@[simp] theorem wp_abort : wp abort s ok err void ↔ void := Iff.rfl

@[simp] theorem wp_asserts {ok : Unit → S → Prop} (condition : Prop)
    [Decidable condition] (code : Nat) :
    wp (asserts condition code) s ok err void ↔
      (condition → ok () s) ∧ (¬ condition → err code s) := by
  by_cases h : condition <;> simp [asserts, h]

@[simp] theorem wp_unwrap (value : Option α) (code : Nat) :
    wp (unwrap value code) s ok err void ↔
      (∀ a, value = some a → ok a s) ∧ (value = none → err code s) := by
  cases value <;> simp [unwrap]

@[simp] theorem wp_attempt {ok : Except Nat α → S → Prop} (m : Tx S α) :
    wp (attempt m) s ok err void ↔
      wp m s (fun a s' => ok (.ok a) s') (fun code s' => ok (.error code) s') void := by
  simp only [wp, attempt]
  cases m s <;> rfl

@[simp] theorem wp_atomic (m : Tx S α) :
    wp (atomic m) s ok err void ↔ wp m s ok (fun code _ => err code s) void := by
  simp only [wp, atomic]
  cases m s <;> rfl

@[simp] theorem wp_uint {ok : Nat → S → Prop} (n : Nat) :
    wp (uint n) s ok err void ↔ (n < uintBound → ok n s) ∧ (uintBound ≤ n → void) := by
  by_cases h : n < uintBound
  · simp [uint, h, Nat.not_le_of_lt h]
  · simp [uint, h, Nat.le_of_not_lt h]

@[simp] theorem wp_add {ok : Nat → S → Prop} (a b : Nat) :
    wp (add a b) s ok err void ↔
      (a + b < uintBound → ok (a + b) s) ∧ (uintBound ≤ a + b → void) :=
  wp_uint (a + b)

@[simp] theorem wp_mul {ok : Nat → S → Prop} (a b : Nat) :
    wp (mul a b) s ok err void ↔
      (a * b < uintBound → ok (a * b) s) ∧ (uintBound ≤ a * b → void) :=
  wp_uint (a * b)

@[simp] theorem wp_sub {ok : Nat → S → Prop} (a b : Nat) :
    wp (sub a b) s ok err void ↔ (b ≤ a → ok (a - b) s) ∧ (a < b → void) := by
  by_cases h : b ≤ a
  · simp [sub, h, Nat.not_lt_of_le h]
  · simp [sub, h, Nat.lt_of_not_le h]

/-- Consequence: a specification is used through weaker postconditions. -/
theorem wp.mono {m : Tx S α} {ok' : α → S → Prop} {err' : Nat → S → Prop} {void' : Prop}
    (h : wp m s ok err void) (hok : ∀ a s', ok a s' → ok' a s')
    (herr : ∀ code s', err code s' → err' code s') (hvoid : void → void') :
    wp m s ok' err' void' := by
  unfold wp at *
  cases hm : m s with
  | ok a s' => rw [hm] at h; exact hok a s' h
  | err code s' => rw [hm] at h; exact herr code s' h
  | abort => rw [hm] at h; exact hvoid h

/-- Consequence where errors do not matter. -/
theorem wp.weaken {m : Tx S α} {ok' : α → S → Prop} (h : wp m s ok err void)
    (hok : ∀ a s', ok a s' → ok' a s') : wp m s ok' (fun _ _ => True) void :=
  h.mono hok (fun _ _ _ => trivial) id

/-- Two specifications of one computation hold together. -/
theorem wp.and {m : Tx S α} {ok' : α → S → Prop} {err' : Nat → S → Prop} {void' : Prop}
    (h : wp m s ok err void) (h' : wp m s ok' err' void') :
    wp m s (fun a s' => ok a s' ∧ ok' a s') (fun code s' => err code s' ∧ err' code s')
      (void ∧ void') := by
  unfold wp at *
  cases hm : m s with
  | ok a s' => rw [hm] at h h'; exact ⟨h, h'⟩
  | err code s' => rw [hm] at h h'; exact ⟨h, h'⟩
  | abort => rw [hm] at h h'; exact ⟨h, h'⟩

/-- A public function that fails changes nothing. -/
theorem wp_atomic_of {m : Tx S α} (h : wp m s ok (fun _ _ => True) void) :
    wp (atomic m) s ok (fun _ s' => s' = s) void := by
  rw [wp_atomic]
  exact h.mono (fun _ _ h => h) (fun _ _ _ => rfl) id

/-- A computation whose run is known meets what holds of its result. -/
theorem wp_of_run {m : Tx S α} {a : α} {s' : S} (hm : m s = .ok a s') (h : ok a s') :
    wp m s ok err void := by
  rwa [wp, hm]

theorem wp.of_ok {m : Tx S α} {a : α} {s' : S} (h : wp m s ok err void)
    (hm : m s = .ok a s') : ok a s' := by
  rwa [wp, hm] at h

theorem wp.of_err {m : Tx S α} {code : Nat} {s' : S} (h : wp m s ok err void)
    (hm : m s = .err code s') : err code s' := by
  rwa [wp, hm] at h

theorem wp.of_abort {m : Tx S α} (h : wp m s ok err void) (hm : m s = .abort) : void := by
  rwa [wp, hm] at h

/-- A computation that is known to return meets its specification totally. -/
theorem wp.of_returns {m : Tx S α} {void' : Prop} (h : wp m s ok err void)
    (hm : m s ≠ .abort) : wp m s ok err void' := by
  unfold wp at *
  cases hrun : m s with
  | ok a s' => rw [hrun] at h; exact h
  | err code s' => rw [hrun] at h; exact h
  | abort => exact absurd hrun hm

/-- A computation that may not abort ends in a value or an error. -/
theorem wp.total {m : Tx S α} (h : wp m s ok err False) :
    (∃ a s', m s = .ok a s' ∧ ok a s') ∨ ∃ code s', m s = .err code s' ∧ err code s' := by
  unfold wp at h
  cases hm : m s with
  | ok a s' => rw [hm] at h; exact .inl ⟨a, s', rfl, h⟩
  | err code s' => rw [hm] at h; exact .inr ⟨code, s', rfl, h⟩
  | abort => rw [hm] at h; exact h.elim

/-- The rule for a fold: an invariant of the accumulator and the state that
each step keeps holds at the end. The step may use that its element is in
the list. -/
theorem wp_foldlM {f : β → γ → Tx S β} (inv : β → S → Prop) {err : Nat → S → Prop}
    {void : Prop} :
    ∀ {l : List γ} {b : β} {s : S}, inv b s →
      (∀ b s c, c ∈ l → inv b s → wp (f b c) s inv err void) →
      wp (l.foldlM f b) s inv err void
  | [], _, _, hinv, _ => hinv
  | c :: l, b, s, hinv, hstep => by
      rw [List.foldlM_cons, wp_bind]
      refine (hstep b s c (by simp) hinv).mono (fun b' s' h' => ?_) (fun _ _ h => h) id
      exact wp_foldlM inv h' (fun b s c hc => hstep b s c (by simp [hc]))

/-- The rule for a fold over tasks: if each step gets its own task done and
undoes none, all tasks are done at the end. -/
theorem wp_foldlM_all {f : β → γ → Tx S β} (inv : S → Prop) (done : γ → S → Prop)
    {void : Prop} :
    ∀ {l : List γ} {b : β} {s : S}, inv s →
      (∀ b s c, c ∈ l → inv s →
        wp (f b c) s (fun _ s' => inv s' ∧ done c s' ∧ ∀ c', done c' s → done c' s')
          (fun _ _ => False) void) →
      wp (l.foldlM f b) s
        (fun _ s' => inv s' ∧ (∀ c ∈ l, done c s') ∧ ∀ c', done c' s → done c' s')
        (fun _ _ => False) void
  | [], _, _, hinv, _ => ⟨hinv, by simp, fun _ h => h⟩
  | c :: l, b, s, hinv, hstep => by
      rw [List.foldlM_cons, wp_bind]
      refine (hstep b s c (by simp) hinv).mono (fun b' s' h' => ?_) (fun _ _ h => h) id
      obtain ⟨hinv', hdone, hkeep⟩ := h'
      refine (wp_foldlM_all inv done hinv' fun b s c hc => hstep b s c (by simp [hc])).mono
        ?_ (fun _ _ h => h) id
      intro b'' s'' hpost
      obtain ⟨hinv'', hall, hkeep'⟩ := hpost
      refine ⟨hinv'', fun c' hc' => ?_, fun c' h => hkeep' c' (hkeep c' h)⟩
      rcases List.mem_cons.mp hc' with rfl | hc'
      · exact hkeep' _ hdone
      · exact hall c' hc'

/-- The rule for a list of actions: an invariant each action keeps holds at
the end. -/
theorem wp_forM {f : γ → Tx S PUnit} (inv : S → Prop) {err : Nat → S → Prop}
    {void : Prop} :
    ∀ {l : List γ} {s : S}, inv s →
      (∀ s c, c ∈ l → inv s → wp (f c) s (fun _ => inv) err void) →
      wp (l.forM f) s (fun _ => inv) err void
  | [], _, hinv, _ => hinv
  | c :: l, s, hinv, hstep => by
      show wp (f c >>= fun _ => l.forM f) s _ err void
      rw [wp_bind]
      refine (hstep s c (by simp) hinv).mono (fun _ s' h' => ?_) (fun _ _ h => h) id
      exact wp_forM inv h' (fun s c hc => hstep s c (by simp [hc]))

/-- The rule for a map: an invariant each element keeps holds at the end. -/
theorem wp_mapEach {f : γ → Tx S β} (inv : S → Prop) {err : Nat → S → Prop} {void : Prop}
    (hstep : ∀ s c, inv s → wp (f c) s (fun _ => inv) err void) {l : List γ} {s : S}
    (hs : inv s) : wp (mapEach f l) s (fun _ => inv) err void := by
  induction l generalizing s with
  | nil => exact hs
  | cons c l ih =>
      simp only [mapEach, wp_bind, wp_pure]
      exact (hstep s c hs).mono (fun _ s' h' => ih h') (fun _ _ h => h) id

end Wp

end Tx

end Spox.Lib
