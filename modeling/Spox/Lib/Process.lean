import Mathlib.Logic.Relation
import Mathlib.Tactic.Common

/-!
# Processes and their environment

A process is a program whose every effect is a request that its environment
answers: a lock it takes, a remote call it awaits. An answer may be an error,
which ends the process. Between two requests the environment may change the
state on its own (`Environment.rely`).

`Process.Meets` is the specification of a process under interference: an
invariant holds in every state of every interleaving, and a postcondition
when the process ends. It is closed under interference by definition, so the
rules ask for stability only where a request is made.
-/

namespace Spox.Lib

/-- A program that makes requests `Q`, each answered by a value of its type
`A` or by an error `ε`. -/
inductive Process (Q : Type) (A : Q → Type) (ε α : Type) : Type where
  | pure (value : α)
  | fail (error : ε)
  | ask (request : Q) (resume : A request → Process Q A ε α)

/-- What surrounds a process: how the state changes between its requests, and
how a request may be answered. -/
structure Environment (Q : Type) (A : Q → Type) (ε S : Type) where
  rely : S → S → Prop
  answer : (request : Q) → S → Except ε (A request) → S → Prop

variable {Q : Type} {A : Q → Type} {ε S α β γ : Type}

namespace Process

/-- Run a process and go on with its value. -/
def bind (p : Process Q A ε α) (f : α → Process Q A ε β) : Process Q A ε β :=
  match p with
  | .pure a => f a
  | .fail e => .fail e
  | .ask q resume => .ask q fun a => bind (resume a) f

instance : Monad (Process Q A ε) where
  pure := .pure
  bind := bind

/-- A computed result. -/
def ofExcept : Except ε α → Process Q A ε α
  | .ok a => .pure a
  | .error e => .fail e

/-! ## Interleavings -/

variable (env : Environment Q A ε S)

/-- One step of a process and its environment. -/
inductive Step : Process Q A ε α → S → Process Q A ε α → S → Prop
  | rely {p : Process Q A ε α} {s s' : S} (h : env.rely s s') : Step p s p s'
  | answer {q : Q} {resume : A q → Process Q A ε α} {s s' : S} {a : A q}
      (h : env.answer q s (.ok a) s') : Step (.ask q resume) s (resume a) s'
  | error {q : Q} {resume : A q → Process Q A ε α} {s s' : S} {e : ε}
      (h : env.answer q s (.error e) s') : Step (.ask q resume) s (.fail e) s'

/-- The environment acts any number of times. -/
def Interferes : S → S → Prop := Relation.ReflTransGen env.rely

/-- The invariant and `P` hold, and the environment does not disturb them. -/
def Settles (inv P : S → Prop) (s : S) : Prop := ∀ s', Interferes env s s' → inv s' ∧ P s'

/-- In every interleaving from `s` the invariant holds throughout, and when
the process ends, `ok` or `err` does. -/
def Meets (inv : S → Prop) (ok : α → S → Prop) (err : ε → S → Prop) :
    Process Q A ε α → S → Prop
  | .pure a, s => Settles env inv (ok a) s
  | .fail e, s => Settles env inv (err e) s
  | .ask q resume, s => ∀ s', Interferes env s s' → inv s' ∧
      (∀ a s'', env.answer q s' (.ok a) s'' → Meets inv ok err (resume a) s'') ∧
      (∀ e s'', env.answer q s' (.error e) s'' → Settles env inv (err e) s'')

variable {env} {inv : S → Prop} {ok : α → S → Prop} {err : ε → S → Prop}
  {p p' : Process Q A ε α} {s s' : S}

section Adequacy

theorem Meets.safe (h : Meets env inv ok err p s) : inv s := by
  cases p with
  | pure a => exact (h s .refl).1
  | fail e => exact (h s .refl).1
  | ask q resume => exact (h s .refl).1

theorem Meets.rely (h : Meets env inv ok err p s) (hrely : env.rely s s') :
    Meets env inv ok err p s' := by
  cases p with
  | pure a => exact fun t ht => h t (.head hrely ht)
  | fail e => exact fun t ht => h t (.head hrely ht)
  | ask q resume => exact fun t ht => h t (.head hrely ht)

/-- **What a process meets it meets after every step.** -/
theorem Meets.step (h : Meets env inv ok err p s) (hstep : Step env p s p' s') :
    Meets env inv ok err p' s' := by
  cases hstep with
  | rely hrely => exact h.rely hrely
  | answer hanswer => exact (h s .refl).2.1 _ s' hanswer
  | error hanswer => exact (h s .refl).2.2 _ s' hanswer

theorem Meets.of_pure {a : α} (h : Meets env inv ok err (.pure a) s) : ok a s :=
  (h s .refl).2

theorem Meets.of_fail {e : ε} (h : Meets env inv ok err (.fail e) s) : err e s :=
  (h s .refl).2

end Adequacy

/-! ## Rules -/

section Rules

/-- What the environment cannot disturb, and includes the invariant. -/
structure Stable (env : Environment Q A ε S) (inv P : S → Prop) : Prop where
  rely : ∀ s s', P s → env.rely s s' → P s'
  safe : ∀ s, P s → inv s

theorem Stable.interferes {P : S → Prop} (hP : Stable env inv P) (hs : P s)
    (h : Interferes env s s') : P s' := by
  induction h with
  | refl => exact hs
  | tail _ hrely ih => exact hP.rely _ _ ih hrely

theorem Stable.settles {P : S → Prop} (hP : Stable env inv P) (hs : P s) :
    Settles env inv P s := by
  intro t ht
  have hPt := hP.interferes hs ht
  exact ⟨hP.safe t hPt, hPt⟩

/-- One request from a stable state: whatever the answer, what follows it
meets the rest. -/
theorem meets_ask {P : S → Prop} {q : Q} {resume : A q → Process Q A ε α}
    (hP : Stable env inv P) (hs : P s)
    (hok : ∀ t a t', P t → env.answer q t (.ok a) t' → Meets env inv ok err (resume a) t')
    (herr : ∀ t e t', P t → env.answer q t (.error e) t' → Settles env inv (err e) t') :
    Meets env inv ok err (.ask q resume) s := by
  intro t ht
  have hPt := hP.interferes hs ht
  exact ⟨hP.safe t hPt, fun a t' h => hok t a t' hPt h, fun e t' h => herr t e t' hPt h⟩

/-- Sequencing: the first part ends where the second may start. -/
theorem meets_bind {f : α → Process Q A ε β} {ok' : β → S → Prop}
    (h : Meets env inv ok err p s)
    (hok : ∀ a t, ok a t → Meets env inv ok' err (f a) t) :
    Meets env inv ok' err (p >>= f) s := by
  show Meets env inv ok' err (p.bind f) s
  -- on the first program: a request only moves the two parts apart
  induction p generalizing s with
  | pure a => exact hok a s (h s .refl).2
  | fail e => exact h
  | ask q resume ih =>
      intro t ht
      obtain ⟨hinv, hresume, herror⟩ := h t ht
      exact ⟨hinv, fun a t' ha => ih a (hresume a t' ha), herror⟩

/-- A loop over a list: an assertion about what is left to do. -/
theorem meets_forM {f : γ → Process Q A ε PUnit} {P : S → Prop}
    (todo : List γ → S → Prop) (hdone : ∀ t, todo [] t → Settles env inv P t)
    (hstep : ∀ c l t, todo (c :: l) t →
      Meets env inv (fun _ => todo l) err (f c) t)
    {l : List γ} (hs : todo l s) : Meets env inv (fun _ => P) err (l.forM f) s := by
  -- on the list: `todo` is what the loop still owes
  induction l generalizing s with
  | nil => exact hdone s hs
  | cons c l ih => exact meets_bind (hstep c l s hs) fun _ t ht => ih ht

end Rules

end Process

end Spox.Lib
