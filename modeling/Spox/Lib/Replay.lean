import Mathlib.Data.List.Basic

/-!
# Replaying a log

A log is replayed by a reducer that may refuse an event. That a whole log is
accepted says that every event in it was justified by the events before it.
-/

namespace Spox.Lib

variable {A E : Type}

/-- The account a log leads to, `none` if one of its events is refused. -/
def replay (apply : A → E → Option A) (a : A) (log : List E) : Option A :=
  log.foldlM apply a

variable {apply : A → E → Option A} {a b : A}

@[simp] theorem replay_cons (e : E) (log : List E) :
    replay apply a (e :: log) = (apply a e).bind fun b => replay apply b log := rfl

@[simp] theorem replay_append (log log' : List E) :
    replay apply a (log ++ log') = (replay apply a log).bind fun b => replay apply b log' := by
  simp [replay, List.foldlM_append]

/-- Events the reducer ignores change nothing. -/
theorem replay_ignored {log : List E} (h : ∀ e ∈ log, ∀ a, apply a e = some a) :
    replay apply a log = some a := by
  induction log with
  | nil => rfl
  | cons e log ih =>
      rw [replay_cons, h e (by simp), Option.bind_some]
      exact ih fun e he => h e (by simp [he])

end Spox.Lib
