import Mathlib.Logic.Relation

/-!
# Labelled runs

A system described by labelled steps, and the runs that use only the labels
a predicate allows. An invariant is proved for one step of each label and
then holds along every run (`Runs.invariant`); a run that uses few labels
needs few cases.
-/

namespace Spox.Lib

variable {L S : Type}

/-- A finite sequence of steps with allowed labels. -/
def Runs (step : L → S → S → Prop) (allowed : L → Prop) : S → S → Prop :=
  Relation.ReflTransGen fun s s' => ∃ l, allowed l ∧ step l s s'

namespace Runs

variable {step : L → S → S → Prop} {allowed allowed' : L → Prop} {s s' s'' : S} {l : L}

theorem refl : Runs step allowed s s := Relation.ReflTransGen.refl

theorem single (hl : allowed l) (h : step l s s') : Runs step allowed s s' :=
  Relation.ReflTransGen.single ⟨l, hl, h⟩

theorem trans (h : Runs step allowed s s') (h' : Runs step allowed s' s'') :
    Runs step allowed s s'' :=
  Relation.ReflTransGen.trans h h'

theorem mono (h : Runs step allowed s s') (hsub : ∀ l, allowed l → allowed' l) :
    Runs step allowed' s s' := by
  refine Relation.ReflTransGen.mono ?_ _ _ h
  intro a b hlast
  obtain ⟨l, hl, hstep⟩ := hlast
  exact ⟨l, hsub l hl, hstep⟩

/-- What every allowed step preserves holds at the end of a run. -/
theorem invariant (inv : S → Prop) (h : Runs step allowed s s')
    (hstep : ∀ l s s', allowed l → step l s s' → inv s → inv s') (hs : inv s) :
    inv s' := by
  induction h with
  | refl => exact hs
  | tail _ hlast ih =>
      obtain ⟨l, hl, hl'⟩ := hlast
      exact hstep l _ _ hl hl' ih

end Runs

end Spox.Lib
