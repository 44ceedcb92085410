import Mathlib.Data.Nat.Notation
import Mathlib.Tactic.Common

/-!
# Runs of a labelled transition system

A system is a step relation `step s e s'`: in state `s` the event `e` may lead to `s'`. A `Run` is a
finite sequence of steps, growing at its end, together with its events in order. Safety properties
are proved through `Run.invariant`; properties that only hold while every step meets a side
condition use the same rule for the relation `guarded`.
-/

namespace LabelledRun

variable {σ ε : Type} {step : σ → ε → σ → Prop}

/-- The steps of a system, taken from left to right. -/
inductive Run (step : σ → ε → σ → Prop) (s : σ) : List ε → σ → Prop
  | nil : Run step s [] s
  | snoc {es : List ε} {s' s'' : σ} {e : ε} (h : Run step s es s') (he : step s' e s'') :
      Run step s (es ++ [e]) s''

/-- The steps that meet the condition `good` in the state they are taken from. -/
def guarded (good : σ → ε → Prop) (step : σ → ε → σ → Prop) : σ → ε → σ → Prop :=
  fun s e s' ↦ good s e ∧ step s e s'

/-- **The invariant rule.** What holds at the start and is preserved by every step holds in every
state reached. -/
theorem Run.invariant {P : σ → Prop} {s s' : σ} {es : List ε} (h : Run step s es s') (h0 : P s)
    (hstep : ∀ t e t', P t → step t e t' → P t') : P s' := by
  induction h with
  | nil => exact h0
  | snoc _ he ih => exact hstep _ _ _ ih he

theorem Run.mono {step' : σ → ε → σ → Prop} {s s' : σ} {es : List ε} (h : Run step s es s')
    (hle : ∀ t e t', step t e t' → step' t e t') : Run step' s es s' := by
  induction h with
  | nil => exact .nil
  | snoc _ he ih => exact .snoc ih (hle _ _ _ he)

theorem Run.append {s s' s'' : σ} {es es' : List ε} (h : Run step s es s')
    (h' : Run step s' es' s'') : Run step s (es ++ es') s'' := by
  induction h' with
  | nil => rwa [List.append_nil]
  | snoc _ he ih =>
    rw [← List.append_assoc]
    exact .snoc ih he

end LabelledRun
