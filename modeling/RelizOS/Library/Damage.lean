import Mathlib.Data.Set.Basic
import Mathlib.Logic.Function.Basic
import RelizOS.Library.LabelledRun

/-!
# Damage tracking

A picture is composed in the background and copied to the screen from time to time. To copy only
what has changed, a set of *dirty* places is kept: a place is marked after its colour in the picture
has changed, and a blit copies the dirty places and clears the set.

A tracker may copy more than it must. So marking some places may make any larger set dirty, and
after a blit any set may be dirty; a bounding box is a tracker in this sense.

The invariant `Tracked` says where screen and picture may differ: in a dirty place, or in one that
has changed since the last blit and not been marked since (`Pending`). If every change is marked
before the next blit (`Covered`), no place is pending when a blit comes, and after it the screen
shows the picture (`coherent_of_blit`).
-/

open LabelledRun

namespace Damage

variable {P C : Type}

/-- Picture, screen, and the dirty places. -/
structure State (P C : Type) where
  /-- The colours of the picture. -/
  back : P → C
  /-- The colours on the screen. -/
  screen : P → C
  /-- The places that the next blit copies. -/
  dirty : Set P

/-- What happens to the picture and the screen. -/
inductive Event (P C : Type) where
  /-- A place of the picture gets a colour. -/
  | change (p : P) (c : C)
  /-- Places are marked. -/
  | mark (S : Set P)
  /-- The dirty places are copied to the screen. -/
  | blit

/-- The steps of a tracker. -/
inductive Step [DecidableEq P] (s : State P C) : Event P C → State P C → Prop
  | change (p : P) (c : C) : Step s (.change p c) { s with back := Function.update s.back p c }
  | mark {S D : Set P} (hdirty : s.dirty ∪ S ⊆ D) : Step s (.mark S) { s with dirty := D }
  | blit {screen : P → C} {D : Set P} (hcopied : ∀ p ∈ s.dirty, screen p = s.back p)
      (hkept : ∀ p ∉ s.dirty, screen p = s.screen p) :
      Step s .blit { s with screen := screen, dirty := D }

/-- A place has changed since the last blit and has not been marked since. -/
def Pending (es : List (Event P C)) (p : P) : Prop :=
  ∃ before c after, es = before ++ .change p c :: after ∧ .blit ∉ after ∧
    ∀ S, .mark S ∈ after → p ∉ S

/-- Every place that changes is marked between the change and the next blit. -/
def Covered (es : List (Event P C)) : Prop :=
  ∀ before p c after rest, es = before ++ .change p c :: after ++ .blit :: rest → .blit ∉ after →
    ∃ S, .mark S ∈ after ∧ p ∈ S

/-- Screen and picture differ at most where a place is dirty or pending. -/
def Tracked (es : List (Event P C)) (s : State P C) : Prop :=
  ∀ p, s.screen p = s.back p ∨ p ∈ s.dirty ∨ Pending es p

section

variable {es : List (Event P C)} {e : Event P C} {p : P} {c : C}

theorem Covered.of_append {es' : List (Event P C)} (h : Covered (es ++ es')) : Covered es := by
  intro before p c after rest hes hafter
  refine h before p c after (rest ++ es') ?_ hafter
  rw [hes, List.append_assoc, List.cons_append]

theorem Covered.not_pending (h : Covered (es ++ [.blit])) : ¬Pending es p := by
  rintro ⟨before, c, after, rfl, hafter, hmarks⟩
  obtain ⟨S, hS, hp⟩ := h before p c after [] rfl hafter
  exact hmarks S hS hp

theorem pending_change (es : List (Event P C)) (p : P) (c : C) :
    Pending (es ++ [.change p c]) p :=
  ⟨es, c, [], rfl, List.not_mem_nil, fun _ h ↦ absurd h List.not_mem_nil⟩

theorem Pending.append (h : Pending es p) (hblit : e ≠ .blit) (hmark : ∀ S, e = .mark S → p ∉ S) :
    Pending (es ++ [e]) p := by
  obtain ⟨before, c, after, rfl, hafter, hmarks⟩ := h
  refine ⟨before, c, after ++ [e], ?_, ?_, fun S hS ↦ ?_⟩
  · rw [List.append_assoc, List.cons_append]
  · rw [List.mem_append, List.mem_singleton, not_or]
    exact ⟨hafter, Ne.symm hblit⟩
  · rcases List.mem_append.mp hS with hS | hS
    · exact hmarks S hS
    · exact hmark S (List.mem_singleton.mp hS).symm

end

section

variable [DecidableEq P] {es : List (Event P C)} {e : Event P C} {s s' : State P C}

theorem Step.copied (h : Step s .blit s') :
    s'.back = s.back ∧ ∀ p ∈ s.dirty, s'.screen p = s.back p := by
  cases h with
  | blit hcopied hkept => exact ⟨rfl, hcopied⟩

/-- A blit that finds no place pending makes the screen show the picture. -/
theorem Step.coherent (h : Step s .blit s') (hs : Tracked es s)
    (hcovered : Covered (es ++ [.blit])) (p : P) : s'.screen p = s'.back p := by
  cases h with
  | blit hcopied hkept =>
    by_cases hp : p ∈ s.dirty
    · exact hcopied p hp
    · -- what is not copied was not different
      rcases hs p with hsame | hdirty | hpending
      · exact (hkept p hp).trans hsame
      · exact absurd hdirty hp
      · exact absurd hpending hcovered.not_pending

/-- **The step lemma.** -/
theorem Step.tracked (h : Step s e s') (hs : Tracked es s) (hcovered : Covered (es ++ [e])) :
    Tracked (es ++ [e]) s' := by
  intro p
  cases h with
  | change q c =>
    by_cases hp : p = q
    · subst hp
      exact Or.inr (Or.inr (pending_change es p c))
    · rcases hs p with hsame | hdirty | hpending
      · left
        dsimp only
        rw [Function.update_of_ne hp]
        exact hsame
      · exact Or.inr (Or.inl hdirty)
      · exact Or.inr (Or.inr (hpending.append (by simp) (by simp)))
  | @mark S D hdirty =>
    rcases hs p with hsame | hp | hpending
    · exact Or.inl hsame
    · exact Or.inr (Or.inl (hdirty (Or.inl hp)))
    · right
      by_cases hp : p ∈ S
      · exact Or.inl (hdirty (Or.inr hp))
      · refine Or.inr (hpending.append (by simp) fun T hT ↦ ?_)
        rwa [← Event.mark.inj hT]
  | blit hcopied hkept => exact Or.inl ((Step.blit hcopied hkept).coherent hs hcovered p)

/-- **The run lemma.** -/
theorem tracked_of_run (hrun : Run Step s es s') (hs : Tracked [] s) (hcovered : Covered es) :
    Tracked es s' := by
  induction hrun with
  | nil => exact hs
  | snoc _ hstep ih => exact hstep.tracked (ih hcovered.of_append) hcovered

/-- **After a blit the screen shows the picture**, when all changes are covered. -/
theorem coherent_of_blit {s'' : State P C} (hs : Tracked [] s) (hrun : Run Step s es s')
    (hblit : Step s' .blit s'') (hcovered : Covered (es ++ [.blit])) :
    s''.screen = s''.back := by
  funext p
  exact hblit.coherent (tracked_of_run hrun hs hcovered.of_append) hcovered p

end

end Damage
