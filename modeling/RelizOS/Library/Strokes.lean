import Mathlib.Data.List.Induction
import RelizOS.Library.Painting

/-!
# Pictures as lists of strokes

A `Stroke` changes one value of a buffer, whatever the value is: it sets it, or blends something
onto it. A list of strokes is a picture that does not depend on what it is drawn on; `applied` is
what it makes of a value.

`Draws n p l` says that the computation `p` ends without a panic on every buffer of length `n` and
has then made the strokes `l`. The rules below compute the strokes along the program: one after the
other is `++` (`Draws.seq`), and a loop makes the strokes of its iterations (`draws_forM`). Where
all strokes at an index set the same value, the result is that value (`applied_of_put`).
-/

/-- A change of one value of a buffer. -/
structure Stroke (α : Type) where
  index : ℕ
  change : α → α

namespace Stroke

variable {α : Type} {k : Stroke α} {l l' : List (Stroke α)} {i j : ℕ} {a b : α}

/-- The stroke that sets a value. -/
def put (i : ℕ) (a : α) : Stroke α := ⟨i, fun _ ↦ a⟩

/-- What strokes, one after the other, make of a value. -/
def applied (l : List (Stroke α)) (i : ℕ) (a : α) : α :=
  l.foldl (fun a k ↦ if k.index = i then k.change a else a) a

@[simp] theorem applied_nil : applied [] i a = a := rfl

theorem applied_append : applied (l ++ l') i a = applied l' i (applied l i a) :=
  List.foldl_append

theorem applied_cons : applied (k :: l) i a = applied l i (if k.index = i then k.change a else a) :=
  List.foldl_cons

/-- All strokes at an index set the same value, and there is one. -/
theorem applied_of_put (hmem : put i b ∈ l) (hall : ∀ k ∈ l, k.index = i → k = put i b) (a : α) :
    applied l i a = b := by
  induction l using List.reverseRecOn generalizing a with
  | nil => cases hmem
  | append_singleton l k ih =>
    rw [applied_append, applied_cons, applied_nil]
    by_cases hk : k.index = i
    · rw [if_pos hk, hall k (List.mem_append_right l (List.mem_singleton_self k)) hk, put]
    · rw [if_neg hk]
      refine ih ?_ (fun k' hk' ↦ hall k' (List.mem_append_left [k] hk')) a
      rcases List.mem_append.mp hmem with hmem | hmem
      · exact hmem
      · exact absurd (congrArg index (List.mem_singleton.mp hmem)).symm hk

end Stroke

open Stroke

/-- The buffer with strokes on it. -/
def Slice.draw {α : Type} (s : Slice α) (l : List (Stroke α)) : Slice α :=
  ⟨fun i ↦ applied l i (s.get i), s.len⟩

namespace Painting

variable {α β : Type} {n : ℕ} {p : Painting α Unit} {l l' : List (Stroke α)} {i : ℕ} {a : α}

/-- `buffer[i]`. -/
def load (i : ℕ) : Painting α α := do
  let s ← get
  s.read i

/-- The computation ends without a panic and makes the strokes. -/
def Draws (n : ℕ) (p : Painting α Unit) (l : List (Stroke α)) : Prop :=
  ∀ s : Slice α, s.len = n → exec p s = (.ok (), s.draw l)

theorem draws_pure : Draws n (pure () : Painting α Unit) [] := fun _ _ ↦ rfl

theorem draws_store (h : i < n) : Draws n (store i a) [.put i a] := by
  intro s hs
  rw [exec_store (hs ▸ h), Slice.draw]
  congr 2
  funext j
  rw [applied_cons, applied_nil, put]
  by_cases hj : i = j
  · rw [if_pos hj, hj, Function.update_self]
  · rw [if_neg hj, Function.update_of_ne fun heq ↦ hj heq.symm]

theorem draws_modify {f : α → Painting α Unit} {g : α → α} (h : i < n)
    (hf : ∀ a, f a = store i (g a)) : Draws n (load i >>= f) [⟨i, g⟩] := by
  intro s hs
  have hload : exec (load i) s = (.ok (s.get i), s) := by
    rw [load, exec_bind_of_ok (show exec get s = (.ok s, s) from rfl), Slice.read_of_lt (hs ▸ h)]
    exact exec_checked _ s
  rw [exec_bind_of_ok hload, hf, draws_store h s hs, Slice.draw, Slice.draw]
  congr 2
  funext j
  rw [applied_cons, applied_cons, applied_nil, applied_nil, put]
  by_cases hj : i = j
  · rw [if_pos hj, if_pos hj, hj]
  · rw [if_neg hj, if_neg hj]

/-- **One after the other.** -/
theorem Draws.seq {f : Unit → Painting α Unit} (hp : Draws n p l) (hf : Draws n (f ()) l') :
    Draws n (p >>= f) (l ++ l') := by
  intro s hs
  rw [exec_bind_of_ok (hp s hs), hf (s.draw l) hs, Slice.draw, Slice.draw, Slice.draw]
  congr 2
  funext j
  exact applied_append.symm

theorem draws_checked {c : Checked β} {b : β} {f : β → Painting α Unit} (hc : c = .ok b)
    (hf : Draws n (f b) l) : Draws n (liftM c >>= f) l := by
  intro s hs
  rw [hc, exec_bind_of_ok (exec_checked _ s)]
  exact hf s hs

theorem draws_add {w x y : ℕ} {f : ℕ → Painting α Unit} (h : x + y < 2 ^ w)
    (hf : Draws n (f (x + y)) l) : Draws n (liftM (Checked.add w x y) >>= f) l :=
  draws_checked (Checked.add_of_lt h) hf

theorem draws_mul {w x y : ℕ} {f : ℕ → Painting α Unit} (h : x * y < 2 ^ w)
    (hf : Draws n (f (x * y)) l) : Draws n (liftM (Checked.mul w x y) >>= f) l :=
  draws_checked (if_pos h) hf

theorem draws_sub {x y z : ℕ} {f : ℕ → Painting α Unit} (h : z + y = x) (hf : Draws n (f z) l) :
    Draws n (liftM (Checked.sub x y) >>= f) l := by
  subst h
  refine draws_checked (Checked.sub_of_le (Nat.le_add_left y z)) ?_
  rwa [Nat.add_sub_cancel]

theorem draws_bufLen {f : ℕ → Painting α Unit} (hf : Draws n (f n) l) :
    Draws n (bufLen >>= f) l := by
  rintro s rfl
  rw [exec_bind_of_ok (show exec bufLen s = (.ok s.len, s) from rfl)]
  exact hf s rfl

/-- **A loop** makes the strokes of its iterations. -/
theorem draws_forM {as : List β} {f : β → Painting α Unit} {l : β → List (Stroke α)}
    (h : ∀ b ∈ as, Draws n (f b) (l b)) : Draws n (as.forM f) (as.flatMap l) := by
  induction as with
  | nil => exact draws_pure
  | cons b as ih =>
    rw [List.forM_eq_forM, List.forM_cons, List.flatMap_cons]
    exact (h b List.mem_cons_self).seq (ih fun b' hb' ↦ h b' (List.mem_cons_of_mem b hb'))

theorem draws_range {m : ℕ} {f : ℕ → Painting α Unit} {l : ℕ → List (Stroke α)}
    (h : ∀ k < m, Draws n (f k) (l k)) :
    Draws n ((List.range m).forM f) ((List.range m).flatMap l) :=
  draws_forM fun k hk ↦ h k (List.mem_range.mp hk)

/-! ## Computations that panic -/

/-- The computation panics, whatever it is drawn on. -/
def Panics (p : Painting α β) : Prop := ∀ s, ∃ e s', exec p s = (.error e, s')

theorem Panics.after {γ : Type} {p : Painting α β} {f : β → Painting α γ}
    (h : ∀ b, Panics (f b)) : Panics (p >>= f) := by
  intro s
  rw [exec_bind]
  rcases exec p s with ⟨e | b, s'⟩
  · exact ⟨e, s', rfl⟩
  · exact h b s'

theorem Panics.before {γ : Type} {p : Painting α β} (h : Panics p) (f : β → Painting α γ) :
    Panics (p >>= f) := by
  intro s
  obtain ⟨e, s', hexec⟩ := h s
  exact ⟨e, s', by rw [exec_bind, hexec]⟩

theorem Panics.checked {γ : Type} {c : Checked β} {f : β → Painting α γ}
    (h : ∀ b, c = .ok b → Panics (f b)) : Panics (liftM c >>= f) := by
  intro s
  rw [exec_bind, exec_checked]
  cases c with
  | error e => exact ⟨e, s, rfl⟩
  | ok b => exact h b rfl s

end Painting
