import Mathlib.Data.List.Basic
import Mathlib.Tactic.Common

/-!
# Rectangles of a grid

The cells of a rectangle, row by row and in each row from left to right, are what two nested loops
go over. Of the cells of a rectangle those that lie left of a column and above a row are a rectangle
with the same corner (`filter_cells`), so that a loop with a test for each cell and a loop over the
clipped rectangle go over the same cells in the same order.
-/

namespace Grid

/-- The cells of a rectangle, row by row. -/
def cells (x y w h : ℕ) : List (ℕ × ℕ) :=
  (List.range h).flatMap fun dy ↦ (List.range w).map fun dx ↦ (x + dx, y + dy)

section

variable {x y w h : ℕ}

theorem mem_cells {p : ℕ × ℕ} :
    p ∈ cells x y w h ↔ (x ≤ p.1 ∧ p.1 < x + w) ∧ y ≤ p.2 ∧ p.2 < y + h := by
  simp only [cells, List.mem_flatMap, List.mem_map, List.mem_range]
  constructor
  · rintro ⟨dy, hdy, dx, hdx, rfl⟩
    exact ⟨⟨Nat.le_add_right _ _, by omega⟩, Nat.le_add_right _ _, by omega⟩
  · rintro ⟨⟨hx, hx'⟩, hy, hy'⟩
    exact ⟨p.2 - y, by omega, p.1 - x, by omega,
      Prod.ext (Nat.add_sub_cancel' hx) (Nat.add_sub_cancel' hy)⟩

theorem filter_range (x n m : ℕ) :
    (List.range n).filter (fun k ↦ x + k < m) = List.range (min n (m - x)) := by
  induction n with
  | zero => rw [Nat.zero_min]; rfl
  | succ n ih =>
    rw [List.range_succ, List.filter_append, ih, List.filter_singleton]
    by_cases hlt : x + n < m
    · rw [Nat.min_eq_left (by omega), Nat.min_eq_left (by omega), List.range_succ]
      simp [hlt]
    · rw [Nat.min_eq_right (by omega), Nat.min_eq_right (by omega)]
      simp [hlt]

theorem flatMap_ite_nil {α β : Type*} (p : α → Prop) [DecidablePred p] (f : α → List β)
    (l : List α) :
    (l.flatMap fun a ↦ if p a then f a else []) = (l.filter fun a ↦ p a).flatMap f := by
  induction l with
  | nil => rfl
  | cons a l ih =>
    rw [List.flatMap_cons, ih]
    by_cases ha : p a
    · rw [if_pos ha, List.filter_cons_of_pos (by simpa using ha), List.flatMap_cons]
    · rw [if_neg ha, List.filter_cons_of_neg (by simpa using ha), List.nil_append]

/-- **Clipping a rectangle** leaves the cells that pass the test, in their order. -/
theorem filter_cells (x y w h width height : ℕ) :
    (cells x y w h).filter (fun p ↦ p.1 < width ∧ p.2 < height) =
      cells x y (min w (width - x)) (min h (height - y)) := by
  have hrow : ∀ dy, ((List.range w).map fun dx ↦ (x + dx, y + dy)).filter
      (fun p ↦ p.1 < width ∧ p.2 < height) =
      if y + dy < height then (List.range (min w (width - x))).map fun dx ↦ (x + dx, y + dy)
      else [] := by
    intro dy
    rw [List.filter_map]
    split
    · next hin =>
      rw [← filter_range]
      congr 2
      funext dx
      simp [hin]
    · next hout =>
      rw [List.map_eq_nil_iff, List.filter_eq_nil_iff]
      intro dx _
      simp [hout]
  rw [cells, List.filter_flatMap, cells, ← filter_range y]
  simp only [hrow]
  exact flatMap_ite_nil _ _ _

end

end Grid
