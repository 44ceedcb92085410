import RelizOS.Library.Checked

/-!
# Cursors over a list

A cursor is a state from which `next` takes one element at a time. `IsCursor next rest Ok` says that
`rest` is the list still to come: from an admissible state `next` returns its head, `none` when it
is empty, and leaves the tail. Whatever the state looks like, the results of any number of calls are
then the elements of that list in order, and `none` from there on.
-/

namespace Cursor

variable {σ α : Type} {next : σ → Checked (Option α × σ)} {rest : σ → List α} {Ok : σ → Prop}

/-- From a state that satisfies `Ok`, `next` takes the head of `rest`. -/
def IsCursor (next : σ → Checked (Option α × σ)) (rest : σ → List α) (Ok : σ → Prop) : Prop :=
  ∀ s, Ok s → ∃ s', next s = .ok ((rest s).head?, s') ∧ rest s' = (rest s).tail ∧ Ok s'

/-- The results of `n` calls in a row. -/
def draw (next : σ → Checked (Option α × σ)) : ℕ → σ → Checked (List (Option α) × σ)
  | 0, s => .ok ([], s)
  | n + 1, s => do
    let (a, s) ← next s
    let (as, s) ← draw next n s
    return (a :: as, s)

/-- **What a cursor returns**: the `i`-th call returns the `i`-th element, `none` behind the last.
-/
theorem IsCursor.draw_eq (h : IsCursor next rest Ok) (n : ℕ) {s : σ} (hs : Ok s) :
    ∃ s', draw next n s = .ok ((List.range n).map fun i ↦ (rest s)[i]?, s') ∧
      rest s' = (rest s).drop n ∧ Ok s' := by
  induction n generalizing s with
  | zero => exact ⟨s, rfl, rfl, hs⟩
  | succ n ih =>
    obtain ⟨s₁, hnext, hrest, hs₁⟩ := h s hs
    obtain ⟨s', hdraw, hdrop, hs'⟩ := ih hs₁
    refine ⟨s', ?_, by rw [hdrop, hrest, List.drop_tail], hs'⟩
    rw [draw, hnext, Checked.ok_bind]
    dsimp only
    rw [hdraw, Checked.ok_bind, hrest, List.range_succ_eq_map, List.map_cons, List.map_map,
      List.head?_eq_getElem?]
    simp only [List.getElem?_tail]
    rfl

end Cursor
