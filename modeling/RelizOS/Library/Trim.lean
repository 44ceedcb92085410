import Mathlib.Data.List.DropRight

/-!
# Trimming

`trimWhile p` takes the elements with the property `p` off both ends of a list. It does not matter
which end comes first (`dropWhile_rdropWhile`), so that trimming the end before is the same as not
(`trimWhile_rdropWhile`). A line that consists of a word and an argument is trimmed to the word and
the argument trimmed at its end, or to the word alone (`trimWhile_line`).
-/

namespace List

variable {α : Type*} {p : α → Bool}

/-- Without the elements with the property at the two ends. -/
def trimWhile (p : α → Bool) (l : List α) : List α := (l.dropWhile p).rdropWhile p

theorem rdropWhile_append (l₁ l₂ : List α) :
    (l₁ ++ l₂).rdropWhile p =
      if l₂.rdropWhile p = [] then l₁.rdropWhile p else l₁ ++ l₂.rdropWhile p := by
  simp only [rdropWhile, reverse_append, dropWhile_append, isEmpty_iff, reverse_eq_nil_iff]
  split
  · rfl
  · rw [reverse_append, reverse_reverse]

theorem rdropWhile_cons (a : α) (l : List α) :
    (a :: l).rdropWhile p =
      if l.rdropWhile p = [] then (if p a then [] else [a]) else a :: l.rdropWhile p := by
  rw [← singleton_append, rdropWhile_append, rdropWhile_singleton]
  rfl

/-- The two ends are independent. -/
theorem dropWhile_rdropWhile (l : List α) :
    (l.rdropWhile p).dropWhile p = (l.dropWhile p).rdropWhile p := by
  induction l with
  | nil => rw [rdropWhile_nil, dropWhile_nil, rdropWhile_nil]
  | cons a l ih =>
    by_cases ha : p a
    · rw [dropWhile_cons_of_pos ha, ← ih, rdropWhile_cons, if_pos ha]
      split
      · next hnil => rw [hnil]
      · rw [dropWhile_cons_of_pos ha]
    · rw [dropWhile_cons_of_neg ha, rdropWhile_cons, if_neg ha]
      split
      · rw [dropWhile_cons_of_neg ha]
      · rw [dropWhile_cons_of_neg ha]

theorem trimWhile_rdropWhile (l : List α) : (l.rdropWhile p).trimWhile p = l.trimWhile p := by
  rw [trimWhile, trimWhile, dropWhile_rdropWhile, rdropWhile_idempotent]

/-- **A word and an argument**, separated by an element with the property. -/
theorem trimWhile_line {w : List α} {a : α} (hne : w ≠ []) (hleft : w.dropWhile p = w)
    (hright : w.rdropWhile p = w) (ha : p a) (l : List α) :
    (w ++ a :: l).trimWhile p =
      if l.rdropWhile p = [] then w else w ++ a :: l.rdropWhile p := by
  have hdrop : (w ++ a :: l).dropWhile p = w ++ a :: l := by
    rw [dropWhile_append, hleft, if_neg (by simpa using hne)]
  rw [trimWhile, hdrop, rdropWhile_append, rdropWhile_cons, if_pos ha]
  by_cases hl : l.rdropWhile p = []
  · rw [if_pos hl, if_pos hl, if_pos rfl, hright]
  · rw [if_neg hl, if_neg hl, if_neg (cons_ne_nil _ _)]

/-- Nothing is left of a list exactly when nothing is left at its end. -/
theorem trimWhile_eq_nil_iff {l : List α} : l.trimWhile p = [] ↔ l.rdropWhile p = [] := by
  rw [trimWhile, ← dropWhile_rdropWhile, dropWhile_eq_nil_iff, ← rdropWhile_eq_nil_iff,
    rdropWhile_idempotent]

theorem mem_of_mem_trimWhile {a : α} {l : List α} (h : a ∈ l.trimWhile p) : a ∈ l := by
  have hkept := rdropWhile_prefix p (l.dropWhile p)
  exact (dropWhile_sublist p).mem (hkept.mem h)

end List
