import Mathlib.Algebra.Order.Group.Nat
import Mathlib.Data.Nat.Notation
import Mathlib.Logic.Function.Basic
import Mathlib.Tactic.Common

/-!
# Ring buffers with one reserved slot

A ring of `N` slots with a write and a read position holds a sequence `xs` when the slots from the
read position on, taken cyclically, contain `xs`, and the write position is the slot behind them.
One slot stays empty, so equal positions mean an empty ring and never a full one.

`RingHolds` is the abstraction relation between the ring and the sequence. `push` appends, `pop`
removes the first element, and the two comparisons of positions decide emptiness and fullness.
-/

/-- The ring `buf` of `N` slots holds `xs`, oldest element first. -/
structure RingHolds {α : Type} (N : ℕ) (buf : ℕ → α) (w r : ℕ) (xs : List α) : Prop where
  /-- The read position is a slot. -/
  read_lt : r < N
  /-- The write position is the slot behind the last element. -/
  write_eq : w = (r + xs.length) % N
  /-- One slot stays empty. -/
  length_lt : xs.length < N
  /-- The slots contain the elements. -/
  slot : ∀ i x, xs[i]? = some x → buf ((r + i) % N) = x

namespace RingHolds

variable {α : Type} {N : ℕ} {buf : ℕ → α} {w r : ℕ} {xs : List α} {x : α}

private theorem add_mod_cases {r i N : ℕ} (hr : r < N) (hi : i < N) :
    r + i < N ∧ (r + i) % N = r + i ∨ N ≤ r + i ∧ (r + i) % N = r + i - N := by
  rcases Nat.lt_or_ge (r + i) N with h | h
  · exact Or.inl ⟨h, Nat.mod_eq_of_lt h⟩
  · refine Or.inr ⟨h, ?_⟩
    rw [Nat.mod_eq_sub_mod h, Nat.mod_eq_of_lt (by omega)]

private theorem add_mod_inj {r i j N : ℕ} (hr : r < N) (hi : i < N) (hj : j < N)
    (h : (r + i) % N = (r + j) % N) : i = j := by
  rcases add_mod_cases hr hi with ⟨h1, h2⟩ | ⟨h1, h2⟩ <;>
    rcases add_mod_cases hr hj with ⟨h3, h4⟩ | ⟨h3, h4⟩ <;> omega

theorem nil {buf : ℕ → α} (hr : r < N) : RingHolds N buf r r [] :=
  ⟨hr, (Nat.mod_eq_of_lt hr).symm, by rw [List.length_nil]; omega, by simp⟩

theorem write_lt (h : RingHolds N buf w r xs) : w < N := by
  rw [h.write_eq]
  exact Nat.mod_lt _ (by have := h.read_lt; omega)

theorem read_eq_write_iff (h : RingHolds N buf w r xs) : r = w ↔ xs = [] := by
  have hr := h.read_lt
  have hlen := h.length_lt
  rw [h.write_eq, ← List.length_eq_zero_iff]
  rcases add_mod_cases hr hlen with ⟨h1, h2⟩ | ⟨h1, h2⟩ <;> omega

/-- The write position is just behind the read position exactly when one slot is left. -/
theorem succ_write_eq_read_iff (h : RingHolds N buf w r xs) :
    (w + 1) % N = r ↔ xs.length + 1 = N := by
  have hr := h.read_lt
  have hlen := h.length_lt
  have hsucc : (w + 1) % N = (r + (xs.length + 1)) % N := by
    rw [h.write_eq, Nat.mod_add_mod, add_assoc]
  rw [hsucc]
  constructor
  · intro heq
    by_contra hne
    have h0 : (r + (xs.length + 1)) % N = (r + 0) % N := by
      rw [heq, add_zero, Nat.mod_eq_of_lt hr]
    exact absurd (add_mod_inj hr (by omega) (by omega) h0) (by omega)
  · intro heq
    rw [heq, Nat.add_mod_right, Nat.mod_eq_of_lt hr]

theorem head (h : RingHolds N buf w r (x :: xs)) : buf r = x := by
  have hslot := h.slot 0 x rfl
  rwa [add_zero, Nat.mod_eq_of_lt h.read_lt] at hslot

theorem pop (h : RingHolds N buf w r (x :: xs)) : RingHolds N buf w ((r + 1) % N) xs where
  read_lt := Nat.mod_lt _ (by have := h.read_lt; omega)
  write_eq := by
    rw [h.write_eq, List.length_cons, Nat.mod_add_mod]
    congr 1
    omega
  length_lt := by
    have := h.length_lt
    rw [List.length_cons] at this
    omega
  slot i y hy := by
    rw [Nat.mod_add_mod, add_assoc, add_comm 1 i]
    exact h.slot (i + 1) y hy

/-- **Appending**: the slot written is none of the slots in use. -/
theorem push (h : RingHolds N buf w r xs) (hroom : xs.length + 1 < N) (x : α) :
    RingHolds N (Function.update buf w x) ((w + 1) % N) r (xs ++ [x]) where
  read_lt := h.read_lt
  write_eq := by
    rw [h.write_eq, Nat.mod_add_mod, List.length_append, List.length_singleton, add_assoc]
  length_lt := by rwa [List.length_append, List.length_singleton]
  slot i y hy := by
    have hr := h.read_lt
    rcases Nat.lt_trichotomy i xs.length with hi | rfl | hi
    · have hne : (r + i) % N ≠ w := by
        rw [h.write_eq]
        exact fun heq ↦ absurd (add_mod_inj hr (by omega) (by omega) heq) (by omega)
      rw [List.getElem?_append_left hi] at hy
      rw [Function.update_of_ne hne, h.slot i y hy]
    · rw [List.getElem?_append_right le_rfl, Nat.sub_self, List.getElem?_cons_zero,
        Option.some_inj] at hy
      rw [h.write_eq, Function.update_self, hy]
    · rw [List.getElem?_eq_none (by rw [List.length_append, List.length_singleton]; omega)] at hy
      exact absurd hy (by simp)

end RingHolds
