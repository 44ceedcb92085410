import Mathlib.Logic.Function.Basic
import RelizOS.Library.Fallible

/-!
# Slices and counting loops

A `Slice` is a sequence of values whose length is known when the program runs. Its reads and writes
are checked against the length, as those of a Rust slice are. What the representation has behind the
end is never read.

A `for` loop over a range is a fold in the monad of checked computations, and `foldlM_range` is its
rule: an invariant that holds at the start and that every iteration carries from one index to the
next holds at the end, and then the loop has ended without a fault. Where the index alone decides
whether an iteration returns, the loop returns exactly when all of them do (`returns_foldlM_range`).
-/

/-- A sequence of `len` values. -/
structure Slice (α : Type) where
  /-- The value at an index. -/
  get : ℕ → α
  /-- The number of values. -/
  len : ℕ

namespace Slice

variable {α : Type} {s : Slice α} {i j : ℕ} {a : α}

/-- `s[i]`. -/
def read (s : Slice α) (i : ℕ) : Checked α := if i < s.len then .ok (s.get i) else .error .bounds

/-- `s[i] = a`. -/
def write (s : Slice α) (i : ℕ) (a : α) : Checked (Slice α) :=
  if i < s.len then .ok { s with get := Function.update s.get i a } else .error .bounds

theorem read_of_lt (h : i < s.len) : s.read i = .ok (s.get i) := if_pos h

theorem write_of_lt (h : i < s.len) :
    s.write i a = .ok { s with get := Function.update s.get i a } := if_pos h

theorem returns_read_bind {β : Type} {f : α → Checked β} :
    Checked.Returns (s.read i >>= f) ↔ i < s.len ∧ Checked.Returns (f (s.get i)) := by
  rw [read]
  by_cases h : i < s.len
  · rw [if_pos h]
    exact (and_iff_right h).symm
  · rw [if_neg h]
    exact iff_of_false (fun ⟨_, hb⟩ ↦ by cases hb) fun hlt ↦ h hlt.1

/-- The `n` values from an index on. -/
def segment (s : Slice α) (i n : ℕ) : List α := (List.range n).map fun k ↦ s.get (i + k)

theorem segment_congr {s' : Slice α} {n : ℕ} (h : ∀ k < n, s'.get (i + k) = s.get (i + k)) :
    s'.segment i n = s.segment i n := by
  apply List.map_congr_left
  intro k hk
  exact h k (List.mem_range.mp hk)

theorem segment_succ (s : Slice α) (i n : ℕ) :
    s.segment i (n + 1) = s.segment i n ++ [s.get (i + n)] := by
  rw [segment, List.range_succ, List.map_append]
  rfl

end Slice

theorem List.mapM_eq_map {m : Type → Type} [Monad m] [LawfulMonad m] {α β : Type} {f : α → m β}
    {g : α → β} {l : List α} (h : ∀ a ∈ l, f a = pure (g a)) : l.mapM f = pure (l.map g) := by
  induction l with
  | nil => exact List.mapM_nil
  | cons a l ih =>
    rw [List.mapM_cons, h a List.mem_cons_self, pure_bind,
      ih fun b hb ↦ h b (List.mem_cons_of_mem a hb), pure_bind, List.map_cons]

namespace Checked

variable {σ α : Type}

/-- **The rule for counting loops.** -/
theorem foldlM_range {f : σ → ℕ → Checked σ} (I : ℕ → σ → Prop) {s : σ} {n : ℕ}
    (h0 : I 0 s) (hstep : ∀ k < n, ∀ t, I k t → ∃ t', f t k = .ok t' ∧ I (k + 1) t') :
    ∃ t, (List.range n).foldlM f s = .ok t ∧ I n t := by
  induction n with
  | zero => exact ⟨s, rfl, h0⟩
  | succ n ih =>
    obtain ⟨t, ht, hI⟩ := ih fun k hk ↦ hstep k (Nat.lt_succ_of_lt hk)
    obtain ⟨t', ht', hI'⟩ := hstep n (Nat.lt_succ_self n) t hI
    refine ⟨t', ?_, hI'⟩
    rw [List.range_succ, List.foldlM_append, ht, Checked.ok_bind, List.foldlM_cons, ht',
      Checked.ok_bind, List.foldlM_nil, Checked.pure_eq_ok]

/-- **When a counting loop returns**: if whether an iteration returns depends only on its index, the
loop returns exactly when all iterations do. -/
theorem returns_foldlM_range {f : σ → ℕ → Checked σ} {P : ℕ → Prop} {s : σ} {n : ℕ}
    (hstep : ∀ k < n, ∀ t, Returns (f t k) ↔ P k) :
    Returns ((List.range n).foldlM f s) ↔ ∀ k < n, P k := by
  induction n with
  | zero => exact iff_of_true ⟨s, rfl⟩ fun k hk ↦ absurd hk (Nat.not_lt_zero k)
  | succ n ih =>
    have hlast : ∀ t, Returns ([n].foldlM f t) ↔ P n := fun t ↦ by
      rw [List.foldlM_cons, ← hstep n (Nat.lt_succ_self n) t]
      exact returns_bind_iff fun t ↦ ⟨t, rfl⟩
    have ih := ih fun k hk ↦ hstep k (Nat.lt_succ_of_lt hk)
    rw [List.range_succ, List.foldlM_append, returns_bind]
    simp only [hlast]
    constructor
    · rintro ⟨t, ht, hn⟩ k hk
      rcases Nat.lt_succ_iff_lt_or_eq.mp hk with hlt | rfl
      · exact ih.mp ⟨t, ht⟩ k hlt
      · exact hn
    · intro h
      obtain ⟨t, ht⟩ := ih.mpr fun k hk ↦ h k (Nat.lt_succ_of_lt hk)
      exact ⟨t, ht, h n (Nat.lt_succ_self n)⟩

/-- A loop may be replaced by one whose body does the same wherever the first returns. -/
theorem foldlM_of_imp {f g : σ → α → Checked σ} {l : List α} {s t : σ}
    (himp : ∀ a ∈ l, ∀ s s', f s a = .ok s' → g s a = .ok s') (h : l.foldlM f s = .ok t) :
    l.foldlM g s = .ok t := by
  induction l generalizing s with
  | nil => exact h
  | cons a l ih =>
    rw [List.foldlM_cons] at h ⊢
    obtain ⟨s', hs', h⟩ := bind_eq_ok.mp h
    rw [himp a List.mem_cons_self s s' hs', ok_bind]
    exact ih (fun b hb ↦ himp b (List.mem_cons_of_mem a hb)) h

theorem foldlM_congr {f g : σ → α → Checked σ} {l : List α} (h : ∀ a ∈ l, ∀ s, f s a = g s a)
    (s : σ) : l.foldlM f s = l.foldlM g s := by
  induction l generalizing s with
  | nil => rfl
  | cons a l ih =>
    rw [List.foldlM_cons, List.foldlM_cons, h a List.mem_cons_self]
    congr 1
    funext t
    exact ih (fun b hb ↦ h b (List.mem_cons_of_mem a hb)) t

/-- A loop whose body returns, in states with a property that it keeps, is a fold without checks. -/
theorem foldlM_eq_foldl {f : σ → α → Checked σ} {g : σ → α → σ} (P : σ → Prop) {l : List α} {s : σ}
    (hs : P s) (hstep : ∀ a ∈ l, ∀ t, P t → f t a = .ok (g t a) ∧ P (g t a)) :
    l.foldlM f s = .ok (l.foldl g s) := by
  induction l generalizing s with
  | nil => rfl
  | cons a l ih =>
    obtain ⟨hf, hP⟩ := hstep a List.mem_cons_self s hs
    rw [List.foldlM_cons, hf, ok_bind, List.foldl_cons]
    exact ih hP fun b hb ↦ hstep b (List.mem_cons_of_mem a hb)

theorem foldlM_flatMap {β : Type} {f : σ → β → Checked σ} (g : α → List β) (l : List α) (s : σ) :
    (l.flatMap g).foldlM f s = l.foldlM (fun s a ↦ (g a).foldlM f s) s := by
  induction l generalizing s with
  | nil => rfl
  | cons a l ih =>
    rw [List.flatMap_cons, List.foldlM_append, List.foldlM_cons]
    congr 1
    funext t
    exact ih t

end Checked
