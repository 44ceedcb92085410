import Mathlib.Algebra.Group.Action.Defs
import Mathlib.Algebra.Order.BigOperators.Group.List
import Mathlib.Algebra.Order.Group.Nat
import Mathlib.Algebra.Ring.Nat
import Mathlib.Order.Interval.Finset.Nat
import Mathlib.Tactic.Common

/-!
# Half-open address ranges

A `Span` is a range `[lo, hi)` of addresses. Two spans are *apart* when one ends before the other
begins; for non-empty spans this is disjointness of the two sets of addresses, and it is the form
linear arithmetic can use.

The one counting fact is `Packed.sum_len_le`: spans that are pairwise apart inside a container have
total length at most the container's. It bounds the number of nodes of any list laid out in a
region, and so the number of steps of a walk along it.
-/

/-- The addresses from `lo` up to, but not including, `hi`. -/
@[ext] structure Span where
  /-- The first address. -/
  lo : ℕ
  /-- The address after the last. -/
  hi : ℕ
  deriving DecidableEq, Repr

namespace Span

/-- The address lies in the span. -/
def Holds (s : Span) (a : ℕ) : Prop := s.lo ≤ a ∧ a < s.hi

/-- One of the spans ends before the other begins. -/
def Apart (s t : Span) : Prop := s.hi ≤ t.lo ∨ t.hi ≤ s.lo

/-- The first span lies inside the second. -/
def Within (s t : Span) : Prop := t.lo ≤ s.lo ∧ s.hi ≤ t.hi

/-- The number of addresses. -/
def len (s : Span) : ℕ := s.hi - s.lo

instance (s t : Span) : Decidable (s.Apart t) := inferInstanceAs (Decidable (_ ∨ _))

instance (s t : Span) : Decidable (s.Within t) := inferInstanceAs (Decidable (_ ∧ _))

instance (s : Span) (a : ℕ) : Decidable (s.Holds a) := inferInstanceAs (Decidable (_ ∧ _))

theorem Apart.symm {s t : Span} (h : s.Apart t) : t.Apart s := Or.symm h

theorem Within.refl (s : Span) : s.Within s := ⟨le_rfl, le_rfl⟩

theorem Within.trans {s t u : Span} (h : s.Within t) (h' : t.Within u) : s.Within u :=
  ⟨h'.1.trans h.1, h.2.trans h'.2⟩

theorem Within.holds {s t : Span} (h : s.Within t) {a : ℕ} (ha : s.Holds a) : t.Holds a :=
  ⟨h.1.trans ha.1, lt_of_lt_of_le ha.2 h.2⟩

theorem Apart.mono {s t u : Span} (h : t.Apart u) (hw : s.Within t) : s.Apart u := by
  rcases h with h | h
  · exact Or.inl (hw.2.trans h)
  · exact Or.inr (h.trans hw.1)

theorem Apart.not_holds {s t : Span} (h : s.Apart t) {a : ℕ} (ha : s.Holds a) : ¬t.Holds a := by
  rintro ⟨h1, h2⟩
  obtain ⟨h3, h4⟩ := ha
  rcases h with h | h <;> omega

/-! ## Packings

A packing of a container is a list of spans inside it, pairwise apart. The order of the list plays
no role, and a member may be replaced by a packing of itself. -/

/-- The spans of `l` lie inside `t`, pairwise apart. -/
structure Packed (t : Span) (l : List Span) : Prop where
  /-- Any two members are apart. -/
  apart : l.Pairwise Apart
  /-- Every member lies inside the container. -/
  within : ∀ s ∈ l, s.Within t

namespace Packed

variable {s t : Span} {l l' parts : List Span}

theorem perm (h : Packed t l) (hp : l.Perm l') : Packed t l' :=
  ⟨(hp.pairwise_iff Apart.symm).mp h.apart, fun s hs ↦ h.within s (hp.mem_iff.mpr hs)⟩

theorem tail (h : Packed t (s :: l)) : Packed t l :=
  ⟨(List.pairwise_cons.mp h.apart).2, fun u hu ↦ h.within u (List.mem_cons_of_mem _ hu)⟩

theorem apart_head (h : Packed t (s :: l)) {u : Span} (hu : u ∈ l) : s.Apart u :=
  (List.pairwise_cons.mp h.apart).1 u hu

/-- **Refinement.** A member may be split into a packing of itself. -/
theorem refine (h : Packed t (s :: l)) (hparts : Packed s parts) : Packed t (parts ++ l) := by
  refine ⟨List.pairwise_append.mpr ⟨hparts.apart, h.tail.apart, fun u hu v hv ↦ ?_⟩,
    fun u hu ↦ ?_⟩
  · exact (h.apart_head hv).mono (hparts.within u hu)
  · rcases List.mem_append.mp hu with hu | hu
    · exact (hparts.within u hu).trans (h.within s List.mem_cons_self)
    · exact h.tail.within u hu

private theorem exists_finset (hp : l.Pairwise Apart) :
    ∃ u : Finset ℕ, (l.map len).sum = u.card ∧ ∀ a, a ∈ u ↔ ∃ s ∈ l, s.Holds a := by
  induction l with
  | nil => exact ⟨∅, by simp, by simp⟩
  | cons s l ih =>
    rw [List.pairwise_cons] at hp
    obtain ⟨u, hcard, hmem⟩ := ih hp.2
    have hdisj : Disjoint (Finset.Ico s.lo s.hi) u := by
      rw [Finset.disjoint_left]
      intro a ha hu
      obtain ⟨t, ht, hta⟩ := (hmem a).mp hu
      exact (hp.1 t ht).not_holds (Finset.mem_Ico.mp ha) hta
    refine ⟨Finset.Ico s.lo s.hi ∪ u, ?_, ?_⟩
    · rw [Finset.card_union_of_disjoint hdisj, Nat.card_Ico, List.map_cons, List.sum_cons, hcard,
        len]
    · intro a
      rw [Finset.mem_union, Finset.mem_Ico, hmem, List.exists_mem_cons_iff, Holds]

private theorem exists_subset (h : Packed t l) :
    ∃ u ⊆ Finset.Ico t.lo t.hi, (l.map len).sum = u.card ∧ ∀ a, a ∈ u ↔ ∃ s ∈ l, s.Holds a := by
  obtain ⟨u, hcard, hmem⟩ := exists_finset h.apart
  refine ⟨u, fun a ha ↦ ?_, hcard, hmem⟩
  obtain ⟨s, hs, hsa⟩ := (hmem a).mp ha
  exact Finset.mem_Ico.mpr ((h.within s hs).holds hsa)

theorem sum_len_le (h : Packed t l) : (l.map len).sum ≤ t.len := by
  obtain ⟨u, hsub, hcard, -⟩ := exists_subset h
  rw [hcard, len, ← Nat.card_Ico]
  exact Finset.card_le_card hsub

/-- **A packing covers its container** exactly when it fills it. -/
theorem covers_iff (h : Packed t l) :
    (∀ a, t.Holds a → ∃ s ∈ l, s.Holds a) ↔ (l.map len).sum = t.len := by
  obtain ⟨u, hsub, hcard, hmem⟩ := exists_subset h
  rw [hcard, len, ← Nat.card_Ico]
  constructor
  · intro hcovers
    congr 1
    exact hsub.antisymm fun a ha ↦ (hmem a).mpr (hcovers a (Finset.mem_Ico.mp ha))
  · intro hfull a ha
    rw [← hmem, Finset.eq_of_subset_of_card_le hsub hfull.ge]
    exact Finset.mem_Ico.mpr ha

theorem length_mul_le {k : ℕ} (h : Packed t l) (hk : ∀ s ∈ l, k ≤ s.len) :
    l.length * k ≤ t.len := by
  have hsum : (l.map len).length • k ≤ (l.map len).sum := by
    refine List.card_nsmul_le_sum _ _ fun n hn ↦ ?_
    obtain ⟨s, hs, rfl⟩ := List.mem_map.mp hn
    exact hk s hs
  rw [List.length_map, smul_eq_mul] at hsum
  exact hsum.trans h.sum_len_le

end Packed

/-! ## Refinement -/

/-- Every span of the first list lies inside one of the second. -/
def Refines (l l' : List Span) : Prop := ∀ s ∈ l, ∃ t ∈ l', s.Within t

namespace Refines

variable {l l' l'' : List Span}

theorem of_subset (h : l ⊆ l') : Refines l l' := fun s hs ↦ ⟨s, h hs, .refl s⟩

theorem trans (h : Refines l l') (h' : Refines l' l'') : Refines l l'' := by
  intro s hs
  obtain ⟨t, ht, hst⟩ := h s hs
  obtain ⟨u, hu, htu⟩ := h' t ht
  exact ⟨u, hu, hst.trans htu⟩

end Refines

end Span
