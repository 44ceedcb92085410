import Mathlib.Data.Nat.Notation
import Mathlib.Tactic.Common

/-!
# Singly linked chains

A linked list stored in a memory is a successor function on addresses, a first address, and the
null address `0`. `Chain next p l` says that following `next` from `p` visits exactly the addresses
of `l`, in order, and then reaches null.

Finiteness is the existence of `l`. Acyclicity is then free: the successor is a function, so an
address visited twice would be followed by itself forever and null would never be reached
(`Chain.nodup`).

The edits are `Chain.congr`, for a successor function that agrees on the visited addresses, and
`Chain.splice`, for one that redirects a single link.
-/

/-- Following `next` from `p` visits `l` and ends at null. -/
def Chain (next : ℕ → ℕ) : ℕ → List ℕ → Prop
  | p, [] => p = 0
  | p, q :: l => p = q ∧ q ≠ 0 ∧ Chain next (next q) l

namespace Chain

variable {next next' : ℕ → ℕ}

@[simp] theorem nil_iff {p : ℕ} : Chain next p [] ↔ p = 0 := Iff.rfl

theorem ne_zero_of_mem {p q : ℕ} {l : List ℕ} (h : Chain next p l) (hq : q ∈ l) : q ≠ 0 := by
  induction l generalizing p with
  | nil => simp at hq
  | cons r l ih =>
    obtain ⟨-, hr, hl⟩ := h
    rcases List.mem_cons.mp hq with rfl | hq
    · exact hr
    · exact ih hl hq

theorem unique {p : ℕ} {l l' : List ℕ} (h : Chain next p l) (h' : Chain next p l') : l = l' := by
  induction l generalizing p l' with
  | nil =>
    cases l' with
    | nil => rfl
    | cons q l' => exact absurd (h'.1.symm.trans h) h'.2.1
  | cons q l ih =>
    cases l' with
    | nil => exact absurd (h.1.symm.trans h') h.2.1
    | cons q' l' =>
      obtain rfl : q = q' := h.1.symm.trans h'.1
      rw [ih h.2.2 h'.2.2]

theorem suffix {p q : ℕ} {l₁ l₂ : List ℕ} (h : Chain next p (l₁ ++ q :: l₂)) :
    Chain next q (q :: l₂) := by
  induction l₁ generalizing p with
  | nil => exact ⟨rfl, h.2.1, h.2.2⟩
  | cons r l₁ ih => exact ih h.2.2

/-- **Acyclicity.** A chain that reaches null visits no address twice. -/
theorem nodup {p : ℕ} {l : List ℕ} (h : Chain next p l) : l.Nodup := by
  induction l generalizing p with
  | nil => exact List.nodup_nil
  | cons q l ih =>
    refine List.nodup_cons.mpr ⟨fun hmem ↦ ?_, ih h.2.2⟩
    -- a second visit to `q` would restart the very same chain inside its own tail
    obtain ⟨l₁, l₂, rfl⟩ := List.append_of_mem hmem
    have hagain : Chain next q (q :: l₂) := suffix h.2.2
    have hwhole : Chain next q (q :: (l₁ ++ q :: l₂)) := ⟨rfl, h.2.1, h.2.2⟩
    have hlen := congrArg List.length (unique hagain hwhole)
    simp at hlen
    omega

/-! ## Edits -/

theorem congr {p : ℕ} {l : List ℕ} (h : Chain next p l) (hn : ∀ q ∈ l, next' q = next q) :
    Chain next' p l := by
  induction l generalizing p with
  | nil => exact h
  | cons q l ih =>
    refine ⟨h.1, h.2.1, ?_⟩
    rw [hn q List.mem_cons_self]
    exact ih h.2.2 fun r hr ↦ hn r (List.mem_cons_of_mem _ hr)

/-- **Redirecting one link.** The addresses before `q` keep their successors, and from the new
successor of `q` on the chain is `l'`. -/
theorem splice {p q : ℕ} {l₁ l l' : List ℕ} (h : Chain next p (l₁ ++ q :: l))
    (hn : ∀ r ∈ l₁, next' r = next r) (hq : Chain next' (next' q) l') :
    Chain next' p (l₁ ++ q :: l') := by
  induction l₁ generalizing p with
  | nil => exact ⟨h.1, h.2.1, hq⟩
  | cons r l₁ ih =>
    refine ⟨h.1, h.2.1, ?_⟩
    rw [hn r List.mem_cons_self]
    exact ih h.2.2 fun s hs ↦ hn s (List.mem_cons_of_mem _ hs)

end Chain
