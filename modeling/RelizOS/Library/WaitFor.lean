import Mathlib.Data.Set.Basic

/-!
# Who waits for whom

Parties are blocked or not, and a blocked party can only be helped by some of the others. A set of
parties is *closed* if all of them are blocked and whoever could help one of them is in the set
itself: a deadlock, in which one party may wait for several.

The parties outside are those from which a chain of helpers leads to a party that is not blocked
(`Free`). The two exclude each other and leave nobody out (`not_free_iff`), so a proof about
deadlocks can use whichever suits it: a closed set as an invariant of a run, and a chain to build a
run along.
-/

namespace WaitFor

variable {τ : Type} {blocked : τ → Prop} {helps : τ → τ → Prop} {p q : τ} {S : Set τ}

/-- All parties in the set are blocked, and can only be helped from within. -/
def Closed (blocked : τ → Prop) (helps : τ → τ → Prop) (S : Set τ) : Prop :=
  ∀ p ∈ S, blocked p ∧ ∀ q, helps q p → q ∈ S

/-- A party that is not blocked, or could be helped by one from which a chain leads there. -/
inductive Free (blocked : τ → Prop) (helps : τ → τ → Prop) : τ → Prop
  | unblocked {p : τ} (h : ¬blocked p) : Free blocked helps p
  | helped {p q : τ} (h : helps q p) (hq : Free blocked helps q) : Free blocked helps p

/-- **No chain leads out of a closed set.** -/
theorem Closed.not_free (h : Closed blocked helps S) (hp : p ∈ S) : ¬Free blocked helps p := by
  intro hfree
  induction hfree with
  | unblocked hnot => exact hnot (h _ hp).1
  | helped hhelps _ ih => exact ih ((h _ hp).2 _ hhelps)

/-- The parties that are not free are a closed set, the largest one. -/
theorem closed_not_free : Closed blocked helps {p | ¬Free blocked helps p} := by
  intro p hp
  refine ⟨?_, fun q hhelps hq ↦ hp (.helped hhelps hq)⟩
  by_contra hnot
  exact hp (.unblocked hnot)

/-- **A party is free or in a closed set**, and not both. -/
theorem not_free_iff : ¬Free blocked helps p ↔ ∃ S, Closed blocked helps S ∧ p ∈ S :=
  ⟨fun h ↦ ⟨_, closed_not_free, h⟩, fun ⟨_, hclosed, hp⟩ ↦ hclosed.not_free hp⟩

theorem Closed.of_imp {blocked' : τ → Prop} {helps' : τ → τ → Prop} (h : Closed blocked helps S)
    (hblocked : ∀ p ∈ S, blocked p → blocked' p)
    (hhelps : ∀ p ∈ S, ∀ q, helps' q p → helps q p) : Closed blocked' helps' S :=
  fun p hp ↦ ⟨hblocked p hp (h p hp).1, fun q hq ↦ (h p hp).2 q (hhelps p hp q hq)⟩

end WaitFor
