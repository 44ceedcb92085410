import Mathlib.Tactic.Common

/-!
# Programs that ask

A `Dialogue` is a program as its surroundings see it: it asks questions and goes on with what it is
answered, until it ends with a value or fails. There are two things to prove of one. `Follows` says
that it keeps to a protocol, whatever it is answered; `Agrees` says what it computes in a world that
answers in a particular way, by comparison with a computation that asks nothing. Both are proved
along the program, by a rule for sequences each.
-/

/-- A program that asks questions in `Q`, is answered from `A`, and ends with a value or fails. -/
inductive Dialogue (Q A ε α : Type)
  | done (a : α)
  | fail (e : ε)
  | ask (q : Q) (k : A → Dialogue Q A ε α)

namespace Dialogue

variable {Q A ε α β γ σ π : Type}

/-- One program after the other. -/
def bind (f : α → Dialogue Q A ε β) : Dialogue Q A ε α → Dialogue Q A ε β
  | .done a => f a
  | .fail e => .fail e
  | .ask q k => .ask q fun a ↦ (k a).bind f

instance : Monad (Dialogue Q A ε) where
  pure := .done
  bind t f := t.bind f

/-- A computation that asks nothing. -/
def ofExcept : Except ε α → Dialogue Q A ε α
  | .ok a => .done a
  | .error e => .fail e

/-! ## Protocols

A protocol says at which places a question may be asked, and at which place the program is then;
`resume` is the place after the answer. -/

section

variable {may : π → Q → π → Prop} {resume : Q → A → π → π}

/-- From place `p` on the program asks only what it may, whatever it is answered, and if it ends,
then with a value and at a place as `post` says. -/
def Follows (may : π → Q → π → Prop) (resume : Q → A → π → π) (post : α → π → Prop) :
    Dialogue Q A ε α → π → Prop
  | .done a, p => post a p
  | .fail _, _ => True
  | .ask q k, p => ∃ p', may p q p' ∧ ∀ a, Follows may resume post (k a) (resume q a p')

/-- **A sequence** follows the protocol if both parts do. -/
theorem Follows.bind {post : α → π → Prop} {post' : β → π → Prop} {t : Dialogue Q A ε α}
    {f : α → Dialogue Q A ε β} {p : π} (h : t.Follows may resume post p)
    (hf : ∀ a p', post a p' → (f a).Follows may resume post' p') :
    (t >>= f).Follows may resume post' p := by
  induction t generalizing p with
  | done a => exact hf a p h
  | fail e => trivial
  | ask q k ih =>
    obtain ⟨p', hmay, hk⟩ := h
    exact ⟨p', hmay, fun a ↦ ih a (hk a)⟩

theorem Follows.mono {post post' : α → π → Prop} {t : Dialogue Q A ε α} {p : π}
    (h : t.Follows may resume post p) (hpost : ∀ a p', post a p' → post' a p') :
    t.Follows may resume post' p := by
  induction t generalizing p with
  | done a => exact hpost a p h
  | fail e => trivial
  | ask q k ih =>
    obtain ⟨p', hmay, hk⟩ := h
    exact ⟨p', hmay, fun a ↦ ih a (hk a)⟩

end

/-! ## Worlds -/

/-- The program in a world that answers with `answer`, or has no answer and lets it wait for ever.
-/
def run (answer : σ → Q → Option (A × σ)) : Dialogue Q A ε α → σ → Option (Except ε (α × σ))
  | .done a, s => some (.ok (a, s))
  | .fail e, _ => some (.error e)
  | .ask q k, s => (answer s q).bind fun r ↦ run answer (k r.1) r.2

section

variable {answer : σ → Q → Option (A × σ)} {t : Dialogue Q A ε α} {f : α → Dialogue Q A ε γ}
  {s s' : σ}

theorem run_bind_of_ok {a : α} (h : t.run answer s = some (.ok (a, s'))) :
    (t >>= f).run answer s = (f a).run answer s' := by
  induction t generalizing s with
  | done b =>
    obtain ⟨rfl, rfl⟩ := Prod.mk.inj (Except.ok.inj (Option.some.inj h))
    rfl
  | fail e => cases h
  | ask q k ih =>
    obtain ⟨⟨b, s₁⟩, hanswer, hk⟩ := Option.bind_eq_some_iff.mp h
    have hrun : (ask q k >>= f).run answer s =
        (answer s q).bind fun r ↦ (k r.1 >>= f).run answer r.2 := rfl
    rw [hrun, hanswer]
    exact ih b hk

theorem run_bind_of_error {e : ε} (h : t.run answer s = some (.error e)) :
    (t >>= f).run answer s = some (.error e) := by
  induction t generalizing s with
  | done b => cases Option.some.inj h
  | fail e' =>
    obtain rfl := Except.error.inj (Option.some.inj h)
    rfl
  | ask q k ih =>
    obtain ⟨⟨b, s₁⟩, hanswer, hk⟩ := Option.bind_eq_some_iff.mp h
    have hrun : (ask q k >>= f).run answer s =
        (answer s q).bind fun r ↦ (k r.1 >>= f).run answer r.2 := rfl
    rw [hrun, hanswer]
    exact ih b hk

/-- In this world the program fails as the computation `c` does, and otherwise ends with a value and
in a state that stand in relation to that of `c`. It is always answered. -/
def Agrees (answer : σ → Q → Option (A × σ)) (R : β → α → σ → Prop) (c : Except ε β)
    (t : Dialogue Q A ε α) (s : σ) : Prop :=
  match c with
  | .error e => t.run answer s = some (.error e)
  | .ok b => ∃ a s', t.run answer s = some (.ok (a, s')) ∧ R b a s'

/-- **A sequence** agrees with a sequence if the parts do. -/
theorem Agrees.bind {δ : Type} {R : β → α → σ → Prop} {R' : δ → γ → σ → Prop} {c : Except ε β}
    {g : β → Except ε δ} (h : Agrees answer R c t s)
    (hf : ∀ b a s', R b a s' → Agrees answer R' (g b) (f a) s') :
    Agrees answer R' (c >>= g) (t >>= f) s := by
  cases c with
  | error e => exact run_bind_of_error h
  | ok b =>
    obtain ⟨a, s', hrun, hR⟩ := h
    have hrest : (t >>= f).run answer s = (f a).run answer s' := run_bind_of_ok hrun
    have hf : Agrees answer R' (g b) (f a) s' := hf b a s' hR
    change Agrees answer R' (g b) (t >>= f) s
    cases hg : g b with
    | error e =>
      rw [hg] at hf
      exact hrest.trans hf
    | ok d =>
      rw [hg] at hf
      obtain ⟨a', s'', hrun', hR'⟩ := hf
      exact ⟨a', s'', hrest.trans hrun', hR'⟩

/-- What is done to the result of the computation is done in the relation. -/
theorem Agrees.map {δ : Type} {R : β → α → σ → Prop} {R' : δ → α → σ → Prop} {c : Except ε β}
    {g : β → δ} (h : Agrees answer R c t s) (hR : ∀ b a s', R b a s' → R' (g b) a s') :
    Agrees answer R' (c >>= fun b ↦ pure (g b)) t s := by
  cases c with
  | error e => exact h
  | ok b =>
    obtain ⟨a, s', hrun, hrel⟩ := h
    exact ⟨a, s', hrun, hR b a s' hrel⟩

end

end Dialogue
