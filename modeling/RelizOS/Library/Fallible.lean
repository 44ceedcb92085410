import RelizOS.Library.Checked

/-!
# Computations that return a `Result`

A Rust function that returns a `Result` ends in one of three ways: it panics, returns an `Err`, or
returns a value. `Fallible ε` is the monad of such computations; `?` is its bind, and checked
arithmetic and results of other functions are lifted into it.

`Returns x` says that `x` does not panic. It is computed along the program by `returns_bind`: a
sequence of two computations returns exactly when the first does and, if it has a value, so does the
second.
-/

/-! ## Computations that do not panic -/

namespace Checked

variable {α β : Type}

/-- The computation does not panic. -/
def Returns (x : Checked α) : Prop := ∃ a, x = .ok a

theorem returns_bind {x : Checked α} {f : α → Checked β} :
    Returns (x >>= f) ↔ ∃ a, x = .ok a ∧ Returns (f a) := by
  constructor
  · rintro ⟨b, hb⟩
    obtain ⟨a, ha, hf⟩ := bind_eq_ok.mp hb
    exact ⟨a, ha, b, hf⟩
  · rintro ⟨a, ha, b, hf⟩
    exact ⟨b, bind_eq_ok.mpr ⟨a, ha, hf⟩⟩

/-- What never panics can be ignored. -/
theorem returns_bind_iff {x : Checked α} {f : α → Checked β} (hf : ∀ a, Returns (f a)) :
    Returns (x >>= f) ↔ Returns x := by
  rw [returns_bind]
  exact exists_congr fun a ↦ and_iff_left (hf a)

theorem returns_add_bind {w a b : ℕ} {f : ℕ → Checked β} :
    Returns (add w a b >>= f) ↔ a + b < 2 ^ w ∧ Returns (f (a + b)) := by
  simp only [returns_bind, add_eq_ok, and_assoc, exists_and_left, exists_eq_left]

theorem returns_mul_bind {w a b : ℕ} {f : ℕ → Checked β} :
    Returns (mul w a b >>= f) ↔ a * b < 2 ^ w ∧ Returns (f (a * b)) := by
  simp only [returns_bind, mul_eq_ok, and_assoc, exists_and_left, exists_eq_left]

end Checked

/-! ## Results -/

/-- A computation that may panic and returns a value or an error. -/
abbrev Fallible (ε : Type) := ExceptT ε Checked

namespace Fallible

variable {ε α β : Type}

/-- The computation does not panic. -/
def Returns (x : Fallible ε α) : Prop := Checked.Returns x.run

theorem run_bind (x : Fallible ε α) (f : α → Fallible ε β) :
    (x >>= f).run = x.run >>= fun
      | .ok a => (f a).run
      | .error e => .ok (.error e) := by
  rw [ExceptT.run_bind]
  congr 1

theorem bind_eq_ok {x : Fallible ε α} {f : α → Fallible ε β} {b : β} :
    (x >>= f).run = .ok (.ok b) ↔ ∃ a, x.run = .ok (.ok a) ∧ (f a).run = .ok (.ok b) := by
  rw [run_bind, Checked.bind_eq_ok]
  constructor
  · rintro ⟨a | a, hx, hf⟩
    · cases hf
    · exact ⟨a, hx, hf⟩
  · rintro ⟨a, hx, hf⟩
    exact ⟨.ok a, hx, hf⟩

/-- A sequence of two computations returns exactly when the first does and the second does on its
value. -/
theorem returns_bind {x : Fallible ε α} {f : α → Fallible ε β} :
    Returns (x >>= f) ↔ Returns x ∧ ∀ a, x.run = .ok (.ok a) → Returns (f a) := by
  constructor
  · rintro ⟨r, hr⟩
    rw [run_bind, Checked.bind_eq_ok] at hr
    obtain ⟨q, hq, hr⟩ := hr
    refine ⟨⟨q, hq⟩, fun a ha ↦ ?_⟩
    obtain rfl : q = .ok a := Except.ok.inj (hq.symm.trans ha)
    exact ⟨r, hr⟩
  · rintro ⟨⟨q, hq⟩, hf⟩
    cases q with
    | error e => exact ⟨.error e, by rw [run_bind, hq]; rfl⟩
    | ok a =>
      obtain ⟨r, hr⟩ := hf a hq
      exact ⟨r, by rw [run_bind, hq]; exact hr⟩

@[simp] theorem returns_pure (a : α) : Returns (pure a : Fallible ε α) := ⟨.ok a, rfl⟩

@[simp] theorem returns_throw (e : ε) : Returns (throw e : Fallible ε α) := ⟨.error e, rfl⟩

@[simp] theorem checked_ok_bind (a : α) (f : α → Fallible ε β) :
    ((liftM (Except.ok a : Checked α) : Fallible ε α) >>= f) = f a := rfl

theorem returns_checked {c : Checked α} :
    Returns (liftM c : Fallible ε α) ↔ ∃ a, c = .ok a := by
  cases c with
  | error e =>
    constructor
    · rintro ⟨r, hr⟩
      cases hr
    · rintro ⟨a, ha⟩
      cases ha
  | ok a => exact iff_of_true ⟨.ok a, rfl⟩ ⟨a, rfl⟩

theorem run_checked {c : Checked α} {a : α} :
    (liftM c : Fallible ε α).run = .ok (.ok a) ↔ c = .ok a := by
  cases c with
  | error e =>
    constructor
    · intro h
      cases h
    · intro h
      cases h
  | ok b =>
    constructor
    · intro h
      cases h
      rfl
    · rintro ⟨⟩
      rfl

end Fallible
