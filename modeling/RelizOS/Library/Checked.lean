import Mathlib.Algebra.Order.Group.Nat
import Mathlib.Data.Nat.Bitwise
import Mathlib.Tactic.Common

/-!
# Machine arithmetic with checks

Rust code compiled in the dev profile stops with a panic where an unsigned operation would wrap, an
index is out of range, or an `Option` is unwrapped empty. `Checked` is the monad of such
computations: a result, or the fault that ended the computation. Numbers stay natural numbers, and
every operation that the hardware would truncate is one of the checked ones below.

`Fault.diverges` is not a panic. It marks a loop that has used up the bound its definition gives it;
whoever models a loop owes a proof that it does not occur.
-/

/-- Why a computation ends without a result. -/
inductive Fault where
  /-- An unsigned operation left the range of its type. -/
  | overflow
  /-- An index was out of bounds. -/
  | bounds
  /-- An empty `Option` was unwrapped. -/
  | unwrap
  /-- An `assert!` of the code or of a library it calls failed. -/
  | assertion
  /-- The heap has no room for an allocation. -/
  | memory
  /-- A pointer is null, or nothing is mapped where it points. -/
  | pointer
  /-- The loop bound of the model was used up. -/
  | diverges
  deriving DecidableEq, Repr

/-- A computation that may panic. -/
abbrev Checked := Except Fault

namespace Checked

variable {α β : Type}

@[simp] theorem ok_bind (a : α) (f : α → Checked β) : ((Except.ok a : Checked α) >>= f) = f a := rfl

@[simp] theorem error_bind (e : Fault) (f : α → Checked β) :
    ((Except.error e : Checked α) >>= f) = Except.error e := rfl

@[simp] theorem pure_eq_ok (a : α) : (pure a : Checked α) = Except.ok a := rfl

theorem bind_eq_ok {x : Checked α} {f : α → Checked β} {b : β} :
    (x >>= f) = .ok b ↔ ∃ a, x = .ok a ∧ f a = .ok b := by
  cases x with
  | error e => simp
  | ok a => simp

theorem bind_eq_error {x : Checked α} {f : α → Checked β} {e : Fault} :
    (x >>= f) = .error e ↔ x = .error e ∨ ∃ a, x = .ok a ∧ f a = .error e := by
  cases x with
  | error e' => simp
  | ok a => simp

/-- The result of a computation that returns. -/
def result (x : Checked α) (h : x.toOption.isSome) : α := x.toOption.get h

theorem eq_ok_result (x : Checked α) (h : x.toOption.isSome) : x = .ok (x.result h) := by
  cases x with
  | error e => cases h
  | ok a => rfl

/-- Unwrap an `Option`. -/
def unwrap : Option α → Checked α
  | some a => .ok a
  | none => .error .unwrap

@[simp] theorem unwrap_some (a : α) : unwrap (some a) = .ok a := rfl

theorem unwrap_eq_ok {o : Option α} {a : α} : unwrap o = .ok a ↔ o = some a := by
  cases o <;> simp [unwrap]

/-- `assert!`. -/
def ensure (p : Prop) [Decidable p] : Checked Unit :=
  if p then .ok () else .error .assertion

theorem ensure_eq_ok {p : Prop} [Decidable p] {u : Unit} : ensure p = .ok u ↔ p := by
  by_cases h : p <;> simp [ensure, h]

theorem ensure_eq_error {p : Prop} [Decidable p] {e : Fault} (h : ensure p = .error e) :
    e = .assertion := by
  by_cases hp : p
  · rw [ensure, if_pos hp] at h
    cases h
  · rw [ensure, if_neg hp] at h
    exact (Except.error.inj h).symm

/-! ## Unsigned operations of width `w` -/

/-- `a + b` in an unsigned type of `w` bits. -/
def add (w a b : ℕ) : Checked ℕ := if a + b < 2 ^ w then .ok (a + b) else .error .overflow

/-- `a - b` in an unsigned type. -/
def sub (a b : ℕ) : Checked ℕ := if b ≤ a then .ok (a - b) else .error .overflow

/-- `a * b` in an unsigned type of `w` bits. -/
def mul (w a b : ℕ) : Checked ℕ := if a * b < 2 ^ w then .ok (a * b) else .error .overflow

theorem add_of_lt {w a b : ℕ} (h : a + b < 2 ^ w) : add w a b = .ok (a + b) := if_pos h

theorem add_eq_ok {w a b c : ℕ} : add w a b = .ok c ↔ a + b < 2 ^ w ∧ c = a + b := by
  rw [add]
  by_cases h : a + b < 2 ^ w
  · rw [if_pos h, Except.ok.injEq, eq_comm]
    exact (and_iff_right h).symm
  · rw [if_neg h]
    simp [h]

theorem mul_eq_ok {w a b c : ℕ} : mul w a b = .ok c ↔ a * b < 2 ^ w ∧ c = a * b := by
  rw [mul]
  by_cases h : a * b < 2 ^ w
  · rw [if_pos h, Except.ok.injEq, eq_comm]
    exact (and_iff_right h).symm
  · rw [if_neg h]
    simp [h]

theorem sub_of_le {a b : ℕ} (h : b ≤ a) : sub a b = .ok (a - b) := if_pos h

theorem sub_eq_ok {a b c : ℕ} : sub a b = .ok c ↔ b ≤ a ∧ c = a - b := by
  rw [sub]
  by_cases h : b ≤ a
  · rw [if_pos h, Except.ok.injEq, eq_comm]
    exact (and_iff_right h).symm
  · rw [if_neg h]
    simp [h]

/-- `!x` on 64 bits. -/
def not64 (x : ℕ) : ℕ := 2 ^ 64 - 1 - x

/-- Masking with `!(2 ^ k - 1)` clears the low `k` bits. -/
theorem land_not64 {x k : ℕ} (hx : x < 2 ^ 64) (hk : k ≤ 64) :
    x &&& not64 (2 ^ k - 1) = x / 2 ^ k * 2 ^ k := by
  have hmask : not64 (2 ^ k - 1) = 2 ^ k * (2 ^ (64 - k) - 1) := by
    have hpow : 2 ^ k * 2 ^ (64 - k) = 2 ^ 64 := by rw [← pow_add, Nat.add_sub_cancel' hk]
    have hpos : 0 < 2 ^ k := Nat.two_pow_pos k
    rw [not64, Nat.mul_sub, hpow, mul_one]
    omega
  refine Nat.eq_of_testBit_eq fun i ↦ ?_
  rw [hmask, Nat.testBit_and, Nat.testBit_two_pow_mul, Nat.testBit_two_pow_sub_one, mul_comm,
    Nat.testBit_two_pow_mul, Nat.testBit_div_two_pow]
  by_cases hki : k ≤ i
  · have hsub : i - k + k = i := by omega
    by_cases hi : i - k < 64 - k
    · simp [hki, hi, hsub]
    · have hbig : x.testBit i = false :=
        Nat.testBit_lt_two_pow (lt_of_lt_of_le hx (Nat.pow_le_pow_right (by omega) (by omega)))
      simp [hki, hsub, hbig]
  · simp [hki]

end Checked
