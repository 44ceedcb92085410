import Mathlib.Tactic.IntervalCases
import Mathlib.Tactic.Common

/-!
# Numerals in ASCII

Decimal and hexadecimal digits as bytes, and the numbers that sequences of them stand for. The value
of a sequence is built from its front, as a parser builds it: it never gets smaller on the way
(`le_foldl_digitStep`), so that a bound on the number bounds every number in between.

A number that is written with a fixed number of hexadecimal digits is read back
(`hexNumber_hexText`). In a sequence of pieces of one length each piece has its column
(`drop_flatMap`).
-/

namespace Numerals

/-! ## Decimal -/

/-- A decimal digit. -/
def IsDigit (b : UInt8) : Prop := 48 ≤ b ∧ b ≤ 57

instance : DecidablePred IsDigit := fun _ ↦ inferInstanceAs (Decidable (_ ∧ _))

/-- A number with one more digit behind it. -/
def digitStep (v : ℕ) (b : UInt8) : ℕ := v * 10 + (b.toNat - 48)

/-- The number that a sequence of digits stands for. -/
def decimalValue (l : List UInt8) : ℕ := l.foldl digitStep 0

/-- The digits at the front of a sequence of bytes. -/
def leadingDigits (l : List UInt8) : List UInt8 := l.takeWhile fun b ↦ IsDigit b

theorem decimalValue_append_singleton (l : List UInt8) (b : UInt8) :
    decimalValue (l ++ [b]) = decimalValue l * 10 + (b.toNat - 48) := by
  rw [decimalValue, List.foldl_append]
  rfl

theorem le_foldl_digitStep (v : ℕ) (l : List UInt8) : v ≤ l.foldl digitStep v := by
  induction l generalizing v with
  | nil => exact le_rfl
  | cons b l ih =>
    have hstep : v ≤ digitStep v b := by
      rw [digitStep]
      omega
    exact hstep.trans (ih _)

theorem leadingDigits_cons_of_isDigit {b : UInt8} {l : List UInt8} (h : IsDigit b) :
    leadingDigits (b :: l) = b :: leadingDigits l :=
  List.takeWhile_cons_of_pos (by simpa using h)

theorem leadingDigits_cons_of_not {b : UInt8} {l : List UInt8} (h : ¬IsDigit b) :
    leadingDigits (b :: l) = [] :=
  List.takeWhile_cons_of_neg (by simpa using h)

theorem isDigit_ofNat {d : ℕ} (h : d < 10) : IsDigit (UInt8.ofNat (48 + d)) := by
  interval_cases d <;> decide

theorem toNat_ofNat_digit {d : ℕ} (h : d < 10) : (UInt8.ofNat (48 + d)).toNat - 48 = d := by
  rw [UInt8.toNat_ofNat_of_lt' (by rw [UInt8.size]; omega)]
  omega

/-! ## Hexadecimal -/

/-- The digit for a number below sixteen, in upper case. -/
def hexDigit (d : ℕ) : UInt8 := UInt8.ofNat (if d < 10 then 48 + d else 55 + d)

/-- The number that a digit stands for. -/
def hexValue (b : UInt8) : Option ℕ :=
  if 48 ≤ b ∧ b ≤ 57 then some (b.toNat - 48)
  else if 65 ≤ b ∧ b ≤ 70 then some (b.toNat - 55)
  else none

/-- A number with `k` digits. -/
def hexText : ℕ → ℕ → List UInt8
  | 0, _ => []
  | k + 1, v => hexText k (v / 16) ++ [hexDigit (v % 16)]

/-- The number that a sequence of digits stands for, if all are digits. -/
def hexNumber (l : List UInt8) : Option ℕ :=
  l.foldlM (fun v b ↦ (hexValue b).map (v * 16 + ·)) 0

theorem hexValue_hexDigit {d : ℕ} (h : d < 16) : hexValue (hexDigit d) = some d := by
  interval_cases d <;> decide

theorem hexDigit_lt {d : ℕ} (h : d < 16) : hexDigit d < 128 := by
  interval_cases d <;> decide

@[simp] theorem length_hexText (k v : ℕ) : (hexText k v).length = k := by
  induction k generalizing v with
  | zero => rfl
  | succ k ih => rw [hexText, List.length_append, ih, List.length_singleton]

/-- **A number with `k` digits is read back.** -/
theorem hexNumber_hexText {k v : ℕ} (h : v < 16 ^ k) : hexNumber (hexText k v) = some v := by
  induction k generalizing v with
  | zero =>
    rw [pow_zero, Nat.lt_one_iff] at h
    rw [h]
    rfl
  | succ k ih =>
    have hdiv : v / 16 < 16 ^ k := Nat.div_lt_of_lt_mul (by rwa [pow_succ, mul_comm] at h)
    have hlast := hexValue_hexDigit (Nat.mod_lt v (show 0 < 16 by omega))
    have hfront := ih hdiv
    rw [hexNumber] at hfront ⊢
    rw [hexText, List.foldlM_append, hfront, Option.bind_eq_bind, Option.bind_some,
      List.foldlM_cons, hlast, Option.map_some, Nat.div_add_mod']
    rfl

/-! ## Columns -/

theorem drop_flatMap {α β : Type} {f : α → List β} {k : ℕ} (hf : ∀ a, (f a).length = k)
    (l : List α) (i : ℕ) : (l.flatMap f).drop (k * i) = (l.drop i).flatMap f := by
  induction i generalizing l with
  | zero => rfl
  | succ i ih =>
    cases l with
    | nil => rw [List.flatMap_nil, List.drop_nil, List.drop_nil, List.flatMap_nil]
    | cons a l =>
      rw [List.flatMap_cons, Nat.mul_succ, add_comm, List.drop_append, hf, Nat.add_sub_cancel_left,
        ih, List.drop_eq_nil_of_le (by rw [hf]; omega), List.nil_append, List.drop_succ_cons]

theorem flatten_map_range {β : Type} (f : ℕ → β) (m k : ℕ) :
    ((List.range m).map fun n ↦ (List.range k).map fun i ↦ f (n * k + i)).flatten =
      (List.range (m * k)).map f := by
  induction m with
  | zero => rw [Nat.zero_mul]; rfl
  | succ m ih =>
    rw [List.range_succ, List.map_append, List.flatten_append, ih, Nat.succ_mul, List.range_add,
      List.map_append, List.map_map, List.map_singleton, List.flatten_singleton]
    rfl

end Numerals
