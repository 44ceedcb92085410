import Mathlib.Data.Nat.Notation
import Mathlib.Tactic.Common
import Mathlib.Tactic.Ring

/-!
# Byte-addressed memory with little-endian words

A memory is a total function from addresses to bytes. Multi-byte reads and writes are little-endian
and unaligned: the programs this library serves place headers, stack slots and page-table entries
at addresses that no alignment rule connects.

Two facts carry every later argument. A read after a write at the same address returns the value
written, reduced to the width of the word; and a read is unchanged by any change of the memory
outside the bytes it covers. Everything else is a special case of the second.
-/

namespace ByteMemory

/-- A byte-addressed memory. -/
abbrev Mem := ℕ → UInt8

/-- The `n`-byte little-endian number at address `a`. -/
def readLE (m : Mem) (a : ℕ) : ℕ → ℕ
  | 0 => 0
  | n + 1 => (m a).toNat + 256 * readLE m (a + 1) n

/-- Store the low `n` bytes of `v` at address `a`, least significant byte first. -/
def writeLE (m : Mem) (a n v : ℕ) : Mem := fun b ↦
  if a ≤ b ∧ b < a + n then UInt8.ofNat (v / 256 ^ (b - a)) else m b

/-- Set the `n` bytes from address `a` on to zero. -/
def zeroFill (m : Mem) (a n : ℕ) : Mem := fun b ↦ if a ≤ b ∧ b < a + n then 0 else m b

/-- The two memories agree on the `n` bytes from address `a` on. -/
def AgreeOn (m m' : Mem) (a n : ℕ) : Prop := ∀ b, a ≤ b → b < a + n → m b = m' b

theorem AgreeOn.refl (m : Mem) (a n : ℕ) : AgreeOn m m a n := fun _ _ _ ↦ rfl

theorem AgreeOn.symm {m m' : Mem} {a n : ℕ} (h : AgreeOn m m' a n) : AgreeOn m' m a n :=
  fun b h1 h2 ↦ (h b h1 h2).symm

theorem AgreeOn.trans {m m' m'' : Mem} {a n : ℕ} (h : AgreeOn m m' a n)
    (h' : AgreeOn m' m'' a n) : AgreeOn m m'' a n :=
  fun b h1 h2 ↦ (h b h1 h2).trans (h' b h1 h2)

theorem AgreeOn.mono {m m' : Mem} {a n a' n' : ℕ} (h : AgreeOn m m' a n) (hlo : a ≤ a')
    (hhi : a' + n' ≤ a + n) : AgreeOn m m' a' n' :=
  fun b h1 h2 ↦ h b (hlo.trans h1) (lt_of_lt_of_le h2 hhi)

/-! ## Reads -/

theorem readLE_lt (m : Mem) (a n : ℕ) : readLE m a n < 256 ^ n := by
  induction n generalizing a with
  | zero => simp [readLE]
  | succ n ih =>
    have hbyte : (m a).toNat < 256 := (m a).toNat_lt
    have hrest := ih (a + 1)
    rw [readLE, pow_succ]
    omega

theorem readLE_congr {m m' : Mem} {a n : ℕ} (h : AgreeOn m m' a n) :
    readLE m a n = readLE m' a n := by
  induction n generalizing a with
  | zero => rfl
  | succ n ih =>
    rw [readLE, readLE, h a le_rfl (by omega), ih (h.mono (by omega) (by omega))]

theorem agreeOn_of_readLE_eq {m m' : Mem} {a n : ℕ} (h : readLE m a n = readLE m' a n) :
    AgreeOn m m' a n := by
  induction n generalizing a with
  | zero => exact fun b h1 h2 ↦ absurd h2 (Nat.not_lt.mpr h1)
  | succ n ih =>
    rw [readLE, readLE] at h
    have hlow : (m a).toNat < 256 := (m a).toNat_lt
    have hlow' : (m' a).toNat < 256 := (m' a).toNat_lt
    have hrest : AgreeOn m m' (a + 1) n := ih (by omega)
    intro b h1 h2
    rcases Nat.eq_or_lt_of_le h1 with rfl | hlt
    · exact UInt8.toNat_inj.mp (by omega)
    · exact hrest b hlt (by omega)

/-! ## Writes -/

theorem writeLE_outside {m : Mem} {a n v b : ℕ} (h : b < a ∨ a + n ≤ b) :
    writeLE m a n v b = m b := by
  rw [writeLE, if_neg (by omega)]

theorem agreeOn_writeLE {m : Mem} {a n v b k : ℕ} (h : b + k ≤ a ∨ a + n ≤ b) :
    AgreeOn (writeLE m a n v) m b k :=
  fun _ h1 h2 ↦ writeLE_outside (by omega)

theorem zeroFill_inside {m : Mem} {a n b : ℕ} (h1 : a ≤ b) (h2 : b < a + n) :
    zeroFill m a n b = 0 := by
  rw [zeroFill, if_pos ⟨h1, h2⟩]

theorem agreeOn_zeroFill {m : Mem} {a n b k : ℕ} (h : b + k ≤ a ∨ a + n ≤ b) :
    AgreeOn (zeroFill m a n) m b k := by
  intro c h1 h2
  rw [zeroFill, if_neg (by omega)]

/-- Dropping the first byte of a write leaves the write of the remaining bytes. -/
private theorem agreeOn_writeLE_succ (m : Mem) (a n v : ℕ) :
    AgreeOn (writeLE m a (n + 1) v) (writeLE m (a + 1) n (v / 256)) (a + 1) n := by
  intro b h1 h2
  have hexp : b - a = (b - (a + 1)) + 1 := by omega
  rw [writeLE, writeLE, if_pos (by omega), if_pos (by omega), hexp, pow_succ, mul_comm,
    Nat.div_div_eq_div_mul]

/-- **Reading back what was written**, up to the width of the word. -/
theorem readLE_writeLE_self (m : Mem) (a n v : ℕ) :
    readLE (writeLE m a n v) a n = v % 256 ^ n := by
  induction n generalizing m a v with
  | zero => simp [readLE, Nat.mod_one]
  | succ n ih =>
    have hbyte : (writeLE m a (n + 1) v a).toNat = v % 256 := by
      rw [writeLE, if_pos (by omega), Nat.sub_self, pow_zero, Nat.div_one]
      exact UInt8.toNat_ofNat'
    rw [readLE, hbyte, readLE_congr (agreeOn_writeLE_succ m a n v), ih, pow_succ,
      mul_comm (256 ^ n), Nat.mod_mul]

theorem readLE_zeroFill {m : Mem} {a n b k : ℕ} (h1 : a ≤ b) (h2 : b + k ≤ a + n) :
    readLE (zeroFill m a n) b k = 0 := by
  induction k generalizing b with
  | zero => rfl
  | succ k ih =>
    rw [readLE, zeroFill_inside h1 (by omega), ih (by omega) (by omega)]
    rfl

/-! ## 64-bit words

The same pair of operations at the two types the programs use: natural numbers for pointers and
sizes, where the arithmetic is linear, and `UInt64` for values that are only stored, compared and
masked. -/

/-- The pointer-sized number at `a`. -/
def readUsize (m : Mem) (a : ℕ) : ℕ := readLE m a 8

/-- Store a pointer-sized number at `a`. -/
def writeUsize (m : Mem) (a v : ℕ) : Mem := writeLE m a 8 v

theorem readUsize_lt (m : Mem) (a : ℕ) : readUsize m a < 2 ^ 64 := readLE_lt m a 8

theorem readUsize_congr {m m' : Mem} {a : ℕ} (h : AgreeOn m m' a 8) :
    readUsize m a = readUsize m' a := readLE_congr h

theorem readUsize_writeUsize_self {m : Mem} {a v : ℕ} (h : v < 2 ^ 64) :
    readUsize (writeUsize m a v) a = v := by
  rw [readUsize, writeUsize, readLE_writeLE_self]
  exact Nat.mod_eq_of_lt h

theorem agreeOn_writeUsize {m : Mem} {a v b k : ℕ} (h : b + k ≤ a ∨ a + 8 ≤ b) :
    AgreeOn (writeUsize m a v) m b k := agreeOn_writeLE h

theorem readUsize_writeUsize_of_disjoint {m : Mem} {a v b : ℕ} (h : b + 8 ≤ a ∨ a + 8 ≤ b) :
    readUsize (writeUsize m a v) b = readUsize m b := readUsize_congr (agreeOn_writeUsize h)

/-- The 64-bit word at `a`. -/
def readU64 (m : Mem) (a : ℕ) : UInt64 := UInt64.ofNat (readLE m a 8)

/-- Store a 64-bit word at `a`. -/
def writeU64 (m : Mem) (a : ℕ) (v : UInt64) : Mem := writeLE m a 8 v.toNat

theorem readU64_congr {m m' : Mem} {a : ℕ} (h : AgreeOn m m' a 8) :
    readU64 m a = readU64 m' a := by
  rw [readU64, readU64, readLE_congr h]

theorem agreeOn_of_readU64_eq {m m' : Mem} {a : ℕ} (h : readU64 m a = readU64 m' a) :
    AgreeOn m m' a 8 := by
  apply agreeOn_of_readLE_eq
  have hlt : readLE m a 8 < 2 ^ 64 := readLE_lt m a 8
  have hlt' : readLE m' a 8 < 2 ^ 64 := readLE_lt m' a 8
  have hval := congrArg UInt64.toNat h
  rw [readU64, readU64, UInt64.toNat_ofNat', UInt64.toNat_ofNat', Nat.mod_eq_of_lt hlt,
    Nat.mod_eq_of_lt hlt'] at hval
  exact hval

@[simp] theorem readU64_writeU64_self (m : Mem) (a : ℕ) (v : UInt64) :
    readU64 (writeU64 m a v) a = v := by
  have hlt : v.toNat < 256 ^ 8 := v.toNat_lt
  rw [readU64, writeU64, readLE_writeLE_self, Nat.mod_eq_of_lt hlt, UInt64.ofNat_toNat]

theorem agreeOn_writeU64 {m : Mem} {a b k : ℕ} {v : UInt64} (h : b + k ≤ a ∨ a + 8 ≤ b) :
    AgreeOn (writeU64 m a v) m b k := agreeOn_writeLE h

theorem readU64_writeU64_of_disjoint {m : Mem} {a b : ℕ} {v : UInt64}
    (h : b + 8 ≤ a ∨ a + 8 ≤ b) : readU64 (writeU64 m a v) b = readU64 m b :=
  readU64_congr (agreeOn_writeU64 h)

theorem readU64_zeroFill {m : Mem} {a n b : ℕ} (h1 : a ≤ b) (h2 : b + 8 ≤ a + n) :
    readU64 (zeroFill m a n) b = 0 := by
  rw [readU64, readLE_zeroFill h1 h2]
  rfl

/-! ## Sequences of bytes and words -/

/-- Store consecutive bytes from address `a` on. -/
def writeBytes (m : Mem) (a : ℕ) (bs : List UInt8) : Mem := fun b ↦
  if a ≤ b then (bs[b - a]?).getD (m b) else m b

theorem agreeOn_writeBytes {m : Mem} {a b k : ℕ} {bs : List UInt8}
    (h : b + k ≤ a ∨ a + bs.length ≤ b) : AgreeOn (writeBytes m a bs) m b k := by
  intro c h1 h2
  rw [writeBytes]
  by_cases hc : a ≤ c
  · rw [if_pos hc, List.getElem?_eq_none (by omega)]
    rfl
  · rw [if_neg hc]

/-- Store consecutive 64-bit words from address `a` on. -/
def writeWords (m : Mem) (a : ℕ) : List UInt64 → Mem
  | [] => m
  | w :: ws => writeWords (writeU64 m a w) (a + 8) ws

theorem agreeOn_writeWords {m : Mem} {a b k : ℕ} {ws : List UInt64}
    (h : b + k ≤ a ∨ a + 8 * ws.length ≤ b) : AgreeOn (writeWords m a ws) m b k := by
  induction ws generalizing m a with
  | nil => exact AgreeOn.refl m b k
  | cons w ws ih =>
    rw [List.length_cons] at h
    exact (ih (by omega)).trans (agreeOn_writeU64 (by omega))

theorem readU64_writeWords {m : Mem} {a i : ℕ} {w : UInt64} {ws : List UInt64}
    (h : ws[i]? = some w) : readU64 (writeWords m a ws) (a + 8 * i) = w := by
  induction ws generalizing m a i with
  | nil => simp at h
  | cons w' ws ih =>
    rw [writeWords]
    cases i with
    | zero =>
      rw [List.getElem?_cons_zero, Option.some_inj] at h
      rw [readU64_congr (agreeOn_writeWords (by omega)), h]
      exact readU64_writeU64_self _ _ _
    | succ i =>
      rw [List.getElem?_cons_succ] at h
      rw [show a + 8 * (i + 1) = (a + 8) + 8 * i by omega]
      exact ih h

/-! ## Stacks

A stack grows downwards: the word pushed last has the lowest address. -/

/-- Push words one after another; the result is the memory and the stack pointer. -/
def pushWords (m : Mem) (sp : ℕ) : List UInt64 → Mem × ℕ
  | [] => (m, sp)
  | w :: ws => pushWords (writeU64 m (sp - 8) w) (sp - 8) ws

theorem pushWords_snd {m : Mem} {sp : ℕ} {ws : List UInt64} :
    (pushWords m sp ws).2 = sp - 8 * ws.length := by
  induction ws generalizing m sp with
  | nil => rfl
  | cons w ws ih =>
    rw [pushWords, ih, List.length_cons]
    omega

theorem agreeOn_pushWords {m : Mem} {sp a n : ℕ} {ws : List UInt64} (hsp : 8 * ws.length ≤ sp)
    (h : a + n ≤ sp - 8 * ws.length ∨ sp ≤ a) : AgreeOn (pushWords m sp ws).1 m a n := by
  induction ws generalizing m sp with
  | nil => exact AgreeOn.refl m a n
  | cons w ws ih =>
    rw [List.length_cons] at hsp h
    exact (ih (by omega) (by omega)).trans (agreeOn_writeU64 (by omega))

/-- **Reading what was pushed**: from the stack pointer on, the last word first. -/
theorem readU64_pushWords {m : Mem} {sp i : ℕ} {w : UInt64} {ws : List UInt64}
    (hsp : 8 * ws.length ≤ sp) (h : ws.reverse[i]? = some w) :
    readU64 (pushWords m sp ws).1 ((pushWords m sp ws).2 + 8 * i) = w := by
  induction ws generalizing m sp with
  | nil => simp at h
  | cons v ws ih =>
    rw [List.length_cons] at hsp
    rw [List.reverse_cons] at h
    rw [pushWords]
    rcases Nat.lt_or_ge i ws.length with hi | hi
    · rw [List.getElem?_append_left (by rwa [List.length_reverse])] at h
      exact ih (by omega) h
    · rw [List.getElem?_append_right (by rwa [List.length_reverse]), List.length_reverse] at h
      obtain rfl : i = ws.length := by
        by_contra hne
        rw [List.getElem?_eq_none (by rw [List.length_singleton]; omega)] at h
        cases h
      rw [Nat.sub_self, List.getElem?_cons_zero, Option.some_inj] at h
      rw [pushWords_snd, show sp - 8 - 8 * ws.length + 8 * ws.length = sp - 8 by omega,
        readU64_congr (agreeOn_pushWords (by omega) (by omega)), readU64_writeU64_self, h]

end ByteMemory
