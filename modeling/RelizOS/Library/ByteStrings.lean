import RelizOS.Library.ByteMemory

/-!
# Sequences of bytes in a memory

What a program writes as one sequence of bytes another reads as numbers. `BytesAt` says that a
memory holds a sequence at an address; it splits along `++`, is kept by every write elsewhere, and
gives back the number whose little-endian encoding the sequence is (`readLE_of_bytesAt`). A record
that is encoded field by field can so be read field by field.
-/

namespace ByteMemory

variable {m m' : Mem} {a b n v : ℕ} {bs cs : List UInt8}

/-- The memory holds a sequence of bytes from address `a` on. -/
def BytesAt (m : Mem) (a : ℕ) (bs : List UInt8) : Prop :=
  ∀ i (h : i < bs.length), m (a + i) = bs[i]

theorem bytesAt_nil : BytesAt m a [] := fun _ h ↦ (nomatch h)

theorem bytesAt_append :
    BytesAt m a (bs ++ cs) ↔ BytesAt m a bs ∧ BytesAt m (a + bs.length) cs := by
  constructor
  · intro h
    constructor
    · intro i hi
      rw [h i (by rw [List.length_append]; omega), List.getElem_append_left hi]
    · intro i hi
      rw [add_assoc, h (bs.length + i) (by rw [List.length_append]; omega),
        List.getElem_append_right (Nat.le_add_right _ _)]
      simp only [Nat.add_sub_cancel_left]
  · rintro ⟨hbs, hcs⟩ i hi
    rw [List.length_append] at hi
    by_cases hlt : i < bs.length
    · rw [hbs i hlt, List.getElem_append_left hlt]
    · have hget := hcs (i - bs.length) (by omega)
      rw [add_assoc, Nat.add_sub_cancel' (by omega)] at hget
      rw [hget, List.getElem_append_right (by omega)]

theorem bytesAt_singleton {x : UInt8} : BytesAt m a [x] ↔ m a = x := by
  constructor
  · intro h
    exact h 0 (Nat.zero_lt_succ _)
  · rintro h (_ | i) hi
    · exact h
    · exact absurd (Nat.lt_of_succ_lt_succ hi) (Nat.not_lt_zero _)

theorem bytesAt_cons {x : UInt8} : BytesAt m a (x :: bs) ↔ m a = x ∧ BytesAt m (a + 1) bs := by
  rw [← List.singleton_append, bytesAt_append, bytesAt_singleton]
  rfl

theorem bytesAt_flatMap {α : Type} {f : α → List UInt8} {k : ℕ} (hf : ∀ x, (f x).length = k)
    {l : List α} :
    BytesAt m a (l.flatMap f) ↔ ∀ i (h : i < l.length), BytesAt m (a + k * i) (f l[i]) := by
  induction l generalizing a with
  | nil => exact iff_of_true bytesAt_nil fun i hi ↦ (nomatch hi)
  | cons x l ih =>
    rw [List.flatMap_cons, bytesAt_append, ih, hf]
    constructor
    · rintro ⟨hx, hl⟩ (_ | i) hi
      · exact hx
      · rw [Nat.mul_succ, add_comm (k * i), ← add_assoc]
        exact hl i (Nat.lt_of_succ_lt_succ hi)
    · intro h
      refine ⟨h 0 (Nat.zero_lt_succ _), fun i hi ↦ ?_⟩
      have hnext := h (i + 1) (Nat.succ_lt_succ hi)
      rwa [Nat.mul_succ, add_comm (k * i), ← add_assoc] at hnext

theorem BytesAt.congr (h : BytesAt m a bs) (hagree : AgreeOn m m' a bs.length) :
    BytesAt m' a bs := by
  intro i hi
  rw [← hagree (a + i) (Nat.le_add_right _ _) (by omega)]
  exact h i hi

theorem bytesAt_writeBytes (m : Mem) (a : ℕ) (bs : List UInt8) :
    BytesAt (writeBytes m a bs) a bs := by
  intro i hi
  rw [writeBytes, if_pos (Nat.le_add_right _ _), Nat.add_sub_cancel_left,
    List.getElem?_eq_getElem hi, Option.getD_some]

theorem writeBytes_outside (h : b < a ∨ a + bs.length ≤ b) : writeBytes m a bs b = m b :=
  agreeOn_writeBytes (k := 1) (by omega) b le_rfl (Nat.lt_succ_self b)

theorem writeBytes_nil : writeBytes m a [] = m := by
  funext b
  exact writeBytes_outside (by rw [List.length_nil]; omega)

theorem writeBytes_cons {x : UInt8} :
    writeBytes m a (x :: bs) = writeBytes (Function.update m a x) (a + 1) bs := by
  funext b
  rcases Nat.lt_trichotomy b a with hlt | rfl | hgt
  · rw [writeBytes_outside (Or.inl hlt), writeBytes_outside (Or.inl (by omega)),
      Function.update_of_ne hlt.ne]
  · rw [writeBytes, if_pos le_rfl, Nat.sub_self, writeBytes_outside (Or.inl (by omega)),
      Function.update_self]
    rfl
  · have hsucc : b - a = b - (a + 1) + 1 := by omega
    rw [writeBytes, writeBytes, if_pos hgt.le, if_pos (Nat.succ_le_of_lt hgt), hsucc,
      List.getElem?_cons_succ, Function.update_of_ne hgt.ne']

/-- A sequence may be written in two parts, the one behind first. -/
theorem writeBytes_append :
    writeBytes m a (bs ++ cs) = writeBytes (writeBytes m (a + bs.length) cs) a bs := by
  funext b
  by_cases hfront : b < a
  · rw [writeBytes_outside (Or.inl hfront), writeBytes_outside (Or.inl hfront),
      writeBytes_outside (Or.inl (by omega))]
  · rw [writeBytes, writeBytes, if_pos (by omega), if_pos (by omega)]
    by_cases hin : b - a < bs.length
    · rw [List.getElem?_append_left hin, List.getElem?_eq_getElem hin, Option.getD_some,
        Option.getD_some]
    · rw [List.getElem?_append_right (by omega), List.getElem?_eq_none (l := bs) (by omega),
        Option.getD_none, writeBytes, if_pos (by omega), Nat.sub_sub]

theorem BytesAt.writeBytes (h : BytesAt m a bs) (hdisj : a + bs.length ≤ b ∨ b + cs.length ≤ a) :
    BytesAt (writeBytes m b cs) a bs :=
  h.congr (agreeOn_writeBytes hdisj).symm

/-! ## Little-endian numbers -/

/-- The low `n` bytes of a number, least significant byte first. -/
def leBytes : ℕ → ℕ → List UInt8
  | 0, _ => []
  | n + 1, v => UInt8.ofNat v :: leBytes n (v / 256)

@[simp] theorem length_leBytes (n v : ℕ) : (leBytes n v).length = n := by
  induction n generalizing v with
  | zero => rfl
  | succ n ih => rw [leBytes, List.length_cons, ih]

/-- **Reading a number** whose encoding the memory holds. -/
theorem readLE_of_bytesAt (h : BytesAt m a (leBytes n v)) : readLE m a n = v % 256 ^ n := by
  induction n generalizing a v with
  | zero => rw [readLE, pow_zero, Nat.mod_one]
  | succ n ih =>
    obtain ⟨hbyte, hrest⟩ := bytesAt_cons.mp h
    have hlow : (UInt8.ofNat v).toNat = v % 256 := UInt8.toNat_ofNat'
    rw [readLE, hbyte, hlow, ih hrest, pow_succ, mul_comm (256 ^ n), Nat.mod_mul]

theorem readU64_of_bytesAt {v : UInt64} (h : BytesAt m a (leBytes 8 v.toNat)) :
    readU64 m a = v := by
  have hlt : v.toNat < 256 ^ 8 := v.toNat_lt
  rw [readU64, readLE_of_bytesAt h, Nat.mod_eq_of_lt hlt, UInt64.ofNat_toNat]

end ByteMemory
