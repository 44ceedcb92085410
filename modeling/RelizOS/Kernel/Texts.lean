import Mathlib.Tactic.IntervalCases
import RelizOS.Kernel.Syscall

/-!
# Bytes of texts and of decimal numbers

The kernel and its services assemble texts byte by byte, with loops that write decimal digits into
small buffers from the end. What such a text should be is a `String`; here are the bytes of its
parts. A number is taken apart as the loops do it, with its last digit first.
-/

namespace RelizOS

/-! ## Texts -/

private theorem toListLoop_eq (bs : ByteArray) (i : ℕ) (r : List UInt8) :
    ByteArray.toList.loop bs i r = r.reverse ++ bs.data.toList.drop i := by
  fun_induction ByteArray.toList.loop bs i r with
  | case1 i r hi ih =>
    have hlt : i < bs.data.toList.length := by rw [Array.length_toList]; exact hi
    have hget : bs.get! i = bs.data.toList[i] := by
      rw [Array.getElem_toList]
      exact getElem!_pos bs.data i hi
    rw [ih, hget, List.drop_eq_getElem_cons hlt]
    simp
  | case2 i r hi =>
    rw [List.drop_eq_nil_of_le, List.append_nil]
    rw [Array.length_toList]
    exact Nat.le_of_not_lt hi

theorem bytesOf_eq (text : String) : bytesOf text = text.toUTF8.data.toList := by
  rw [bytesOf, ByteArray.toList, toListLoop_eq]
  rfl

@[simp] theorem bytesOf_append (s t : String) : bytesOf (s ++ t) = bytesOf s ++ bytesOf t := by
  simp [bytesOf_eq, String.toByteArray_append, ByteArray.data_append]

theorem bytesOf_join (l : List String) : bytesOf (String.join l) = l.flatMap bytesOf := by
  induction l with
  | nil => with_unfolding_all decide
  | cons s l ih => rw [String.join_cons, bytesOf_append, ih, List.flatMap_cons]

theorem bytesOf_ofList (l : List Char) :
    bytesOf (String.ofList l) = l.flatMap String.utf8EncodeChar := by
  rw [bytesOf_eq, String.toUTF8_eq_toByteArray, String.toByteArray_ofList, List.utf8Encode]
  simp

theorem length_bytesOf (text : String) : (bytesOf text).length = text.utf8ByteSize := by
  rw [bytesOf_eq, Array.length_toList]
  rfl

theorem exists_append_of_bytesOf_prefix {s t : String} (h : bytesOf t <+: bytesOf s) :
    ∃ u, s = t ++ u := by
  obtain ⟨rest, hrest⟩ := h
  have hbytes : t.toList.utf8Encode ++ ⟨rest.toArray⟩ = s.toList.utf8Encode := by
    rw [String.utf8Encode_toList, String.utf8Encode_toList]
    apply ByteArray.ext
    rw [ByteArray.data_append, ← Array.toList_inj, Array.toList_append]
    rw [bytesOf_eq, bytesOf_eq] at hrest
    exact hrest
  obtain ⟨u, hu⟩ := List.isPrefix_of_utf8Encode_append_eq_utf8Encode _ hbytes
  refine ⟨String.ofList u, ?_⟩
  rw [← String.toList_inj, String.toList_append, String.toList_ofList, hu]

/-- The first bytes of a text are a text exactly when no character is cut. -/
theorem exists_bytesOf_eq_take {s : String} {k : ℕ} (hk : k ≤ (bytesOf s).length) :
    (∃ t, bytesOf t = (bytesOf s).take k) ↔ (⟨k⟩ : String.Pos.Raw).IsValid s := by
  rw [String.Pos.Raw.isValid_iff_exists_append]
  constructor
  · rintro ⟨t, ht⟩
    obtain ⟨u, rfl⟩ := exists_append_of_bytesOf_prefix (ht ▸ List.take_prefix k _)
    have hlen := congrArg List.length ht
    rw [List.length_take_of_le hk, length_bytesOf] at hlen
    exact ⟨t, u, rfl, String.Pos.Raw.ext hlen.symm⟩
  · rintro ⟨t, u, rfl, ht⟩
    have hlen : k = t.utf8ByteSize := congrArg String.Pos.Raw.byteIdx ht
    exact ⟨t, by rw [bytesOf_append, List.take_left' (by rw [length_bytesOf, hlen])]⟩

/-! ## ASCII -/

theorem utf8EncodeChar_ofNat {b : UInt8} (h : b < 128) :
    String.utf8EncodeChar (Char.ofNat b.toNat) = [b] := by
  have hascii : ∀ n < 128, String.utf8EncodeChar (Char.ofNat n) = [UInt8.ofNat n] := by
    decide +kernel
  rw [hascii b.toNat (UInt8.lt_iff_toNat_lt.mp h), UInt8.ofNat_toNat]

/-- The text of ASCII bytes. -/
def asciiText (bytes : List UInt8) : String :=
  String.ofList (bytes.map fun b ↦ Char.ofNat b.toNat)

theorem bytesOf_asciiText {bytes : List UInt8} (h : ∀ b ∈ bytes, b < 128) :
    bytesOf (asciiText bytes) = bytes := by
  rw [asciiText, bytesOf_ofList]
  induction bytes with
  | nil => rfl
  | cons b bytes ih =>
    rw [List.map_cons, List.flatMap_cons, utf8EncodeChar_ofNat (h b List.mem_cons_self),
      ih fun c hc ↦ h c (List.mem_cons_of_mem b hc), List.singleton_append]

/-! ## Numbers -/

theorem utf8EncodeChar_digitChar {n : ℕ} (h : n < 10) :
    String.utf8EncodeChar (Nat.digitChar n) = [UInt8.ofNat (48 + n)] := by
  interval_cases n <;> decide

theorem bytesOf_toString_of_lt {n : ℕ} (h : n < 10) :
    bytesOf (toString n) = [UInt8.ofNat (48 + n)] := by
  rw [Nat.toString_eq_ofList_toDigits, Nat.toDigits_of_lt_base h, bytesOf_ofList,
    List.flatMap_singleton, utf8EncodeChar_digitChar h]

/-- The last digit of a number comes off the end. -/
theorem bytesOf_toString_of_le {n : ℕ} (h : 10 ≤ n) :
    bytesOf (toString n) = bytesOf (toString (n / 10)) ++ [UInt8.ofNat (48 + n % 10)] := by
  rw [Nat.toString_eq_ofList_toDigits, Nat.toString_eq_ofList_toDigits,
    Nat.toDigits_of_base_le (by omega) h, bytesOf_ofList, bytesOf_ofList, List.flatMap_append,
    List.flatMap_singleton, utf8EncodeChar_digitChar (Nat.mod_lt _ (by omega))]

/-- **Induction on numerals**: what holds of the digits, and of a numeral with one more digit behind
it, holds of every numeral. -/
theorem numeral_induction {motive : ℕ → List UInt8 → Prop}
    (hdigit : ∀ d < 10, motive d [UInt8.ofNat (48 + d)])
    (happend : ∀ n, 10 ≤ n → ∀ l, motive (n / 10) l → motive n (l ++ [UInt8.ofNat (48 + n % 10)]))
    (n : ℕ) : motive n (bytesOf (toString n)) := by
  induction n using Nat.strong_induction_on with
  | h n ih =>
    by_cases hn : n < 10
    · rw [bytesOf_toString_of_lt hn]
      exact hdigit n hn
    · rw [bytesOf_toString_of_le (by omega)]
      exact happend n (by omega) _ (ih (n / 10) (by omega))

theorem length_bytesOf_toString (n : ℕ) :
    (bytesOf (toString n)).length = (Nat.toDigits 10 n).length := by
  refine numeral_induction (motive := fun n l ↦ l.length = (Nat.toDigits 10 n).length) ?_ ?_ n
  · intro d hd
    rw [Nat.toDigits_of_lt_base hd]
    rfl
  · intro n hn l ih
    rw [Nat.toDigits_of_base_le (by omega) hn, List.length_append, ih, List.length_append]
    rfl

theorem length_toString_le {n k : ℕ} (hk : 0 < k) (h : n < 10 ^ k) :
    (bytesOf (toString n)).length ≤ k := by
  rw [length_bytesOf_toString]
  exact (Nat.length_toDigits_le_iff (by omega) hk).mpr h

theorem zero_not_mem_toString (n : ℕ) : 0 ∉ bytesOf (toString n) := by
  have hzero : ∀ d < 10, (0 : UInt8) ≠ UInt8.ofNat (48 + d) := by decide
  refine numeral_induction (motive := fun _ l ↦ 0 ∉ l) ?_ ?_ n
  · intro d hd
    rw [List.mem_singleton]
    exact hzero d hd
  · intro n _ l ih
    rw [List.mem_append, List.mem_singleton, not_or]
    exact ⟨ih, hzero _ (Nat.mod_lt _ (by omega))⟩

end RelizOS
