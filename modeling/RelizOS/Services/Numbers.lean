import RelizOS.Library.Numerals
import RelizOS.Library.Slice
import RelizOS.Services.Cat
import RelizOS.Services.Shell

/-!
# Numbers on the command line

The shell writes a number from its last digit to the first, at the end of a buffer that the caller
gives it. Twenty bytes are enough for every number of 64 bits, and what is written is the decimal
numeral of the number, without a leading zero (`formatNumInto_numeral`).

It reads a number from the first digit to the last, into 32 bits, and compiled with overflow checks
it panics where they are not enough: so the command `dump` asks for the sector that the digits at
the front of its argument stand for exactly when there is such a number of 32 bits
(`dumpRequest_iff`).
-/

namespace RelizOS

open ByteMemory Numerals

/-! ## The functions -/

/-- The loop of `format_num`. -/
def formatLoop : ℕ → ℕ → Slice UInt8 → Checked (ℕ × Slice UInt8)
  | 0, val, buf => if 0 < val then .error .overflow else .ok (0, buf)
  | idx + 1, val, buf =>
    if 0 < val then do
      let buf ← buf.write idx (UInt8.ofNat (48 + val % 10))
      formatLoop idx (val / 10) buf
    else .ok (idx + 1, buf)

/-- `format_num` with its buffer: the index of the first digit, and the buffer. -/
def formatNumInto (val : ℕ) (buf : Slice UInt8) : Checked (ℕ × Slice UInt8) :=
  if val = 0 then do
    let idx ← Checked.sub buf.len 1
    let buf ← buf.write idx 48
    return (idx, buf)
  else formatLoop buf.len val buf

/-- The loop over the bytes of `lba_str`. -/
def parseLba : ℕ → List UInt8 → Checked ℕ
  | lba, [] => return lba
  | lba, b :: bytes =>
    if b ≥ 48 ∧ b ≤ 57 then do
      let product ← Checked.mul 32 lba 10
      let lba ← Checked.add 32 product (← Checked.sub b.toNat 48)
      parseLba lba bytes
    else return lba

/-- `lba_str`, if the command is `dump`. -/
def dumpLbaStr (cmdStr : String) : Option String :=
  ("dump ".toList.isPrefixOf? (trim cmdStr).toList).map fun rest ↦ trim (String.ofList rest)

/-- The request of the command `dump`, with `sector_buf` at an address. -/
def dumpRequest (sectorBufPtr : UInt64) (cmdStr : String) : Checked (Option Message) :=
  match dumpLbaStr cmdStr with
  | none => return none
  | some lbaStr => do
    let lba ← parseLba 0 (bytesOf lbaStr)
    return some ⟨1, 1, UInt64.ofNat lba, sectorBufPtr, 0, 0⟩

/-! ## Numerals of numbers -/

theorem decimalValue_append_digit (l : List UInt8) {d : ℕ} (h : d < 10) :
    decimalValue (l ++ [UInt8.ofNat (48 + d)]) = decimalValue l * 10 + d := by
  rw [decimalValue_append_singleton, toNat_ofNat_digit h]

/-- **The numeral of a number** stands for it. -/
theorem decimalValue_toString (n : ℕ) : decimalValue (bytesOf (toString n)) = n := by
  refine numeral_induction (motive := fun n l ↦ decimalValue l = n) ?_ ?_ n
  · intro d hd
    rw [← List.nil_append [_], decimalValue_append_digit _ hd]
    exact Nat.zero_add d
  · intro n _ l ih
    rw [decimalValue_append_digit _ (Nat.mod_lt n (by omega)), ih, Nat.div_add_mod']

theorem isDigit_of_mem_toString {n : ℕ} : ∀ b ∈ bytesOf (toString n), IsDigit b := by
  refine numeral_induction (motive := fun _ l ↦ ∀ b ∈ l, IsDigit b) ?_ ?_ n
  · intro d hd b hb
    exact List.mem_singleton.mp hb ▸ isDigit_ofNat hd
  · intro n _ l ih b hb
    rcases List.mem_append.mp hb with hfront | hlast
    · exact ih b hfront
    · exact List.mem_singleton.mp hlast ▸ isDigit_ofNat (Nat.mod_lt n (by omega))

/-- Only the numeral of zero begins with a zero. -/
theorem head?_toString (n : ℕ) :
    ∃ b, (bytesOf (toString n)).head? = some b ∧ (b = 48 → n = 0) := by
  have hzero : ∀ d < 10, UInt8.ofNat (48 + d) = 48 → d = 0 := by decide
  refine numeral_induction (motive := fun n l ↦ ∃ b, l.head? = some b ∧ (b = 48 → n = 0)) ?_ ?_ n
  · intro d hd
    exact ⟨_, rfl, hzero d hd⟩
  · intro n hn l ih
    obtain ⟨b, hhead, hb⟩ := ih
    refine ⟨b, ?_, fun h ↦ absurd (hb h) (by omega)⟩
    rw [List.head?_append, hhead]
    rfl

/-! ## Writing -/

section

variable {idx val : ℕ} {buf : Slice UInt8}

theorem formatLoop_zero (idx : ℕ) (buf : Slice UInt8) : formatLoop idx 0 buf = .ok (idx, buf) := by
  cases idx <;> rfl

/-- **The loop writes the numeral** in front of the index at which it starts. -/
theorem formatLoop_eq (hpos : 0 < val) (hlen : (bytesOf (toString val)).length ≤ idx)
    (hidx : idx ≤ buf.len) :
    formatLoop idx val buf = .ok (idx - (bytesOf (toString val)).length,
      { buf with
        get := writeBytes buf.get (idx - (bytesOf (toString val)).length)
          (bytesOf (toString val)) }) := by
  induction idx generalizing val buf with
  | zero =>
    have hvalue := decimalValue_toString val
    rw [List.length_eq_zero_iff.mp (Nat.le_zero.mp hlen)] at hvalue
    exact absurd hvalue hpos.ne
  | succ idx ih =>
    have hwrite : Function.update buf.get idx (UInt8.ofNat (48 + val % 10)) =
        writeBytes buf.get idx [UInt8.ofNat (48 + val % 10)] := by
      rw [writeBytes_cons, writeBytes_nil]
    rw [formatLoop, if_pos hpos, Slice.write_of_lt hidx, Checked.ok_bind, hwrite]
    by_cases hval : val < 10
    · rw [Nat.div_eq_of_lt hval, formatLoop_zero, bytesOf_toString_of_lt hval,
        Nat.mod_eq_of_lt hval]
      rfl
    · -- the digits in front of the last one are written by the rest of the loop
      rw [bytesOf_toString_of_le (by omega), List.length_append, List.length_singleton] at hlen ⊢
      have hfront := @ih (val / 10) ⟨writeBytes buf.get idx [UInt8.ofNat (48 + val % 10)], buf.len⟩
        (by omega) (Nat.le_of_succ_le_succ hlen) (Nat.le_of_succ_le hidx)
      rw [hfront, Nat.add_sub_add_right, writeBytes_append,
        Nat.sub_add_cancel (Nat.le_of_succ_le_succ hlen)]

/-- `format_num` writes the numeral at the end of the buffer. -/
theorem formatNumInto_eq (hlen : (bytesOf (toString val)).length ≤ buf.len) :
    formatNumInto val buf = .ok (buf.len - (bytesOf (toString val)).length,
      { buf with
        get := writeBytes buf.get (buf.len - (bytesOf (toString val)).length)
          (bytesOf (toString val)) }) := by
  rw [formatNumInto]
  by_cases hzero : val = 0
  · have hnumeral : bytesOf (toString val) = [48] := by
      rw [hzero]
      exact bytesOf_toString_of_lt (by omega)
    rw [hnumeral, List.length_singleton] at hlen ⊢
    rw [if_pos hzero, Checked.sub_of_le hlen, Checked.ok_bind, Slice.write_of_lt (by omega),
      Checked.ok_bind, writeBytes_cons, writeBytes_nil]
    rfl
  · rw [if_neg hzero]
    exact formatLoop_eq (Nat.pos_of_ne_zero hzero) hlen le_rfl

theorem segment_writeBytes (m : Mem) (i len : ℕ) (bytes : List UInt8) :
    (Slice.mk (writeBytes m i bytes) len).segment i bytes.length = bytes := by
  apply List.ext_getElem
  · simp only [Slice.segment, List.length_map, List.length_range]
  · intro k hk hk'
    simp only [Slice.segment, List.getElem_map, List.getElem_range]
    exact bytesAt_writeBytes m i bytes k hk'

/-- **Twenty bytes are enough for every number**: the bytes from the returned index on are its
decimal numeral, and no other byte is written. -/
theorem formatNumInto_numeral (hval : val < 2 ^ 64) (hlen : 20 ≤ buf.len) :
    ∃ idx buf', formatNumInto val buf = .ok (idx, buf') ∧ idx < buf.len ∧ buf'.len = buf.len ∧
      (∀ k, k < idx ∨ buf.len ≤ k → buf'.get k = buf.get k) ∧
      (∀ b ∈ buf'.segment idx (buf.len - idx), IsDigit b) ∧
      (buf'.get idx = 48 → val = 0 ∧ buf.len - idx = 1) ∧
      decimalValue (buf'.segment idx (buf.len - idx)) = val := by
  have hdigits : (bytesOf (toString val)).length ≤ buf.len :=
    (length_toString_le (by omega) (hval.trans (by norm_num))).trans hlen
  obtain ⟨b, hhead, hzero⟩ := head?_toString val
  have hpos : 0 < (bytesOf (toString val)).length :=
    List.length_pos_of_mem (List.mem_of_mem_head? hhead)
  refine ⟨_, _, formatNumInto_eq hdigits, by omega, rfl, fun k hk ↦ ?_, ?_⟩
  · exact writeBytes_outside (by omega)
  · rw [Nat.sub_sub_self hdigits, segment_writeBytes]
    refine ⟨isDigit_of_mem_toString, fun hfirst ↦ ?_, decimalValue_toString val⟩
    obtain ⟨rest, hnumeral⟩ := List.head?_eq_some_iff.mp hhead
    have hget := bytesAt_writeBytes buf.get (buf.len - (bytesOf (toString val)).length)
      (bytesOf (toString val)) 0 hpos
    simp only [hnumeral, List.getElem_cons_zero, Nat.add_zero] at hfirst hget
    have hval := hzero (hget.symm.trans hfirst)
    rw [hval, bytesOf_toString_of_lt (by omega)]
    exact ⟨rfl, rfl⟩

end

theorem formatNumInto_numeral_max :
    ∃ idx buf', formatNumInto (2 ^ 64 - 1) ⟨fun _ ↦ 0, 20⟩ = .ok (idx, buf') ∧
      decimalValue (buf'.segment idx (20 - idx)) = 2 ^ 64 - 1 := by
  obtain ⟨idx, buf', hok, -, -, -, -, -, hvalue⟩ :=
    @formatNumInto_numeral (2 ^ 64 - 1) ⟨fun _ ↦ 0, 20⟩ (by norm_num) le_rfl
  exact ⟨idx, buf', hok, hvalue⟩

/-! ## Reading -/

theorem parseLba_cons {lba : ℕ} {b : UInt8} {bytes : List UInt8} (hb : IsDigit b) :
    parseLba lba (b :: bytes) =
      if digitStep lba b < 2 ^ 32 then parseLba (digitStep lba b) bytes
      else .error .overflow := by
  have hrange : b ≥ 48 ∧ b ≤ 57 := hb
  have hzero : 48 ≤ b.toNat := UInt8.le_iff_toNat_le.mp hb.1
  rw [parseLba, if_pos hrange, digitStep, Checked.mul]
  by_cases hproduct : lba * 10 < 2 ^ 32
  · rw [if_pos hproduct, Checked.ok_bind, Checked.sub_of_le hzero, Checked.ok_bind, Checked.add]
    by_cases hsum : lba * 10 + (b.toNat - 48) < 2 ^ 32
    · rw [if_pos hsum, if_pos hsum, Checked.ok_bind]
    · rw [if_neg hsum, if_neg hsum, Checked.error_bind]
  · rw [if_neg hproduct, if_neg (by omega), Checked.error_bind]

/-- **The loop over the bytes** has the value of the leading digits as its result if 32 bits are
enough for it, and panics if they are not. -/
theorem parseLba_eq {lba : ℕ} (hlba : lba < 2 ^ 32) (bytes : List UInt8) :
    parseLba lba bytes =
      if (leadingDigits bytes).foldl digitStep lba < 2 ^ 32 then
        .ok ((leadingDigits bytes).foldl digitStep lba)
      else .error .overflow := by
  induction bytes generalizing lba with
  | nil => exact (if_pos hlba).symm
  | cons b bytes ih =>
    by_cases hb : IsDigit b
    · rw [parseLba_cons hb, leadingDigits_cons_of_isDigit hb, List.foldl_cons]
      by_cases hstep : digitStep lba b < 2 ^ 32
      · rw [if_pos hstep]
        exact ih hstep
      · -- the number does not become smaller again
        have hle := le_foldl_digitStep (digitStep lba b) (leadingDigits bytes)
        rw [if_neg hstep, if_neg (by omega)]
    · have hrange : ¬(b ≥ 48 ∧ b ≤ 57) := hb
      rw [parseLba, if_neg hrange, leadingDigits_cons_of_not hb, List.foldl_nil, if_pos hlba]
      rfl

/-- The number at the front of an argument. -/
def leadingNumber (text : String) : ℕ := decimalValue (leadingDigits (bytesOf (trim text)))

theorem dumpLbaStr_eq (text : String) :
    dumpLbaStr ("dump " ++ text) = if trim text = "" then none else some (trim text) :=
  argument_eq (show "dump ".toList = "dump".toList ++ [' '] from rfl) (by decide) (by decide)
    (by decide) text

theorem dumpRequest_eq {sectorBufPtr : UInt64} {text : String} (hne : trim text ≠ "") :
    dumpRequest sectorBufPtr ("dump " ++ text) =
      if leadingNumber text < 2 ^ 32 then
        .ok (some ⟨1, 1, UInt64.ofNat (leadingNumber text), sectorBufPtr, 0, 0⟩)
      else .error .overflow := by
  rw [dumpRequest, dumpLbaStr_eq, if_neg hne]
  dsimp only
  rw [parseLba_eq (by norm_num)]
  change (ite (leadingNumber text < 2 ^ 32) _ _ >>= _) = _
  by_cases hlt : leadingNumber text < 2 ^ 32
  · rw [if_pos hlt, if_pos hlt]
    rfl
  · rw [if_neg hlt, if_neg hlt]
    rfl

theorem leadingNumber_of_blank {text : String} (h : trim text = "") : leadingNumber text = 0 := by
  rw [leadingNumber, h, show "" = String.ofList [] from rfl, bytesOf_ofList]
  rfl

/-- What an argument should lead to: a read request for the number, if it has 32 bits, and otherwise
none. -/
def requestFor (text : String) : Option (UInt64 × ℕ) :=
  if trim text ≠ "" ∧ leadingNumber text < 2 ^ 32 then some (1, leadingNumber text) else none

/-- **When `dump` does what it should**: exactly when the number at the front of its argument has 32
bits. Without an argument the line is not a `dump`. -/
theorem dumpRequest_iff (sectorBufPtr : UInt64) (text : String) :
    (∃ req, dumpRequest sectorBufPtr ("dump " ++ text) = .ok req ∧
      req.map (fun m ↦ (m.msgType, m.arg1.toNat)) = requestFor text) ↔
      leadingNumber text < 2 ^ 32 := by
  by_cases hblank : trim text = ""
  · rw [leadingNumber_of_blank hblank, dumpRequest, dumpLbaStr_eq, if_pos hblank, requestFor,
      if_neg fun h ↦ h.1 hblank]
    exact iff_of_true ⟨none, rfl, rfl⟩ (by norm_num)
  · rw [dumpRequest_eq hblank]
    constructor
    · rintro ⟨req, hreq, -⟩
      by_contra hlarge
      rw [if_neg hlarge] at hreq
      cases hreq
    · intro hlt
      rw [if_pos hlt, requestFor, if_pos ⟨hblank, hlt⟩]
      refine ⟨_, rfl, ?_⟩
      rw [Option.map_some, UInt64.toNat_ofNat_of_lt' (hlt.trans (by decide))]

/-- **A number of 33 bits makes `dump` panic** instead of requesting nothing. -/
theorem not_dumpRequest_returns :
    ¬∀ (sectorBufPtr : UInt64) (text : String), (bytesOf ("dump " ++ text)).length ≤ 64 →
      ∃ req, dumpRequest sectorBufPtr ("dump " ++ text) = .ok req ∧
        req.map (fun m ↦ (m.msgType, m.arg1.toNat)) = requestFor text := by
  intro hgeneral
  have hvalue : leadingNumber "4294967296" = 2 ^ 32 := by decide +kernel
  obtain ⟨req, hreq, -⟩ := hgeneral 0 "4294967296" (by decide +kernel)
  rw [dumpRequest_eq (by decide), hvalue, if_neg (lt_irrefl _)] at hreq
  cases hreq

end RelizOS
