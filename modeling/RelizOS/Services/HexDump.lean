import Mathlib.Data.Bool.AllAny
import RelizOS.Library.Numerals
import RelizOS.Library.Slice
import RelizOS.RelizFs.Listing

/-!
# The hex dump

For a sector that it has read, `dump` prints 32 lines. Each shows 16 bytes, twice: as two
hexadecimal digits, and as a character if it is printable. A line is put together piece by piece in
a buffer of 80 bytes, with a cursor behind the last piece; it has 74 bytes. From the hexadecimal
columns of all lines the sector can be put together again (`dumpOutput_faithful`).
-/

open ByteMemory Numerals

namespace RelizOS

open RelizFs

/-! ## The command -/

/-- `hex_chars`. -/
def hexChars : List UInt8 := [48, 49, 50, 51, 52, 53, 54, 55, 56, 57, 65, 66, 67, 68, 69, 70]

/-- `hex_chars[i]`. -/
def hexChar (i : ℕ) : Checked UInt8 :=
  match hexChars[i]? with
  | some c => .ok c
  | none => .error .bounds

/-- Copy bytes into `line_buf` at `cursor`, and move `cursor` behind them. -/
def place (line : List UInt8 × ℕ) (bytes : List UInt8) : Checked (List UInt8 × ℕ) := do
  let lineBuf ← copyFromSlice line.1 line.2 bytes
  let cursor ← Checked.add 64 line.2 bytes.length
  return (lineBuf, cursor)

/-- The body of the loop over the hexadecimal columns. -/
def placeHex (sectorBuf : Slice UInt8) (offset : ℕ) (line : List UInt8 × ℕ) (i : ℕ) :
    Checked (List UInt8 × ℕ) := do
  let b ← sectorBuf.read (← Checked.add 64 offset i)
  let byteStr := [← hexChar (b >>> 4).toNat, ← hexChar (b &&& 0xF).toNat, 32]
  place line byteStr

/-- The body of the loop over the text columns. -/
def placeChar (sectorBuf : Slice UInt8) (offset : ℕ) (line : List UInt8 × ℕ) (i : ℕ) :
    Checked (List UInt8 × ℕ) := do
  let b ← sectorBuf.read (← Checked.add 64 offset i)
  let c := if b ≥ 32 ∧ b ≤ 126 then b else 46
  place line [c]

/-- A line of the dump: `line_buf` and `cursor`. -/
def dumpLine (sectorBuf : Slice UInt8) (n : ℕ) : Checked (List UInt8 × ℕ) := do
  let offset ← Checked.mul 64 n 16
  let offsetStr := [48, ← hexChar (offset >>> 8 &&& 0xF), ← hexChar (offset >>> 4 &&& 0xF),
    ← hexChar (offset &&& 0xF), 58, 32]
  let line ← place (List.replicate 80 0, 0) offsetStr
  let line ← (List.range 16).foldlM (placeHex sectorBuf offset) line
  let line ← place line [32, 124]
  let line ← (List.range 16).foldlM (placeChar sectorBuf offset) line
  place line [124, 10]

/-- What the command prints of the sector, line by line. -/
def dumpOutput (sectorBuf : Slice UInt8) : Checked (List (Option String)) :=
  (List.range 32).mapM fun n ↦ do
    let (lineBuf, cursor) ← dumpLine sectorBuf n
    return fromUtf8 (lineBuf.take cursor)

/-- What the command prints when the ATA server has replied. -/
def dumpReply (resp : Message) (sectorBuf : Slice UInt8) : Checked (List (Option String)) :=
  if resp.msgType = 0 then dumpOutput sectorBuf
  else return [some "Error reading sector from disk!\n"]

/-! ## Reading a dump -/

/-- The byte in a hexadecimal column of a line. -/
def hexColumn (line : List UInt8) (i : ℕ) : Option UInt8 :=
  (hexNumber ((line.drop (6 + 3 * i)).take 2)).map UInt8.ofNat

/-- The bytes in the hexadecimal columns of a line. -/
def hexColumns (line : List UInt8) : Option (List UInt8) := (List.range 16).mapM (hexColumn line)

/-- The bytes in the hexadecimal columns of all lines. -/
def parseDump (lines : List (List UInt8)) : Option (List UInt8) :=
  (lines.mapM hexColumns).map List.flatten

/-- How a byte is shown as a character. -/
def shownAs (b : UInt8) : UInt8 := if 32 ≤ b ∧ b ≤ 126 then b else 46

/-! ## A line -/

theorem hexChar_eq {d : ℕ} (h : d < 16) : hexChar d = .ok (hexDigit d) := by
  interval_cases d <;> rfl

theorem land_fifteen (n : ℕ) : n &&& 0xF = n % 16 := Nat.and_two_pow_sub_one_eq_mod n 4

/-- A line that has some bytes at its front. -/
def placed (bytes : List UInt8) : List UInt8 × ℕ :=
  (bytes ++ List.replicate (80 - bytes.length) 0, bytes.length)

theorem place_placed {front bytes : List UInt8} (h : front.length + bytes.length ≤ 80) :
    place (placed front) bytes = .ok (placed (front ++ bytes)) := by
  have hfits : front.length + bytes.length ≤
      (front ++ List.replicate (80 - front.length) (0 : UInt8)).length := by
    rw [List.length_append, List.length_replicate]
    omega
  rw [place, placed, copyFromSlice_of_fits hfits, Checked.ok_bind,
    Checked.add_of_lt (by dsimp only; omega), Checked.ok_bind, placed, List.length_append,
    List.take_left, List.drop_append, List.drop_eq_nil_of_le (by omega), List.nil_append,
    List.drop_replicate, Checked.pure_eq_ok]
  congr 3
  congr 1
  omega

/-- **A loop that adds one piece after another.** -/
theorem foldlM_place {front : List UInt8} {n : ℕ} {piece : ℕ → List UInt8}
    {body : List UInt8 × ℕ → ℕ → Checked (List UInt8 × ℕ)}
    (hbody : ∀ i < n, ∀ out, body out i = place out (piece i))
    (hfits : front.length + ((List.range n).flatMap piece).length ≤ 80) :
    (List.range n).foldlM body (placed front) =
      .ok (placed (front ++ (List.range n).flatMap piece)) := by
  induction n with
  | zero => rw [List.range_zero, List.flatMap_nil, List.append_nil]; rfl
  | succ n ih =>
    rw [List.range_succ, List.flatMap_append, List.flatMap_singleton] at hfits ⊢
    rw [List.length_append] at hfits
    rw [List.foldlM_append, ih (fun i hi ↦ hbody i (Nat.lt_succ_of_lt hi)) (by omega),
      Checked.ok_bind, List.foldlM_cons, hbody n (Nat.lt_succ_self n),
      place_placed (by rw [List.length_append]; omega), Checked.ok_bind, List.append_assoc]
    rfl

theorem offsetStr_eq {offset : ℕ} (h : offset < 512) :
    [48, hexDigit ((offset >>> 8) % 16), hexDigit ((offset >>> 4) % 16), hexDigit (offset % 16), 58,
      32] = hexText 4 offset ++ [58, 32] := by
  have hfirst : offset / 16 / 16 / 16 % 16 = 0 := by omega
  have hsecond : offset >>> 8 = offset / 16 / 16 := by
    rw [Nat.shiftRight_eq_div_pow]
    omega
  have hthird : offset >>> 4 = offset / 16 := Nat.shiftRight_eq_div_pow offset 4
  rw [hsecond, hthird]
  simp only [hexText, hfirst]
  rfl

theorem toNat_halves (b : UInt8) :
    (b >>> 4).toNat = b.toNat / 16 % 16 ∧ (b &&& 0xF).toNat = b.toNat % 16 := by
  constructor
  · have hlt := b.toNat_lt
    rw [UInt8.toNat_shiftRight, Nat.mod_eq_of_lt (a := b.toNat / 16) (by omega)]
    exact Nat.shiftRight_eq_div_pow b.toNat 4
  · rw [UInt8.toNat_and]
    exact land_fifteen b.toNat

/-- The two digits of a byte. -/
def hexPiece (b : UInt8) : List UInt8 := hexText 2 b.toNat ++ [32]

theorem length_hexPiece (b : UInt8) : (hexPiece b).length = 3 := by
  rw [hexPiece, List.length_append, length_hexText]
  rfl

/-- The line of the dump for the bytes of a sector from `16 * n` on. -/
def lineText (sector : Mem) (n : ℕ) : List UInt8 :=
  hexText 4 (n * 16) ++ [58, 32] ++
    (List.range 16).flatMap (fun i ↦ hexPiece (sector (n * 16 + i))) ++ [32, 124] ++
    (List.range 16).flatMap (fun i ↦ [shownAs (sector (n * 16 + i))]) ++ [124, 10]

theorem length_pieces {f : ℕ → List UInt8} {k : ℕ} (hf : ∀ i, (f i).length = k) (n : ℕ) :
    ((List.range n).flatMap f).length = n * k := by
  rw [List.length_flatMap]
  simp [hf]

theorem length_hexPieces (f : ℕ → UInt8) :
    ((List.range 16).flatMap fun i ↦ hexPiece (f i)).length = 48 :=
  length_pieces (fun i ↦ length_hexPiece (f i)) 16

theorem length_shown (f : ℕ → UInt8) :
    ((List.range 16).flatMap fun i ↦ [shownAs (f i)]).length = 16 :=
  length_pieces (k := 1) (fun _ ↦ rfl) 16

theorem length_offset (offset : ℕ) : (hexText 4 offset ++ [58, 32] : List UInt8).length = 6 := by
  rw [List.length_append, length_hexText]
  rfl

theorem length_lineText (sector : Mem) (n : ℕ) : (lineText sector n).length = 74 := by
  simp only [lineText, List.length_append, length_hexText, length_hexPieces, length_shown]
  rfl

section

variable {sector : Mem} {offset i : ℕ}

theorem read_sector (h : offset + i < 512) :
    (Checked.add 64 offset i >>= (Slice.mk sector 512).read) = .ok (sector (offset + i)) := by
  rw [Checked.add_of_lt (by omega), Checked.ok_bind]
  exact Slice.read_of_lt h

theorem placeHex_eq (h : offset + i < 512) (line : List UInt8 × ℕ) :
    placeHex ⟨sector, 512⟩ offset line i = place line (hexPiece (sector (offset + i))) := by
  obtain ⟨hhigh, hlow⟩ := toNat_halves (sector (offset + i))
  rw [placeHex, ← bind_assoc, read_sector h, Checked.ok_bind, hhigh, hlow,
    hexChar_eq (Nat.mod_lt _ (by omega)), Checked.ok_bind, hexChar_eq (Nat.mod_lt _ (by omega)),
    Checked.ok_bind]
  rfl

theorem placeChar_eq (h : offset + i < 512) (line : List UInt8 × ℕ) :
    placeChar ⟨sector, 512⟩ offset line i = place line [shownAs (sector (offset + i))] := by
  rw [placeChar, ← bind_assoc, read_sector h, Checked.ok_bind]
  rfl

end

/-- **A line of the dump.** -/
theorem dumpLine_eq (sector : Mem) {n : ℕ} (hn : n < 32) :
    dumpLine ⟨sector, 512⟩ n = .ok (placed (lineText sector n)) := by
  have hlen := length_offset (n * 16)
  have hhex := length_hexPieces fun i ↦ sector (n * 16 + i)
  have hshown := length_shown fun i ↦ sector (n * 16 + i)
  have hstart : (List.replicate 80 0, 0) = placed [] := rfl
  rw [dumpLine, Checked.mul, if_pos (by omega), Checked.ok_bind]
  simp only [land_fifteen]
  rw [hexChar_eq (Nat.mod_lt _ (by omega)), Checked.ok_bind, hexChar_eq (Nat.mod_lt _ (by omega)),
    Checked.ok_bind, hexChar_eq (Nat.mod_lt _ (by omega)), Checked.ok_bind,
    offsetStr_eq (by omega), hstart, place_placed (by rw [hlen]; exact (by norm_num)),
    Checked.ok_bind, foldlM_place (fun i hi ↦ placeHex_eq (by omega)), Checked.ok_bind,
    place_placed, Checked.ok_bind, foldlM_place (fun i hi ↦ placeChar_eq (by omega)),
    Checked.ok_bind, place_placed]
  · rfl
  all_goals
    simp only [List.length_append, List.nil_append, hlen, hhex, hshown, List.length_cons,
      List.length_nil]
    norm_num

/-! ## What a line shows -/

theorem hexText_ascii {k v : ℕ} : ∀ b ∈ hexText k v, b < 128 := by
  induction k generalizing v with
  | zero => exact fun b hb ↦ absurd hb List.not_mem_nil
  | succ k ih =>
    intro b hb
    rcases List.mem_append.mp hb with hfront | hlast
    · exact ih b hfront
    · exact List.mem_singleton.mp hlast ▸ hexDigit_lt (Nat.mod_lt v (by omega))

theorem shownAs_ascii (b : UInt8) : shownAs b < 128 := by
  rw [shownAs]
  split
  · next hprintable => exact UInt8.lt_of_le_of_lt hprintable.2 (by decide)
  · decide

theorem lineText_ascii (sector : Mem) (n : ℕ) : ∀ b ∈ lineText sector n, b < 128 := by
  have hfixed (l : List UInt8) (h : l.all (· < 128)) : ∀ b ∈ l, b < 128 :=
    List.all_iff_forall_prop.mp h
  intro b hb
  simp only [lineText, hexPiece, List.mem_append, List.mem_flatMap] at hb
  rcases hb with ((((hb | hb) | ⟨i, -, hb | hb⟩) | hb) | ⟨i, -, hb⟩) | hb
  · exact hexText_ascii b hb
  · exact hfixed [58, 32] (by decide) b hb
  · exact hexText_ascii b hb
  · exact hfixed [32] (by decide) b hb
  · exact hfixed [32, 124] (by decide) b hb
  · exact List.mem_singleton.mp hb ▸ shownAs_ascii _
  · exact hfixed [124, 10] (by decide) b hb

theorem take_lineText (sector : Mem) (n : ℕ) : (lineText sector n).take 4 = hexText 4 (n * 16) := by
  simp only [lineText, List.append_assoc]
  exact List.take_left' (length_hexText 4 _)

/-- **A hexadecimal column** shows its byte. -/
theorem hexColumn_lineText (sector : Mem) (n : ℕ) {i : ℕ} (hi : i < 16) :
    hexColumn (lineText sector n) i = some (sector (n * 16 + i)) := by
  have hrest : (lineText sector n).drop 6 =
      (List.range 16).flatMap (fun i ↦ hexPiece (sector (n * 16 + i))) ++
        ([32, 124] ++ ((List.range 16).flatMap (fun i ↦ [shownAs (sector (n * 16 + i))]) ++
          [124, 10])) := by
    rw [lineText, List.append_assoc, List.append_assoc, List.append_assoc]
    exact List.drop_left' (length_offset _)
  have hbyte := hexNumber_hexText (k := 2) (sector (n * 16 + i)).toNat_lt
  rw [hexColumn, ← List.drop_drop, hrest,
    List.drop_append_of_le_length (by rw [length_hexPieces]; omega),
    drop_flatMap (fun i ↦ length_hexPiece (sector (n * 16 + i))),
    List.drop_eq_getElem_cons (by rw [List.length_range]; exact hi), List.flatMap_cons,
    List.getElem_range, hexPiece, List.append_assoc, List.append_assoc,
    List.take_left' (length_hexText 2 _), hbyte, Option.map_some, UInt8.ofNat_toNat]

/-- **A text column** shows its byte if it is printable, and a full stop if not. -/
theorem getElem?_lineText (sector : Mem) (n : ℕ) {i : ℕ} (hi : i < 16) :
    (lineText sector n)[56 + i]? = some (shownAs (sector (n * 16 + i))) := by
  have hfront : (hexText 4 (n * 16) ++ [58, 32] ++
      (List.range 16).flatMap (fun i ↦ hexPiece (sector (n * 16 + i))) ++
        [32, 124] : List UInt8).length = 56 := by
    rw [List.length_append, List.length_append, length_offset, length_hexPieces]
    rfl
  rw [lineText, List.append_assoc, List.getElem?_append_right (by omega), hfront,
    Nat.add_sub_cancel_left, List.getElem?_append_left (by rw [length_shown]; exact hi),
    ← List.map_eq_flatMap, List.getElem?_map, List.getElem?_range hi, Option.map_some]

/-! ## The dump -/

theorem dumpOutput_eq (sector : Mem) :
    dumpOutput ⟨sector, 512⟩ =
      .ok ((List.range 32).map fun n ↦ some (asciiText (lineText sector n))) := by
  refine List.mapM_eq_map fun n hn ↦ ?_
  rw [dumpLine_eq sector (List.mem_range.mp hn), Checked.ok_bind]
  dsimp only [placed]
  rw [List.take_left, fromUtf8_eq_some.mpr (bytesOf_asciiText (lineText_ascii sector n))]

/-- **The dump shows the sector**: every line is ASCII and printed, fits into its buffer and begins
with its offset, the hexadecimal columns together are the sector, and the text columns show its
printable bytes. -/
theorem dumpOutput_faithful (sector : Mem) :
    ∃ texts : List String, dumpOutput ⟨sector, 512⟩ = .ok (texts.map some) ∧ texts.length = 32 ∧
      (∀ text ∈ texts, (bytesOf text).length ≤ 80 ∧ ∀ b ∈ bytesOf text, b < 128) ∧
      (∀ n < 32, ∃ text, texts[n]? = some text ∧
        (bytesOf text).take 4 = hexText 4 (16 * n) ∧
        hexNumber ((bytesOf text).take 4) = some (16 * n) ∧
        ∀ i < 16, (bytesOf text)[56 + i]? =
          some (if 32 ≤ sector (16 * n + i) ∧ sector (16 * n + i) ≤ 126 then sector (16 * n + i)
            else 46)) ∧
      parseDump (texts.map bytesOf) = some ((List.range 512).map sector) := by
  have hbytes : ∀ n, bytesOf (asciiText (lineText sector n)) = lineText sector n :=
    fun n ↦ bytesOf_asciiText (lineText_ascii sector n)
  refine ⟨(List.range 32).map fun n ↦ asciiText (lineText sector n), ?_, ?_, ?_, ?_, ?_⟩
  · rw [dumpOutput_eq, List.map_map]
    rfl
  · rw [List.length_map, List.length_range]
  · intro text htext
    obtain ⟨n, -, rfl⟩ := List.mem_map.mp htext
    rw [hbytes, length_lineText]
    exact ⟨by omega, lineText_ascii sector n⟩
  · intro n hn
    refine ⟨asciiText (lineText sector n), ?_, ?_⟩
    · rw [List.getElem?_map, List.getElem?_range hn, Option.map_some]
    · rw [hbytes, take_lineText, mul_comm 16 n]
      exact ⟨rfl, hexNumber_hexText (by omega), fun i hi ↦ getElem?_lineText sector n hi⟩
  · have hlines : ((List.range 32).map fun n ↦ asciiText (lineText sector n)).map bytesOf =
        (List.range 32).map (lineText sector) := by
      rw [List.map_map]
      exact List.map_congr_left fun n _ ↦ hbytes n
    have hcolumns : ∀ n, hexColumns (lineText sector n) =
        some ((List.range 16).map fun i ↦ sector (n * 16 + i)) := by
      intro n
      exact List.mapM_eq_map fun i hi ↦ hexColumn_lineText sector n (List.mem_range.mp hi)
    have hrows := List.mapM_eq_map (l := List.range 32) fun n _ ↦ hcolumns n
    rw [hlines, parseDump, List.mapM_map]
    exact (congrArg (Option.map List.flatten) hrows).trans
      (congrArg some (flatten_map_range sector 32 16))

end RelizOS
