import RelizOS.Gui.WritePixel

/-!
# Text on the screen

The writer of the frame buffer draws a character in a cell of 8 by 8 pixels at its cursor, which it
then moves by 8 pixels. A character that would reach the right edge goes to the next line, 12 pixels
below; one that would come too near to the lower edge goes to the top, after the whole screen has
been cleared. Line feed, carriage return, backspace and form feed only move the cursor, or erase.

What one character does to the cursor and to the pixels is stated once (`writeChar_eq`), by
functions of the writer: `next` is where the cursor goes, and `drawn` which colour a pixel gets, if
it is drawn.

## What is left out

The lock around the global writer, `set_colors`, and the demo that draws with the writer.
-/

namespace RelizOS.Gui

/-! ## The writer -/

/-- `FrameBufferWriter`, with the text cursor and the colours. -/
structure TextWriter extends FrameBufferWriter where
  xPos : ℕ
  yPos : ℕ
  textColor : Color
  bgColor : Color

/-- `BASIC_FONTS`: the bitmap of a character, eight rows of eight bits. -/
abbrev Font := Char → Option (Vector UInt8 8)

namespace TextWriter

/-- The loops over the pixels of the screen. -/
def fill (writer : FrameBufferWriter) (color : Color) : Checked FrameBufferWriter :=
  (List.range writer.info.height).foldlM (fun (screen : FrameBufferWriter) y ↦
    (List.range writer.info.width).foldlM (fun (screen : FrameBufferWriter) x ↦
      screen.writePixel x y color) screen) writer

/-- `clear`. -/
def clear (w : TextWriter) : Checked TextWriter := do
  let writer ← fill w.toFrameBufferWriter w.bgColor
  return { w with toFrameBufferWriter := writer, xPos := 10, yPos := 10 }

/-- `new`. -/
def new (buffer : Slice UInt8) (info : FrameBufferInfo) : Checked TextWriter :=
  clear ⟨⟨buffer, info⟩, 10, 10, (255, 255, 255), (20, 20, 40)⟩

/-- `newline`. -/
def newline (w : TextWriter) : Checked TextWriter := do
  let yPos ← Checked.add 64 w.yPos 12
  return { w with xPos := 10, yPos := yPos }

/-- The loops over the pixels of a cell: `color` is the colour in a row and a column of it. -/
def drawCell (w : TextWriter) (color : ℕ → ℕ → Color) : Checked TextWriter := do
  let writer ← (List.range 8).foldlM (fun (writer : FrameBufferWriter) row ↦
    (List.range 8).foldlM (fun (writer : FrameBufferWriter) col ↦ do
      let px ← Checked.add 64 w.xPos col
      let py ← Checked.add 64 w.yPos row
      writer.writePixel px py (color row col)) writer) w.toFrameBufferWriter
  return { w with toFrameBufferWriter := writer }

/-- The colour in a row and a column of the cell of a character: its bitmap, or a solid box. -/
def glyphColor (font : Font) (w : TextWriter) (c : Char) (row col : ℕ) : Color :=
  match font c with
  | some fontChar =>
    if fontChar.toList.getD row 0 &&& (1 <<< UInt8.ofNat col) ≠ 0 then w.textColor else w.bgColor
  | none => w.textColor

/-- The test for the right edge. -/
def wrap (w : TextWriter) : Checked TextWriter := do
  if (← Checked.add 64 w.xPos 8) ≥ w.info.width then w.newline else return w

/-- The test for the lower edge. -/
def turnPage (w : TextWriter) : Checked TextWriter := do
  if (← Checked.add 64 w.yPos 16) ≥ w.info.height then w.clear else return w

/-- `write_char`. -/
def writeChar (font : Font) (w : TextWriter) (c : Char) : Checked TextWriter :=
  if c = '\n' then w.newline
  else if c = '\r' then return { w with xPos := 10 }
  else if c = '\x08' then
    if w.xPos > 10 then do
      let xPos ← Checked.sub w.xPos 8
      drawCell { w with xPos := xPos } fun _ _ ↦ w.bgColor
    else return w
  else if c = '\x0C' then w.clear
  else do
    let w ← w.wrap
    let w ← w.turnPage
    let w ← w.drawCell (glyphColor font w c)
    let xPos ← Checked.add 64 w.xPos 8
    return { w with xPos := xPos }

/-- `write_str`. -/
def writeStr (font : Font) (w : TextWriter) (s : List Char) : Checked TextWriter :=
  s.foldlM (writeChar font) w

/-! ## What a character does -/

/-- The pixel is in the cell of 8 by 8 pixels at a place. -/
def InCell (x y px py : ℕ) : Prop := (x ≤ px ∧ px < x + 8) ∧ y ≤ py ∧ py < y + 8

instance (x y px py : ℕ) : Decidable (InCell x y px py) := inferInstanceAs (Decidable (_ ∧ _))

/-- The cursor after the test for the right edge. -/
def wrapped (w : TextWriter) : ℕ × ℕ :=
  if w.xPos + 8 ≥ w.info.width then (10, w.yPos + 12) else (w.xPos, w.yPos)

/-- The next character would come too near to the lower edge. -/
def PageFull (w : TextWriter) : Prop := w.wrapped.2 + 16 ≥ w.info.height

instance (w : TextWriter) : Decidable w.PageFull := inferInstanceAs (Decidable (_ ≤ _))

/-- Where the next character is drawn. -/
def place (w : TextWriter) : ℕ × ℕ := if w.PageFull then (10, 10) else w.wrapped

/-- The cursor after a character. -/
def next (w : TextWriter) (c : Char) : ℕ × ℕ :=
  if c = '\n' then (10, w.yPos + 12)
  else if c = '\r' then (10, w.yPos)
  else if c = '\x08' then (if w.xPos > 10 then w.xPos - 8 else w.xPos, w.yPos)
  else if c = '\x0C' then (10, 10)
  else (w.place.1 + 8, w.place.2)

/-- What a character draws: the new colour of a pixel, if it gets one. -/
def drawn (font : Font) (w : TextWriter) (c : Char) (px py : ℕ) : Option Color :=
  if c = '\n' ∨ c = '\r' then none
  else if c = '\x08' then
    if w.xPos > 10 ∧ InCell (w.xPos - 8) w.yPos px py then some w.bgColor else none
  else if c = '\x0C' then some w.bgColor
  else if InCell w.place.1 w.place.2 px py then
    some (glyphColor font w c (py - w.place.2) (px - w.place.1))
  else if w.PageFull then some w.bgColor
  else none

end TextWriter

/-! ## Colours -/

/-- The pixel of a colour. -/
def pack (c : Color) : UInt32 :=
  UInt32.ofNat (c.1.toNat * 65536 + c.2.1.toNat * 256 + c.2.2.toNat)

theorem toNat_pack (c : Color) :
    (pack c).toNat = c.1.toNat * 65536 + c.2.1.toNat * 256 + c.2.2.toNat := by
  have hred := c.1.toNat_lt
  have hgreen := c.2.1.toNat_lt
  have hblue := c.2.2.toNat_lt
  rw [pack, UInt32.toNat_ofNat_of_lt']
  rw [UInt32.size]
  omega

theorem toNat_lowByte (p : UInt32) : (p &&& 0xFF).toUInt8.toNat = p.toNat % 256 := by
  have hmask : p.toNat &&& (0xFF : UInt32).toNat = p.toNat % 256 :=
    Nat.and_two_pow_sub_one_eq_mod p.toNat 8
  rw [UInt32.toNat_toUInt8, UInt32.toNat_and, hmask, Nat.mod_mod]

theorem channels_pack (c : Color) : channels (pack c) = c := by
  have hred := c.1.toNat_lt
  have hgreen := c.2.1.toNat_lt
  have hblue := c.2.2.toNat_lt
  have hr : red (pack c) = c.1 := by
    rw [← UInt8.toNat_inj, red, toNat_lowByte, UInt32.toNat_shiftRight, toNat_pack]
    change (_ >>> 16) % 256 = _
    rw [Nat.shiftRight_eq_div_pow]
    omega
  have hg : green (pack c) = c.2.1 := by
    rw [← UInt8.toNat_inj, green, toNat_lowByte, UInt32.toNat_shiftRight, toNat_pack]
    change (_ >>> 8) % 256 = _
    rw [Nat.shiftRight_eq_div_pow]
    omega
  have hb : blue (pack c) = c.2.2 := by
    rw [← UInt8.toNat_inj, blue, toNat_lowByte, toNat_pack]
    omega
  rw [channels, hr, hg, hb]

/-! ## Repainting -/

/-- What has become of the pixels of the screen: those in which `f` has a colour have it, the others
are as before. -/
structure Repainted (info : FrameBufferInfo) (f : ℕ → ℕ → Option Color)
    (buffer buffer' : Slice UInt8) : Prop where
  len : buffer'.len = buffer.len
  pixel : ∀ x < info.width, ∀ y < info.height, pixelAt info buffer' x y =
    (f x y).elim (pixelAt info buffer x y) fun c ↦ encode info.pixelFormat (pack c)

section

variable {info : FrameBufferInfo} {f g : ℕ → ℕ → Option Color}
  {buffer buffer₁ buffer₂ : Slice UInt8}

theorem Repainted.refl : Repainted info (fun _ _ ↦ none) buffer buffer := ⟨rfl, fun _ _ _ _ ↦ rfl⟩

theorem Repainted.trans (hf : Repainted info f buffer buffer₁)
    (hg : Repainted info g buffer₁ buffer₂) :
    Repainted info (fun x y ↦ (g x y).or (f x y)) buffer buffer₂ := by
  refine ⟨hg.len.trans hf.len, fun x hx y hy ↦ ?_⟩
  rw [hg.pixel x hx y hy, hf.pixel x hx y hy]
  cases g x y <;> rfl

theorem Repainted.congr (hf : Repainted info f buffer buffer₁)
    (h : ∀ x < info.width, ∀ y < info.height, g x y = f x y) :
    Repainted info g buffer buffer₁ :=
  ⟨hf.len, fun x hx y hy ↦ by rw [h x hx y hy]; exact hf.pixel x hx y hy⟩

variable {writer : FrameBufferWriter}

/-- **Writing pixels** gives them their colours, as far as they are on the screen. -/
theorem repainted_writePixels (hok : writer.info.Covered writer.buffer.len)
    (color : ℕ → ℕ → Color) (l : List (ℕ × ℕ)) :
    ∃ buffer', l.foldlM (fun (writer : FrameBufferWriter) p ↦
        writer.writePixel p.1 p.2 (color p.1 p.2)) writer = .ok { writer with buffer := buffer' } ∧
      Repainted writer.info (fun x y ↦ if (x, y) ∈ l then some (color x y) else none)
        writer.buffer buffer' := by
  have hloop := foldlM_writePixel hok (fun x y ↦ pack (color x y)) l
  simp only [channels_pack] at hloop
  refine ⟨_, hloop, ?_⟩
  obtain ⟨hlen, hpainted, hkept⟩ := painted_foldl_putPixel hok
    (l := l.filter fun p ↦ p.1 < writer.info.width ∧ p.2 < writer.info.height)
    (fun p hp ↦ by simpa using (List.mem_filter.mp hp).2) fun x y ↦ pack (color x y)
  refine ⟨hlen, fun x hx y hy ↦ ?_⟩
  by_cases hmem : (x, y) ∈ l
  · rw [if_pos hmem, hpainted x y hx hy (by simp [hmem, hx, hy])]
    rfl
  · rw [if_neg hmem, hkept x y hx hy (by simp [hmem])]
    rfl

end

/-! ## The loops -/

namespace TextWriter

section

variable {font : Font} {w : TextWriter}

theorem fill_eq {writer : FrameBufferWriter} (hok : writer.info.Covered writer.buffer.len)
    (color : Color) :
    ∃ buffer', fill writer color = .ok { writer with buffer := buffer' } ∧
      Repainted writer.info (fun _ _ ↦ some color) writer.buffer buffer' := by
  obtain ⟨buffer', hloop, hpixels⟩ := repainted_writePixels hok (fun _ _ ↦ color)
    (Grid.cells 0 0 writer.info.width writer.info.height)
  rw [← foldlM_cells] at hloop
  simp only [Nat.zero_add] at hloop
  refine ⟨buffer', hloop, hpixels.congr fun x hx y hy ↦ ?_⟩
  rw [if_pos (Grid.mem_cells.mpr (by dsimp only; omega))]

theorem clear_eq (hok : w.info.Covered w.buffer.len) :
    ∃ buffer', w.clear = .ok { w with buffer := buffer', xPos := 10, yPos := 10 } ∧
      Repainted w.info (fun _ _ ↦ some w.bgColor) w.buffer buffer' := by
  obtain ⟨buffer', hfill, hpixels⟩ := fill_eq hok w.bgColor
  refine ⟨buffer', ?_, hpixels⟩
  rw [clear, hfill]
  rfl

theorem drawCell_eq (hok : w.info.Covered w.buffer.len) (hx : w.xPos + 8 ≤ 2 ^ 64)
    (hy : w.yPos + 8 ≤ 2 ^ 64) (color : ℕ → ℕ → Color) :
    ∃ buffer', w.drawCell color = .ok { w with buffer := buffer' } ∧
      Repainted w.info (fun px py ↦ if InCell w.xPos w.yPos px py then
        some (color (py - w.yPos) (px - w.xPos)) else none) w.buffer buffer' := by
  obtain ⟨buffer', hloop, hpixels⟩ := repainted_writePixels hok
    (fun px py ↦ color (py - w.yPos) (px - w.xPos)) (Grid.cells w.xPos w.yPos 8 8)
  refine ⟨buffer', ?_, hpixels.congr fun px _ py _ ↦ ?_⟩
  · rw [← foldlM_cells] at hloop
    rw [drawCell, ← Checked.foldlM_congr (fun row hrow writer ↦
      Checked.foldlM_congr (fun col hcol writer ↦ ?_) writer), hloop]
    · rfl
    · rw [Checked.add_of_lt (by have := List.mem_range.mp hcol; omega), Checked.ok_bind,
        Checked.add_of_lt (by have := List.mem_range.mp hrow; omega), Checked.ok_bind,
        Nat.add_sub_cancel_left, Nat.add_sub_cancel_left]
  · have hmem : (px, py) ∈ Grid.cells w.xPos w.yPos 8 8 ↔ InCell w.xPos w.yPos px py :=
      Grid.mem_cells
    exact if_congr hmem.symm rfl rfl

/-- A character that is drawn. -/
def Printable (c : Char) : Prop := c ≠ '\n' ∧ c ≠ '\r' ∧ c ≠ '\x08' ∧ c ≠ '\x0C'

instance : DecidablePred Printable := fun _ ↦ inferInstanceAs (Decidable (_ ∧ _))

theorem char_cases (c : Char) :
    c = '\n' ∨ c = '\r' ∨ c = '\x08' ∨ c = '\x0C' ∨ Printable c := by
  simp only [or_iff_not_imp_left]
  exact fun hnewline hreturn hback hform ↦ ⟨hnewline, hreturn, hback, hform⟩

theorem next_newline : w.next '\n' = (10, w.yPos + 12) := rfl

theorem next_return : w.next '\r' = (10, w.yPos) := rfl

theorem next_backspace :
    w.next '\x08' = (if w.xPos > 10 then w.xPos - 8 else w.xPos, w.yPos) := rfl

theorem next_formFeed : w.next '\x0C' = (10, 10) := rfl

theorem drawn_newline (px py : ℕ) : w.drawn font '\n' px py = none := rfl

theorem drawn_return (px py : ℕ) : w.drawn font '\r' px py = none := rfl

theorem drawn_backspace (px py : ℕ) :
    w.drawn font '\x08' px py =
      if w.xPos > 10 ∧ InCell (w.xPos - 8) w.yPos px py then some w.bgColor else none := rfl

theorem drawn_formFeed (px py : ℕ) : w.drawn font '\x0C' px py = some w.bgColor := rfl

theorem next_of_printable {c : Char} (hc : Printable c) :
    w.next c = (w.place.1 + 8, w.place.2) := by
  rw [next, if_neg hc.1, if_neg hc.2.1, if_neg hc.2.2.1, if_neg hc.2.2.2]

theorem drawn_of_printable {c : Char} (hc : Printable c) (px py : ℕ) :
    w.drawn font c px py = if InCell w.place.1 w.place.2 px py then
        some (glyphColor font w c (py - w.place.2) (px - w.place.1))
      else if w.PageFull then some w.bgColor else none := by
  rw [drawn, if_neg (not_or.mpr ⟨hc.1, hc.2.1⟩), if_neg hc.2.2.1, if_neg hc.2.2.2]

theorem writeStr_singleton (font : Font) (w : TextWriter) (c : Char) :
    w.writeStr font [c] = w.writeChar font c := bind_pure _

theorem wrap_eq (hx : w.xPos + 8 < 2 ^ 64) (hy : w.yPos + 12 < 2 ^ 64) :
    w.wrap = .ok { w with xPos := w.wrapped.1, yPos := w.wrapped.2 } := by
  rw [wrap, Checked.add_of_lt hx, Checked.ok_bind, wrapped]
  by_cases hright : w.xPos + 8 ≥ w.info.width
  · rw [if_pos hright, if_pos hright, newline, Checked.add_of_lt hy]
    rfl
  · rw [if_neg hright, if_neg hright]
    rfl

theorem wrapped_le : w.wrapped.1 ≤ w.xPos + 10 ∧ w.wrapped.2 ≤ w.yPos + 12 := by
  rw [wrapped]
  split
  · exact ⟨Nat.le_add_left _ _, le_rfl⟩
  · exact ⟨Nat.le_add_right _ _, Nat.le_add_right _ _⟩

theorem place_le : w.place.1 ≤ w.xPos + 10 ∧ w.place.2 ≤ w.yPos + 12 := by
  have hwrapped := w.wrapped_le
  rw [place]
  split
  · exact ⟨Nat.le_add_left _ _, (show 10 ≤ 12 by decide).trans (Nat.le_add_left _ _)⟩
  · exact hwrapped

/-- Before a character is drawn, the cursor goes to its place. -/
theorem turnPage_eq (hok : w.info.Covered w.buffer.len) (hy : w.yPos + 28 < 2 ^ 64) :
    ∃ buffer', turnPage { w with xPos := w.wrapped.1, yPos := w.wrapped.2 } =
        .ok { w with buffer := buffer', xPos := w.place.1, yPos := w.place.2 } ∧
      Repainted w.info (fun _ _ ↦ if w.PageFull then some w.bgColor else none) w.buffer
        buffer' := by
  have hwrapped := w.wrapped_le.2
  rw [turnPage, Checked.add_of_lt (by dsimp only; omega), Checked.ok_bind, place]
  by_cases hfull : w.PageFull
  · obtain ⟨buffer', hclear, hpixels⟩ :=
      clear_eq (w := { w with xPos := w.wrapped.1, yPos := w.wrapped.2 }) hok
    refine ⟨buffer', ?_, hpixels.congr fun _ _ _ _ ↦ if_pos hfull⟩
    rw [if_pos hfull]
    exact (if_pos hfull).trans hclear
  · refine ⟨w.buffer, ?_, Repainted.refl.congr fun _ _ _ _ ↦ if_neg hfull⟩
    rw [if_neg hfull]
    exact if_neg hfull

/-- **A character that is drawn.** -/
theorem writeChar_printable (font : Font) (hok : w.info.Covered w.buffer.len)
    (hx : w.xPos + 32 ≤ 2 ^ 64) (hy : w.yPos + 32 ≤ 2 ^ 64) {c : Char} (hc : Printable c) :
    ∃ buffer', writeChar font w c =
        .ok { w with buffer := buffer', xPos := w.place.1 + 8, yPos := w.place.2 } ∧
      Repainted w.info (w.drawn font c) w.buffer buffer' := by
  obtain ⟨buffer₁, hturn, hcleared⟩ := turnPage_eq hok (by omega)
  have hplace := w.place_le
  obtain ⟨buffer₂, hcell, hpixels⟩ :=
    drawCell_eq (w := { w with buffer := buffer₁, xPos := w.place.1, yPos := w.place.2 })
      (hcleared.len ▸ hok) (by dsimp only; omega) (by dsimp only; omega) (glyphColor font w c)
  refine ⟨buffer₂, ?_, (hcleared.trans hpixels).congr fun px _ py _ ↦ ?_⟩
  · rw [writeChar, if_neg hc.1, if_neg hc.2.1, if_neg hc.2.2.1, if_neg hc.2.2.2,
      wrap_eq (by omega) (by omega), Checked.ok_bind, hturn, Checked.ok_bind]
    have hcolor : glyphColor font { w with
        buffer := buffer₁, xPos := w.place.1, yPos := w.place.2 } c = glyphColor font w c := rfl
    rw [hcolor, hcell, Checked.ok_bind, Checked.add_of_lt (by dsimp only; omega)]
    rfl
  · rw [drawn_of_printable hc]
    split
    · rfl
    · rfl

/-- **One character**: the cursor goes to `next`, and the pixels in `drawn` are drawn. -/
theorem writeChar_eq (font : Font) (hok : w.info.Covered w.buffer.len) (hx : w.xPos + 32 ≤ 2 ^ 64)
    (hy : w.yPos + 32 ≤ 2 ^ 64) (c : Char) :
    ∃ buffer', writeChar font w c =
        .ok { w with buffer := buffer', xPos := (w.next c).1, yPos := (w.next c).2 } ∧
      Repainted w.info (w.drawn font c) w.buffer buffer' := by
  obtain rfl | rfl | rfl | rfl | hc := char_cases c
  · refine ⟨w.buffer, ?_, Repainted.refl.congr fun px _ py _ ↦ drawn_newline px py⟩
    rw [writeChar, if_pos rfl, newline, Checked.add_of_lt (by omega)]
    rfl
  · exact ⟨w.buffer, rfl, Repainted.refl.congr fun px _ py _ ↦ drawn_return px py⟩
  · rw [writeChar, if_neg (by decide), if_neg (by decide), if_pos rfl, next_backspace]
    by_cases hleft : w.xPos > 10
    · obtain ⟨buffer', hcell, hpixels⟩ := drawCell_eq (w := { w with xPos := w.xPos - 8 }) hok
        (by dsimp only; omega) (by dsimp only; omega) fun _ _ ↦ w.bgColor
      rw [if_pos hleft, if_pos hleft, Checked.sub_of_le (by omega), Checked.ok_bind]
      refine ⟨buffer', hcell, hpixels.congr fun px _ py _ ↦ ?_⟩
      rw [drawn_backspace]
      simp only [hleft, true_and]
    · rw [if_neg hleft, if_neg hleft]
      refine ⟨w.buffer, rfl, Repainted.refl.congr fun px _ py _ ↦ ?_⟩
      rw [drawn_backspace, if_neg fun h ↦ hleft h.1]
  · obtain ⟨buffer', hclear, hpixels⟩ := clear_eq hok
    exact ⟨buffer', hclear, hpixels.congr fun px _ py _ ↦ drawn_formFeed px py⟩
  · rw [next_of_printable hc]
    exact writeChar_printable font hok hx hy hc

end

end TextWriter

end RelizOS.Gui
