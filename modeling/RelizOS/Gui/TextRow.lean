import RelizOS.Gui.TextCells

/-!
# A line of text

What stands in the line of the cursor can be read off its cells: each shows a character of a text,
in the bitmap of the font, or the background. As long as the line has room, a character that is
written is appended to the text, and a backspace removes the last one (`Line`). A line begins where
the cursor is at the left of a blank line, or so low that the screen is cleared first (`BlankLine`).
After a line feed that is so, because nothing is ever drawn below the line of the cursor
(`writeFresh_blankLine`).
-/

namespace RelizOS.Gui.TextWriter

/-- The colour in a row and a column of a cell with a character or none. -/
def cellColor (font : Font) (w : TextWriter) (shown : Option Char) (row col : ℕ) : Color :=
  shown.elim w.bgColor fun c ↦ glyphColor font w c row col

/-- The cells of the cursor's line show a text, and the background after it. -/
def ShowsLine (font : Font) (w : TextWriter) (text : List Char) : Prop :=
  ∀ k, 10 + 8 * k + 8 ≤ w.info.width → ∀ row < 8, ∀ col < 8,
    pixelAt w.info w.buffer (10 + 8 * k + col) (w.yPos + row) =
      encode w.info.pixelFormat (pack (cellColor font w text[k]? row col))

/-- A text stands in the cursor's line, and the cursor after it. -/
structure Line (font : Font) (w : TextWriter) (text : List Char) : Prop where
  covered : w.info.Covered w.buffer.len
  column : w.xPos = 10 + 8 * text.length
  x_le : w.xPos ≤ w.info.width
  room : w.yPos + 16 < w.info.height
  shows : ShowsLine font w text

/-- The cursor is at the left of a blank line, or too low: then there is a blank line at the top,
once the screen has been cleared. -/
structure BlankLine (font : Font) (w : TextWriter) : Prop where
  covered : w.info.Covered w.buffer.len
  column : w.xPos = 10
  wide : 18 < w.info.width
  blank : w.yPos + 16 < w.info.height → ShowsLine font w []
  cleared : w.info.height ≤ w.yPos + 16 → w.yPos + 32 ≤ 2 ^ 64 ∧ 26 < w.info.height

section

variable {font : Font} {w : TextWriter} {buffer' : Slice UInt8} {c : Char} {text : List Char}

theorem wrapped_of_lt (hfit : w.xPos + 8 < w.info.width) : w.wrapped = (w.xPos, w.yPos) :=
  if_neg (not_le.mpr hfit)

theorem pageFull_iff (hfit : w.xPos + 8 < w.info.width) :
    w.PageFull ↔ w.info.height ≤ w.yPos + 16 := by
  rw [PageFull, wrapped_of_lt hfit]

theorem place_of_lt (hfit : w.xPos + 8 < w.info.width) (hroom : w.yPos + 16 < w.info.height) :
    w.place = (w.xPos, w.yPos) := by
  rw [place, if_neg (mt (pageFull_iff hfit).mp (not_le.mpr hroom)), wrapped_of_lt hfit]

/-! ## One cell -/

theorem inCell_iff {n k y row col : ℕ} (hrow : row < 8) (hcol : col < 8) :
    InCell (10 + 8 * n) y (10 + 8 * k + col) (y + row) ↔ k = n := by
  rw [InCell]
  omega

/-- **One cell of the line** is drawn: it shows another character, or none. -/
theorem ShowsLine.drawCell (h : ShowsLine font w text) (hroom : w.yPos + 16 < w.info.height)
    {f : ℕ → ℕ → Option Color} (hpixels : Repainted w.info f w.buffer buffer') {n : ℕ}
    {text' : List Char} (htext : ∀ k ≠ n, text'[k]? = text[k]?)
    (hf : ∀ px py, f px py = if InCell (10 + 8 * n) w.yPos px py then
      some (cellColor font w text'[n]? (py - w.yPos) (px - (10 + 8 * n))) else none) (x : ℕ) :
    ShowsLine font { w with buffer := buffer', xPos := x } text' := by
  intro k hk row hrow col hcol
  dsimp only at hk ⊢
  rw [hpixels.pixel _ (by omega) _ (by omega), hf]
  by_cases hcell : k = n
  · rw [if_pos ((inCell_iff hrow hcol).mpr hcell), hcell, Nat.add_sub_cancel_left,
      Nat.add_sub_cancel_left]
    rfl
  · rw [if_neg (mt (inCell_iff hrow hcol).mp hcell), htext k hcell]
    exact h k hk row hrow col hcol

theorem getElem?_concat_of_ne {k : ℕ} (hk : k ≠ text.length) : (text ++ [c])[k]? = text[k]? := by
  rw [List.getElem?_append]
  split
  · rfl
  · next hlt =>
    rw [List.getElem?_eq_none (show [c].length ≤ _ by rw [List.length_singleton]; omega),
      List.getElem?_eq_none (not_lt.mp hlt)]

theorem Line.bounds (h : Line font w text) : w.xPos + 32 ≤ 2 ^ 64 ∧ w.yPos + 32 ≤ 2 ^ 64 := by
  have hcolumn := h.column
  have hright := h.x_le
  have hroom := h.room
  obtain ⟨hwidth, hheight⟩ := h.covered.sides_lt (by omega) (by omega)
  omega

/-- **A character** is appended. -/
theorem Line.writeChar (h : Line font w text) (hfit : w.xPos + 8 < w.info.width)
    (hc : Printable c) :
    ∃ buffer', TextWriter.writeChar font w c =
        .ok { w with buffer := buffer', xPos := w.xPos + 8 } ∧
      Line font { w with buffer := buffer', xPos := w.xPos + 8 } (text ++ [c]) := by
  obtain ⟨hx, hy⟩ := h.bounds
  have hplace := place_of_lt hfit h.room
  have hpage := mt (pageFull_iff hfit).mp (not_le.mpr h.room)
  obtain ⟨buffer', hok, hpixels⟩ := writeChar_printable font h.covered hx hy hc
  rw [hplace] at hok
  refine ⟨buffer', hok, ⟨hpixels.len ▸ h.covered, ?_, hfit.le, h.room, ?_⟩⟩
  · have hcolumn := h.column
    rw [List.length_append, List.length_singleton]
    dsimp only
    omega
  · refine h.shows.drawCell h.room hpixels (fun k hk ↦ getElem?_concat_of_ne hk) (fun px py ↦ ?_) _
    rw [drawn_of_printable hc, hplace, if_neg hpage, h.column, List.getElem?_concat_length]
    rfl

/-- **A backspace** removes the last character. -/
theorem Line.erase (h : Line font w (text ++ [c])) :
    ∃ buffer', TextWriter.writeChar font w '\x08' =
        .ok { w with buffer := buffer', xPos := w.xPos - 8 } ∧
      Line font { w with buffer := buffer', xPos := w.xPos - 8 } text := by
  obtain ⟨hx, hy⟩ := h.bounds
  have hcolumn := h.column
  have hright := h.x_le
  rw [List.length_append, List.length_singleton] at hcolumn
  have hleft : w.xPos > 10 := by omega
  have hcell : w.xPos - 8 = 10 + 8 * text.length := by omega
  have hnext : w.next '\x08' = (w.xPos - 8, w.yPos) := by
    rw [next_backspace, if_pos hleft]
  obtain ⟨buffer', hok, hpixels⟩ := writeChar_eq font h.covered hx hy '\x08'
  rw [hnext] at hok
  refine ⟨buffer', hok, ⟨hpixels.len ▸ h.covered, hcell, by dsimp only; omega, h.room, ?_⟩⟩
  refine h.shows.drawCell h.room hpixels (fun k hk ↦ (getElem?_concat_of_ne hk).symm)
    (fun px py ↦ ?_) _
  rw [drawn_backspace, List.getElem?_eq_none le_rfl, ← hcell]
  simp only [hleft, true_and]
  rfl

/-- **A text** that has room is appended. -/
theorem Line.writeStr (h : Line font w text) {s : List Char} (hs : ∀ c ∈ s, Printable c)
    (hfit : 10 + 8 * (text.length + s.length) < w.info.width) :
    ∃ buffer', TextWriter.writeStr font w s =
        .ok { w with buffer := buffer', xPos := w.xPos + 8 * s.length } ∧
      Line font { w with buffer := buffer', xPos := w.xPos + 8 * s.length } (text ++ s) := by
  induction s generalizing w text with
  | nil => exact ⟨w.buffer, rfl, (List.append_nil text).symm ▸ h⟩
  | cons c s ih =>
    have hcolumn := h.column
    rw [List.length_cons] at hfit
    obtain ⟨buffer₁, hok, h₁⟩ := h.writeChar (by omega) (hs c List.mem_cons_self)
    obtain ⟨buffer₂, hok', h₂⟩ := ih h₁ (fun d hd ↦ hs d (List.mem_cons_of_mem c hd)) (by
      rw [List.length_append, List.length_singleton]
      dsimp only
      omega)
    have hx : w.xPos + 8 + 8 * s.length = w.xPos + 8 * (c :: s).length := by
      rw [List.length_cons]
      omega
    rw [← hx, List.append_cons]
    refine ⟨buffer₂, ?_, h₂⟩
    rw [TextWriter.writeStr, List.foldlM_cons, hok]
    exact hok'

/-! ## The first character -/

/-- **The first character** of a line. -/
theorem BlankLine.writeChar (h : BlankLine font w) (hc : Printable c) :
    ∃ buffer' y, TextWriter.writeChar font w c =
        .ok { w with buffer := buffer', xPos := 18, yPos := y } ∧
      Line font { w with buffer := buffer', xPos := 18, yPos := y } [c] := by
  have hwide := h.wide
  have hfit : w.xPos + 8 < w.info.width := by rw [h.column]; exact hwide
  by_cases hroom : w.yPos + 16 < w.info.height
  · have hline : Line font w [] :=
      ⟨h.covered, h.column, by omega, hroom, h.blank hroom⟩
    obtain ⟨buffer', hok, h'⟩ := hline.writeChar hfit hc
    rw [h.column] at hok h'
    exact ⟨buffer', w.yPos, hok, h'⟩
  · obtain ⟨hy, htall⟩ := h.cleared (not_lt.mp hroom)
    have hpage := (pageFull_iff hfit).mpr (not_lt.mp hroom)
    have hplace : w.place = (10, 10) := if_pos hpage
    obtain ⟨buffer', hok, hpixels⟩ :=
      writeChar_printable font h.covered (by rw [h.column]; decide) hy hc
    rw [hplace] at hok
    refine ⟨buffer', 10, hok, ⟨hpixels.len ▸ h.covered, rfl, hwide.le, htall, ?_⟩⟩
    intro k hk row hrow col hcol
    dsimp only at hk ⊢
    rw [hpixels.pixel _ (by omega) _ (by omega), drawn_of_printable hc, hplace]
    dsimp only
    by_cases hcell : k = 0
    · rw [if_pos ((inCell_iff (n := 0) hrow hcol).mpr hcell), hcell, Nat.add_sub_cancel_left,
        Nat.add_sub_cancel_left]
      rfl
    · rw [if_neg (mt (inCell_iff (n := 0) hrow hcol).mp hcell), if_pos hpage,
        List.getElem?_eq_none (Nat.pos_of_ne_zero hcell)]
      rfl

/-! ## Lines of a fresh writer -/

/-- Below the cursor's line there is nothing but background. -/
def BlankBelow (w : TextWriter) : Prop :=
  ∀ x < w.info.width, ∀ y < w.info.height, w.yPos + 8 ≤ y →
    pixelAt w.info w.buffer x y = encode w.info.pixelFormat (pack w.bgColor)

/-- What a character draws below the line that the cursor goes to is background, or was there. -/
theorem drawn_below (font : Font) (w : TextWriter) (c : Char) {x y : ℕ}
    (hy : (w.next c).2 + 8 ≤ y) :
    w.drawn font c x y = some w.bgColor ∨ (w.drawn font c x y = none ∧ w.yPos + 8 ≤ y) := by
  obtain rfl | rfl | rfl | rfl | hc := char_cases c
  · rw [next_newline] at hy
    exact Or.inr ⟨drawn_newline x y, by dsimp only at hy; omega⟩
  · exact Or.inr ⟨drawn_return x y, hy⟩
  · refine Or.inr ⟨?_, hy⟩
    rw [drawn_backspace, if_neg]
    rintro ⟨-, -, -, hcell⟩
    exact absurd hy (not_le.mpr hcell)
  · exact Or.inl (drawn_formFeed x y)
  · rw [next_of_printable hc] at hy
    have hcell : ¬InCell w.place.1 w.place.2 x y := fun h ↦ absurd hy (not_le.mpr h.2.2)
    rw [drawn_of_printable hc, if_neg hcell]
    by_cases hpage : w.PageFull
    · exact Or.inl (if_pos hpage)
    · refine Or.inr ⟨if_neg hpage, le_trans ?_ hy⟩
      rw [place, if_neg hpage, wrapped]
      split
      · exact Nat.add_le_add_right (Nat.le_add_right _ _) 8
      · exact le_rfl

variable {w' : TextWriter} {lines : ℕ} {s : List Char} {buffer : Slice UInt8}
  {info : FrameBufferInfo}

theorem BlankBelow.writeChar (h : BlankBelow w)
    (hpixels : Repainted w.info (w.drawn font c) w.buffer buffer') :
    BlankBelow { w with buffer := buffer', xPos := (w.next c).1, yPos := (w.next c).2 } := by
  intro x hx y hy hbelow
  rw [hpixels.pixel x hx y hy]
  obtain hdrawn | ⟨hdrawn, hold⟩ := drawn_below font w c hbelow
  · rw [hdrawn]
    rfl
  · rw [hdrawn]
    exact h x hx y hy hold

/-- **What is below the cursor stays blank**, whatever is written. -/
theorem BlankBelow.writeStr (h : BlankBelow w) (hw : w.Writing lines)
    (hlines : lines + s.count '\n' < 2 ^ 59) (hok : TextWriter.writeStr font w s = .ok w') :
    BlankBelow w' := by
  induction s generalizing w lines with
  | nil =>
    cases hok
    exact h
  | cons c s ih =>
    rw [count_newline_cons, ← Nat.add_assoc] at hlines
    obtain ⟨buffer₁, hok₁, hpixels, hw₁⟩ := hw.writeChar font (by omega) c
    rw [TextWriter.writeStr, List.foldlM_cons, hok₁] at hok
    exact ih (h.writeChar hpixels) hw₁ hlines hok

theorem new_blankBelow (hscreen : TextScreen info buffer.len) (hok : new buffer info = .ok w) :
    BlankBelow w := by
  obtain ⟨buffer', hclear, hpixels⟩ :=
    clear_eq (w := ⟨⟨buffer, info⟩, 10, 10, (255, 255, 255), (20, 20, 40)⟩) hscreen.toCovered
  obtain rfl := Except.ok.inj (hclear.symm.trans hok)
  intro x hx y hy _
  rw [hpixels.pixel x hx y hy]
  rfl

theorem BlankBelow.blankLine (h : BlankBelow w) (hw : w.Writing lines) (hlines : lines < 2 ^ 59) :
    BlankLine font { w with xPos := 10, yPos := w.yPos + 12 } := by
  obtain ⟨-, hy⟩ := hw.bounds hlines
  refine ⟨hw.screen.toCovered, rfl, hw.screen.wide, fun hroom k hk row hrow col hcol ↦ ?_,
    fun _ ↦ ⟨by dsimp only; omega, hw.screen.tall⟩⟩
  dsimp only at hroom hk
  exact h _ (by omega) _ (by dsimp only; omega) (by dsimp only; omega)

/-- **After a line feed** the cursor is at the left of a blank line, whatever was written before. -/
theorem writeFresh_blankLine (hscreen : TextScreen info buffer.len)
    (hlines : (s ++ ['\n']).count '\n' < 2 ^ 59)
    (hok : writeFresh font buffer info (s ++ ['\n']) = .ok w) : w.BlankLine font := by
  have hcount : (s ++ ['\n']).count '\n' = s.count '\n' + 1 := by
    rw [List.count_append, List.count_singleton_self]
  obtain ⟨w₀, hnew, h₀, -⟩ := new_writing hscreen
  obtain ⟨buffer', x, y, hok₁, h₁⟩ := h₀.writeStr font (s := s) (by omega)
  have hblank := (new_blankBelow hscreen hnew).writeStr h₀ (by omega) hok₁
  obtain ⟨-, hy⟩ := h₁.bounds (by omega)
  rw [writeFresh_append, writeFresh, hnew, Checked.ok_bind, hok₁, Checked.ok_bind,
    writeStr_singleton, TextWriter.writeChar, if_pos rfl, newline,
    Checked.add_of_lt (by omega)] at hok
  obtain rfl := Except.ok.inj hok
  exact hblank.blankLine h₁ (by omega)

end

end RelizOS.Gui.TextWriter
