import RelizOS.Gui.TextWriter

/-!
# Cells of text

On a screen with room for one character, the writer keeps its cursor in a column of cells and to the
left of the right edge, whatever is written. Its row is not bounded by the screen: line feeds may
take it below the lower edge, and nothing looks until the next character that is drawn. Then the
cursor goes to a cell that is on the screen (`Writing.place_lt`).

Between two characters the cursor moves to the right or down, unless the screen is cleared, or a
backspace or a carriage return takes it back; so their cells do not overlap (`Beyond`).
-/

namespace RelizOS.Gui

/-- A screen with room for a character in the first line. -/
structure TextScreen (info : FrameBufferInfo) (len : ℕ) : Prop extends info.Covered len where
  wide : 18 < info.width
  tall : 26 < info.height

namespace TextWriter

/-- What holds of the writer after some characters, among them `lines` line feeds. -/
structure Writing (w : TextWriter) (lines : ℕ) : Prop where
  screen : TextScreen w.info w.buffer.len
  column : ∃ k, w.xPos = 10 + 8 * k
  x_lt : w.xPos < w.info.width
  y_le : w.yPos ≤ w.info.height + 12 * lines

section

variable {font : Font} {w w' : TextWriter} {c : Char} {lines : ℕ}

/-- **A character is drawn in a cell on the screen.** -/
theorem Writing.place_lt (h : w.Writing lines) :
    (∃ k, w.place.1 = 10 + 8 * k) ∧ w.place.1 + 8 < w.info.width ∧
      w.place.2 + 16 < w.info.height := by
  rw [place]
  by_cases hfull : w.PageFull
  · rw [if_pos hfull]
    exact ⟨⟨0, rfl⟩, h.screen.wide, h.screen.tall⟩
  · rw [if_neg hfull]
    refine ⟨?_, ?_, not_le.mp hfull⟩
    · rw [wrapped]
      split
      · exact ⟨0, rfl⟩
      · exact h.column
    · rw [wrapped]
      split
      · exact h.screen.wide
      · next hright => exact not_le.mp hright

/-- The cursor stays in a column of cells, and on the screen as far as columns go. -/
theorem Writing.next_lt (h : w.Writing lines) (c : Char) :
    (∃ k, (w.next c).1 = 10 + 8 * k) ∧ (w.next c).1 < w.info.width ∧
      (w.next c).2 ≤ w.info.height + 12 * (lines + [c].count '\n') := by
  have hwide := h.screen.wide
  have htall := h.screen.tall
  have hx := h.x_lt
  have hy := h.y_le
  obtain rfl | rfl | rfl | rfl | hc := char_cases c
  · rw [next_newline, List.count_singleton_self]
    exact ⟨⟨0, rfl⟩, by dsimp only; omega, by dsimp only; omega⟩
  · rw [next_return]
    exact ⟨⟨0, rfl⟩, by dsimp only; omega, by dsimp only; omega⟩
  · rw [next_backspace]
    obtain ⟨k, hk⟩ := h.column
    by_cases hleft : w.xPos > 10
    · rw [if_pos hleft]
      exact ⟨⟨k - 1, by dsimp only; omega⟩, by dsimp only; omega, by dsimp only; omega⟩
    · rw [if_neg hleft]
      exact ⟨⟨k, hk⟩, hx, by dsimp only; omega⟩
  · rw [next_formFeed]
    exact ⟨⟨0, rfl⟩, by dsimp only; omega, by dsimp only; omega⟩
  · obtain ⟨⟨k, hk⟩, hright, hbelow⟩ := h.place_lt
    rw [next_of_printable hc]
    exact ⟨⟨k + 1, by dsimp only; omega⟩, hright, by dsimp only; omega⟩

/-- The cursor is a pair of machine words, with room for the sums of `write_char`. -/
theorem Writing.bounds (h : w.Writing lines) (hlines : lines < 2 ^ 59) :
    w.xPos + 32 ≤ 2 ^ 64 ∧ w.yPos + 64 ≤ 2 ^ 64 := by
  have hwide := h.screen.wide
  have htall := h.screen.tall
  obtain ⟨hwidth, hheight⟩ := h.screen.sides_lt (by omega) (by omega)
  have hx := h.x_lt
  have hy := h.y_le
  omega

/-- **One character** keeps all this. -/
theorem Writing.writeChar (font : Font) (h : w.Writing lines) (hlines : lines < 2 ^ 59) (c : Char) :
    ∃ buffer', TextWriter.writeChar font w c =
        .ok { w with buffer := buffer', xPos := (w.next c).1, yPos := (w.next c).2 } ∧
      Repainted w.info (w.drawn font c) w.buffer buffer' ∧
      Writing { w with buffer := buffer', xPos := (w.next c).1, yPos := (w.next c).2 }
        (lines + [c].count '\n') := by
  obtain ⟨hx, hy⟩ := h.bounds hlines
  obtain ⟨buffer', hok, hpixels⟩ := writeChar_eq font h.screen.toCovered hx (by omega) c
  obtain ⟨hcolumn, hright, hbelow⟩ := h.next_lt c
  exact ⟨buffer', hok, hpixels, ⟨hpixels.len ▸ h.screen, hcolumn, hright, hbelow⟩⟩

theorem count_newline_cons (c : Char) (s : List Char) :
    (c :: s).count '\n' = [c].count '\n' + s.count '\n' := by
  rw [← List.count_append, List.singleton_append]

/-- **A string** keeps it. -/
theorem Writing.writeStr (font : Font) (h : w.Writing lines) {s : List Char}
    (hlines : lines + s.count '\n' < 2 ^ 59) :
    ∃ buffer' x y, TextWriter.writeStr font w s =
        .ok { w with buffer := buffer', xPos := x, yPos := y } ∧
      Writing { w with buffer := buffer', xPos := x, yPos := y } (lines + s.count '\n') := by
  induction s generalizing w lines with
  | nil => exact ⟨w.buffer, w.xPos, w.yPos, rfl, h⟩
  | cons c s ih =>
    rw [count_newline_cons, ← Nat.add_assoc] at hlines ⊢
    obtain ⟨buffer₁, hok, -, h₁⟩ := h.writeChar font (by omega) c
    obtain ⟨buffer₂, x, y, hok', h₂⟩ := ih h₁ hlines
    refine ⟨buffer₂, x, y, ?_, h₂⟩
    rw [TextWriter.writeStr, List.foldlM_cons, hok]
    exact hok'

/-! ## Cells do not overlap -/

/-- Writing the character clears the screen. -/
def Clears (w : TextWriter) (c : Char) : Prop := c = '\x0C' ∨ Printable c ∧ w.PageFull

/-- The screen is not cleared while these characters are written. -/
def Uncleared (font : Font) : TextWriter → List Char → Prop
  | _, [] => True
  | w, c :: s => ¬w.Clears c ∧ ∀ w', TextWriter.writeChar font w c = .ok w' → Uncleared font w' s

theorem Uncleared.of_append {s : List Char} (h : Uncleared font w (s ++ [c])) :
    Uncleared font w s ∧ ∀ w', TextWriter.writeStr font w s = .ok w' → ¬w'.Clears c := by
  induction s generalizing w with
  | nil =>
    refine ⟨trivial, fun w' hok ↦ ?_⟩
    cases hok
    exact h.1
  | cons d s ih =>
    refine ⟨⟨h.1, fun w' hok ↦ (ih (h.2 w' hok)).1⟩, fun w' hok ↦ ?_⟩
    rw [TextWriter.writeStr, List.foldlM_cons] at hok
    obtain ⟨w₁, hok₁, hok₂⟩ := Checked.bind_eq_ok.mp hok
    exact (ih (h.2 w₁ hok₁)).2 w' hok₂

/-- A place to the right of a cell in its line, or in a line below. -/
def Beyond (x y : ℕ) (p : ℕ × ℕ) : Prop := (p.2 = y ∧ x + 8 ≤ p.1) ∨ y + 12 ≤ p.2

variable {x y : ℕ}

theorem Beyond.not_inCell {p : ℕ × ℕ} (h : Beyond x y p) {px py : ℕ}
    (hcell : InCell x y px py) : ¬InCell p.1 p.2 px py := by
  rintro ⟨⟨hleft, -⟩, habove, -⟩
  obtain ⟨⟨-, hright⟩, -, hbelow⟩ := hcell
  obtain ⟨-, hbeyond⟩ | hbeyond := h <;> omega

theorem Beyond.le {p : ℕ × ℕ} (h : Beyond x y p) : y ≤ p.2 := by
  obtain ⟨hline, -⟩ | hbelow := h
  · exact hline.ge
  · exact (Nat.le_add_right y 12).trans hbelow

theorem Beyond.place (h : Beyond x y (w.xPos, w.yPos)) (hpage : ¬w.PageFull) :
    Beyond x y w.place := by
  rw [TextWriter.place, if_neg hpage, wrapped]
  split
  · exact Or.inr (Nat.add_le_add_right h.le 12)
  · exact h

/-- **One character** keeps the cursor beyond a cell, if it does not clear the screen nor take the
cursor back. -/
theorem Beyond.next (h : Beyond x y (w.xPos, w.yPos)) (hback : c ≠ '\x08') (hreturn : c ≠ '\r')
    (hclear : ¬w.Clears c) : Beyond x y (w.next c) := by
  by_cases hnewline : c = '\n'
  · rw [TextWriter.next, if_pos hnewline]
    exact Or.inr (Nat.add_le_add_right h.le 12)
  · have hc : Printable c := ⟨hnewline, hreturn, hback, fun hform ↦ hclear (Or.inl hform)⟩
    rw [next_of_printable hc]
    refine (h.place fun hpage ↦ hclear (Or.inr ⟨hc, hpage⟩)).imp (And.imp_right ?_) id
    exact fun hright ↦ hright.trans (Nat.le_add_right _ 8)

theorem Beyond.writeStr (hw : w.Writing lines) {s : List Char}
    (hlines : lines + s.count '\n' < 2 ^ 59) (h : Beyond x y (w.xPos, w.yPos))
    (hback : '\x08' ∉ s) (hreturn : '\r' ∉ s) (hclear : Uncleared font w s)
    (hok : TextWriter.writeStr font w s = .ok w') : Beyond x y (w'.xPos, w'.yPos) := by
  induction s generalizing w lines with
  | nil =>
    cases hok
    exact h
  | cons c s ih =>
    rw [count_newline_cons, ← Nat.add_assoc] at hlines
    obtain ⟨buffer₁, hok₁, -, hw₁⟩ := hw.writeChar font (by omega) c
    rw [TextWriter.writeStr, List.foldlM_cons, hok₁] at hok
    refine ih hw₁ hlines (h.next ?_ ?_ hclear.1) (List.not_mem_of_not_mem_cons hback)
      (List.not_mem_of_not_mem_cons hreturn) (hclear.2 _ hok₁) hok
    · exact (List.ne_of_not_mem_cons hback).symm
    · exact (List.ne_of_not_mem_cons hreturn).symm

/-! ## A string from a fresh writer -/

/-- A fresh writer writes a string. -/
def writeFresh (font : Font) (buffer : Slice UInt8) (info : FrameBufferInfo) (s : List Char) :
    Checked TextWriter := do
  writeStr font (← new buffer info) s

variable {buffer : Slice UInt8} {info : FrameBufferInfo} {s : List Char}

theorem new_writing (hscreen : TextScreen info buffer.len) :
    ∃ w, new buffer info = .ok w ∧ w.Writing 0 ∧ w.info = info := by
  obtain ⟨buffer', hclear, hpixels⟩ :=
    clear_eq (w := ⟨⟨buffer, info⟩, 10, 10, (255, 255, 255), (20, 20, 40)⟩) hscreen.toCovered
  refine ⟨_, hclear, ⟨hpixels.len ▸ hscreen, ⟨0, rfl⟩, ?_, ?_⟩, rfl⟩
  · exact (show 10 < 18 by decide).trans hscreen.wide
  · exact (show 10 ≤ 26 by decide).trans hscreen.tall.le

/-- **No check fails**, and the cursor is in a column of cells. -/
theorem writeFresh_writing (font : Font) (hscreen : TextScreen info buffer.len)
    (hlines : s.count '\n' < 2 ^ 59) :
    ∃ w, writeFresh font buffer info s = .ok w ∧ w.Writing (s.count '\n') ∧ w.info = info := by
  obtain ⟨w₀, hnew, h₀, hinfo⟩ := new_writing hscreen
  obtain ⟨buffer', x, y, hok, h⟩ := h₀.writeStr font (s := s) (by omega)
  refine ⟨{ w₀ with buffer := buffer', xPos := x, yPos := y }, ?_, ?_, hinfo⟩
  · rw [writeFresh, hnew]
    exact hok
  · rw [← Nat.zero_add (s.count '\n')]
    exact h

theorem writeFresh_append (font : Font) (s t : List Char) :
    writeFresh font buffer info (s ++ t) =
      writeFresh font buffer info s >>= fun w ↦ writeStr font w t := by
  rw [writeFresh, writeFresh, bind_assoc]
  simp only [writeStr, List.foldlM_append]

/-- **The last character**, if it is drawn: its cell, to the left of the cursor, is on the screen
and shows it. -/
theorem writeFresh_cell {pre : List Char} (hscreen : TextScreen info buffer.len)
    (hlines : (pre ++ [c]).count '\n' < 2 ^ 59) (hc : Printable c)
    (hok : writeFresh font buffer info (pre ++ [c]) = .ok w) :
    18 ≤ w.xPos ∧ w.xPos ≤ info.width ∧ w.yPos + 8 ≤ info.height ∧
      ∀ row < 8, ∀ col < 8, pixelAt info w.buffer (w.xPos - 8 + col) (w.yPos + row) =
        encode info.pixelFormat (pack (glyphColor font w c row col)) := by
  have hpre : pre.count '\n' ≤ (pre ++ [c]).count '\n' :=
    (List.sublist_append_left pre [c]).count_le _
  obtain ⟨w₀, hok₀, h₀, hinfo⟩ :=
    writeFresh_writing font hscreen (lt_of_le_of_lt hpre hlines)
  obtain ⟨buffer', hok₁, hpixels, -⟩ := h₀.writeChar font (by omega) c
  obtain ⟨⟨k, hk⟩, hright, hbelow⟩ := h₀.place_lt
  rw [writeFresh_append, hok₀, Checked.ok_bind, writeStr_singleton, hok₁] at hok
  cases hok
  rw [next_of_printable hc]
  rw [hinfo] at hright hbelow hpixels
  refine ⟨by dsimp only; omega, hright.le, by dsimp only; omega, fun row hrow col hcol ↦ ?_⟩
  dsimp only
  rw [Nat.add_sub_cancel, hpixels.pixel _ (by omega) _ (by omega), drawn_of_printable hc,
    if_pos ⟨⟨Nat.le_add_right _ _, by omega⟩, Nat.le_add_right _ _, by omega⟩,
    Nat.add_sub_cancel_left, Nat.add_sub_cancel_left]
  rfl

/-- **Two characters** with no backspace, no carriage return and no clearing of the screen from one
to the other have no pixel in common. -/
theorem writeFresh_apart {pre mid : List Char} {c₁ c₂ : Char} {w₁ w₂ : TextWriter}
    (hscreen : TextScreen info buffer.len)
    (hlines : (pre ++ c₁ :: (mid ++ [c₂])).count '\n' < 2 ^ 59) (hc₁ : Printable c₁)
    (hc₂ : Printable c₂) (hback : '\x08' ∉ mid) (hreturn : '\r' ∉ mid)
    (hok₁ : writeFresh font buffer info (pre ++ [c₁]) = .ok w₁)
    (hclear : Uncleared font w₁ (mid ++ [c₂]))
    (hok₂ : writeFresh font buffer info (pre ++ c₁ :: (mid ++ [c₂])) = .ok w₂) {px py : ℕ}
    (hcell : InCell (w₁.xPos - 8) w₁.yPos px py) : ¬InCell (w₂.xPos - 8) w₂.yPos px py := by
  rw [List.append_cons, ← List.append_assoc] at hlines hok₂
  have hcount : (pre ++ [c₁] ++ mid ++ [c₂]).count '\n' =
      (pre ++ [c₁]).count '\n' + mid.count '\n' + [c₂].count '\n' := by
    rw [List.count_append, List.count_append]
  have hleft := (writeFresh_cell hscreen (by omega) hc₁ hok₁).1
  obtain ⟨w, hok, hw, -⟩ := writeFresh_writing (s := pre ++ [c₁]) font hscreen (by omega)
  obtain rfl : w = w₁ := Except.ok.inj (hok.symm.trans hok₁)
  obtain ⟨hmid, hlast⟩ := hclear.of_append
  obtain ⟨buffer', x, y, hok₃, hw₃⟩ := hw.writeStr font (s := mid) (by omega)
  have hstart : Beyond (w.xPos - 8) w.yPos (w.xPos, w.yPos) :=
    Or.inl ⟨rfl, by dsimp only; omega⟩
  have hbeyond := hstart.writeStr hw (by omega) hback hreturn hmid hok₃
  have hplace := hbeyond.place fun hpage ↦ hlast _ hok₃ (Or.inr ⟨hc₂, hpage⟩)
  obtain ⟨buffer₂, hok₄, -, -⟩ := hw₃.writeChar font (by omega) c₂
  rw [writeFresh_append, writeFresh_append, hok₁, Checked.ok_bind, hok₃, Checked.ok_bind,
    writeStr_singleton, hok₄] at hok₂
  cases hok₂
  rw [next_of_printable hc₂]
  exact hplace.not_inCell hcell

/-- **Everything that is written stays visible and legible.** A string written by a fresh writer on
a screen with room for a character: no check fails; the cursor is in a column of cells; the last
character, if it is drawn, has its whole cell on the screen; and no two characters are drawn over
each other, unless the screen is cleared or the cursor is taken back in between. -/
theorem writeFresh_cells (font : Font) (buffer : Slice UInt8) (info : FrameBufferInfo)
    (hscreen : TextScreen info buffer.len) (s : List Char) (hlines : s.count '\n' < 2 ^ 59) :
    ∃ w, writeFresh font buffer info s = .ok w ∧ (∃ k, w.xPos = 10 + 8 * k) ∧
      (∀ pre c, s = pre ++ [c] → Printable c →
        18 ≤ w.xPos ∧ w.xPos ≤ info.width ∧ w.yPos + 8 ≤ info.height ∧
          ∀ row < 8, ∀ col < 8, pixelAt info w.buffer (w.xPos - 8 + col) (w.yPos + row) =
            encode info.pixelFormat (pack (glyphColor font w c row col))) ∧
      ∀ pre c₁ mid c₂, s = pre ++ c₁ :: (mid ++ [c₂]) → Printable c₁ → Printable c₂ →
        '\x08' ∉ mid → '\r' ∉ mid →
          ∃ w₁, writeFresh font buffer info (pre ++ [c₁]) = .ok w₁ ∧
            (Uncleared font w₁ (mid ++ [c₂]) → ∀ px py, InCell (w₁.xPos - 8) w₁.yPos px py →
              ¬InCell (w.xPos - 8) w.yPos px py) := by
  obtain ⟨w, hok, hw, -⟩ := writeFresh_writing font hscreen hlines
  refine ⟨w, hok, hw.column, ?_, ?_⟩
  · rintro pre c rfl hc
    exact writeFresh_cell hscreen hlines hc hok
  · rintro pre c₁ mid c₂ rfl hc₁ hc₂ hback hreturn
    have hcount : (pre ++ [c₁]).count '\n' ≤ (pre ++ c₁ :: (mid ++ [c₂])).count '\n' := by
      rw [List.append_cons pre c₁ (mid ++ [c₂])]
      exact (List.sublist_append_left _ _).count_le '\n'
    obtain ⟨w₁, hok₁, -, -⟩ :=
      writeFresh_writing (s := pre ++ [c₁]) font hscreen (lt_of_le_of_lt hcount hlines)
    refine ⟨w₁, hok₁, fun hclear px py hcell ↦ ?_⟩
    exact writeFresh_apart hscreen hlines hc₁ hc₂ hback hreturn hok₁ hclear hok hcell

theorem writeFresh_cells_ok :
    ∃ w, writeFresh (fun _ ↦ none) ⟨fun _ ↦ 0, 1228800⟩ ⟨640, 480, 640, 4, .bgr⟩ ['o', '\n', 'k'] =
        .ok w ∧
      (18 ≤ w.xPos ∧ w.xPos ≤ 640 ∧ w.yPos + 8 ≤ 480) ∧
      ∃ w₁, writeFresh (fun _ ↦ none) ⟨fun _ ↦ 0, 1228800⟩ ⟨640, 480, 640, 4, .bgr⟩ ['o'] =
          .ok w₁ ∧
        (Uncleared (fun _ ↦ none) w₁ ['\n', 'k'] → ∀ px py, InCell (w₁.xPos - 8) w₁.yPos px py →
          ¬InCell (w.xPos - 8) w.yPos px py) := by
  obtain ⟨w, hok, -, hcell, hapart⟩ := writeFresh_cells (fun _ ↦ none) ⟨fun _ ↦ 0, 1228800⟩
    ⟨640, 480, 640, 4, .bgr⟩ ⟨⟨by decide, by decide, by decide, by decide⟩, by decide, by decide⟩
    ['o', '\n', 'k'] (by decide)
  obtain ⟨hleft, hright, hbelow, -⟩ := hcell ['o', '\n'] 'k' rfl (by decide)
  exact ⟨w, hok, ⟨hleft, hright, hbelow⟩,
    hapart [] 'o' ['\n'] 'k' rfl (by decide) (by decide) (by decide) (by decide)⟩

end

end TextWriter

end RelizOS.Gui
