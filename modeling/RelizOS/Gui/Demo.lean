import RelizOS.Gui.TextWriter

/-!
# The demo

System call 11 shows an animation of sixty frames: stars, a rainbow, and a cat in the middle of the
screen. It draws rectangles with `write_pixel`, which leaves out what is off the screen. The tail of
the cat begins 16 pixels to the left of it, and on a screen of at most 200 columns the cat is only
10 pixels from the edge: there the demo panics, and on any wider screen it ends with an empty screen
and the colours it has found (`runNyanCatDemo_correct`).
-/

namespace RelizOS.Gui

/-! ## The code -/

/-- `draw_rect`. -/
def FrameBufferWriter.drawRect (writer : FrameBufferWriter) (x y w h : ℕ) (color : Color) :
    Checked FrameBufferWriter :=
  (List.range h).foldlM (fun writer dy ↦
    (List.range w).foldlM (fun (writer : FrameBufferWriter) dx ↦ do
      let px ← Checked.add 64 x dx
      let py ← Checked.add 64 y dy
      writer.writePixel px py color) writer) writer

namespace Demo

/-- `draw_rect` at a place given by an offset from `(x, y)`. -/
def rectAt (x dx y dy w h : ℕ) (color : Color) (writer : FrameBufferWriter) :
    Checked FrameBufferWriter := do
  let x ← Checked.add 64 x dx
  let y ← Checked.add 64 y dy
  writer.drawRect x y w h color

/-- Rectangles of one colour, one after the other: offsets from `(x, y)` and sizes. -/
def rectsAt (x y : ℕ) (color : Color) (rects : List (ℕ × ℕ × ℕ × ℕ)) (writer : FrameBufferWriter) :
    Checked FrameBufferWriter :=
  rects.foldlM (fun writer (dx, dy, w, h) ↦ rectAt x dx y dy w h color writer) writer

/-- `star_positions`. -/
def starPositions : List (ℕ × ℕ) := [
  (100, 150), (250, 80), (400, 200), (550, 120), (700, 250), (850, 90),
  (150, 300), (300, 400), (500, 350), (650, 420), (800, 380)]

/-- Where a star is in a frame: it moves to the left, and comes back at 900. -/
def starX (frame sx : ℕ) : ℕ :=
  let x : ℤ := sx - (frame * 8 % 900 : ℕ)
  (if x < 0 then x + 900 else x).toNat

/-- The background and the stars. -/
def drawSky (frame : ℕ) (writer : FrameBufferWriter) : Checked FrameBufferWriter := do
  let writer ← writer.drawRect 0 0 writer.info.width writer.info.height (15, 15, 40)
  starPositions.foldlM (fun (writer : FrameBufferWriter) (sx, sy) ↦
    writer.drawRect (starX frame sx) sy 4 4 (255, 255, 255)) writer

/-- `cat_x`. -/
def catX (width : ℕ) : ℕ := if width > 200 then width / 2 - 50 else 10

/-- `cat_y`. -/
def catY (height : ℕ) : ℕ := if height > 100 then height / 2 - 30 else 10

/-- `rainbow_colors`. -/
def rainbowColors : List Color := [
  (255, 0, 0), (255, 127, 0), (255, 255, 0), (0, 255, 0), (0, 127, 255), (127, 0, 255)]

/-- `wave_y`: the rainbow waves up and down. -/
def waveY (frame catY rx : ℕ) : Checked ℕ :=
  if (rx / 8 + frame) % 8 < 4 then Checked.add 64 catY 2 else Checked.sub catY 2

/-- The rainbow: the loop over `(0..cat_x).step_by(8)`. -/
def drawRainbow (frame catX catY : ℕ) (writer : FrameBufferWriter) : Checked FrameBufferWriter :=
  (List.range ((catX + 7) / 8)).foldlM (fun (writer : FrameBufferWriter) k ↦ do
    let waveY ← waveY frame catY (k * 8)
    rainbowColors.zipIdx.foldlM (fun (writer : FrameBufferWriter) (color, i) ↦ do
      let y ← Checked.add 64 waveY (← Checked.mul 64 i 8)
      writer.drawRect (k * 8) y 8 8 color) writer) writer

/-- The legs, which go up and down. -/
def drawFeet (frame catX catY : ℕ) (writer : FrameBufferWriter) : Checked FrameBufferWriter := do
  let feetY ← Checked.add 64 catY 40
  rectsAt catX feetY (150, 150, 150)
    (if frame % 4 < 2 then [(10, 0, 8, 8), (30, 0, 8, 8), (60, 0, 8, 8), (80, 0, 8, 8)]
      else [(12, 2, 8, 8), (32, 2, 8, 8), (62, 2, 8, 8), (82, 2, 8, 8)]) writer

/-- The tail. -/
def drawTail (frame catX catY : ℕ) (writer : FrameBufferWriter) : Checked FrameBufferWriter := do
  let x ← Checked.sub catX 16
  rectAt x 0 catY (if frame % 4 < 2 then 16 else 20) 16 8 (150, 150, 150) writer

/-- The body. -/
def drawBody (catX catY : ℕ) (writer : FrameBufferWriter) : Checked FrameBufferWriter := do
  let writer ← rectAt catX 0 catY 4 100 36 (200, 130, 80) writer
  let writer ← rectAt catX 4 catY 8 92 28 (255, 150, 200) writer
  rectsAt catX catY (255, 0, 100)
    [(16, 12, 4, 4), (40, 20, 4, 4), (70, 16, 4, 4), (30, 28, 4, 4), (80, 26, 4, 4)] writer

/-- The head. -/
def drawHead (catX catY : ℕ) (writer : FrameBufferWriter) : Checked FrameBufferWriter := do
  let headX ← Checked.add 64 catX 75
  let headY ← Checked.sub catY 4
  let writer ← rectsAt headX headY (150, 150, 150)
    [(0, 8, 32, 24), (0, 0, 8, 8), (24, 0, 8, 8)] writer
  let writer ← rectsAt headX headY (0, 0, 0) [(6, 14, 4, 4), (22, 14, 4, 4)] writer
  let writer ← rectsAt headX headY (255, 100, 150) [(2, 18, 4, 4), (26, 18, 4, 4)] writer
  rectsAt headX headY (0, 0, 0) [(14, 18, 4, 4)] writer

/-- One frame of the animation, on a screen of the given size. -/
def drawFrame (width height frame : ℕ) (writer : FrameBufferWriter) :
    Checked FrameBufferWriter := do
  let writer ← drawSky frame writer
  let writer ← drawRainbow frame (catX width) (catY height) writer
  let writer ← drawFeet frame (catX width) (catY height) writer
  let writer ← drawTail frame (catX width) (catY height) writer
  let writer ← drawBody (catX width) (catY height) writer
  drawHead (catX width) (catY height) writer

end Demo

/-- `run_nyan_cat_demo`. -/
def TextWriter.runNyanCatDemo (w : TextWriter) : Checked TextWriter := do
  let writer ← (List.range 60).foldlM (fun writer frame ↦
    Demo.drawFrame w.info.width w.info.height frame writer) w.toFrameBufferWriter
  TextWriter.clear { w with
    toFrameBufferWriter := writer, textColor := w.textColor, bgColor := w.bgColor }

/-! ## What the demo leaves behind -/

namespace Demo

/-- On every screen of a layout the computation returns, and leaves a screen of this layout. -/
def Redraws (info : FrameBufferInfo) (len : ℕ)
    (f : FrameBufferWriter → Checked FrameBufferWriter) : Prop :=
  ∀ writer : FrameBufferWriter, writer.info = info → writer.buffer.len = len →
    ∃ writer', f writer = .ok writer' ∧ writer'.info = info ∧ writer'.buffer.len = len

section

variable {info : FrameBufferInfo} {len x y w h : ℕ} {color : Color}

theorem Redraws.bind {f g : FrameBufferWriter → Checked FrameBufferWriter}
    (hf : Redraws info len f) (hg : Redraws info len g) :
    Redraws info len fun writer ↦ f writer >>= g := by
  intro writer hinfo hlen
  obtain ⟨writer', hcall, hinfo', hlen'⟩ := hf writer hinfo hlen
  dsimp only
  rw [hcall, Checked.ok_bind]
  exact hg writer' hinfo' hlen'

theorem Redraws.foldlM {α : Type} {l : List α}
    {f : FrameBufferWriter → α → Checked FrameBufferWriter}
    (h : ∀ a ∈ l, Redraws info len fun writer ↦ f writer a) :
    Redraws info len fun writer ↦ l.foldlM f writer := by
  induction l with
  | nil => exact fun writer hinfo hlen ↦ ⟨writer, rfl, hinfo, hlen⟩
  | cons a l ih =>
    intro writer hinfo hlen
    dsimp only
    rw [List.foldlM_cons]
    exact ((h a List.mem_cons_self).bind
      (ih fun b hb ↦ h b (List.mem_cons_of_mem a hb))) writer hinfo hlen

theorem Redraws.checked {n : ℕ} {c : Checked ℕ}
    {f : ℕ → FrameBufferWriter → Checked FrameBufferWriter} (hc : c = .ok n)
    (hf : Redraws info len (f n)) : Redraws info len fun writer ↦ c >>= fun n ↦ f n writer := by
  subst hc
  exact hf

/-- **A rectangle.** -/
theorem redraws_drawRect (hok : info.Covered len) (hx : x + w ≤ 2 ^ 64) (hy : y + h ≤ 2 ^ 64) :
    Redraws info len fun writer ↦ writer.drawRect x y w h color := by
  rintro writer rfl rfl
  obtain ⟨buffer', hloop, hpixels⟩ := repainted_writePixels hok (fun _ _ ↦ color)
    (Grid.cells x y w h)
  refine ⟨{ writer with buffer := buffer' }, ?_, rfl, hpixels.len⟩
  rw [← foldlM_cells] at hloop
  dsimp only
  rw [← hloop, FrameBufferWriter.drawRect]
  refine Checked.foldlM_congr (fun dy hdy writer ↦
    Checked.foldlM_congr (fun dx hdx writer ↦ ?_) writer) writer
  have hdy := List.mem_range.mp hdy
  have hdx := List.mem_range.mp hdx
  rw [Checked.add_of_lt (by omega), Checked.ok_bind, Checked.add_of_lt (by omega), Checked.ok_bind]

theorem redraws_rectAt {dx dy : ℕ} (hok : info.Covered len) (hx : x + dx + w < 2 ^ 64)
    (hy : y + dy + h < 2 ^ 64) : Redraws info len (rectAt x dx y dy w h color) :=
  .checked (Checked.add_of_lt (by omega)) (.checked (Checked.add_of_lt (by omega))
    (redraws_drawRect hok hx.le hy.le))

theorem redraws_rectsAt {rects : List (ℕ × ℕ × ℕ × ℕ)} (hok : info.Covered len)
    (hx : x < 2 ^ 63) (hy : y < 2 ^ 63)
    (hrects : ∀ r ∈ rects, r.1 ≤ 100 ∧ r.2.1 ≤ 100 ∧ r.2.2.1 ≤ 100 ∧ r.2.2.2 ≤ 100) :
    Redraws info len (rectsAt x y color rects) := by
  refine Redraws.foldlM fun ⟨dx, dy, w, h⟩ hr ↦ ?_
  obtain ⟨hdx, hdy, hw, hh⟩ := hrects _ hr
  dsimp only at hdx hdy hw hh
  exact redraws_rectAt hok (by omega) (by omega)

/-! ### A frame -/

variable {frame catX catY : ℕ}

theorem starX_lt {sx : ℕ} (hsx : sx ≤ 900) : starX frame sx ≤ 900 := by
  dsimp only [starX]
  split_ifs with hleft
  · omega
  · omega

theorem redraws_drawSky (hok : info.Covered len) (hwidth : info.width < 2 ^ 61)
    (hheight : info.height < 2 ^ 61) : Redraws info len (drawSky frame) := by
  have hstars : ∀ p ∈ starPositions, p.1 ≤ 900 ∧ p.2 ≤ 900 := by decide
  have hbackground : Redraws info len fun writer ↦
      writer.drawRect 0 0 writer.info.width writer.info.height (15, 15, 40) := by
    rintro writer rfl rfl
    exact redraws_drawRect hok (by omega) (by omega) writer rfl rfl
  refine hbackground.bind (Redraws.foldlM fun ⟨sx, sy⟩ hmem ↦ ?_)
  obtain ⟨hsx, hsy⟩ := hstars _ hmem
  dsimp only at hsx hsy
  have hstar : starX frame sx ≤ 900 := starX_lt hsx
  exact redraws_drawRect hok (by omega) (by omega)

theorem redraws_drawRainbow (hok : info.Covered len) (hx : catX < 2 ^ 62) (hy : catY < 2 ^ 62)
    (hhigh : 2 ≤ catY) : Redraws info len (drawRainbow frame catX catY) := by
  refine Redraws.foldlM fun k hk ↦ ?_
  have hk := List.mem_range.mp hk
  obtain ⟨y, hwave, hlt⟩ : ∃ y, waveY frame catY (k * 8) = .ok y ∧ y < 2 ^ 63 := by
    rw [waveY]
    split_ifs
    · exact ⟨_, Checked.add_of_lt (by omega), by omega⟩
    · exact ⟨_, Checked.sub_of_le hhigh, by omega⟩
  intro writer hinfo hlen
  dsimp only
  rw [hwave, Checked.ok_bind]
  refine Redraws.foldlM (fun ⟨color, i⟩ hi ↦ ?_) writer hinfo hlen
  have hi : i < 6 := (List.mem_zipIdx hi).2.1
  exact .checked (if_pos (by omega)) (.checked (Checked.add_of_lt (by omega))
    (redraws_drawRect hok (by omega) (by omega)))

theorem redraws_drawFeet (hok : info.Covered len) (hx : catX < 2 ^ 62) (hy : catY < 2 ^ 62) :
    Redraws info len (drawFeet frame catX catY) := by
  refine .checked (Checked.add_of_lt (by omega)) (redraws_rectsAt hok (by omega) (by omega) ?_)
  split_ifs
  · decide
  · decide

/-- The tail needs 16 columns to the left of the cat. -/
theorem redraws_drawTail (hok : info.Covered len) (hx : catX < 2 ^ 62) (hy : catY < 2 ^ 62)
    (hroom : 16 ≤ catX) : Redraws info len (drawTail frame catX catY) := by
  refine .checked (Checked.sub_of_le hroom) ?_
  split_ifs
  · exact redraws_rectAt hok (by omega) (by omega)
  · exact redraws_rectAt hok (by omega) (by omega)

theorem redraws_drawBody (hok : info.Covered len) (hx : catX < 2 ^ 62) (hy : catY < 2 ^ 62) :
    Redraws info len (drawBody catX catY) :=
  (redraws_rectAt hok (by omega) (by omega)).bind ((redraws_rectAt hok (by omega) (by omega)).bind
    (redraws_rectsAt hok (by omega) (by omega) (by decide)))

theorem redraws_drawHead (hok : info.Covered len) (hx : catX < 2 ^ 62) (hy : catY < 2 ^ 62)
    (hhigh : 4 ≤ catY) : Redraws info len (drawHead catX catY) := by
  refine .checked (Checked.add_of_lt (by omega)) (.checked (Checked.sub_of_le hhigh) ?_)
  exact (redraws_rectsAt hok (by omega) (by omega) (by decide)).bind
    ((redraws_rectsAt hok (by omega) (by omega) (by decide)).bind
      ((redraws_rectsAt hok (by omega) (by omega) (by decide)).bind
        (redraws_rectsAt hok (by omega) (by omega) (by decide))))

/-- **A frame** on a wide screen. -/
theorem redraws_drawFrame (hok : info.Covered len) (hwidth : info.width < 2 ^ 61)
    (hheight : info.height < 2 ^ 61) (hwide : 200 < info.width) :
    Redraws info len (drawFrame info.width info.height frame) := by
  have hx : 16 ≤ catX info.width ∧ catX info.width < 2 ^ 62 := by
    rw [catX, if_pos hwide]
    omega
  have hy : 4 ≤ catY info.height ∧ catY info.height < 2 ^ 62 := by
    rw [catY]
    split_ifs
    · omega
    · omega
  exact (redraws_drawSky hok hwidth hheight).bind ((redraws_drawRainbow hok hx.2 hy.2
    (by omega)).bind ((redraws_drawFeet hok hx.2 hy.2).bind ((redraws_drawTail hok hx.2 hy.2
      hx.1).bind ((redraws_drawBody hok hx.2 hy.2).bind (redraws_drawHead hok hx.2 hy.2 hy.1)))))

/-- **On a narrow screen** there is no room for the tail. -/
theorem drawFrame_ne_ok (hnarrow : info.width ≤ 200) {height : ℕ}
    {writer writer' : FrameBufferWriter} :
    drawFrame info.width height frame writer ≠ .ok writer' := by
  intro hcall
  obtain ⟨_, -, hcall⟩ := Checked.bind_eq_ok.mp hcall
  obtain ⟨_, -, hcall⟩ := Checked.bind_eq_ok.mp hcall
  obtain ⟨_, -, hcall⟩ := Checked.bind_eq_ok.mp hcall
  obtain ⟨_, htail, -⟩ := Checked.bind_eq_ok.mp hcall
  obtain ⟨_, hroom, -⟩ := Checked.bind_eq_ok.mp htail
  rw [catX, if_neg (not_lt.mpr hnarrow)] at hroom
  cases hroom

end

end Demo

/-- **On a wide screen** the demo ends with an empty screen. -/
theorem runNyanCatDemo_eq {w : TextWriter} (hok : w.info.Covered w.buffer.len)
    (hheight : 10 ≤ w.info.height) (hwide : 200 < w.info.width) :
    ∃ buffer', w.runNyanCatDemo = .ok { w with buffer := buffer', xPos := 10, yPos := 10 } ∧
      Repainted w.info (fun _ _ ↦ some w.bgColor) w.buffer buffer' := by
  obtain ⟨hwidth, hheight⟩ := hok.sides_lt (by omega) hheight
  have hloop : Demo.Redraws w.info w.buffer.len fun writer ↦ (List.range 60).foldlM
      (fun writer frame ↦ Demo.drawFrame w.info.width w.info.height frame writer) writer :=
    Demo.Redraws.foldlM fun _ _ ↦ Demo.redraws_drawFrame hok hwidth hheight hwide
  obtain ⟨writer, hframes, hinfo, hlen⟩ := hloop w.toFrameBufferWriter rfl rfl
  dsimp only at hframes
  obtain ⟨buffer', hclear, hpixels⟩ := TextWriter.clear_eq
    (w := { w with toFrameBufferWriter := writer }) (hinfo ▸ hlen ▸ hok)
  refine ⟨buffer', ?_, hpixels.len.trans hlen, fun x hx y hy ↦ ?_⟩
  · rw [TextWriter.runNyanCatDemo, hframes, Checked.ok_bind, hclear]
    rw [hinfo]
  · rw [hinfo] at hpixels
    exact hpixels.pixel x hx y hy

/-- **On a narrow screen** its first frame panics. -/
theorem runNyanCatDemo_ne_ok {w w' : TextWriter} (hnarrow : w.info.width ≤ 200) :
    w.runNyanCatDemo ≠ .ok w' := by
  intro hcall
  obtain ⟨_, hframes, -⟩ := Checked.bind_eq_ok.mp hcall
  have hrange : List.range 60 = 0 :: List.range' 1 59 := rfl
  rw [hrange, List.foldlM_cons] at hframes
  obtain ⟨_, hfirst, -⟩ := Checked.bind_eq_ok.mp hframes
  exact Demo.drawFrame_ne_ok hnarrow hfirst

/-- **The demo** returns exactly on screens with more than 200 columns, and leaves the screen in the
background colour, the cursor where text begins, and the colours as they were. -/
theorem runNyanCatDemo_correct {w : TextWriter} (hok : w.info.Covered w.buffer.len)
    (hheight : 10 ≤ w.info.height) :
    ((∃ w', w.runNyanCatDemo = .ok w') ↔ 200 < w.info.width) ∧
    ∀ w', w.runNyanCatDemo = .ok w' →
      w' = { w with buffer := w'.buffer, xPos := 10, yPos := 10 } ∧
      Repainted w.info (fun _ _ ↦ some w.bgColor) w.buffer w'.buffer := by
  by_cases hwide : 200 < w.info.width
  · obtain ⟨buffer', hcall, hpixels⟩ := runNyanCatDemo_eq hok hheight hwide
    refine ⟨iff_of_true ⟨_, hcall⟩ hwide, fun w' hw' ↦ ?_⟩
    rw [hcall] at hw'
    obtain rfl := Except.ok.inj hw'
    exact ⟨rfl, hpixels⟩
  · have hpanics : ∀ w', w.runNyanCatDemo ≠ .ok w' := fun _ ↦
      runNyanCatDemo_ne_ok (not_lt.mp hwide)
    exact ⟨iff_of_false (fun ⟨w', hw'⟩ ↦ hpanics w' hw') hwide,
      fun w' hw' ↦ absurd hw' (hpanics w')⟩

/-- A screen of 1024 by 768 pixels. -/
def wideScreen : TextWriter :=
  ⟨⟨⟨fun _ ↦ 0, 1024 * 768 * 3⟩, ⟨1024, 768, 1024, 3, .rgb⟩⟩, 10, 10, (255, 255, 255),
    (20, 20, 40)⟩

theorem covered_wideScreen : wideScreen.info.Covered wideScreen.buffer.len :=
  ⟨by decide, by decide, by decide, by decide⟩

theorem runNyanCatDemo_correct_wideScreen : ∃ w', wideScreen.runNyanCatDemo = .ok w' ∧
    Repainted wideScreen.info (fun _ _ ↦ some (20, 20, 40)) wideScreen.buffer w'.buffer := by
  obtain ⟨hreturns, hafter⟩ := runNyanCatDemo_correct covered_wideScreen (by decide)
  obtain ⟨w', hw'⟩ := hreturns.mpr (by decide)
  exact ⟨w', hw', (hafter w' hw').2⟩

end RelizOS.Gui
