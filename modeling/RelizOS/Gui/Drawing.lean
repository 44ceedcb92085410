import RelizOS.Gui.Renderer
import RelizOS.Gui.TextWriter
import RelizOS.Library.Strokes

/-!
# Drawing on the back buffer

The functions that `Gui.Renderer` leaves out: blending, translucent shapes, shadows, circles and
text. What each of them draws is a list of strokes, which `…Strokes` computes without any check;
that the code makes exactly these strokes and does not panic is one lemma for each function, under
the condition that the numbers it computes with fit (`Reach`).
-/

namespace RelizOS.Gui

open Painting Stroke

/-! ## The functions -/

/-- The three channels of a colour put together. -/
def rgb (r g b : ℕ) : UInt32 :=
  (UInt32.ofNat r <<< 16) ||| (UInt32.ofNat g <<< 8) ||| UInt32.ofNat b

/-- The value of a channel in `blend_pixel`. -/
def blendChannel (fg bg a : ℕ) : Checked ℕ := do
  let front ← Checked.mul 32 fg a
  let back ← Checked.mul 32 bg (← Checked.sub 255 a)
  return ((← Checked.add 32 front back) / 255) &&& 0xFF

/-- The colour that `blend_pixel` stores over `bg`. -/
def blend (color : UInt32) (alpha : UInt8) (bg : UInt32) : Checked UInt32 := do
  let r ← blendChannel (red color).toNat (red bg).toNat alpha.toNat
  let g ← blendChannel (green color).toNat (green bg).toNat alpha.toNat
  let b ← blendChannel (blue color).toNat (blue bg).toNat alpha.toNat
  return rgb r g b

/-- `blend_pixel`. -/
def blendPixel (idx : ℕ) (color : UInt32) (alpha : UInt8) : Painting UInt32 Unit := do
  if idx ≥ (← bufLen) then return
  else if alpha = 255 then store idx color
  else if alpha = 0 then return
  else
    let bg ← load idx
    store idx (← blend color alpha bg)

/-- The body of the inner loop of `draw_translucent_rounded_rect`. -/
def blendCell (bufLen rowOffset x dx : ℕ) (draw : Checked Bool) (color : UInt32) (alpha : UInt8) :
    Painting UInt32 Unit := do
  let px ← Checked.add 64 x dx
  let idx ← Checked.add 64 rowOffset px
  if idx ≥ bufLen then return
  else if ← draw then blendPixel idx color alpha
  else return

/-- `draw_translucent_rounded_rect`. -/
def drawTranslucentRoundedRect (stride x y w h r : ℕ) (color : UInt32) (alpha : UInt8) :
    Painting UInt32 Unit := do
  let bufLen ← bufLen
  let rSq ← Checked.mul 64 r r
  (List.range h).forM fun dy ↦ do
    let py ← Checked.add 64 y dy
    let rowOffset ← Checked.mul 64 py stride
    (List.range w).forM fun dx ↦
      blendCell bufLen rowOffset x dx (roundedDraw w h r (asIsize rSq) dx dy) color alpha

/-- The result of an operation on `isize`. -/
def isize (v : ℤ) : Checked ℤ := if -2 ^ 63 ≤ v ∧ v < 2 ^ 63 then .ok v else .error .overflow

/-- `x as isize - off as isize + d as isize`. -/
def shifted (x off d : ℕ) : Checked ℤ := do
  isize ((← isize (asIsize x - asIsize off)) + asIsize d)

/-- The loops of `draw_shadow` and `draw_filled_circle`: `h` rows of `w` pixels from the place `off`
pixels to the left of `x` and above `y` on, but not those with a negative coordinate. -/
def drawAround (stride x y off : ℕ) (w : Checked ℕ) (h : ℕ)
    (paint : ℕ → ℤ → ℤ → ℕ → ℕ → Painting UInt32 Unit) : Painting UInt32 Unit := do
  let bufLen ← bufLen
  (List.range h).forM fun dy ↦ do
    let py ← shifted y off dy
    if py < 0 then return
    else
      let rowOffset ← Checked.mul 64 py.toNat stride
      (List.range (← w)).forM fun dx ↦ do
        let px ← shifted x off dx
        if px < 0 then return
        else
          let idx ← Checked.add 64 rowOffset px.toNat
          if idx ≥ bufLen then return else paint idx px py dx dy

/-- `dist_x` and `dist_y` of `draw_shadow`: how far `p` is from the `n` pixels from `a` on, or the
size of the shadow where it is among them. -/
def shadowDist (shadowSz a n : ℕ) (p : ℤ) : Checked ℤ := do
  if p < asIsize a then isize (asIsize a - p)
  else
    let right ← Checked.add 64 a n
    if p ≥ asIsize right then isize ((← isize (p - asIsize right)) + 1) else return asIsize shadowSz

/-- The opacity of a shadow at a distance, where there is one. -/
def shadowAlpha (dist : ℤ) (shadowSz : ℕ) : Option UInt8 :=
  let dist := Float32.ofInt dist
  let size := Float32.ofNat shadowSz
  if dist < size then
    let ratio := 1.0 - dist / size
    some (ratio * 120.0).toUInt8
  else none

-- at the distances 4, 8 and 11 the division by 12 is rounded up, which costs one
example : (List.range 12).map (fun i ↦ shadowAlpha (i + 1) 12) =
    [110, 100, 90, 79, 70, 60, 50, 39, 30, 20, 9].map some ++ [none] := by decide

/-- The pixel is in the window itself. -/
def underWindow (wx wy ww wh : ℕ) (px py : ℤ) : Checked Bool :=
  both (px ≥ asIsize wx) do
    let right ← Checked.add 64 wx ww
    both (px < asIsize right ∧ py ≥ asIsize wy) do
      return decide (py < asIsize (← Checked.add 64 wy wh))

/-- A pixel of a shadow. -/
def shadowPixel (wx wy ww wh shadowSz idx : ℕ) (px py : ℤ) :
    Painting UInt32 Unit := do
  if ← underWindow wx wy ww wh px py then return
  else
    let distX ← shadowDist shadowSz wx ww px
    let distY ← shadowDist shadowSz wy wh py
    match shadowAlpha (max distX distY) shadowSz with
    | some alpha => blendPixel idx 0x000000 alpha
    | none => return

/-- `draw_shadow`. -/
def drawShadow (stride wx wy ww wh shadowSz : ℕ) :
    Painting UInt32 Unit := do
  let h ← Checked.add 64 wh (← Checked.mul 64 shadowSz 2)
  drawAround stride wx wy shadowSz (do Checked.add 64 ww (← Checked.mul 64 shadowSz 2)) h
    fun idx px py _ _ ↦ shadowPixel wx wy ww wh shadowSz idx px py

/-- A pixel of a circle. -/
def circlePixel (r : ℕ) (rSq : ℤ) (color : UInt32) (idx dx dy : ℕ) : Painting UInt32 Unit := do
  let distX ← isize (asIsize r - asIsize dx)
  let distY ← isize (asIsize r - asIsize dy)
  let distSq ← isize ((← isize (distX * distX)) + (← isize (distY * distY)))
  if distSq ≤ rSq then store idx color else return

/-- `draw_filled_circle`. -/
def drawFilledCircle (stride cx cy r : ℕ) (color : UInt32) : Painting UInt32 Unit := do
  let rSq ← Checked.mul 64 r r
  let diameter ← Checked.mul 64 r 2
  drawAround stride cx cy r (return diameter + 1) (diameter + 1)
    fun idx _ _ dx dy ↦ circlePixel r (asIsize rSq) color idx dx dy

/-- `draw_char`. -/
def drawChar (font : Font) (stride x y : ℕ) (c : Char) (color : UInt32) : Painting UInt32 Unit := do
  match font c with
  | none => return
  | some fontChar =>
    let bufLen ← bufLen
    (List.range 8).forM fun row ↦ do
      let py ← Checked.add 64 y row
      let rowOffset ← Checked.mul 64 py stride
      (List.range 8).forM fun col ↦ do
        if fontChar.toList.getD row 0 &&& (1 <<< UInt8.ofNat col) ≠ 0 then
          let px ← Checked.add 64 x col
          let idx ← Checked.add 64 rowOffset px
          if idx < bufLen then store idx color else return
        else return

/-- The loop of `draw_string`. -/
def drawChars (font : Font) (stride y : ℕ) (color : UInt32) :
    ℕ → List Char → Painting UInt32 Unit
  | _, [] => return
  | cx, c :: s => do
    drawChar font stride cx y c color
    let cx ← Checked.add 64 cx 8
    drawChars font stride y color cx s

/-- `draw_string`. -/
def drawString (font : Font) (stride x y : ℕ) (s : String) (color : UInt32) :
    Painting UInt32 Unit := drawChars font stride y color x s.toList

/-! ## The strokes -/

/-- The strokes of the pixels of a box, row by row. -/
def gridStrokes (w h : ℕ) (stroke : ℕ → ℕ → Option (Stroke UInt32)) : List (Stroke UInt32) :=
  (List.range h).flatMap fun dy ↦ (List.range w).flatMap fun dx ↦ (stroke dx dy).toList

/-- The stroke in a pixel of a box at a place, if it is in the buffer. -/
def boxStroke (n stride x y : ℕ) (change : ℕ → ℕ → Option (UInt32 → UInt32)) (dx dy : ℕ) :
    Option (Stroke UInt32) :=
  if pixelIndex stride x y dx dy < n then
    (change dx dy).map (Stroke.mk (pixelIndex stride x y dx dy))
  else none

/-- The stroke in a pixel of a box that begins `off` pixels to the left and above a place, if it is
in the buffer. -/
def aroundStroke (n stride x y off : ℕ) (change : ℕ → ℕ → Option (UInt32 → UInt32)) (dx dy : ℕ) :
    Option (Stroke UInt32) :=
  if (off ≤ x + dx ∧ off ≤ y + dy) ∧ (y + dy - off) * stride + (x + dx - off) < n then
    (change dx dy).map (Stroke.mk ((y + dy - off) * stride + (x + dx - off)))
  else none

/-- The strokes of a shape. -/
def shapeStrokes (n stride x y w h : ℕ) (pixel : ℕ → ℕ → Option UInt32) : List (Stroke UInt32) :=
  gridStrokes w h (boxStroke n stride x y fun dx dy ↦ (pixel dx dy).map fun color _ ↦ color)

/-- How far a pixel is from the square around which the corner is drawn, on one side. -/
def cornerDist (n r d : ℕ) : ℕ := if d < r then r - d else if d ≥ n - r then d - (n - r - 1) else 0

/-- A pixel of a rectangle with rounded corners is drawn. -/
def rounded (w h r dx dy : ℕ) : Bool :=
  cornerDist w r dx = 0 ∨ cornerDist h r dy = 0 ∨
    cornerDist w r dx * cornerDist w r dx + cornerDist h r dy * cornerDist h r dy ≤ r * r

/-- A channel of a blended colour. -/
def mixChannel (fg bg a : ℕ) : ℕ := ((fg * a + bg * (255 - a)) / 255) &&& 0xFF

/-- A blended colour. -/
def mix (color : UInt32) (alpha : UInt8) (bg : UInt32) : UInt32 :=
  rgb (mixChannel (red color).toNat (red bg).toNat alpha.toNat)
    (mixChannel (green color).toNat (green bg).toNat alpha.toNat)
    (mixChannel (blue color).toNat (blue bg).toNat alpha.toNat)

/-- What blending a colour does to a pixel. -/
def blendChange (color : UInt32) (alpha : UInt8) : Option (UInt32 → UInt32) :=
  if alpha = 255 then some fun _ ↦ color else if alpha = 0 then none else some (mix color alpha)

/-- How far a pixel is from the `n` pixels from `a` on. -/
def edgeDist (shadowSz a n : ℕ) (p : ℤ) : ℤ :=
  if p < a then a - p else if p ≥ a + n then p - (a + n) + 1 else shadowSz

/-- What a shadow does to a pixel. -/
def shadowChange (wx wy ww wh shadowSz : ℕ) (px py : ℤ) :
    Option (UInt32 → UInt32) :=
  if (wx ≤ px ∧ px < wx + ww) ∧ wy ≤ py ∧ py < wy + wh then none
  else
    (shadowAlpha (max (edgeDist shadowSz wx ww px) (edgeDist shadowSz wy wh py)) shadowSz).bind
      (blendChange 0x000000)

/-- The strokes of `draw_shadow`. -/
def shadowStrokes (n stride wx wy ww wh shadowSz : ℕ) :
    List (Stroke UInt32) :=
  gridStrokes (ww + shadowSz * 2) (wh + shadowSz * 2)
    (aroundStroke n stride wx wy shadowSz fun dx dy ↦
      shadowChange wx wy ww wh shadowSz (wx - shadowSz + dx) (wy - shadowSz + dy))

/-- The strokes of `draw_filled_circle`. -/
def circleStrokes (n stride cx cy r : ℕ) (color : UInt32) : List (Stroke UInt32) :=
  gridStrokes (r * 2 + 1) (r * 2 + 1) (aroundStroke n stride cx cy r fun dx dy ↦
    if ((r : ℤ) - dx) * (r - dx) + (r - dy) * (r - dy) ≤ r * r then some fun _ ↦ color else none)

/-- The strokes of `draw_char`. -/
def charStrokes (font : Font) (n stride x y : ℕ) (c : Char) (color : UInt32) :
    List (Stroke UInt32) :=
  match font c with
  | none => []
  | some fontChar => shapeStrokes n stride x y 8 8 fun col row ↦
      if fontChar.toList.getD row 0 &&& (1 <<< UInt8.ofNat col) ≠ 0 then some color else none

/-- The strokes of `draw_string`: a character is 8 pixels wide. -/
def stringStrokes (font : Font) (n stride y : ℕ) (color : UInt32) :
    ℕ → List Char → List (Stroke UInt32)
  | _, [] => []
  | x, c :: s =>
    charStrokes font n stride x y c color ++ stringStrokes font n stride y color (x + 8) s

/-! ## The code makes the strokes -/

/-- The numbers for a box at a place fit. -/
structure Reach (stride x y w h : ℕ) : Prop where
  pos : 0 < stride
  lt : (y + h) * stride + (x + w) < 2 ^ 62

namespace Reach

variable {n stride x y w h dx dy : ℕ}

theorem row (hr : Reach stride x y w h) (hdy : dy ≤ h) :
    y + dy < 2 ^ 62 ∧ (y + dy) * stride + (x + w) < 2 ^ 62 := by
  have hmul : (y + dy) * stride ≤ (y + h) * stride := Nat.mul_le_mul_right _ (by omega)
  have hle : y + h ≤ (y + h) * stride := Nat.le_mul_of_pos_right _ hr.pos
  have hlt := hr.lt
  omega

theorem index (hr : Reach stride x y w h) (hdx : dx ≤ w) (hdy : dy ≤ h) :
    x + dx < 2 ^ 62 ∧ (y + dy) * stride + (x + dx) < 2 ^ 62 := by
  have hlt := (hr.row hdy).2
  omega

end Reach

theorem asIsize_of_lt {a : ℕ} (h : a < 2 ^ 63) : asIsize a = a := if_pos h

theorem isize_of_lt {v : ℤ} (hlo : -2 ^ 63 ≤ v) (hhi : v < 2 ^ 63) : isize v = .ok v :=
  if_pos ⟨hlo, hhi⟩

section

variable {n stride x y w h r dx dy : ℕ} {color : UInt32} {alpha : UInt8}

/-- **A pixel of a shape.** -/
theorem draws_drawPixel (hr : Reach stride x y w h) (hdx : dx < w) (hdy : dy < h)
    {pixel : Checked (Option UInt32)} {p : ℕ → ℕ → Option UInt32} (hp : pixel = .ok (p dx dy)) :
    Draws n (drawPixel n ((y + dy) * stride) x dx pixel)
      (boxStroke n stride x y (fun dx dy ↦ (p dx dy).map fun color _ ↦ color) dx dy).toList := by
  obtain ⟨hx, hindex⟩ := hr.index hdx.le hdy.le
  refine draws_add (by omega) (draws_add (by omega) ?_)
  rw [boxStroke, pixelIndex]
  by_cases hlt : (y + dy) * stride + (x + dx) < n
  · rw [if_pos hlt, if_pos hlt]
    refine draws_checked hp ?_
    cases p dx dy with
    | none => exact draws_pure
    | some color => exact draws_store hlt
  · rw [if_neg hlt, if_neg hlt]
    exact draws_pure

/-- **A shape.** -/
theorem draws_drawShape (hr : Reach stride x y w h) {pixel : ℕ → ℕ → Checked (Option UInt32)}
    {p : ℕ → ℕ → Option UInt32} (hp : ∀ dx < w, ∀ dy < h, pixel dx dy = .ok (p dx dy)) :
    Draws n (drawShape stride x y w h pixel) (shapeStrokes n stride x y w h p) := by
  refine draws_bufLen (draws_range fun dy hdy ↦ ?_)
  obtain ⟨hy, hrow⟩ := hr.row hdy.le
  exact draws_add (by omega) (draws_mul (by omega) (draws_range fun dx hdx ↦
    draws_drawPixel hr hdx hdy (hp dx hdx dy hdy)))

theorem draws_drawRect (hr : Reach stride x y w h) :
    Draws n (drawRect stride x y w h color) (shapeStrokes n stride x y w h fun _ _ ↦ some color) :=
  draws_drawShape hr fun _ _ _ _ ↦ rfl

theorem draws_drawMouseCursor (hr : Reach stride x y 16 16) :
    Draws n (drawMouseCursor stride x y) (shapeStrokes n stride x y 16 16 cursorPixel) :=
  draws_drawShape hr fun _ _ _ _ ↦ rfl

/-! ### Rounded rectangles -/

theorem withinRadius_eq {a b : ℕ} (ha : a ≤ r) (hb : b ≤ r) (hfits : 2 * (r * r) < 2 ^ 63) :
    withinRadius (asIsize (r * r)) a b = .ok (decide (a * a + b * b ≤ r * r)) := by
  have haa : a * a ≤ r * r := Nat.mul_self_le_mul_self ha
  have hbb : b * b ≤ r * r := Nat.mul_self_le_mul_self hb
  rw [withinRadius, Checked.mul, if_pos (by omega), Checked.ok_bind, Checked.mul,
    if_pos (by omega), Checked.ok_bind, Checked.add_of_lt (by omega), Checked.ok_bind,
    asIsize_of_lt (by omega), asIsize_of_lt (by omega), Checked.pure_eq_ok]
  simp only [Nat.cast_le]

theorem rounded_corner {a b : ℕ} (hx : cornerDist w r dx = a) (hy : cornerDist h r dy = b)
    (ha : 0 < a) (hb : 0 < b) : rounded w h r dx dy = decide (a * a + b * b ≤ r * r) := by
  rw [rounded, hx, hy]
  have ha0 : a ≠ 0 := by omega
  have hb0 : b ≠ 0 := by omega
  simp only [ha0, hb0, false_or]

theorem rounded_edge (hzero : cornerDist w r dx = 0 ∨ cornerDist h r dy = 0) :
    rounded w h r dx dy = true := by
  rw [rounded, decide_eq_true_eq, ← or_assoc]
  exact Or.inl hzero

theorem corner_eq {a a' b b' : ℕ} (ha : a' ≤ a) (hb : b' ≤ b)
    (hx : cornerDist w r dx = a - a') (hy : cornerDist h r dy = b - b')
    (har : 0 < a - a' ∧ a - a' ≤ r) (hbr : 0 < b - b' ∧ b - b' ≤ r)
    (hfits : 2 * (r * r) < 2 ^ 63) :
    (do withinRadius (asIsize (r * r)) (← Checked.sub a a') (← Checked.sub b b')) =
      .ok (rounded w h r dx dy) := by
  rw [Checked.sub_of_le ha, Checked.ok_bind, Checked.sub_of_le hb, Checked.ok_bind,
    withinRadius_eq har.2 hbr.2 hfits, rounded_corner hx hy har.1 hbr.1]

/-- **Which pixels are drawn**, also where the rectangle is not as high as two corners. -/
theorem roundedDraw_eq (hw : 2 * r ≤ w) (hdx : dx < w) (hdy : dy < h)
    (hfits : 2 * (r * r) < 2 ^ 63) :
    roundedDraw w h r (asIsize (r * r)) dx dy = .ok (rounded w h r dx dy) := by
  rw [roundedDraw, Checked.sub_of_le (show r ≤ w by omega)]
  simp only [Checked.ok_bind]
  by_cases htop : dy < r
  · have hy : cornerDist h r dy = r - dy := if_pos htop
    by_cases hleft : dx < r
    · rw [if_pos ⟨hleft, htop⟩]
      exact corner_eq hleft.le htop.le (if_pos hleft) hy (by omega) (by omega) hfits
    rw [if_neg fun hboth ↦ hleft hboth.1]
    by_cases hright : dx ≥ w - r
    · rw [if_pos ⟨hright, htop⟩, Checked.sub_of_le (by omega), Checked.ok_bind]
      have hx : cornerDist w r dx = dx - (w - r - 1) := by
        rw [cornerDist, if_neg hleft, if_pos hright]
      exact corner_eq (by omega) htop.le hx hy (by omega) (by omega) hfits
    · -- between the upper corners the height does not matter
      have hedge : rounded w h r dx dy = true :=
        rounded_edge (Or.inl (by rw [cornerDist, if_neg hleft, if_neg hright]))
      rw [if_neg fun hboth ↦ hright hboth.1, decide_eq_false hleft, both, if_neg Bool.false_ne_true,
        Checked.pure_eq_ok, Checked.ok_bind, if_neg Bool.false_ne_true, decide_eq_false hright,
        both, if_neg Bool.false_ne_true, Checked.pure_eq_ok, Checked.ok_bind,
        if_neg Bool.false_ne_true, hedge, Checked.pure_eq_ok]
  · rw [if_neg fun hboth ↦ htop hboth.2, if_neg fun hboth ↦ htop hboth.2,
      Checked.sub_of_le (show r ≤ h by omega)]
    simp only [Checked.ok_bind, Checked.pure_eq_ok, both_ok, Bool.and_eq_true, decide_eq_true_eq]
    by_cases hbottom : dy ≥ h - r
    · have hy : cornerDist h r dy = dy - (h - r - 1) := by
        rw [cornerDist, if_neg htop, if_pos hbottom]
      by_cases hleft : dx < r
      · rw [if_pos ⟨hleft, hbottom⟩, Checked.sub_of_le (by omega), Checked.ok_bind]
        exact corner_eq hleft.le (by omega) (if_pos hleft) hy (by omega) (by omega) hfits
      rw [if_neg fun hboth ↦ hleft hboth.1]
      by_cases hright : dx ≥ w - r
      · have hx : cornerDist w r dx = dx - (w - r - 1) := by
          rw [cornerDist, if_neg hleft, if_pos hright]
        rw [if_pos ⟨hright, hbottom⟩, Checked.sub_of_le (by omega), Checked.ok_bind,
          Checked.sub_of_le (by omega), Checked.ok_bind]
        exact corner_eq (by omega) (by omega) hx hy (by omega) (by omega) hfits
      · rw [if_neg fun hboth ↦ hright hboth.1, rounded_edge]
        exact Or.inl (by rw [cornerDist, if_neg hleft, if_neg hright])
    · rw [if_neg fun hboth ↦ hbottom hboth.2, if_neg fun hboth ↦ hbottom hboth.2, rounded_edge]
      exact Or.inr (by rw [cornerDist, if_neg htop, if_neg hbottom])

theorem draws_drawRoundedRect (hr : Reach stride x y w h) (hw : 2 * r ≤ w)
    (hfits : 2 * (r * r) < 2 ^ 63) :
    Draws n (drawRoundedRect stride x y w h r color)
      (shapeStrokes n stride x y w h fun dx dy ↦
        if rounded w h r dx dy then some color else none) := by
  refine draws_mul (by omega) (draws_drawShape hr fun dx hdx dy hdy ↦ ?_)
  rw [roundedPixel, roundedDraw_eq hw hdx hdy hfits, Checked.ok_bind, Checked.pure_eq_ok]

/-! ### Blending -/

theorem toNat_le (v : UInt8) : v.toNat ≤ 255 := Nat.le_of_lt_succ v.toNat_lt

theorem blendChannel_eq {fg bg a : ℕ} (hfg : fg ≤ 255) (hbg : bg ≤ 255) (ha : a ≤ 255) :
    blendChannel fg bg a = .ok (mixChannel fg bg a) := by
  have hfront : fg * a ≤ 255 * 255 := Nat.mul_le_mul hfg ha
  have hback : bg * (255 - a) ≤ 255 * 255 := Nat.mul_le_mul hbg (Nat.sub_le 255 a)
  rw [blendChannel, Checked.mul, if_pos (by omega), Checked.ok_bind, Checked.sub_of_le ha,
    Checked.ok_bind, Checked.mul, if_pos (by omega), Checked.ok_bind,
    Checked.add_of_lt (by omega), Checked.ok_bind, Checked.pure_eq_ok, mixChannel]

theorem blend_eq (color : UInt32) (alpha : UInt8) (bg : UInt32) :
    blend color alpha bg = .ok (mix color alpha bg) := by
  rw [blend, blendChannel_eq (toNat_le _) (toNat_le _) (toNat_le _), Checked.ok_bind,
    blendChannel_eq (toNat_le _) (toNat_le _) (toNat_le _), Checked.ok_bind,
    blendChannel_eq (toNat_le _) (toNat_le _) (toNat_le _), Checked.ok_bind, Checked.pure_eq_ok,
    mix]

/-- **`blend_pixel`** in a pixel of the buffer. -/
theorem draws_blendPixel {idx : ℕ} (h : idx < n) :
    Draws n (blendPixel idx color alpha)
      ((blendChange color alpha).map (Stroke.mk idx)).toList := by
  refine draws_bufLen ?_
  rw [if_neg (not_le.mpr h), blendChange]
  by_cases hfull : alpha = 255
  · rw [if_pos hfull, if_pos hfull]
    exact draws_store h
  by_cases hnone : alpha = 0
  · rw [if_neg hfull, if_pos hnone, if_neg hfull, if_pos hnone]
    exact draws_pure
  · rw [if_neg hfull, if_neg hnone, if_neg hfull, if_neg hnone]
    refine draws_modify h fun bg ↦ ?_
    rw [blend_eq]
    rfl

theorem draws_drawTranslucentRoundedRect (hr : Reach stride x y w h) (hw : 2 * r ≤ w)
    (hfits : 2 * (r * r) < 2 ^ 63) :
    Draws n (drawTranslucentRoundedRect stride x y w h r color alpha)
      (gridStrokes w h (boxStroke n stride x y fun dx dy ↦
        if rounded w h r dx dy then blendChange color alpha else none)) := by
  refine draws_bufLen (draws_mul (by omega) (draws_range fun dy hdy ↦ ?_))
  obtain ⟨hy, hrow⟩ := hr.row hdy.le
  refine draws_add (by omega) (draws_mul (by omega) (draws_range fun dx hdx ↦ ?_))
  obtain ⟨hx, hindex⟩ := hr.index hdx.le hdy.le
  refine draws_add (by omega) (draws_add (by omega) ?_)
  rw [boxStroke, pixelIndex]
  by_cases hlt : (y + dy) * stride + (x + dx) < n
  · rw [if_neg (not_le.mpr hlt), if_pos hlt]
    refine draws_checked (roundedDraw_eq hw hdx hdy hfits) ?_
    by_cases hdraw : rounded w h r dx dy
    · rw [if_pos hdraw, if_pos hdraw]
      exact draws_blendPixel hlt
    · rw [if_neg hdraw, if_neg hdraw]
      exact draws_pure
  · rw [if_pos (not_lt.mp hlt), if_neg hlt]
    exact draws_pure

/-! ### Shadows and circles -/

theorem shifted_eq {off d : ℕ} (hx : x + d < 2 ^ 62) (hoff : off < 2 ^ 62) :
    shifted x off d = .ok (x - off + d) := by
  rw [shifted, asIsize_of_lt (by omega), asIsize_of_lt (by omega), asIsize_of_lt (by omega),
    isize_of_lt (by omega) (by omega), Checked.ok_bind, isize_of_lt (by omega) (by omega)]

/-- **The loops over a box around a place.** -/
theorem draws_drawAround {off : ℕ} (hr : Reach stride x y w h) (hoff : off < 2 ^ 62)
    {paint : ℕ → ℤ → ℤ → ℕ → ℕ → Painting UInt32 Unit}
    {change : ℕ → ℕ → Option (UInt32 → UInt32)}
    (hpaint : ∀ dx < w, ∀ dy < h, ∀ idx < n,
      Draws n (paint idx (x - off + dx) (y - off + dy) dx dy)
        ((change dx dy).map (Stroke.mk idx)).toList) :
    Draws n (drawAround stride x y off (.ok w) h paint)
      (gridStrokes w h (aroundStroke n stride x y off change)) := by
  refine draws_bufLen (draws_range fun dy hdy ↦ ?_)
  obtain ⟨hy, hrow⟩ := hr.row hdy.le
  refine draws_checked (shifted_eq hy hoff) ?_
  by_cases habove : off ≤ y + dy
  · have hpy : ((y : ℤ) - off + dy).toNat = y + dy - off := by omega
    have hmul : (y + dy - off) * stride ≤ (y + dy) * stride := Nat.mul_le_mul_right _ (by omega)
    rw [if_neg (by omega), hpy]
    refine draws_mul (by omega) (draws_checked rfl (draws_range fun dx hdx ↦ ?_))
    obtain ⟨hx, hindex⟩ := hr.index hdx.le hdy.le
    refine draws_checked (shifted_eq hx hoff) ?_
    by_cases hleft : off ≤ x + dx
    · have hpx : ((x : ℤ) - off + dx).toNat = x + dx - off := by omega
      rw [if_neg (by omega), hpx]
      refine draws_add (by omega) ?_
      rw [aroundStroke]
      by_cases hlt : (y + dy - off) * stride + (x + dx - off) < n
      · rw [if_neg (not_le.mpr hlt), if_pos ⟨⟨hleft, habove⟩, hlt⟩]
        exact hpaint dx hdx dy hdy _ hlt
      · rw [if_pos (not_lt.mp hlt), if_neg fun hin ↦ hlt hin.2]
        exact draws_pure
    · rw [if_pos (by omega), aroundStroke, if_neg fun hin ↦ hleft hin.1.1]
      exact draws_pure
  · -- the whole row is above the buffer
    have hnone : ((List.range w).flatMap fun dx ↦
        (aroundStroke n stride x y off change dx dy).toList) = [] := by
      rw [List.flatMap_eq_nil_iff]
      intro dx _
      rw [aroundStroke, if_neg fun hin ↦ habove hin.1.2, Option.toList_none]
    rw [if_pos (by omega), hnone]
    exact draws_pure

section

variable {wx wy ww wh shadowSz : ℕ} {px py : ℤ}

theorem underWindow_eq (hx : wx + ww < 2 ^ 62) (hy : wy + wh < 2 ^ 62) :
    underWindow wx wy ww wh px py =
      .ok (decide ((wx ≤ px ∧ px < wx + ww) ∧ wy ≤ py ∧ py < wy + wh)) := by
  rw [underWindow, asIsize_of_lt (by omega), asIsize_of_lt (by omega), Checked.add_of_lt (by omega),
    Checked.ok_bind, asIsize_of_lt (by omega), Checked.add_of_lt (by omega), Checked.ok_bind,
    asIsize_of_lt (by omega), Checked.pure_eq_ok, both_ok, both_ok]
  push_cast
  simp only [ge_iff_le, Bool.decide_and, Bool.and_assoc]

theorem shadowDist_eq {a m : ℕ} {p : ℤ} (ha : a + m < 2 ^ 62) (hlo : -2 ^ 62 ≤ p) (hhi : p < 2 ^ 62)
    (hsz : shadowSz < 2 ^ 62) : shadowDist shadowSz a m p = .ok (edgeDist shadowSz a m p) := by
  rw [shadowDist, edgeDist, asIsize_of_lt (by omega)]
  by_cases hbefore : p < a
  · rw [if_pos hbefore, if_pos hbefore, isize_of_lt (by omega) (by omega)]
  · rw [if_neg hbefore, if_neg hbefore, Checked.add_of_lt (by omega), Checked.ok_bind,
      asIsize_of_lt (by omega), asIsize_of_lt (by omega)]
    push_cast
    by_cases hbehind : p ≥ a + m
    · rw [if_pos hbehind, if_pos hbehind, isize_of_lt (by omega) (by omega), Checked.ok_bind,
        isize_of_lt (by omega) (by omega)]
    · rw [if_neg hbehind, if_neg hbehind, Checked.pure_eq_ok]

theorem draws_drawShadow 
    (hr : Reach stride wx wy (ww + shadowSz * 2) (wh + shadowSz * 2)) :
    Draws n (drawShadow stride wx wy ww wh shadowSz)
      (shadowStrokes n stride wx wy ww wh shadowSz) := by
  obtain ⟨hx, -⟩ := hr.index le_rfl le_rfl
  obtain ⟨hy, -⟩ := hr.row le_rfl
  have hwidth : (do Checked.add 64 ww (← Checked.mul 64 shadowSz 2)) =
      .ok (ww + shadowSz * 2) := by
    rw [Checked.mul, if_pos (by omega), Checked.ok_bind, Checked.add_of_lt (by omega)]
  rw [drawShadow, hwidth]
  refine draws_mul (by omega) (draws_add (by omega) (draws_drawAround hr (by omega) ?_))
  intro dx hdx dy hdy idx hidx
  refine draws_checked (underWindow_eq (by omega) (by omega)) ?_
  simp only [decide_eq_true_eq]
  rw [shadowChange]
  split_ifs with hunder
  · exact draws_pure
  · refine draws_checked (shadowDist_eq (by omega) (by omega) (by omega) (by omega))
      (draws_checked (shadowDist_eq (by omega) (by omega) (by omega) (by omega)) ?_)
    cases shadowAlpha (max (edgeDist shadowSz wx ww (wx - shadowSz + dx))
      (edgeDist shadowSz wy wh (wy - shadowSz + dy))) shadowSz with
    | none => exact draws_pure
    | some alpha => exact draws_blendPixel hidx

end

/-- The square of a distance from the middle of a circle. -/
theorem sq_bounds {d : ℕ} (hd : d < r * 2 + 1) :
    0 ≤ ((r : ℤ) - d) * (r - d) ∧ ((r : ℤ) - d) * (r - d) ≤ (r * r : ℕ) := by
  have habs : ((r : ℤ) - d).natAbs ≤ r := by omega
  rw [← Int.natAbs_mul_self]
  exact ⟨Int.natCast_nonneg _, Int.ofNat_le.mpr (Nat.mul_self_le_mul_self habs)⟩

theorem draws_drawFilledCircle (hr : Reach stride x y (r * 2 + 1) (r * 2 + 1))
    (hsmall : r < 2 ^ 30) :
    Draws n (drawFilledCircle stride x y r color) (circleStrokes n stride x y r color) := by
  have hsq : r * r < 2 ^ 30 * 2 ^ 30 := Nat.mul_self_lt_mul_self hsmall
  refine draws_mul (by omega) (draws_mul (by omega) (draws_drawAround hr (by omega) ?_))
  intro dx hdx dy hdy idx hidx
  obtain ⟨hx0, hxle⟩ := sq_bounds hdx
  obtain ⟨hy0, hyle⟩ := sq_bounds hdy
  rw [circlePixel, asIsize_of_lt (by omega), asIsize_of_lt (by omega), asIsize_of_lt (by omega),
    asIsize_of_lt (by omega)]
  refine draws_checked (isize_of_lt (by omega) (by omega))
    (draws_checked (isize_of_lt (by omega) (by omega)) ?_)
  refine draws_checked (isize_of_lt (by omega) (by omega))
    (draws_checked (isize_of_lt (by omega) (by omega))
      (draws_checked (isize_of_lt (by omega) (by omega)) ?_))
  rw [Nat.cast_mul]
  split_ifs with hin
  · exact draws_store hidx
  · exact draws_pure

/-! ### Text -/

theorem draws_drawChar (font : Font) (hr : Reach stride x y 8 8) (c : Char) :
    Draws n (drawChar font stride x y c color) (charStrokes font n stride x y c color) := by
  rw [drawChar, charStrokes]
  cases font c with
  | none => exact draws_pure
  | some fontChar =>
    dsimp only
    rw [shapeStrokes, gridStrokes]
    refine draws_bufLen (draws_range fun row hrow ↦ ?_)
    obtain ⟨hy, hoffset⟩ := hr.row hrow.le
    refine draws_add (by omega) (draws_mul (by omega) (draws_range fun col hcol ↦ ?_))
    obtain ⟨hx, hindex⟩ := hr.index hcol.le hrow.le
    rw [boxStroke, pixelIndex]
    by_cases hbit : fontChar.toList.getD row 0 &&& (1 <<< UInt8.ofNat col) ≠ 0
    · rw [if_pos hbit, if_pos hbit]
      refine draws_add (by omega) (draws_add (by omega) ?_)
      by_cases hlt : (y + row) * stride + (x + col) < n
      · rw [if_pos hlt, if_pos hlt]
        exact draws_store hlt
      · rw [if_neg hlt, if_neg hlt]
        exact draws_pure
    · rw [if_neg hbit, if_neg hbit, Option.map_none, Option.map_none, ite_self]
      exact draws_pure

/-- **Text** that is `8` pixels wide for each character. -/
theorem draws_drawChars (font : Font) {s : List Char} (hr : Reach stride x y (8 * s.length) 8) :
    Draws n (drawChars font stride y color x s) (stringStrokes font n stride y color x s) := by
  induction s generalizing x with
  | nil => exact draws_pure
  | cons c s ih =>
    obtain ⟨hpos, hlt⟩ := hr
    rw [List.length_cons] at hlt
    refine (draws_drawChar font ⟨hpos, by omega⟩ c).seq (draws_add (by omega) (ih ⟨hpos, by omega⟩))

theorem draws_drawString (font : Font) {s : String}
    (hr : Reach stride x y (8 * s.toList.length) 8) : Draws n (drawString font stride x y s color)
      (stringStrokes font n stride y color x s.toList) := draws_drawChars font hr

/-! ### What a shape shows -/

theorem mem_gridStrokes {stroke : ℕ → ℕ → Option (Stroke UInt32)} {k : Stroke UInt32} :
    k ∈ gridStrokes w h stroke ↔ ∃ dy < h, ∃ dx < w, stroke dx dy = some k := by
  simp only [gridStrokes, List.mem_flatMap, List.mem_range, Option.mem_toList]

theorem mem_shapeStrokes {p : ℕ → ℕ → Option UInt32} {k : Stroke UInt32} :
    k ∈ shapeStrokes n stride x y w h p ↔ ∃ dy < h, ∃ dx < w, pixelIndex stride x y dx dy < n ∧
      ∃ c, p dx dy = some c ∧ k = .put (pixelIndex stride x y dx dy) c := by
  rw [shapeStrokes, mem_gridStrokes]
  refine exists_congr fun dy ↦ and_congr_right fun _ ↦ exists_congr fun dx ↦
    and_congr_right fun _ ↦ ?_
  rw [boxStroke]
  by_cases hlt : pixelIndex stride x y dx dy < n
  · rw [if_pos hlt, and_iff_right hlt, Option.map_map, Option.map_eq_some_iff]
    exact exists_congr fun c ↦ and_congr_right fun _ ↦ eq_comm
  · rw [if_neg hlt]
    exact iff_of_false (fun hk ↦ by cases hk) fun hk ↦ hlt hk.1

/-- Different pixels of a shape that is not wider than the buffer have different indices. -/
theorem pixelIndex_inj {dx' dy' : ℕ} (hw : w ≤ stride) (hdx : dx < w) (hdx' : dx' < w)
    (h : pixelIndex stride x y dx dy = pixelIndex stride x y dx' dy') : dx = dx' ∧ dy = dy' := by
  have hindex : dx + dy * stride = dx' + dy' * stride := by
    simp only [pixelIndex, Nat.add_mul] at h
    omega
  have hmod := congrArg (· % stride) hindex
  simp only [Nat.add_mul_mod_self_right, Nat.mod_eq_of_lt (show dx < stride by omega),
    Nat.mod_eq_of_lt (show dx' < stride by omega)] at hmod
  subst hmod
  exact ⟨rfl, Nat.eq_of_mul_eq_mul_right (show 0 < stride by omega) (Nat.add_left_cancel hindex)⟩

/-- **A pixel of a shape has its colour**, whatever was there before. -/
theorem applied_shapeStrokes {p : ℕ → ℕ → Option UInt32} (hw : w ≤ stride) (hdx : dx < w)
    (hdy : dy < h) (hlt : pixelIndex stride x y dx dy < n) (hp : p dx dy = some color)
    (a : UInt32) :
    applied (shapeStrokes n stride x y w h p) (pixelIndex stride x y dx dy) a = color := by
  refine applied_of_put (mem_shapeStrokes.mpr ⟨dy, hdy, dx, hdx, hlt, color, hp, rfl⟩)
    (fun k hk hindex ↦ ?_) a
  obtain ⟨dy', -, dx', hdx', -, c, hc, rfl⟩ := mem_shapeStrokes.mp hk
  obtain ⟨rfl, rfl⟩ := pixelIndex_inj hw hdx' hdx hindex
  rw [hp] at hc
  rw [Option.some_inj.mp hc]

end

end RelizOS.Gui
