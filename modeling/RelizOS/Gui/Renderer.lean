import RelizOS.Library.Painting

/-!
# Shapes in the back buffer

A shape is drawn pixel by pixel. A pixel that is off the right edge is not left out: its index is
that of a pixel of the row below, at the left edge, and it is stored there unless this is behind the
end of the buffer. So a shape changes only pixels inside its box exactly when none of its pixels off
the right edge has an index in the buffer that is outside the box (`staysIn_iff`).
-/

namespace RelizOS.Gui

/-! ## The functions -/

/-- The body of the inner loop: `pixel` is the colour of the pixel, if it is drawn. -/
def drawPixel (bufLen rowOffset x dx : ℕ) (pixel : Checked (Option UInt32)) :
    Painting UInt32 Unit := do
  let px ← Checked.add 64 x dx
  let idx ← Checked.add 64 rowOffset px
  if idx < bufLen then
    match ← pixel with
    | some color => Painting.store idx color
    | none => return
  else return

/-- The body of the outer loop. -/
def drawRow (bufLen stride x y w dy : ℕ) (pixel : ℕ → Checked (Option UInt32)) :
    Painting UInt32 Unit := do
  let py ← Checked.add 64 y dy
  let rowOffset ← Checked.mul 64 py stride
  (List.range w).forM fun dx ↦ drawPixel bufLen rowOffset x dx (pixel dx)

/-- The loops of the functions below. -/
def drawShape (stride x y w h : ℕ) (pixel : ℕ → ℕ → Checked (Option UInt32)) :
    Painting UInt32 Unit := do
  let bufLen ← Painting.bufLen
  (List.range h).forM fun dy ↦ drawRow bufLen stride x y w dy fun dx ↦ pixel dx dy

/-- `draw_rect`. -/
def drawRect (stride x y w h : ℕ) (color : UInt32) : Painting UInt32 Unit :=
  drawShape stride x y w h fun _ _ ↦ return some color

/-- `n as isize`. -/
def asIsize (n : ℕ) : ℤ := if n < 2 ^ 63 then n else n - 2 ^ 64

/-- `a && b`, where `b` is not computed if `a` is false. -/
def both (a : Bool) (b : Checked Bool) : Checked Bool := if a then b else return false

/-- `dist_sq > r_sq` does not hold. -/
def withinRadius (rSq : ℤ) (a b : ℕ) : Checked Bool := do
  let distSq ← Checked.add 64 (← Checked.mul 64 a a) (← Checked.mul 64 b b)
  return decide (asIsize distSq ≤ rSq)

/-- `draw`. -/
def roundedDraw (w h r : ℕ) (rSq : ℤ) (dx dy : ℕ) : Checked Bool := do
  if dx < r ∧ dy < r then
    withinRadius rSq (← Checked.sub r dx) (← Checked.sub r dy)
  else if dx ≥ (← Checked.sub w r) ∧ dy < r then
    let cx ← Checked.sub (← Checked.sub w r) 1
    withinRadius rSq (← Checked.sub dx cx) (← Checked.sub r dy)
  else if ← both (dx < r) (do return decide (dy ≥ (← Checked.sub h r))) then
    let cy ← Checked.sub (← Checked.sub h r) 1
    withinRadius rSq (← Checked.sub r dx) (← Checked.sub dy cy)
  else if ← both (dx ≥ (← Checked.sub w r)) (do return decide (dy ≥ (← Checked.sub h r))) then
    let cx ← Checked.sub (← Checked.sub w r) 1
    let cy ← Checked.sub (← Checked.sub h r) 1
    withinRadius rSq (← Checked.sub dx cx) (← Checked.sub dy cy)
  else return true

/-- A pixel of a rectangle with rounded corners. -/
def roundedPixel (w h r : ℕ) (rSq : ℤ) (color : UInt32) (dx dy : ℕ) : Checked (Option UInt32) := do
  return if ← roundedDraw w h r rSq dx dy then some color else none

/-- `draw_rounded_rect`. -/
def drawRoundedRect (stride x y w h r : ℕ) (color : UInt32) : Painting UInt32 Unit := do
  let rSq ← Checked.mul 64 r r
  drawShape stride x y w h (roundedPixel w h r (asIsize rSq) color)

/-- `cursor_mask`. -/
def cursorMask : List String := [
  "X               ",
  "XX              ",
  "X.X             ",
  "X..X            ",
  "X...X           ",
  "X....X          ",
  "X.....X         ",
  "X......X        ",
  "X.......X       ",
  "X........X      ",
  "X.....XXXX      ",
  "X..X..X         ",
  "X.X X..X        ",
  "XX   X..X       ",
  "X     X..X      ",
  "       XX       "]

example : cursorMask.length = 16 ∧ ∀ line ∈ cursorMask, line.toList.length = 16 := by decide

/-- A pixel of the mouse cursor. -/
def cursorPixel (col row : ℕ) : Option UInt32 :=
  match (cursorMask.getD row "").toList.getD col ' ' with
  | 'X' => some 0x000000
  | '.' => some 0xFFFFFF
  | _ => none

/-- `draw_mouse_cursor`. -/
def drawMouseCursor (stride mx my : ℕ) : Painting UInt32 Unit :=
  drawShape stride mx my 16 16 fun col row ↦ return cursorPixel col row

/-! ## Staying inside -/

/-- Drawing changes no pixel of a back buffer that is outside a box. -/
def StaysIn (stride height : ℕ) (draw : Painting UInt32 Unit) (x y w h : ℕ) : Prop :=
  ∀ back : Slice UInt32, back.len = stride * height → ∀ c < stride, ∀ r < height,
    (Painting.exec draw back).2.get (r * stride + c) ≠ back.get (r * stride + c) →
      (x ≤ c ∧ c < x + w) ∧ y ≤ r ∧ r < y + h

/-- The index of a pixel of a shape. -/
def pixelIndex (stride x y dx dy : ℕ) : ℕ := (y + dy) * stride + (x + dx)

/-- No pixel of a shape that is off the right edge is stored outside the box: its index is behind
the end of the buffer, or that of a pixel inside, or the numbers for the row above do not fit. -/
def NoSpill (stride height x y w h : ℕ) (drawn : ℕ → ℕ → Prop) : Prop :=
  ∀ dx < w, ∀ dy < h, drawn dx dy → stride ≤ x + dx →
    stride * height ≤ pixelIndex stride x y dx dy ∨
      (x ≤ pixelIndex stride x y dx dy % stride ∧ pixelIndex stride x y dx dy / stride < y + h) ∨
      (0 < dy ∧ 2 ^ 64 < (y + dy - 1) * stride + (x + w))

/-! ## What is stored -/

section

open Painting

variable {n stride x y w h : ℕ}

theorem paints_drawPixel (rowOffset dx : ℕ) (pixel : Checked (Option UInt32)) :
    Paints n (drawPixel n rowOffset x dx pixel)
      (rowOffset + (x + dx) < 2 ^ 64 ∧ (rowOffset + (x + dx) < n → pixel.Returns))
      fun i c ↦ rowOffset + (x + dx) < 2 ^ 64 ∧ i = rowOffset + (x + dx) ∧ i < n ∧
        pixel = .ok (some c) := by
  have hbody : ∀ idx, Paints n
      (if idx < n then
        (liftM pixel >>= fun color ↦ match color with
          | some color => store idx color
          | none => pure () : Painting UInt32 Unit)
      else pure ()) (idx < n → pixel.Returns) fun i c ↦ i = idx ∧ i < n ∧ pixel = .ok (some c) := by
    intro idx
    by_cases hidx : idx < n
    · rw [if_pos hidx]
      have hcolor : ∀ color, pixel = .ok color → Paints n
          (match color with
            | some color => store idx color
            | none => pure () : Painting UInt32 Unit) True
          fun i c ↦ i = idx ∧ pixel = .ok (some c) := by
        rintro (_ | color) rfl
        · exact paints_pure.congr Iff.rfl fun i c ↦ by simp
        · refine (paints_store hidx).congr Iff.rfl fun i c ↦ ?_
          rw [Except.ok.injEq, Option.some_inj, eq_comm (a := c)]
      refine (paints_checked hcolor).congr ?_ fun i c ↦ ?_
      · rw [and_true]
        exact ⟨fun h _ ↦ h, fun h ↦ h hidx⟩
      · constructor
        · rintro ⟨-, rfl, hc⟩
          exact ⟨rfl, hidx, hc⟩
        · rintro ⟨rfl, -, hc⟩
          exact ⟨⟨_, hc⟩, rfl, hc⟩
    · rw [if_neg hidx]
      refine paints_pure.congr (iff_of_true trivial fun h ↦ absurd h hidx) fun i c ↦
        iff_of_false id ?_
      rintro ⟨rfl, hlt, -⟩
      exact hidx hlt
  refine (paints_add (paints_add (hbody _))).congr ?_ fun i c ↦ ?_
  · exact and_iff_right_of_imp fun hlt ↦ by omega
  · exact and_iff_right_of_imp fun hlt ↦ by omega

/-- The drawing does not panic at a pixel. -/
def PixelOk (n stride x y : ℕ) (pixel : ℕ → ℕ → Checked (Option UInt32)) (dx dy : ℕ) : Prop :=
  pixelIndex stride x y dx dy < 2 ^ 64 ∧
    (pixelIndex stride x y dx dy < n → (pixel dx dy).Returns)

/-- The drawing does not panic in a row. -/
def RowOk (n stride x y w : ℕ) (pixel : ℕ → ℕ → Checked (Option UInt32)) (dy : ℕ) : Prop :=
  y + dy < 2 ^ 64 ∧ (y + dy) * stride < 2 ^ 64 ∧ ∀ dx < w, PixelOk n stride x y pixel dx dy

/-- What drawing a shape stores: pixels with an index in the buffer, before it panics. -/
def Stored (n stride x y w h : ℕ) (pixel : ℕ → ℕ → Checked (Option UInt32)) (i : ℕ) (c : UInt32) :
    Prop :=
  ∃ dy < h, (∀ k < dy, RowOk n stride x y w pixel k) ∧ y + dy < 2 ^ 64 ∧
    (y + dy) * stride < 2 ^ 64 ∧ ∃ dx < w, (∀ j < dx, PixelOk n stride x y pixel j dy) ∧
      pixelIndex stride x y dx dy < 2 ^ 64 ∧ i = pixelIndex stride x y dx dy ∧ i < n ∧
        pixel dx dy = .ok (some c)

/-- **What drawing a shape stores.** -/
theorem paints_drawShape (pixel : ℕ → ℕ → Checked (Option UInt32)) :
    Paints n (drawShape stride x y w h pixel) (∀ dy < h, RowOk n stride x y w pixel dy)
      (Stored n stride x y w h pixel) :=
  paints_bufLen <| paints_forM fun dy _ ↦ paints_add <| paints_mul <| paints_forM fun dx _ ↦
    paints_drawPixel ((y + dy) * stride) dx (pixel dx dy)

/-- Where no pixel panics by itself, a pixel is stored unless the numbers for the row above do not
fit. -/
theorem stored_iff {height : ℕ} (hlen : stride * height < 2 ^ 64)
    {pixel : ℕ → ℕ → Checked (Option UInt32)} (hp : ∀ dx < w, ∀ dy < h, (pixel dx dy).Returns)
    {i : ℕ} {c : UInt32} :
    Stored (stride * height) stride x y w h pixel i c ↔
      ∃ dx < w, ∃ dy < h, (0 < dy → (y + dy - 1) * stride + (x + w) ≤ 2 ^ 64) ∧
        i = pixelIndex stride x y dx dy ∧ i < stride * height ∧ pixel dx dy = .ok (some c) := by
  constructor
  · rintro ⟨dy, hdy, hrows, -, -, dx, hdx, -, -, hi, hlt, hc⟩
    refine ⟨dx, hdx, dy, hdy, fun hpos ↦ ?_, hi, hlt, hc⟩
    -- the row above has been drawn to its end
    obtain ⟨-, -, hrow⟩ := hrows (dy - 1) (by omega)
    have hend := (hrow (w - 1) (by omega)).1
    have habove : y + (dy - 1) = y + dy - 1 := by omega
    rw [pixelIndex, habove] at hend
    omega
  · rintro ⟨dx, hdx, dy, hdy, habove, hi, hlt, hc⟩
    have hstride : 0 < stride := Nat.pos_of_mul_pos_right (Nat.zero_lt_of_lt hlt)
    have hy : y + dy ≤ (y + dy) * stride := Nat.le_mul_of_pos_right _ hstride
    have hindex : pixelIndex stride x y dx dy = (y + dy) * stride + (x + dx) := rfl
    refine ⟨dy, hdy, fun k hk ↦ ?_, by omega, by omega, dx, hdx, fun j hj ↦ ⟨?_, fun _ ↦ ?_⟩,
      by omega, hi, hlt, hc⟩
    · have hmul : (y + k) * stride ≤ (y + dy - 1) * stride := Nat.mul_le_mul_right _ (by omega)
      have hrow := habove (by omega)
      have hle : (y + k) * stride ≤ (y + dy) * stride := Nat.mul_le_mul_right _ (by omega)
      refine ⟨by omega, by omega, fun j hj ↦ ⟨?_, fun _ ↦ hp j hj k (by omega)⟩⟩
      rw [pixelIndex]
      omega
    · rw [pixelIndex]
      omega
    · exact hp j (by omega) dy hdy

theorem mod_div_index {c : ℕ} (hc : c < stride) (r : ℕ) :
    (r * stride + c) % stride = c ∧ (r * stride + c) / stride = r := by
  rw [Nat.mul_add_mod', Nat.mod_eq_of_lt hc, mul_comm, Nat.mul_add_div (Nat.zero_lt_of_lt hc),
    Nat.div_eq_of_lt hc]
  exact ⟨rfl, rfl⟩

/-- The pixel with an index is inside a box. -/
def InBox (stride x y w h i : ℕ) : Prop :=
  (x ≤ i % stride ∧ i % stride < x + w) ∧ y ≤ i / stride ∧ i / stride < y + h

theorem staysIn_iff_stored {height : ℕ} {draw : Painting UInt32 Unit} {P : Prop}
    {stores : ℕ → UInt32 → Prop} (hdraw : Paints (stride * height) draw P stores) {c₀ : UInt32}
    (hfresh : ∀ i, ¬stores i c₀) (hbound : ∀ i c, stores i c → i < stride * height) :
    StaysIn stride height draw x y w h ↔ ∀ i c, stores i c → InBox stride x y w h i := by
  rw [StaysIn]
  constructor
  · intro hstays
    have hchange := (hdraw.changes_iff hfresh fun i ↦
      i < stride * height → InBox stride x y w h i).mp fun back hback i hne hi ↦ ?_
    · exact fun i c hstored ↦ hchange i c hstored (hbound i c hstored)
    · have hstride : 0 < stride := Nat.pos_of_mul_pos_right (Nat.zero_lt_of_lt hi)
      have hin := hstays back hback (i % stride) (Nat.mod_lt i hstride) (i / stride)
        (Nat.div_lt_of_lt_mul hi)
      rw [Nat.div_add_mod'] at hin
      exact hin hne
  · intro hin back hback c hc r _ hne
    have hbox := (hdraw.changes_iff hfresh (InBox stride x y w h)).mpr hin back hback _ hne
    rwa [InBox, (mod_div_index hc r).1, (mod_div_index hc r).2] at hbox

theorem Stored.lt {pixel : ℕ → ℕ → Checked (Option UInt32)} {i : ℕ} {c : UInt32}
    (hi : Stored n stride x y w h pixel i c) : i < n := by
  obtain ⟨dy, -, -, -, -, dx, -, -, -, -, hlt, -⟩ := hi
  exact hlt

theorem Stored.exists_pixel {pixel : ℕ → ℕ → Checked (Option UInt32)} {i : ℕ} {c : UInt32}
    (hi : Stored n stride x y w h pixel i c) : ∃ dx dy, pixel dx dy = .ok (some c) := by
  obtain ⟨dy, -, -, -, -, dx, -, -, -, -, -, hc⟩ := hi
  exact ⟨dx, dy, hc⟩

/-- **When drawing a shape stays inside its box**: when nothing off the right edge is stored
outside. -/
theorem inBox_iff_noSpill {height : ℕ} (hlen : stride * height < 2 ^ 64)
    {pixel : ℕ → ℕ → Checked (Option UInt32)}
    (hp : ∀ dx < w, ∀ dy < h, (pixel dx dy).Returns) :
    (∀ i c, Stored (stride * height) stride x y w h pixel i c → InBox stride x y w h i) ↔
      NoSpill stride height x y w h fun dx dy ↦ ∃ c, pixel dx dy = .ok (some c) := by
  have hstored := @stored_iff stride x y w h height hlen pixel hp
  constructor
  · intro hin dx hdx dy hdy ⟨c, hc⟩ hright
    by_contra hnot
    simp only [not_or, not_le, not_and, not_lt] at hnot
    obtain ⟨hlt, hout, hreached⟩ := hnot
    obtain ⟨⟨hx, -⟩, -, hh⟩ :=
      hin _ c (hstored.mpr ⟨dx, hdx, dy, hdy, hreached, rfl, hlt, hc⟩)
    have hbelow := hout hx
    omega
  · intro hspill i c hi
    obtain ⟨dx, hdx, dy, hdy, habove, rfl, hlt, hc⟩ := hstored.mp hi
    have hstride : 0 < stride := Nat.pos_of_mul_pos_right (Nat.zero_lt_of_lt hlt)
    by_cases hright : stride ≤ x + dx
    · rcases hspill dx hdx dy hdy ⟨c, hc⟩ hright with hbehind | ⟨hx, hh⟩ | ⟨hpos, hover⟩
      · omega
      · have hmod := Nat.mod_lt (pixelIndex stride x y dx dy) hstride
        have hrow : y * stride ≤ pixelIndex stride x y dx dy := by
          have hmul : y * stride ≤ (y + dy) * stride := Nat.mul_le_mul_right _ (by omega)
          rw [pixelIndex]
          omega
        exact ⟨⟨hx, by omega⟩, (Nat.le_div_iff_mul_le hstride).mpr hrow, hh⟩
      · have hle := habove hpos
        omega
    · have hcell := mod_div_index (lt_of_not_ge hright) (y + dy)
      rw [InBox, pixelIndex, hcell.1, hcell.2]
      omega

theorem staysIn_drawShape_iff {height : ℕ} (hlen : stride * height < 2 ^ 64)
    {p : ℕ → ℕ → Option UInt32} {c₀ : UInt32} (hfresh : ∀ dx dy, p dx dy ≠ some c₀) :
    StaysIn stride height (drawShape stride x y w h fun dx dy ↦ .ok (p dx dy)) x y w h ↔
      NoSpill stride height x y w h fun dx dy ↦ (p dx dy).isSome := by
  have hunstored : ∀ i,
      ¬Stored (stride * height) stride x y w h (fun dx dy ↦ .ok (p dx dy)) i c₀ := by
    intro i hi
    obtain ⟨dx, dy, hc⟩ := hi.exists_pixel
    exact hfresh dx dy (Except.ok.inj hc)
  rw [staysIn_iff_stored (paints_drawShape _) hunstored fun i c hi ↦ hi.lt,
    inBox_iff_noSpill hlen fun dx _ dy _ ↦ ⟨_, rfl⟩]
  simp only [Except.ok.injEq, Option.isSome_iff_exists]

end

/-! ## Rounded rectangles -/

section

variable {w h r dx dy : ℕ} {rSq : ℤ}

/-- The radius is at most half of both sides, and its square fits twice. -/
theorem returns_withinRadius {a b : ℕ} (ha : a ≤ r) (hb : b ≤ r) (hfits : 2 * (r * r) < 2 ^ 64) :
    (withinRadius rSq a b).Returns := by
  have haa : a * a ≤ r * r := Nat.mul_self_le_mul_self ha
  have hbb : b * b ≤ r * r := Nat.mul_self_le_mul_self hb
  rw [withinRadius, Checked.mul, if_pos (by omega), Checked.ok_bind, Checked.mul,
    if_pos (by omega), Checked.ok_bind, Checked.add_of_lt (by omega)]
  exact ⟨_, rfl⟩

theorem returns_corner {a a' b b' : ℕ} (ha : a' ≤ a) (har : a - a' ≤ r) (hb : b' ≤ b)
    (hbr : b - b' ≤ r) (hfits : 2 * (r * r) < 2 ^ 64) :
    (do withinRadius rSq (← Checked.sub a a') (← Checked.sub b b')).Returns := by
  rw [Checked.sub_of_le ha, Checked.ok_bind, Checked.sub_of_le hb, Checked.ok_bind]
  exact returns_withinRadius har hbr hfits

theorem both_ok (a b : Bool) : both a (.ok b) = .ok (a && b) := by
  cases a <;> rfl

/-- **No pixel panics** if the radius is at most half of both sides. -/
theorem returns_roundedDraw (hw : 2 * r ≤ w) (hh : 2 * r ≤ h) (hdx : dx < w) (hdy : dy < h)
    (hfits : 2 * (r * r) < 2 ^ 64) : (roundedDraw w h r rSq dx dy).Returns := by
  have hright : Checked.sub w r = .ok (w - r) := Checked.sub_of_le (by omega)
  have hbottom : Checked.sub h r = .ok (h - r) := Checked.sub_of_le (by omega)
  rw [roundedDraw, hright, hbottom]
  simp only [Checked.ok_bind, Checked.pure_eq_ok, both_ok, Bool.and_eq_true, decide_eq_true_eq]
  by_cases htl : dx < r ∧ dy < r
  · rw [if_pos htl]
    exact returns_corner (by omega) (by omega) (by omega) (by omega) hfits
  rw [if_neg htl]
  by_cases htr : dx ≥ w - r ∧ dy < r
  · rw [if_pos htr, Checked.sub_of_le (by omega), Checked.ok_bind]
    exact returns_corner (by omega) (by omega) (by omega) (by omega) hfits
  rw [if_neg htr]
  by_cases hbl : dx < r ∧ dy ≥ h - r
  · rw [if_pos hbl, Checked.sub_of_le (by omega), Checked.ok_bind]
    exact returns_corner (by omega) (by omega) (by omega) (by omega) hfits
  rw [if_neg hbl]
  by_cases hbr : dx ≥ w - r ∧ dy ≥ h - r
  · rw [if_pos hbr, Checked.sub_of_le (by omega), Checked.ok_bind, Checked.sub_of_le (by omega),
      Checked.ok_bind]
    exact returns_corner (by omega) (by omega) (by omega) (by omega) hfits
  · rw [if_neg hbr]
    exact ⟨true, rfl⟩

theorem returns_roundedPixel (color : UInt32) :
    (roundedPixel w h r rSq color dx dy).Returns ↔ (roundedDraw w h r rSq dx dy).Returns :=
  Checked.returns_bind_iff fun _ ↦ ⟨_, rfl⟩

theorem roundedPixel_eq_some {color c : UInt32} :
    roundedPixel w h r rSq color dx dy = .ok (some c) ↔
      roundedDraw w h r rSq dx dy = .ok true ∧ c = color := by
  rw [roundedPixel, Checked.bind_eq_ok]
  constructor
  · rintro ⟨b, hb, hc⟩
    cases b with
    | true =>
      rw [if_pos rfl, Checked.pure_eq_ok, Except.ok.injEq, Option.some_inj] at hc
      exact ⟨hb, hc.symm⟩
    | false => cases hc
  · rintro ⟨hb, rfl⟩
    exact ⟨true, hb, rfl⟩

/-- Where the square of the radius does not fit twice, the first pixel panics and nothing is
stored. -/
theorem not_stored_rounded {n stride x y : ℕ} {color : UInt32} (hr : 0 < r)
    (hfits : 2 ^ 64 ≤ 2 * (r * r)) {i : ℕ} {c : UInt32} :
    ¬Stored n stride x y w h (roundedPixel w h r rSq color) i c := by
  have hpanics : ¬(roundedPixel w h r rSq color 0 0).Returns := by
    rw [returns_roundedPixel, roundedDraw, if_pos ⟨hr, hr⟩,
      Checked.sub_of_le (Nat.zero_le r), Checked.ok_bind, Checked.ok_bind, Nat.sub_zero,
      withinRadius, Checked.returns_mul_bind, Checked.returns_mul_bind, Checked.returns_add_bind]
    omega
  rintro ⟨dy, hdy, hrows, -, -, dx, hdx, hpixels, -, rfl, hlt, hc⟩
  have hfirst : pixelIndex stride x y 0 0 < n := by
    have hmul : (y + 0) * stride ≤ (y + dy) * stride := Nat.mul_le_mul_right _ (by omega)
    rw [pixelIndex] at hlt ⊢
    omega
  -- the first pixel comes before the one that is stored, or is it
  rcases Nat.eq_zero_or_pos dy with rfl | hpos
  · rcases Nat.eq_zero_or_pos dx with rfl | hpos
    · exact hpanics ⟨_, hc⟩
    · exact hpanics ((hpixels 0 hpos).2 hfirst)
  · exact hpanics (((hrows 0 hpos).2.2 0 (by omega)).2 hfirst)

end

/-! ## The three shapes -/

section

variable {stride height x y w h : ℕ}

/-- A rectangle at the left edge that is too wide reaches the first pixel below the box, from its
first row if this is long enough, else from its last. -/
theorem le_of_noSpill_left (hlen : 4 * (stride * height) < 2 ^ 63) (hstride : 0 < stride)
    (hh : 0 < h) (hwide : stride < w) (hspill : NoSpill stride height 0 y w h fun _ _ ↦ True) :
    stride * height ≤ (y + h) * stride := by
  have hmul : (y + h) * stride = y * stride + h * stride := Nat.add_mul y h stride
  by_contra hbelow
  by_cases hrow : h * stride < w
  · have hindex : pixelIndex stride 0 y (h * stride) 0 = (y + h) * stride := by
      rw [pixelIndex, Nat.add_zero]
      omega
    have hright : stride ≤ 0 + h * stride := by
      rw [Nat.zero_add]
      exact Nat.le_mul_of_pos_left _ hh
    have hcases := hspill (h * stride) hrow 0 hh trivial hright
    rw [hindex, Nat.mul_div_cancel _ hstride] at hcases
    omega
  · have hlast : (y + (h - 1)) * stride + stride = (y + h) * stride := by
      rw [← Nat.succ_mul]
      congr 1
      omega
    have hindex : pixelIndex stride 0 y stride (h - 1) = (y + h) * stride := by
      rw [pixelIndex]
      omega
    have habove : (y + (h - 1) - 1) * stride ≤ (y + h) * stride :=
      Nat.mul_le_mul_right _ (by omega)
    have hcases := hspill stride hwide (h - 1) (by omega) trivial (by omega)
    rw [hindex, Nat.mul_div_cancel _ hstride] at hcases
    omega

/-- Another rectangle that is too wide reaches, in its first row, the first pixel off the right
edge, which is to the left of the box. -/
theorem le_of_noSpill (hstride : 0 < stride) (hx : 0 < x) (hh : 0 < h) (hwide : stride < x + w)
    (hw : 0 < w) (hspill : NoSpill stride height x y w h fun _ _ ↦ True) :
    stride * height ≤ y * stride + max x stride := by
  have hcases := hspill (max x stride - x) (by omega) 0 hh trivial (by omega)
  have hindex : pixelIndex stride x y (max x stride - x) 0 = y * stride + max x stride := by
    rw [pixelIndex, Nat.add_zero]
    omega
  rw [hindex, Nat.mul_add_mod'] at hcases
  have hmod : max x stride % stride < x := by
    rcases le_total x stride with hle | hle
    · rw [max_eq_right hle, Nat.mod_self]
      exact hx
    · exact lt_of_lt_of_le (Nat.mod_lt _ hstride) hle
  omega

/-- A rectangle without gaps: some pixel off the right edge is stored outside exactly when the first
one is, or, if every row begins at the left edge, the first one below the box. -/
theorem noSpill_rect_iff (hlen : 4 * (stride * height) < 2 ^ 63) :
    (NoSpill stride height x y w h fun _ _ ↦ True) ↔
      w = 0 ∨ h = 0 ∨ x + w ≤ stride ∨
        stride * height ≤ if x = 0 then (y + h) * stride else y * stride + max x stride := by
  constructor
  · intro hspill
    by_contra hnot
    simp only [not_or, not_le] at hnot
    obtain ⟨hw, hh, hright, hbehind⟩ := hnot
    have hstride : 0 < stride := Nat.pos_of_mul_pos_right (Nat.zero_lt_of_lt hbehind)
    have hrows := Nat.pos_of_ne_zero hh
    by_cases hx : x = 0
    · subst hx
      rw [if_pos rfl] at hbehind
      exact absurd (le_of_noSpill_left hlen hstride hrows (by omega) hspill) (not_le.mpr hbehind)
    · rw [if_neg hx] at hbehind
      exact absurd (le_of_noSpill hstride (Nat.pos_of_ne_zero hx) hrows hright
        (Nat.pos_of_ne_zero hw) hspill) (not_le.mpr hbehind)
  · intro hclosed dx hdx dy hdy _ hright
    have hrow : y * stride ≤ (y + dy) * stride := Nat.mul_le_mul_right _ (by omega)
    rcases hclosed with hw | hh | hfits | hbehind
    · omega
    · omega
    · omega
    · by_cases hx : x = 0
      · rw [if_pos hx] at hbehind
        by_cases hge : stride * height ≤ pixelIndex stride x y dx dy
        · exact Or.inl hge
        · exact Or.inr (Or.inl ⟨by omega, Nat.div_lt_of_lt_mul (by rw [mul_comm]; omega)⟩)
      · rw [if_neg hx] at hbehind
        refine Or.inl ?_
        rw [pixelIndex]
        omega

end

theorem exists_ne_color (color : UInt32) : ∃ c₀ : UInt32, c₀ ≠ color := by
  by_cases h : color = 0
  · exact ⟨1, fun heq ↦ absurd (heq.trans h) (by decide)⟩
  · exact ⟨0, fun heq ↦ h heq.symm⟩

theorem cursorPixel_ne (col row : ℕ) : cursorPixel col row ≠ some 1 := by
  rw [cursorPixel]
  split
  · decide
  · decide
  · simp

section

variable {stride height : ℕ}

theorem staysIn_drawMouseCursor_iff (hlen : 4 * (stride * height) < 2 ^ 63) (mx my : ℕ) :
    StaysIn stride height (drawMouseCursor stride mx my) mx my 16 16 ↔
      NoSpill stride height mx my 16 16 fun col row ↦ (cursorPixel col row).isSome :=
  staysIn_drawShape_iff (by omega) cursorPixel_ne

theorem staysIn_drawRect_iff (hlen : 4 * (stride * height) < 2 ^ 63) (x y w h : ℕ)
    (color : UInt32) :
    StaysIn stride height (drawRect stride x y w h color) x y w h ↔
      w = 0 ∨ h = 0 ∨ x + w ≤ stride ∨
        stride * height ≤ if x = 0 then (y + h) * stride else y * stride + max x stride := by
  obtain ⟨c₀, hne⟩ := exists_ne_color color
  have hdraw : StaysIn stride height (drawRect stride x y w h color) x y w h ↔
      NoSpill stride height x y w h fun _ _ ↦ (some color).isSome :=
    staysIn_drawShape_iff (by omega) fun _ _ heq ↦ hne (Option.some.inj heq).symm
  rw [← noSpill_rect_iff hlen]
  exact hdraw.trans (by simp only [Option.isSome_some])

theorem staysIn_drawRoundedRect_iff (hlen : 4 * (stride * height) < 2 ^ 63) {x y w h r : ℕ}
    (color : UInt32) (hw : 2 * r ≤ w) (hh : 2 * r ≤ h) :
    StaysIn stride height (drawRoundedRect stride x y w h r color) x y w h ↔
      2 ^ 64 ≤ 2 * (r * r) ∨ NoSpill stride height x y w h fun dx dy ↦
        roundedDraw w h r (asIsize (r * r)) dx dy = .ok true := by
  obtain ⟨c₀, hne⟩ := exists_ne_color color
  have hdraw := Painting.paints_mul (w := 64) (a := r) (b := r)
    (f := fun rSq ↦ drawShape stride x y w h (roundedPixel w h r (asIsize rSq) color))
    (paints_drawShape (n := stride * height) _)
  have hunstored : ∀ i, ¬(r * r < 2 ^ 64 ∧ Stored (stride * height) stride x y w h
      (roundedPixel w h r (asIsize (r * r)) color) i c₀) := by
    intro i hi
    obtain ⟨dx, dy, hc⟩ := hi.2.exists_pixel
    exact hne (roundedPixel_eq_some.mp hc).2
  rw [drawRoundedRect, staysIn_iff_stored hdraw hunstored]
  · by_cases hfits : 2 ^ 64 ≤ 2 * (r * r)
    · refine iff_of_true (fun i c hi ↦ absurd hi.2 (not_stored_rounded ?_ hfits)) (Or.inl hfits)
      by_contra hzero
      rw [Nat.eq_zero_of_not_pos hzero] at hfits
      omega
    · have hreturns : ∀ dx < w, ∀ dy < h,
          (roundedPixel w h r (asIsize (r * r)) color dx dy).Returns := fun dx hdx dy hdy ↦
        (returns_roundedPixel color).mpr (returns_roundedDraw hw hh hdx hdy (by omega))
      have hspill := inBox_iff_noSpill (x := x) (y := y)
        (show stride * height < 2 ^ 64 by omega) hreturns
      have hsquare : r * r < 2 ^ 64 := by omega
      simp only [roundedPixel_eq_some, exists_and_left, exists_eq, and_true] at hspill
      rw [or_iff_right hfits, ← hspill]
      simp only [hsquare, true_and]
  · intro i c hi
    exact hi.2.lt

end

/-- **When shapes stay inside their boxes.** -/
theorem staysIn_iff (stride height : ℕ) (hlen : 4 * (stride * height) < 2 ^ 63) :
    (∀ mx < stride, ∀ my < height,
      (StaysIn stride height (drawMouseCursor stride mx my) mx my 16 16 ↔
        NoSpill stride height mx my 16 16 fun col row ↦ (cursorPixel col row).isSome)) ∧
    (∀ x y w h color, (StaysIn stride height (drawRect stride x y w h color) x y w h ↔
      w = 0 ∨ h = 0 ∨ x + w ≤ stride ∨
        stride * height ≤ if x = 0 then (y + h) * stride else y * stride + max x stride)) ∧
    ∀ x y w h r color, 2 * r ≤ w → 2 * r ≤ h →
      (StaysIn stride height (drawRoundedRect stride x y w h r color) x y w h ↔
        2 ^ 64 ≤ 2 * (r * r) ∨ NoSpill stride height x y w h fun dx dy ↦
          roundedDraw w h r (asIsize (r * r)) dx dy = .ok true) :=
  ⟨fun mx _ my _ ↦ staysIn_drawMouseCursor_iff hlen mx my,
    fun x y w h color ↦ staysIn_drawRect_iff hlen x y w h color,
    fun _ _ _ _ _ color hw hh ↦ staysIn_drawRoundedRect_iff hlen color hw hh⟩

/-- The theorem at shapes in the last row of a screen: the pixels off the right edge have indices
behind the end of the buffer. -/
theorem staysIn_lastRow :
    StaysIn 100 50 (drawMouseCursor 100 90 49) 90 49 16 16 ∧
      StaysIn 100 50 (drawRect 100 80 49 40 30 0xFF0000) 80 49 40 30 ∧
      StaysIn 100 50 (drawRoundedRect 100 80 49 40 30 8 0xFF0000) 80 49 40 30 := by
  obtain ⟨hcursor, hrect, hrounded⟩ := staysIn_iff 100 50 (by omega)
  refine ⟨(hcursor 90 (by omega) 49 (by omega)).mpr ?_,
    (hrect 80 49 40 30 0xFF0000).mpr (by decide),
    (hrounded 80 49 40 30 8 0xFF0000 (by omega) (by omega)).mpr (Or.inr ?_)⟩
  · intro dx _ dy _ _ hright
    rw [pixelIndex]
    omega
  · intro dx _ dy _ _ hright
    rw [pixelIndex]
    omega

/-- **A shape at the right edge is drawn at the left edge too**: the mouse cursor in the last column
of the screen. -/
theorem not_staysIn :
    ¬∀ stride height mx my : ℕ, mx < stride → my < height →
      StaysIn stride height (drawMouseCursor stride mx my) mx my 16 16 := by
  intro hgeneral
  have hstays := hgeneral 100 50 99 20 (by omega) (by omega)
  rw [staysIn_drawMouseCursor_iff (by omega)] at hstays
  exact absurd (hstays 1 (by omega) 1 (by omega) (by decide) (by omega)) (by decide)

end RelizOS.Gui
