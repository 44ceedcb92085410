import Mathlib.Data.List.Induction
import RelizOS.Gui.Compositor
import RelizOS.Gui.Drawing
import RelizOS.Gui.WindowLimit

/-!
# The picture of the desktop

`composite` draws the whole desktop into the back buffer: a gradient, the windows, the dock with its
icons, and the mouse cursor, each over what is there already.

`frame` is the intended picture, a list of strokes that only depends on the windows and on the place
of the mouse. On every layout that the manager reaches, `composite` either makes exactly these
strokes or panics, and it panics exactly on screens that are too narrow for the icons of the dock or
too low for the dock (`composite_correct`). Since the gradient covers everything, nothing is left of
the picture before.
-/

namespace RelizOS.Gui

open Painting Stroke

/-! ## The code -/

/-- `get_dock_rect`. -/
def LayoutManager.getDockRect (m : LayoutManager) : Checked (ℕ × ℕ × ℕ × ℕ) := do
  let dockW := min 450 (← Checked.sub m.screenW 40)
  let dockX := (← Checked.sub m.screenW dockW) / 2
  let dockY ← Checked.add 64 (← Checked.sub m.screenH m.dockH) 10
  let dockH ← Checked.sub m.dockH 20
  return (dockX, dockY, dockW, dockH)

/-- The gradient. -/
def drawBackground (width height : ℕ) : Painting UInt32 Unit :=
  (List.range height).forM fun y ↦ do
    let r ← Checked.add 64 15 ((← Checked.mul 64 11 y) / height)
    let g ← Checked.add 64 10 ((← Checked.mul 64 17 y) / height)
    let b ← Checked.add 64 28 ((← Checked.mul 64 10 y) / height)
    let rowOffset ← Checked.mul 64 y width
    (List.range width).forM fun x ↦ do
      let idx ← Checked.add 64 rowOffset x
      store idx (rgb r g b)

/-- `title`. -/
def windowTitle (id : UInt64) : String :=
  if id = 1 then "Terminal Shell"
  else if id = 2 then "File Manager"
  else if id = 3 then "System Monitor"
  else "Application Window"

/-- The simulated contents of a window: how far below its upper edge, which text, which colour. -/
def windowText (id : UInt64) : List (ℕ × String × UInt32) :=
  if id = 1 then [
    (40, "guest@relizos:~$ neofetch", 0xA6E3A1),
    (60, "OS: RelizOS x86_64", 0xCDD6F4),
    (75, "Kernel: relizos-rust 0.1.0", 0xCDD6F4),
    (90, "Uptime: 42 seconds", 0xCDD6F4),
    (105, "Shell: relizsh", 0xCDD6F4),
    (120, "Memory: 2.4 MB / 16.0 MB", 0xCDD6F4)]
  else if id = 2 then [
    (40, "[DIR]  bin", 0x89B4FA),
    (55, "[DIR]  dev", 0x89B4FA),
    (70, "[DIR]  home", 0x89B4FA),
    (85, "[DIR]  kernel", 0x89B4FA),
    (100, "[FILE] README.txt", 0xF5C2E7)]
  else if id = 3 then [
    (40, "CPU Usage: [|||||||||         ] 45%", 0xF9E2AF),
    (60, "RAM Usage: [||||||            ] 30%", 0x89B4FA),
    (80, "Tasks active: 5", 0xCDD6F4)]
  else [(40, "Tiled application view.", 0xA6ADC8)]

/-- One of the three dots in the title bar of a window. -/
def drawButton (stride : ℕ) (w : WindowInfo) (right : ℕ) (color : UInt32) :
    Painting UInt32 Unit := do
  let x ← Checked.add 64 w.x right
  let y ← Checked.add 64 w.y 14
  drawFilledCircle stride x y 4 color

/-- A text in a window. -/
def drawLabel (font : Font) (stride : ℕ) (w : WindowInfo) (right below : ℕ) (text : String)
    (color : UInt32) : Painting UInt32 Unit := do
  let x ← Checked.add 64 w.x right
  let y ← Checked.add 64 w.y below
  drawString font stride x y text color

/-- The body of the loop over the windows. -/
def drawWindow (font : Font) (stride : ℕ) (w : WindowInfo) :
    Painting UInt32 Unit := do
  drawShadow stride w.x w.y w.w w.h 12
  drawRoundedRect stride w.x w.y w.w w.h 8 0x1E1E2E
  drawRoundedRect stride w.x w.y w.w 28 8 0x181825
  let flatY ← Checked.add 64 w.y 8
  drawRect stride w.x flatY w.w 20 0x181825
  drawButton stride w 16 0xFF5F56
  drawButton stride w 28 0xFFBD2E
  drawButton stride w 40 0x27C93F
  drawLabel font stride w 56 10 (windowTitle w.id) 0xCDD6F4
  (windowText w.id).forM fun (below, text, color) ↦ drawLabel font stride w 15 below text color

/-- The `match` on the number of an icon: `cx` and `cy` are the middle of the icon. -/
def drawIcon (font : Font) (stride : ℕ) (cx cy i : ℕ) : Painting UInt32 Unit := do
  match i with
  | 0 =>
    drawRoundedRect stride (← Checked.sub cx 12) (← Checked.sub cy 12) 24 24 4 0x313244
    drawString font stride (← Checked.sub cx 4) (← Checked.sub cy 4) ">" 0xA6E3A1
  | 1 =>
    drawRoundedRect stride (← Checked.sub cx 12) (← Checked.sub cy 12) 24 24 4 0xF9E2AF
    drawRect stride (← Checked.sub cx 8) (← Checked.sub cy 8) 16 16 0xCDD6F4
  | 2 =>
    drawFilledCircle stride cx cy 10 0x89B4FA
    drawFilledCircle stride (← Checked.sub cx 2) (← Checked.sub cy 2) 4 0xA6E3A1
  | 3 =>
    drawFilledCircle stride cx cy 10 0x45475A
    drawFilledCircle stride cx cy 4 0x11111B
  | 4 =>
    drawRoundedRect stride (← Checked.sub cx 12) (← Checked.sub cy 12) 24 24 4 0xF5C2E7
    drawRect stride (← Checked.sub cx 8) (← Checked.sub cy 8) 16 16 0xF38BA8
  | _ => return

/-- The dock with its icons. -/
def drawDock (font : Font) (stride : ℕ) (layout : LayoutManager) :
    Painting UInt32 Unit := do
  let (dockX, dockY, dockW, dockH) ← layout.getDockRect
  drawShadow stride dockX dockY dockW dockH 8
  drawTranslucentRoundedRect stride dockX dockY dockW dockH 8 0x1E1E2E 180
  let startIconX ← Checked.add 64 dockX ((← Checked.sub dockW (5 * 50)) / 2)
  let iconY ← Checked.add 64 dockY ((← Checked.sub dockH 24) / 2)
  (List.range 5).forM fun i ↦ do
    let cx ← Checked.add 64 (← Checked.add 64 startIconX (← Checked.mul 64 i 50)) 12
    let cy ← Checked.add 64 iconY 12
    drawIcon font stride cx cy i

/-- What `composite` does to the buffer. -/
def drawDesktop (font : Font) (width height : ℕ)
    (layout : LayoutManager) (mouseX mouseY : ℕ) : Painting UInt32 Unit := do
  drawBackground width height
  layout.windows.forM (drawWindow font width)
  drawDock font width layout
  drawMouseCursor width mouseX mouseY

/-- `composite`. -/
def Compositor.composite (font : Font) (c : Compositor)
    (layout : LayoutManager) (mouseX mouseY : ℕ) : Checked Compositor :=
  match exec (drawDesktop font c.width c.height layout mouseX mouseY) c.buffer with
  | (.ok (), buffer) => .ok { c with buffer := buffer }
  | (.error e, _) => .error e

/-! ## The intended picture -/

/-- The colour of a row of the gradient. -/
def gradient (height y : ℕ) : UInt32 :=
  rgb (15 + 11 * y / height) (10 + 17 * y / height) (28 + 10 * y / height)

def backgroundStrokes (width height : ℕ) : List (Stroke UInt32) :=
  (List.range height).flatMap fun y ↦ (List.range width).flatMap fun x ↦
    [.put (y * width + x) (gradient height y)]

/-- A rectangle with rounded corners. -/
def roundedStrokes (n stride x y w h r : ℕ) (color : UInt32) : List (Stroke UInt32) :=
  shapeStrokes n stride x y w h fun dx dy ↦ if rounded w h r dx dy then some color else none

def windowStrokes (font : Font) (n stride : ℕ) (w : WindowInfo) :
    List (Stroke UInt32) :=
  shadowStrokes n stride w.x w.y w.w w.h 12 ++
  (roundedStrokes n stride w.x w.y w.w w.h 8 0x1E1E2E ++
  (roundedStrokes n stride w.x w.y w.w 28 8 0x181825 ++
  (shapeStrokes n stride w.x (w.y + 8) w.w 20 (fun _ _ ↦ some 0x181825) ++
  (circleStrokes n stride (w.x + 16) (w.y + 14) 4 0xFF5F56 ++
  (circleStrokes n stride (w.x + 28) (w.y + 14) 4 0xFFBD2E ++
  (circleStrokes n stride (w.x + 40) (w.y + 14) 4 0x27C93F ++
  (stringStrokes font n stride (w.y + 10) 0xCDD6F4 (w.x + 56) (windowTitle w.id).toList ++
  (windowText w.id).flatMap fun (below, text, color) ↦
    stringStrokes font n stride (w.y + below) color (w.x + 15) text.toList)))))))

/-- The strokes of an icon in the square of 24 by 24 pixels at a place. -/
def iconStrokes (font : Font) (n stride x y : ℕ) : ℕ → List (Stroke UInt32)
  | 0 => roundedStrokes n stride x y 24 24 4 0x313244 ++
      stringStrokes font n stride (y + 8) 0xA6E3A1 (x + 8) ['>']
  | 1 => roundedStrokes n stride x y 24 24 4 0xF9E2AF ++
      shapeStrokes n stride (x + 4) (y + 4) 16 16 fun _ _ ↦ some 0xCDD6F4
  | 2 => circleStrokes n stride (x + 12) (y + 12) 10 0x89B4FA ++
      circleStrokes n stride (x + 10) (y + 10) 4 0xA6E3A1
  | 3 => circleStrokes n stride (x + 12) (y + 12) 10 0x45475A ++
      circleStrokes n stride (x + 12) (y + 12) 4 0x11111B
  | 4 => roundedStrokes n stride x y 24 24 4 0xF5C2E7 ++
      shapeStrokes n stride (x + 4) (y + 4) 16 16 fun _ _ ↦ some 0xF38BA8
  | _ => []

/-- The dock: 450 pixels wide at most, in the middle, 10 pixels above the lower edge. -/
def dockRect (width height : ℕ) : Rect :=
  ⟨(width - min 450 (width - 40)) / 2, height - 50, min 450 (width - 40), 40⟩

def dockStrokes (font : Font) (n stride : ℕ) (dock : Rect) :
    List (Stroke UInt32) :=
  shadowStrokes n stride dock.x dock.y dock.w dock.h 8 ++
  (gridStrokes dock.w dock.h (boxStroke n stride dock.x dock.y fun dx dy ↦
    if rounded dock.w dock.h 8 dx dy then blendChange 0x1E1E2E 180 else none) ++
  (List.range 5).flatMap fun i ↦
    iconStrokes font n stride (dock.x + (dock.w - 250) / 2 + i * 50) (dock.y + 8) i)

/-- What is drawn over the gradient. -/
def layers (font : Font) (width height : ℕ) (windows : List WindowInfo)
    (mouseX mouseY : ℕ) : List (Stroke UInt32) :=
  windows.flatMap (windowStrokes font (width * height) width) ++
  (dockStrokes font (width * height) width (dockRect width height) ++
  shapeStrokes (width * height) width mouseX mouseY 16 16 cursorPixel)

/-- **The picture of the desktop.** -/
def frame (font : Font) (width height : ℕ) (windows : List WindowInfo)
    (mouseX mouseY : ℕ) : List (Stroke UInt32) :=
  backgroundStrokes width height ++ layers font width height windows mouseX mouseY

/-! ## The code draws it -/

/-- The screen is wide and high enough for the dock, and its pixels can be counted. -/
structure Room (W H : ℕ) : Prop where
  width : 290 ≤ W
  height : 60 ≤ H
  fits : 4 * (W * H) < 2 ^ 63

section

variable {W H x y w h : ℕ} {font : Font} {n : ℕ}

/-- Nothing is drawn far below the screen or far to the right of it. -/
theorem Room.reach (hroom : Room W H) (hx : x + w ≤ W + 800)
    (hy : y + h ≤ H + 50 ∨ 80 ≤ H ∧ y + h ≤ H + 70) : Reach W x y w h := by
  obtain ⟨hwidth, hheight, hfits⟩ := hroom
  have hmul : ∀ {k}, y + h ≤ H + k → (y + h) * W ≤ H * W + k * W := fun hle ↦
    (Nat.mul_le_mul_right _ hle).trans_eq (Nat.add_mul H _ W)
  rw [mul_comm W] at hfits
  refine ⟨by omega, ?_⟩
  rcases hy with hy | ⟨hhigh, hy⟩
  · have hrows : 60 * W ≤ H * W := Nat.mul_le_mul_right _ hheight
    have hlast := hmul hy
    omega
  · have hrows : 80 * W ≤ H * W := Nat.mul_le_mul_right _ hhigh
    have hlast := hmul hy
    omega

theorem Room.sides_lt (hroom : Room W H) : W < 2 ^ 56 ∧ H < 2 ^ 56 := by
  obtain ⟨hwidth, hheight, hfits⟩ := hroom
  have hcolumns : 290 * H ≤ W * H := Nat.mul_le_mul_right _ hwidth
  have hrows : W * 60 ≤ W * H := Nat.mul_le_mul_left _ hheight
  constructor
  · omega
  · omega

theorem draws_drawBackground (hroom : Room W H) :
    Draws (W * H) (drawBackground W H) (backgroundStrokes W H) := by
  obtain ⟨hW, hH⟩ := hroom.sides_lt
  have hlen := hroom.fits
  refine draws_range fun y hy ↦ ?_
  have hdiv : ∀ k, k * y / H ≤ k * y := fun k ↦ Nat.div_le_self _ _
  have hred := hdiv 11
  have hgreen := hdiv 17
  have hblue := hdiv 10
  refine draws_mul (by omega) (draws_add (by omega) (draws_mul (by omega) (draws_add (by omega)
    (draws_mul (by omega) (draws_add (by omega) ?_)))))
  have hrow : y * W + W ≤ W * H := by
    rw [← Nat.succ_mul, mul_comm W]
    exact Nat.mul_le_mul_right W hy
  exact draws_mul (by omega) (draws_range fun x hx ↦
    draws_add (by omega) (draws_store (by omega)))

/-! ### A window -/

/-- The window lies in the workspace, and is wide enough for its corners. -/
structure Drawable (W H : ℕ) (win : WindowInfo) : Prop where
  right : win.x + win.w ≤ W
  bottom : win.y + win.h + 60 ≤ H
  wide : 16 ≤ win.w
  high : 80 ≤ H

section

variable {win : WindowInfo}

theorem draws_drawButton (hroom : Room W H) (hwin : Drawable W H win) {right : ℕ}
    (hright : right ≤ 40) (color : UInt32) :
    Draws n (drawButton W win right color)
      (circleStrokes n W (win.x + right) (win.y + 14) 4 color) := by
  obtain ⟨hW, hH⟩ := hroom.sides_lt
  obtain ⟨hx, hy, hwide, hhigh⟩ := hwin
  exact draws_add (by omega) (draws_add (by omega)
    (draws_drawFilledCircle (hroom.reach (by omega) (by omega)) (by omega)))

theorem draws_drawLabel (hroom : Room W H) (hwin : Drawable W H win) {right below : ℕ}
    {text : String} (hright : right ≤ 56) (hbelow : below ≤ 120) (htext : text.toList.length ≤ 40)
    (color : UInt32) : Draws n (drawLabel font W win right below text color)
      (stringStrokes font n W (win.y + below) color (win.x + right) text.toList) := by
  obtain ⟨hW, hH⟩ := hroom.sides_lt
  obtain ⟨hx, hy, hwide, hhigh⟩ := hwin
  exact draws_add (by omega) (draws_add (by omega)
    (draws_drawString font (hroom.reach (by omega) (by omega))))

theorem length_windowTitle (id : UInt64) : (windowTitle id).toList.length ≤ 40 := by
  rw [windowTitle]
  split_ifs <;> decide

theorem windowText_bounds (id : UInt64) :
    ∀ t ∈ windowText id, t.1 ≤ 120 ∧ t.2.1.toList.length ≤ 40 := by
  rw [windowText]
  split_ifs <;> decide

/-- **A window.** -/
theorem draws_drawWindow (hroom : Room W H) (hwin : Drawable W H win) :
    Draws n (drawWindow font W win) (windowStrokes font n W win) := by
  obtain ⟨hW, hH⟩ := hroom.sides_lt
  have hx := hwin.right
  have hy := hwin.bottom
  have hwide := hwin.wide
  refine (draws_drawShadow (hroom.reach (by omega) (by omega))).seq ?_
  refine (draws_drawRoundedRect (hroom.reach (by omega) (by omega)) hwide (by omega)).seq ?_
  refine (draws_drawRoundedRect (hroom.reach (by omega) (by omega)) hwide (by omega)).seq ?_
  refine draws_add (by omega) ((draws_drawRect (hroom.reach (by omega) (by omega))).seq ?_)
  refine (draws_drawButton hroom hwin (by omega) _).seq ?_
  refine (draws_drawButton hroom hwin (by omega) _).seq ?_
  refine (draws_drawButton hroom hwin (by omega) _).seq ?_
  refine (draws_drawLabel hroom hwin (by omega) (by omega) (length_windowTitle _) _).seq ?_
  refine draws_forM fun t ht ↦ ?_
  obtain ⟨hbelow, hlength⟩ := windowText_bounds win.id t ht
  exact draws_drawLabel hroom hwin (by omega) hbelow hlength _

end

/-! ### The dock -/

theorem draws_square (hroom : Room W H) (hx : x + 24 ≤ W) (hy : y + 24 ≤ H) {color : UInt32} :
    Draws n (drawRoundedRect W x y 24 24 4 color) (roundedStrokes n W x y 24 24 4 color) :=
  draws_drawRoundedRect (hroom.reach (by omega) (by omega)) (by omega) (by omega)

/-- **An icon.** -/
theorem draws_drawIcon (hroom : Room W H) (hx : x + 24 ≤ W) (hy : y + 24 ≤ H) (i : ℕ) :
    Draws n (drawIcon font W (x + 12) (y + 12) i) (iconStrokes font n W x y i) := by
  have hbox : ∀ {a b c d}, a ≤ 12 → b ≤ 12 → c ≤ 21 → d ≤ 21 → Reach W (x + a) (y + b) c d :=
    fun ha hb hc hd ↦ hroom.reach (by omega) (by omega)
  match i with
  | 0 =>
    exact draws_sub rfl (draws_sub rfl ((draws_square hroom hx hy).seq
      (draws_sub rfl (draws_sub rfl
        (draws_drawString font (hbox (by omega) (by omega) (by decide) (by omega)))))))
  | 1 =>
    exact draws_sub rfl (draws_sub rfl ((draws_square hroom hx hy).seq
      (draws_sub rfl (draws_sub rfl
        (draws_drawRect (hbox (by omega) (by omega) (by omega) (by omega)))))))
  | 2 =>
    exact (draws_drawFilledCircle (hbox (by omega) (by omega) (by omega) (by omega))
      (by omega)).seq (draws_sub rfl (draws_sub rfl (draws_drawFilledCircle
        (hbox (by omega) (by omega) (by omega) (by omega)) (by omega))))
  | 3 =>
    exact (draws_drawFilledCircle (hbox (by omega) (by omega) (by omega) (by omega))
      (by omega)).seq (draws_drawFilledCircle
        (hbox (by omega) (by omega) (by omega) (by omega)) (by omega))
  | 4 =>
    exact draws_sub rfl (draws_sub rfl ((draws_square hroom hx hy).seq
      (draws_sub rfl (draws_sub rfl
        (draws_drawRect (hbox (by omega) (by omega) (by omega) (by omega)))))))
  | _ + 5 => exact draws_pure

variable {layout : LayoutManager}

theorem getDockRect_eq (hroom : Room W H) (hW : layout.screenW = W) (hH : layout.screenH = H)
    (hdock : layout.dockH = 60) :
    layout.getDockRect = .ok ((dockRect W H).x, (dockRect W H).y, (dockRect W H).w,
      (dockRect W H).h) := by
  obtain ⟨hwlt, hhlt⟩ := hroom.sides_lt
  have hwide := hroom.width
  have hhigh := hroom.height
  have hbelow : H - 60 + 10 = H - 50 := by omega
  rw [LayoutManager.getDockRect, hW, hH, hdock, Checked.sub_of_le (show 40 ≤ W by omega),
    Checked.ok_bind]
  dsimp only
  rw [Checked.sub_of_le (show min 450 (W - 40) ≤ W by omega), Checked.ok_bind,
    Checked.sub_of_le (show 60 ≤ H by omega), Checked.ok_bind, Checked.add_of_lt (by omega),
    Checked.ok_bind, hbelow]
  rfl

/-- **The dock.** -/
theorem draws_drawDock (hroom : Room W H) (hW : layout.screenW = W) (hH : layout.screenH = H)
    (hdock : layout.dockH = 60) :
    Draws n (drawDock font W layout)
      (dockStrokes font n W (dockRect W H)) := by
  obtain ⟨hwlt, hhlt⟩ := hroom.sides_lt
  have hwide := hroom.width
  have hhigh := hroom.height
  refine draws_checked (getDockRect_eq hroom hW hH hdock) ?_
  obtain ⟨hx, hy, hw, hh⟩ : (dockRect W H).x + (dockRect W H).w ≤ W ∧
      (dockRect W H).y + 50 = H ∧ 250 ≤ (dockRect W H).w ∧ (dockRect W H).h = 40 := by
    refine ⟨?_, ?_, ?_, rfl⟩
    · change (W - min 450 (W - 40)) / 2 + min 450 (W - 40) ≤ W
      omega
    · exact Nat.sub_add_cancel (by omega)
    · exact le_min (by omega) (by omega)
  generalize dockRect W H = dock at hx hy hw hh ⊢
  refine (draws_drawShadow (hroom.reach (by omega) (by omega))).seq
    ((draws_drawTranslucentRoundedRect (hroom.reach (by omega) (by omega)) (by omega)
      (by omega)).seq ?_)
  refine draws_sub (Nat.sub_add_cancel hw) (draws_add (by omega) ?_)
  rw [hh]
  refine draws_sub rfl (draws_add (by omega) (draws_range fun i hi ↦ ?_))
  exact draws_mul (by omega) (draws_add (by omega) (draws_add (by omega) (draws_add (by omega)
    (draws_drawIcon hroom (by omega) (by omega) i))))

/-- **The desktop.** -/
theorem draws_drawDesktop (hroom : Room W H) (hW : layout.screenW = W) (hH : layout.screenH = H)
    (hdock : layout.dockH = 60) (hwins : ∀ win ∈ layout.windows, Drawable W H win)
    {mouseX mouseY : ℕ} (hmx : mouseX < W) (hmy : mouseY < H) :
    Draws (W * H) (drawDesktop font W H layout mouseX mouseY)
      (frame font W H layout.windows mouseX mouseY) :=
  (draws_drawBackground hroom).seq
    ((draws_forM fun win hwin ↦ draws_drawWindow hroom (hwins win hwin)).seq
      ((draws_drawDock hroom hW hH hdock).seq
        (draws_drawMouseCursor (hroom.reach (by omega) (by omega)))))

end

/-! ## The result -/

section

variable {W H : ℕ} {font : Font} {mouseX mouseY : ℕ}

theorem drawable_layoutOf (hroom : Room W H) {ids : List UInt64} (hfits : Fits H ids.length)
    (hhigh : ids ≠ [] → 80 ≤ H) : ∀ win ∈ (layoutOf W H ids).windows, Drawable W H win := by
  intro win hwin
  obtain ⟨i, hi, rfl⟩ := List.mem_iff_getElem.mp (windows_layoutOf ▸ hwin)
  have hlt : i < ids.length := length_laidOut ▸ hi
  have hwide := hroom.width
  have hhigh : 80 ≤ H := hhigh (List.ne_nil_of_length_pos (Nat.zero_lt_of_lt hlt))
  have hinside := tile_inside (show 30 ≤ W by omega) hhigh hfits hlt
  have hwidth : 16 ≤ (tile W H ids.length i).w := by
    rw [tile]
    split_ifs
    · exact Nat.le_sub_of_add_le (by omega)
    · exact Nat.le_sub_of_add_le (by omega)
    · exact Nat.le_sub_of_add_le (by omega)
  simp only [laidOut, List.getElem_mapIdx, place]
  exact ⟨(Nat.le_add_right _ 10).trans hinside.2.1, (Nat.le_add_right _ 10).trans hinside.2.2.2,
    hwidth, hhigh⟩

/-- **A small screen** has no room for the icons, or not even for the dock. -/
theorem panics_drawDock {layout : LayoutManager} (hW : layout.screenW = W)
    (hH : layout.screenH = H) (hdockH : layout.dockH = 60) (hsmall : ¬(290 ≤ W ∧ 60 ≤ H)) :
    Panics (drawDock font W layout) := by
  refine Panics.checked fun dock hdock ↦ ?_
  obtain ⟨d, hd, hdock⟩ := Checked.bind_eq_ok.mp hdock
  obtain ⟨-, rfl⟩ := Checked.sub_eq_ok.mp hd
  obtain ⟨_, -, hdock⟩ := Checked.bind_eq_ok.mp hdock
  obtain ⟨_, hbelow, hdock⟩ := Checked.bind_eq_ok.mp hdock
  obtain ⟨hlow, -⟩ := Checked.sub_eq_ok.mp hbelow
  obtain ⟨_, -, hdock⟩ := Checked.bind_eq_ok.mp hdock
  obtain ⟨_, -, hdock⟩ := Checked.bind_eq_ok.mp hdock
  obtain rfl := Except.ok.inj hdock
  refine Panics.after fun _ ↦ Panics.after fun _ ↦ Panics.checked fun rest hrest ↦ ?_
  obtain ⟨hicons, -⟩ := Checked.sub_eq_ok.mp hrest
  omega

theorem applied_backgroundStrokes {x y : ℕ} (hx : x < W) (hy : y < H) (a : UInt32) :
    applied (backgroundStrokes W H) (y * W + x) a = gradient H y := by
  refine applied_of_put ?_ (fun k hk hindex ↦ ?_) a
  · exact List.mem_flatMap.mpr ⟨y, List.mem_range.mpr hy,
      List.mem_flatMap.mpr ⟨x, List.mem_range.mpr hx, List.mem_singleton_self _⟩⟩
  · obtain ⟨y', -, hk⟩ := List.mem_flatMap.mp hk
    obtain ⟨x', hx', hk⟩ := List.mem_flatMap.mp hk
    obtain rfl := List.mem_singleton.mp hk
    have hcell := mod_div_index (List.mem_range.mp hx') y'
    rw [show y' * W + x' = y * W + x from hindex, (mod_div_index hx y).1,
      (mod_div_index hx y).2] at hcell
    rw [hcell.1, hcell.2]

theorem cursorPixel_bounds {col row : ℕ} {color : UInt32} (h : cursorPixel col row = some color) :
    col < 16 ∧ row < 16 := by
  have hlines : cursorMask.length = 16 ∧ ∀ line ∈ cursorMask, line.toList.length = 16 := by decide
  by_contra hout
  have hblank : (cursorMask.getD row "").toList.getD col ' ' = ' ' := by
    by_cases hrow : row < 16
    · have hmem : cursorMask.getD row "" ∈ cursorMask := by
        rw [List.getD_eq_getElem _ _ (lt_of_lt_of_eq hrow hlines.1.symm)]
        exact List.getElem_mem _
      exact List.getD_eq_default _ _ (by rw [hlines.2 _ hmem]; omega)
    · rw [List.getD_eq_default cursorMask _ (by rw [hlines.1]; omega)]
      rfl
  rw [cursorPixel, hblank] at h
  cases h

theorem applied_frame {windows : List WindowInfo} {x y : ℕ} (hx : x < W) (hy : y < H) (a : UInt32) :
    applied (frame font W H windows mouseX mouseY) (y * W + x) a =
      applied (layers font W H windows mouseX mouseY) (y * W + x) (gradient H y) := by
  rw [frame, applied_append, applied_backgroundStrokes hx hy]

theorem applied_frame_cursor (hwide : 16 ≤ W) {windows : List WindowInfo} {col row : ℕ}
    {color : UInt32} (hcolor : cursorPixel col row = some color) (hcol : mouseX + col < W)
    (hrow : mouseY + row < H) (a : UInt32) :
    applied (frame font W H windows mouseX mouseY)
      ((mouseY + row) * W + (mouseX + col)) a = color := by
  obtain ⟨hcol16, hrow16⟩ := cursorPixel_bounds hcolor
  rw [frame, layers, applied_append, applied_append, applied_append]
  exact applied_shapeStrokes hwide hcol16 hrow16
    (Desktop.cell_lt (⟨mouseX + col, hcol⟩ : Fin W) (⟨mouseY + row, hrow⟩ : Fin H)) hcolor _

theorem composite_ne_ok {c : Compositor} (hwidth : c.width = W) {layout : LayoutManager}
    (hW : layout.screenW = W) (hH : layout.screenH = H) (hdockH : layout.dockH = 60)
    (hsmall : ¬(290 ≤ W ∧ 60 ≤ H)) (c' : Compositor) :
    c.composite font layout mouseX mouseY ≠ .ok c' := by
  have hpanics : Panics (drawDesktop font W c.height layout mouseX mouseY) :=
    Panics.after fun _ ↦ Panics.after fun _ ↦ (panics_drawDock hW hH hdockH hsmall).before _
  obtain ⟨e, s, hexec⟩ := hpanics c.buffer
  rw [Compositor.composite, hwidth, hexec]
  exact fun h ↦ nomatch h

/-- **What `composite` does** on a large screen. -/
theorem composite_eq_ok (hroom : Room W H) {c : Compositor} (hwidth : c.width = W)
    (hheight : c.height = H) (hlen : c.buffer.len = W * H) {ids : List UInt64}
    (hfits : Fits H ids.length) (hhigh : ids ≠ [] → 80 ≤ H) (hmx : mouseX < W) (hmy : mouseY < H) :
    c.composite font (layoutOf W H ids) mouseX mouseY = .ok { c with
      buffer := c.buffer.draw (frame font W H (laidOut W H ids) mouseX mouseY) } := by
  rw [Compositor.composite, hwidth, hheight, draws_drawDesktop hroom rfl rfl rfl
    (drawable_layoutOf hroom hfits hhigh) hmx hmy c.buffer hlen]
  rfl

/-- **`composite` is correct.** On every layout that the manager reaches and for every place of the
mouse, it panics exactly if the screen is less than 290 pixels wide or less than 60 pixels high. If
it does not, a pixel shows the layers over the gradient, whatever the buffer held before, and the
mouse cursor is on top. -/
theorem composite_correct (font : Font) (hfits : 4 * (W * H) < 2 ^ 63) {ops : List Op}
    {m : LayoutManager} (hrun : (LayoutManager.new W H).run ops = .ok m) {c : Compositor}
    (hwidth : c.width = W) (hheight : c.height = H) (hlen : c.buffer.len = W * H)
    (hmx : mouseX < W) (hmy : mouseY < H) :
    ((∃ c', c.composite font m mouseX mouseY = .ok c') ↔ 290 ≤ W ∧ 60 ≤ H) ∧
    ∀ c', c.composite font m mouseX mouseY = .ok c' →
      (c'.buffer.len = W * H ∧ ∀ x < W, ∀ y < H, c'.buffer.get (y * W + x) =
        applied (layers font W H m.windows mouseX mouseY) (y * W + x) (gradient H y)) ∧
      ∀ col row color, cursorPixel col row = some color → mouseX + col < W → mouseY + row < H →
        c'.buffer.get ((mouseY + row) * W + (mouseX + col)) = color := by
  by_cases hlarge : 290 ≤ W ∧ 60 ≤ H
  · have hroom : Room W H := ⟨hlarge.1, hlarge.2, hfits⟩
    obtain ⟨hW, hH⟩ := hroom.sides_lt
    obtain ⟨ids, rfl, hids, hhigh⟩ := layoutOf_of_run (by omega) (by omega) (by omega) hrun
    have hok : c.composite font (layoutOf W H ids) mouseX mouseY = _ :=
      composite_eq_ok hroom hwidth hheight hlen hids hhigh hmx hmy
    refine ⟨iff_of_true ⟨_, hok⟩ hlarge, fun c' hc' ↦ ?_⟩
    rw [hok] at hc'
    obtain rfl := Except.ok.inj hc'
    exact ⟨⟨hlen, fun x hx y hy ↦ applied_frame hx hy _⟩, fun col row color hcolor hcol hrow ↦
      applied_frame_cursor (by omega) hcolor hcol hrow _⟩
  · obtain ⟨hscreenW, hscreenH, hdockH, -⟩ := sidesKept_of_run hrun
    have hpanics : ∀ c', c.composite font m mouseX mouseY ≠ .ok c' :=
      composite_ne_ok hwidth hscreenW hscreenH hdockH hlarge
    exact ⟨iff_of_false (fun ⟨c', hc'⟩ ↦ hpanics c' hc') hlarge,
      fun c' hc' ↦ absurd hc' (hpanics c')⟩

end

/-- The windows that the server opens at its start. -/
def defaultWindows : List Op := [.add 1, .add 2, .add 3]

theorem length_history_le (ops : List Op) : (history ops).length ≤ ops.length := by
  induction ops using List.reverseRecOn with
  | nil => exact le_rfl
  | append_singleton ops op ih =>
    rw [history, List.foldl_append, List.length_append, List.foldl_cons, List.foldl_nil]
    rw [history] at ih
    cases op with
    | add id =>
      rw [idsAfter]
      split_ifs
      · exact Nat.le_succ_of_le ih
      · exact (List.length_append).trans_le (Nat.succ_le_succ ih)
    | remove id => exact Nat.le_succ_of_le (List.erase_sublist.length_le.trans ih)

theorem keeps_defaultWindows {H : ℕ} (hh : 90 ≤ H) : Keeps H defaultWindows := by
  intro pre hpre
  have hlength : (history pre).length ≤ 3 := (length_history_le pre).trans hpre.length_le
  rw [Fits]
  omega

/-- The desktop on a screen of 800 by 600 pixels. -/
theorem composite_correct_desktop : ∃ m c c',
    (LayoutManager.new 800 600).run defaultWindows = .ok m ∧
    Compositor.new 800 600 = .ok c ∧
    c.composite (fun _ ↦ none) m 400 300 = .ok c' ∧
    c'.buffer.get (300 * 800 + 400) = 0x000000 := by
  have hkeeps : Keeps 600 defaultWindows := keeps_defaultWindows (by omega)
  have hrun : (LayoutManager.new 800 600).run defaultWindows = .ok (layoutOf 800 600 [1, 2, 3]) :=
    @run_layoutOf 800 600 [] (by omega) (by omega) (by omega) (by omega) defaultWindows hkeeps
  obtain ⟨hiff, hpixels⟩ := composite_correct (fun _ ↦ none) (by omega) hrun
    (c := ⟨800, 600, ⟨fun _ ↦ 0, 800 * 600⟩, 0, 0, 800, 600⟩) rfl rfl rfl
    (show 400 < 800 by omega) (show 300 < 600 by omega)
  obtain ⟨c', hc'⟩ := hiff.mpr (by omega)
  exact ⟨_, _, c', hrun, rfl, hc', (hpixels c' hc').2 0 0 0x000000 rfl (by omega) (by omega)⟩

end RelizOS.Gui
