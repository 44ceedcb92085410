import RelizOS.Gui.Composite
import RelizOS.Gui.Demo
import RelizOS.Gui.WindowLimit
import RelizOS.Kernel.Task

/-!
# The GUI server

`task_gui_server` opens three windows and then repeats: it handles the messages that are waiting,
marks the whole screen, draws the desktop and blits it.

A `Scene` is what the desktop shows: the windows and the place of the mouse. Messages change it
(`Scene.after`), and the server follows it (`drain_follows`). Other programs print to the screen
while the server waits; whatever they leave there, at the end of an iteration every pixel shows the
frame of the scene (`serve_run`).

## What is left out

The event loop calls methods of the layout manager that it does not have. They are parameters here,
and a scene has no next one where a message may need them: after a key, a request for a window and a
left click above the dock. The messages that a scene follows are movements of the mouse, right
clicks, clicks on the dock, requests to close a window, and those of unknown types.
-/

open ByteMemory

namespace RelizOS.Gui

/-! ## The code -/

/-- What `get_window` returns. -/
structure ApiWindow where
  x : ℕ
  y : ℕ
  width : ℕ
  height : ℕ
  minimized : Bool

/-- The methods of the layout manager that the event loop calls and that it does not have. -/
structure WindowApi where
  cycleActiveWindow : LayoutManager → Checked LayoutManager
  /-- The `owner_task` of `get_active_window`. -/
  activeOwner : LayoutManager → Option UInt64
  windowCount : LayoutManager → ℕ
  getWindow : LayoutManager → ℕ → Option ApiWindow
  toggleWindow : LayoutManager → ℕ → Checked LayoutManager
  setActive : LayoutManager → ℕ → Checked LayoutManager
  /-- `add_window` with a title, a size and an owner: the layout and the id of the window. -/
  addWindow : LayoutManager → List UInt8 → ℕ → ℕ → UInt64 → ℕ → ℕ → Checked (LayoutManager × UInt64)

/-- The variables of `task_gui_server`, the heap, the screen, and the messages it has sent, the last
one first, each with the task it goes to. -/
structure GuiServer where
  heap : HeapAllocator
  width : ℕ
  height : ℕ
  compositor : Compositor
  screen : TextWriter
  layout : LayoutManager
  mouseX : ℕ
  mouseY : ℕ
  sent : List (UInt64 × Message)

namespace GuiServer

/-- `compositor.mark_dirty`. -/
def mark (g : GuiServer) (x y w h : ℕ) : Checked GuiServer := do
  return { g with compositor := ← g.compositor.markDirty x y w h }

/-- `compositor.mark_dirty(0, 0, width, height)`. -/
def markAll (g : GuiServer) : Checked GuiServer := g.mark 0 0 g.width g.height

/-- System call 3. -/
def send (g : GuiServer) (dest : UInt64) (msgType arg1 : UInt64) : GuiServer :=
  { g with sent := (dest, ⟨5, msgType, arg1, 0, 0, 0⟩) :: g.sent }

/-- `MSG_KEY_EVENT`. -/
def handleKey (api : WindowApi) (g : GuiServer) (msg : Message) : Checked GuiServer := do
  let c := msg.arg1.toUInt8
  if c = 9 then
    let layout ← api.cycleActiveWindow g.layout
    { g with layout := layout }.markAll
  else
    match api.activeOwner g.layout with
    | some owner => return g.send owner 20 c.toUInt64
    | none => return g

/-- `v.clamp(0, size as i64 - 1) as usize`. -/
def clampTo (v : ℤ) (size : ℕ) : Checked ℕ := do
  let top ← isize (asIsize size - 1)
  Checked.ensure (0 ≤ top)
  return (if v < 0 then 0 else if v > top then top else v).toNat

/-- The mouse pointer is moved and its old and new place are marked. -/
def moveMouse (g : GuiServer) (msg : Message) : Checked GuiServer := do
  let newX ← isize (asIsize g.mouseX + asIsize msg.arg1.toNat)
  let newY ← isize (asIsize g.mouseY - asIsize msg.arg2.toNat)
  let mouseX ← clampTo newX g.width
  let mouseY ← clampTo newY g.height
  let g' ← g.mark g.mouseX g.mouseY 20 20
  { g' with mouseX := mouseX, mouseY := mouseY }.mark mouseX mouseY 20 20

/-- A click in the lowest 48 rows: the demo, if it is on the icon. -/
def clickDock (g : GuiServer) : Checked GuiServer := do
  let iconsStartX ← Checked.sub (g.width / 2) 64
  let nyanX ← Checked.add 64 iconsStartX 64
  if ← both (g.mouseX ≥ nyanX) (do return decide (g.mouseX < (← Checked.add 64 nyanX 40))) then
    let screen ← g.screen.runNyanCatDemo
    { g with screen := screen }.markAll
  else return g

/-- The mouse is in the columns of a window, and in `rows` rows from its upper edge on. -/
def mouseIn (g : GuiServer) (win : ApiWindow) (rows : ℕ) : Checked Bool :=
  both (g.mouseX ≥ win.x) do
    let right ← Checked.add 64 win.x win.width
    both (g.mouseX < right ∧ g.mouseY ≥ win.y) do
      return decide (g.mouseY < (← Checked.add 64 win.y rows))

/-- The loop over the windows. -/
def clickWindows (api : WindowApi) (g : GuiServer) : List ℕ → Checked GuiServer
  | [] => return g
  | i :: rest =>
    match api.getWindow g.layout i with
    | none => clickWindows api g rest
    | some win => do
      if ← g.mouseIn win 30 then
        let close ← Checked.sub (← Checked.add 64 win.x win.width) 25
        let layout ← if g.mouseX ≥ close then api.toggleWindow g.layout i
          else api.setActive g.layout i
        { g with layout := layout }.markAll
      else if ← both (!win.minimized) (g.mouseIn win win.height) then
        let layout ← api.setActive g.layout i
        { g with layout := layout }.markAll
      else clickWindows api g rest

/-- `MSG_MOUSE_EVENT`. -/
def handleMouse (api : WindowApi) (g : GuiServer) (msg : Message) : Checked GuiServer := do
  let g ← g.moveMouse msg
  if msg.arg3 ≠ 0 then
    if g.mouseY ≥ g.height - 48 then g.clickDock
    else g.clickWindows api (List.range (api.windowCount g.layout))
  else return g

/-- `MSG_CREATE_WINDOW`. -/
def handleCreate (api : WindowApi) (mem : Mem) (g : GuiServer) (msg : Message) :
    Checked GuiServer := do
  let title := (List.range (min msg.arg2.toNat 32)).map fun k ↦ mem (msg.arg1.toNat + k)
  let (layout, windowId) ← api.addWindow g.layout title msg.arg3.toNat msg.arg4.toNat msg.sender
    g.width g.height
  let g ← { g with layout := layout }.markAll
  return g.send msg.sender 40 windowId

/-- `MSG_CLOSE_WINDOW`. -/
def handleClose (g : GuiServer) (msg : Message) : Checked GuiServer := do
  let layout ← g.layout.removeWindow msg.arg1
  { g with layout := layout }.markAll

/-- The `match` on the type of a message. -/
def handle (api : WindowApi) (mem : Mem) (g : GuiServer) (msg : Message) : Checked GuiServer :=
  if msg.msgType = 20 then g.handleKey api msg
  else if msg.msgType = 30 then g.handleMouse api msg
  else if msg.msgType = 40 then g.handleCreate api mem msg
  else if msg.msgType = 41 then g.handleClose msg
  else return g

/-- The loop over the messages that are waiting. -/
def drain (api : WindowApi) (mem : Mem) (g : GuiServer) (msgs : List Message) :
    Checked GuiServer := msgs.foldlM (handle api mem) g

/-- `compositor.blit_dirty`. -/
def blit (g : GuiServer) : Checked GuiServer := do
  let desktop ← Desktop.blitDirty ⟨g.compositor, g.screen.toFrameBufferWriter⟩
  return { g with
    compositor := desktop.compositor
    screen := { g.screen with toFrameBufferWriter := desktop.writer } }

/-- The end of an iteration: the whole screen is marked, drawn and blitted. -/
def refresh (font : Font) (g : GuiServer) : Checked GuiServer := do
  let g ← g.markAll
  let compositor ← g.compositor.composite font g.layout g.mouseX g.mouseY
  { g with compositor := compositor }.blit

/-- One iteration of the loop. -/
def iterate (font : Font) (api : WindowApi) (mem : Mem) (g : GuiServer)
    (msgs : List Message) : Checked GuiServer := do
  let g ← g.drain api mem msgs
  g.refresh font

/-- The loop: before each iteration other programs have left something on the screen, and messages
are waiting. -/
def serve (font : Font) (api : WindowApi) (mem : Mem) (g : GuiServer)
    (batches : List (TextWriter × List Message)) : Checked GuiServer :=
  batches.foldlM (fun g batch ↦
    { g with screen := batch.1 }.iterate font api mem batch.2) g

/-- What happens before the loop, on the screen that system call 8 describes. The list of windows is
allocated when the first of them is added; the list has room for the others. -/
def start (heap : HeapAllocator) (screen : TextWriter) : Checked GuiServer := do
  let width := screen.info.width
  let height := screen.info.height
  let (compositor, heap) ← Compositor.newIn heap width height
  let (_, heap) ← heap.firstPush 40 3
  let layout ← (LayoutManager.new width height).run defaultWindows
  { heap, width, height, compositor, screen, layout
    mouseX := width / 2, mouseY := height / 2, sent := [] : GuiServer }.markAll

/-- The start on the heap that `kernel_main` leaves; `start` is where the heap begins, and `m` what
the memory held. -/
def boot (m : Mem) (start : ℕ) (screen : TextWriter) : Checked GuiServer := do
  let heap ← kernelHeap m start
  GuiServer.start heap screen

end GuiServer

/-! ## The scene -/

/-- What the desktop shows: the windows, by their ids, and the place of the mouse. -/
structure Scene where
  ids : List UInt64
  mouseX : ℕ
  mouseY : ℕ

namespace Scene

/-- The number of `[0, size)` that is nearest. -/
def clamp (v : ℤ) (size : ℕ) : ℕ := (max 0 (min v (size - 1))).toNat

/-- The mouse after a movement; on the screen `y` grows downwards. -/
def moved (W H : ℕ) (s : Scene) (dx dy : ℤ) : Scene :=
  { s with mouseX := clamp (s.mouseX + dx) W, mouseY := clamp (s.mouseY - dy) H }

/-- The sums of a movement fit. -/
def MoveFits (s : Scene) (dx dy : ℤ) : Prop :=
  (-2 ^ 63 ≤ s.mouseX + dx ∧ s.mouseX + dx < 2 ^ 63) ∧ -2 ^ 63 ≤ s.mouseY - dy ∧
    s.mouseY - dy < 2 ^ 63

instance (s : Scene) (dx dy : ℤ) : Decidable (s.MoveFits dx dy) :=
  inferInstanceAs (Decidable (_ ∧ _))

/-- What a message does to the scene, where none of the missing methods is called and no sum is out
of range. -/
def after (W H : ℕ) (s : Scene) (msg : Message) : Option Scene :=
  if msg.msgType = 20 ∨ msg.msgType = 40 then none
  else if msg.msgType = 30 then
    let dx := asIsize msg.arg1.toNat
    let dy := asIsize msg.arg2.toNat
    if s.MoveFits dx dy ∧ (msg.arg3 = 0 ∨ H - 48 ≤ (s.moved W H dx dy).mouseY) then
      some (s.moved W H dx dy)
    else none
  else if msg.msgType = 41 then some { s with ids := s.ids.erase msg.arg1 }
  else some s

/-- The colour of a pixel of the desktop. -/
def pixel (font : Font) (W H : ℕ) (s : Scene) (x y : ℕ) : UInt32 :=
  Stroke.applied (layers font W H (laidOut W H s.ids) s.mouseX s.mouseY) (y * W + x)
    (gradient H y)

/-- Every pixel of the screen shows the desktop. -/
def ShownOn (font : Font) (s : Scene) (screen : TextWriter) : Prop :=
  ∀ x < screen.info.width, ∀ y < screen.info.height,
    pixelAt screen.info screen.buffer x y = encode screen.info.pixelFormat
      (s.pixel font screen.info.width screen.info.height x y)

/-- The scene at the start. -/
def initial (W H : ℕ) : Scene := ⟨[1, 2, 3], W / 2, H / 2⟩

theorem clamp_lt {v : ℤ} {size : ℕ} (h : 0 < size) : clamp v size < size := by
  rw [clamp]
  omega

end Scene

/-! ## The server follows the scene -/

/-- The server's variables are those of a scene. -/
structure Follows (W H : ℕ) (info : FrameBufferInfo) (g : GuiServer) (s : Scene) : Prop where
  width : g.width = W
  height : g.height = H
  desktop : Desktop.Ok W H info ⟨g.compositor, g.screen.toFrameBufferWriter⟩
  layout : g.layout = layoutOf W H s.ids
  fits : Fits H s.ids.length
  mouseX : g.mouseX = s.mouseX
  mouseY : g.mouseY = s.mouseY
  onScreen : s.mouseX < W ∧ s.mouseY < H

section

variable {W H : ℕ} {info : FrameBufferInfo} {g : GuiServer} {s s' : Scene} {api : WindowApi}
  {mem : Mem} {msg : Message}

theorem Follows.mark (h : Follows W H info g s) {x y w k : ℕ} (hx : x + w < 2 ^ 64)
    (hy : y + k < 2 ^ 64) :
    ∃ compositor, g.mark x y w k = .ok { g with compositor := compositor } ∧
      Follows W H info { g with compositor := compositor } s ∧
      compositor.dirtyX0 ≤ x ∧ compositor.dirtyY0 ≤ y ∧
      min (x + w) W ≤ compositor.dirtyX1 ∧ min (y + k) H ≤ compositor.dirtyY1 := by
  obtain ⟨hwidth, hheight, hlen, hx1, hy1, hwriter, hfits⟩ := h.desktop
  rw [GuiServer.mark, Desktop.markDirty_eq_ok hx hy, Checked.ok_bind, Checked.pure_eq_ok]
  refine ⟨_, rfl, ⟨h.width, h.height, ⟨hwidth, hheight, hlen, ?_, ?_, hwriter, hfits⟩, h.layout,
    h.fits, h.mouseX, h.mouseY, h.onScreen⟩, min_le_right _ _, min_le_right _ _, ?_, ?_⟩
  · exact max_le hx1 (hwidth ▸ min_le_right _ _)
  · exact max_le hy1 (hheight ▸ min_le_right _ _)
  · exact hwidth ▸ le_max_right _ _
  · exact hheight ▸ le_max_right _ _

theorem Follows.markAll (hroom : Room W H) (h : Follows W H info g s) :
    ∃ compositor, g.markAll = .ok { g with compositor := compositor } ∧
      Follows W H info { g with compositor := compositor } s ∧
      ∀ x < W, ∀ y < H, (compositor.dirtyX0 ≤ x ∧ x < compositor.dirtyX1) ∧
        compositor.dirtyY0 ≤ y ∧ y < compositor.dirtyY1 := by
  obtain ⟨hW, hH⟩ := hroom.sides_lt
  have hwidth := h.width
  have hheight := h.height
  obtain ⟨compositor, hmark, hfollows, hx0, hy0, hx1, hy1⟩ :=
    h.mark (x := 0) (y := 0) (w := g.width) (k := g.height) (by omega) (by omega)
  refine ⟨compositor, hmark, hfollows, fun x hx y hy ↦ ?_⟩
  omega

theorem Follows.withScreen (h : Follows W H info g s) {screen : TextWriter}
    (hinfo : screen.info = info) (hok : info.Ok screen.buffer.len) :
    Follows W H info { g with screen := screen } s := by
  obtain ⟨hwidth, hheight, hlen, hx1, hy1, -, -⟩ := h.desktop
  exact ⟨h.width, h.height, ⟨hwidth, hheight, hlen, hx1, hy1, hinfo, hok⟩, h.layout, h.fits,
    h.mouseX, h.mouseY, h.onScreen⟩

theorem clampTo_eq {v : ℤ} {size : ℕ} (hpos : 0 < size) (hlt : size < 2 ^ 63) :
    GuiServer.clampTo v size = .ok (Scene.clamp v size) := by
  rw [GuiServer.clampTo, asIsize_of_lt hlt, isize_of_lt (by omega) (by omega), Checked.ok_bind,
    Checked.ensure, if_pos (by omega), Checked.ok_bind, Checked.pure_eq_ok, Scene.clamp]
  congr 1
  split_ifs
  · omega
  · omega
  · omega

/-- **A movement of the mouse.** -/
theorem Follows.moveMouse (hroom : Room W H) (h : Follows W H info g s)
    (hmove : s.MoveFits (asIsize msg.arg1.toNat) (asIsize msg.arg2.toNat)) :
    ∃ g', g.moveMouse msg = .ok g' ∧ g'.screen = g.screen ∧ Follows W H info g'
      (s.moved W H (asIsize msg.arg1.toNat) (asIsize msg.arg2.toNat)) := by
  obtain ⟨hW, hH⟩ := hroom.sides_lt
  have hwide := hroom.width
  have hhigh := hroom.height
  obtain ⟨hx, hy⟩ := h.onScreen
  obtain ⟨⟨hxlo, hxhi⟩, hylo, hyhi⟩ := hmove
  have hx' : Scene.clamp (s.mouseX + asIsize msg.arg1.toNat) W < W := Scene.clamp_lt (by omega)
  have hy' : Scene.clamp (s.mouseY - asIsize msg.arg2.toNat) H < H := Scene.clamp_lt (by omega)
  have hmouseX := h.mouseX
  have hmouseY := h.mouseY
  rw [GuiServer.moveMouse, hmouseX, hmouseY, h.width, h.height,
    asIsize_of_lt (show s.mouseX < 2 ^ 63 by omega),
    asIsize_of_lt (show s.mouseY < 2 ^ 63 by omega), isize_of_lt hxlo hxhi, Checked.ok_bind,
    isize_of_lt hylo hyhi, Checked.ok_bind, clampTo_eq (by omega) (by omega), Checked.ok_bind,
    clampTo_eq (by omega) (by omega), Checked.ok_bind]
  obtain ⟨c₁, hold, h₁, -⟩ := h.mark (x := s.mouseX) (y := s.mouseY) (w := 20) (k := 20)
    (by omega) (by omega)
  rw [hold, Checked.ok_bind]
  generalize hmoved : s.moved W H (asIsize msg.arg1.toNat) (asIsize msg.arg2.toNat) = s'
  have h₂ : Follows W H info { g with
      compositor := c₁
      mouseX := Scene.clamp (s.mouseX + asIsize msg.arg1.toNat) W
      mouseY := Scene.clamp (s.mouseY - asIsize msg.arg2.toNat) H } s' := by
    subst hmoved
    exact ⟨h₁.width, h₁.height, h₁.desktop, h₁.layout, h₁.fits, rfl, rfl, hx', hy'⟩
  obtain ⟨c₃, hnew, h₃, -⟩ := h₂.mark (x := Scene.clamp (s.mouseX + asIsize msg.arg1.toNat) W)
    (y := Scene.clamp (s.mouseY - asIsize msg.arg2.toNat) H) (w := 20) (k := 20) (by omega)
    (by omega)
  exact ⟨_, hnew, rfl, h₃⟩

theorem covered_of_ok {len : ℕ} (h : info.Ok len) : info.Covered len := by
  refine ⟨h.stride, ?_, h.covers, h.len_lt⟩
  have hroom := h.room
  have hformat := h.format
  cases hcase : info.pixelFormat with
  | unknown => exact absurd hcase hformat
  | _ =>
    rw [hcase] at hroom
    exact hroom

/-- **A click in the dock** leaves the scene as it is, whatever the demo shows. -/
theorem Follows.clickDock (hroom : Room W H) (hinfo : info.width = W ∧ info.height = H)
    (h : Follows W H info g s) : ∃ g', g.clickDock = .ok g' ∧ Follows W H info g' s := by
  obtain ⟨hW, hH⟩ := hroom.sides_lt
  have hwide := hroom.width
  have hhigh := hroom.height
  obtain ⟨hx, hy⟩ := h.onScreen
  have hmouseX := h.mouseX
  have hin : both (decide (g.mouseX ≥ W / 2 - 64 + 64))
      (do return decide (g.mouseX < (← Checked.add 64 (W / 2 - 64 + 64) 40))) =
      .ok (decide (g.mouseX ≥ W / 2 - 64 + 64) && decide (g.mouseX < W / 2 - 64 + 64 + 40)) := by
    rw [Checked.add_of_lt (by omega), Checked.ok_bind, Checked.pure_eq_ok, both_ok]
  have hhalf : Checked.sub (g.width / 2) 64 = .ok (W / 2 - 64) := by
    rw [h.width, Checked.sub_of_le (by omega)]
  rw [GuiServer.clickDock, hhalf, Checked.ok_bind, Checked.add_of_lt (by omega),
    Checked.ok_bind, hin, Checked.ok_bind]
  split_ifs with hicon
  · have hscreen : g.screen.info = info := h.desktop.writer
    have hok : g.screen.info.Covered g.screen.buffer.len :=
      covered_of_ok (hscreen.symm ▸ h.desktop.fits)
    obtain ⟨buffer', hdemo, hpixels⟩ := runNyanCatDemo_eq hok (by rw [hscreen]; omega)
      (by rw [hscreen]; omega)
    have hshown : Follows W H info { g with
        screen := { g.screen with buffer := buffer', xPos := 10, yPos := 10 } } s :=
      h.withScreen hscreen (hpixels.len.symm ▸ h.desktop.fits)
    obtain ⟨compositor, hmark, hmarked, -⟩ := hshown.markAll hroom
    rw [hdemo, Checked.ok_bind]
    exact ⟨_, hmark, hmarked⟩
  · exact ⟨g, rfl, h⟩

theorem Follows.handleMouse (hroom : Room W H) (hinfo : info.width = W ∧ info.height = H)
    (h : Follows W H info g s)
    (hmove : s.MoveFits (asIsize msg.arg1.toNat) (asIsize msg.arg2.toNat))
    (hclick : msg.arg3 = 0 ∨ H - 48 ≤
      (s.moved W H (asIsize msg.arg1.toNat) (asIsize msg.arg2.toNat)).mouseY) :
    ∃ g', g.handleMouse api msg = .ok g' ∧ Follows W H info g'
      (s.moved W H (asIsize msg.arg1.toNat) (asIsize msg.arg2.toNat)) := by
  obtain ⟨g₁, hcall, -, h₁⟩ := h.moveMouse hroom hmove
  rw [GuiServer.handleMouse, hcall, Checked.ok_bind]
  by_cases hleft : msg.arg3 = 0
  · rw [if_neg (not_not.mpr hleft)]
    exact ⟨g₁, rfl, h₁⟩
  · have hdock := hclick.resolve_left hleft
    rw [← h₁.mouseY, ← h₁.height] at hdock
    rw [if_pos hleft, if_pos hdock]
    exact h₁.clickDock hroom hinfo

theorem Follows.handleClose (hroom : Room W H) (hhigh : 80 ≤ H) (h : Follows W H info g s) :
    ∃ g', g.handleClose msg = .ok g' ∧
      Follows W H info g' { s with ids := s.ids.erase msg.arg1 } := by
  obtain ⟨hW, hH⟩ := hroom.sides_lt
  have hwide := hroom.width
  have hfits : Fits H (s.ids.erase msg.arg1).length := h.fits.mono List.erase_sublist.length_le
  have hstep : (layoutOf W H s.ids).step (.remove msg.arg1) =
      .ok (layoutOf W H (idsAfter s.ids (.remove msg.arg1))) :=
    step_layoutOf (by omega) hhigh (by omega) (by omega) hfits
  have hremove : g.layout.removeWindow msg.arg1 = .ok (layoutOf W H (s.ids.erase msg.arg1)) := by
    rw [h.layout]
    exact hstep
  have hclosed : Follows W H info { g with layout := layoutOf W H (s.ids.erase msg.arg1) }
      { s with ids := s.ids.erase msg.arg1 } :=
    ⟨h.width, h.height, h.desktop, rfl, hfits, h.mouseX, h.mouseY, h.onScreen⟩
  obtain ⟨compositor, hmark, hmarked, -⟩ := hclosed.markAll hroom
  rw [GuiServer.handleClose, hremove, Checked.ok_bind]
  exact ⟨_, hmark, hmarked⟩

/-- **The step lemma**: a message changes the server as it changes the scene. -/
theorem Follows.handle (hroom : Room W H) (hhigh : 80 ≤ H)
    (hinfo : info.width = W ∧ info.height = H) (h : Follows W H info g s)
    (hafter : s.after W H msg = some s') :
    ∃ g', g.handle api mem msg = .ok g' ∧ Follows W H info g' s' := by
  dsimp only [Scene.after] at hafter
  rw [GuiServer.handle]
  split_ifs at hafter with hmissing hmouse hfits hclose
  · obtain rfl := Option.some.inj hafter
    rw [if_neg fun hkey ↦ hmissing (Or.inl hkey), if_pos hmouse]
    exact h.handleMouse hroom hinfo hfits.1 hfits.2
  · obtain rfl := Option.some.inj hafter
    rw [if_neg fun hkey ↦ hmissing (Or.inl hkey), if_neg hmouse,
      if_neg fun hcreate ↦ hmissing (Or.inr hcreate), if_pos hclose]
    exact h.handleClose hroom hhigh
  · obtain rfl := Option.some.inj hafter
    rw [if_neg fun hkey ↦ hmissing (Or.inl hkey), if_neg hmouse,
      if_neg fun hcreate ↦ hmissing (Or.inr hcreate), if_neg hclose]
    exact ⟨g, rfl, h⟩

/-- **The messages that are waiting**, one after the other. -/
theorem drain_follows (hroom : Room W H) (hhigh : 80 ≤ H)
    (hinfo : info.width = W ∧ info.height = H) (h : Follows W H info g s) {msgs : List Message}
    (hafter : msgs.foldlM (Scene.after W H) s = some s') :
    ∃ g', g.drain api mem msgs = .ok g' ∧ Follows W H info g' s' := by
  induction msgs generalizing g s with
  | nil =>
    obtain rfl := Option.some.inj hafter
    exact ⟨g, rfl, h⟩
  | cons msg msgs ih =>
    rw [List.foldlM_cons] at hafter
    obtain ⟨s₁, hfirst, hrest⟩ := Option.bind_eq_some_iff.mp hafter
    obtain ⟨g₁, hcall, h₁⟩ := h.handle hroom hhigh hinfo hfirst
    rw [GuiServer.drain, List.foldlM_cons, hcall, Checked.ok_bind]
    exact ih h₁ hrest

/-- **The end of an iteration** puts the scene on the screen, whatever is there. -/
theorem Follows.refresh (hroom : Room W H) (hhigh : 80 ≤ H)
    (hinfo : info.width = W ∧ info.height = H) (h : Follows W H info g s) (font : Font) :
    ∃ g', g.refresh font = .ok g' ∧ Follows W H info g' s ∧
      s.ShownOn font g'.screen := by
  obtain ⟨c₁, hmark, h₁, hdirty⟩ := h.markAll hroom
  obtain ⟨hwidth, hheight, hlen, hx1, hy1, hwriter, hok⟩ := h₁.desktop
  have hlt : W * H < 2 ^ 64 := by have := hroom.fits; omega
  have hcomposite : c₁.composite font g.layout g.mouseX g.mouseY = .ok { c₁ with
      buffer := c₁.buffer.draw (frame font W H (laidOut W H s.ids) s.mouseX
        s.mouseY) } := by
    rw [h.layout, h.mouseX, h.mouseY]
    exact composite_eq_ok hroom hwidth hheight hlen h.fits (fun _ ↦ hhigh) h.onScreen.1
      h.onScreen.2
  obtain ⟨d, hblit, hd, hstep⟩ := Desktop.step_blit (s := ⟨{ c₁ with
    buffer := c₁.buffer.draw (frame font W H (laidOut W H s.ids) s.mouseX s.mouseY) },
    g.screen.toFrameBufferWriter⟩) ⟨hwidth, hheight, hlen, hx1, hy1, hwriter, hok⟩ hinfo hlt
  rw [Desktop.step] at hblit
  refine ⟨{ g with
    compositor := d.compositor
    screen := { g.screen with toFrameBufferWriter := d.writer } }, ?_, ?_, ?_⟩
  · rw [GuiServer.refresh, hmark, Checked.ok_bind]
    dsimp only
    rw [hcomposite, Checked.ok_bind, GuiServer.blit]
    dsimp only
    rw [hblit, Checked.ok_bind, Checked.pure_eq_ok]
  · exact ⟨h.width, h.height, hd, h.layout, h.fits, h.mouseX, h.mouseY, h.onScreen⟩
  · have hdinfo : d.writer.info = info := hd.writer
    intro x hx y hy
    dsimp only at hx hy ⊢
    rw [hdinfo] at hx hy ⊢
    rw [hinfo.1] at hx
    rw [hinfo.2] at hy
    have hcopied := hstep.copied.2 (⟨x, hx⟩, ⟨y, hy⟩) (hdirty x hx y hy)
    rw [Desktop.tracker, Desktop.tracker] at hcopied
    dsimp only at hcopied
    rw [hdinfo, show g.screen.info = info from hwriter] at hcopied
    rw [hcopied, hinfo.1, hinfo.2]
    exact congrArg _ (applied_frame hx hy _)

/-- **The run lemma.** -/
theorem serve_follows (hroom : Room W H) (hhigh : 80 ≤ H)
    (hinfo : info.width = W ∧ info.height = H) (h : Follows W H info g s) (font : Font)
    {batches : List (TextWriter × List Message)}
    (hscreens : ∀ batch ∈ batches, batch.1.info = info ∧ info.Ok batch.1.buffer.len)
    (hafter : (batches.flatMap Prod.snd).foldlM (Scene.after W H) s = some s') :
    ∃ g', g.serve font api mem batches = .ok g' ∧ Follows W H info g' s' ∧
      (batches ≠ [] → s'.ShownOn font g'.screen) := by
  induction batches generalizing g s with
  | nil =>
    obtain rfl := Option.some.inj hafter
    exact ⟨g, rfl, h, fun hne ↦ absurd rfl hne⟩
  | cons batch batches ih =>
    obtain ⟨hscreen, hok⟩ := hscreens batch List.mem_cons_self
    rw [List.flatMap_cons, List.foldlM_append] at hafter
    obtain ⟨s₁, hfirst, hrest⟩ := Option.bind_eq_some_iff.mp hafter
    obtain ⟨g₁, hdrain, h₁⟩ := drain_follows hroom hhigh hinfo (h.withScreen hscreen hok) hfirst
    obtain ⟨g₂, hrefresh, h₂, hshown⟩ := h₁.refresh hroom hhigh hinfo font
    obtain ⟨g', hserve, h', hlast⟩ := ih h₂
      (fun b hb ↦ hscreens b (List.mem_cons_of_mem batch hb)) hrest
    refine ⟨g', ?_, h', fun _ ↦ ?_⟩
    · rw [GuiServer.serve, List.foldlM_cons, GuiServer.iterate, hdrain, Checked.ok_bind, hrefresh,
        Checked.ok_bind]
      exact hserve
    · -- the screen shows the scene after the last iteration
      cases batches with
      | nil =>
        obtain rfl := Option.some.inj hrest
        obtain rfl := Except.ok.inj hserve
        exact hshown
      | cons b batches => exact hlast (List.cons_ne_nil b batches)

/-! ## The start -/

/-- The heap has room for what the server allocates: the buffer of the compositor, and 256 bytes for
the rest. -/
def HeapFits (start W H : ℕ) : Prop :=
  roundUp start 16 + 256 + roundUp (4 * (W * H)) 16 ≤ start + kernelHeapSize

instance (start W H : ℕ) : Decidable (HeapFits start W H) := inferInstanceAs (Decidable (_ ≤ _))

/-- The address of the heap is not null, and alignments can be added behind its end. -/
def HeapPlaced (start : ℕ) : Prop := start ≠ 0 ∧ start + kernelHeapSize + 16 < 2 ^ 64

instance (start : ℕ) : Decidable (HeapPlaced start) := inferInstanceAs (Decidable (_ ∧ _))

theorem allocates_iff {m : Mem} {start n : ℕ} (hplaced : HeapPlaced start) (hn : 4 < n) :
    (∃ heap p h₁ q h₂, kernelHeap m start = .ok heap ∧ heap.withCapacity 4 2 n = .ok (p, h₁) ∧
      h₁.firstPush 40 3 = .ok (q, h₂)) ↔
    roundUp start 16 + 256 + roundUp (4 * n) 16 ≤ start + kernelHeapSize := by
  obtain ⟨heap, hok, hheap⟩ := kernelHeap_has (m := m) hplaced.1 hplaced.2
  have hle := le_roundUp start (show 0 < 16 by omega)
  have hsize : kernelHeapSize = 33554432 := rfl
  rw [← hheap.desktop_iff (dvd_roundUp start 16) hn (by omega) hplaced.2]
  constructor
  · rintro ⟨heap', p, h₁, q, h₂, hok', hcalls⟩
    obtain rfl := Except.ok.inj (hok.symm.trans hok')
    exact ⟨p, h₁, q, h₂, hcalls⟩
  · rintro ⟨p, h₁, q, h₂, hcalls⟩
    exact ⟨heap, p, h₁, q, h₂, hok, hcalls⟩

/-- **The scene with which the server starts.** -/
theorem boot_follows (hroom : Room W H) (hhigh : 90 ≤ H) (hinfo : info.width = W ∧ info.height = H)
    {m : Mem} {start : ℕ} (hplaced : HeapPlaced start) (hheap : HeapFits start W H)
    {screen : TextWriter} (hscreen : screen.info = info) (hok : info.Ok screen.buffer.len) :
    ∃ g, GuiServer.boot m start screen = .ok g ∧ Follows W H info g (Scene.initial W H) := by
  obtain ⟨hW, hH⟩ := hroom.sides_lt
  have hwide := hroom.width
  subst hscreen
  obtain ⟨rfl, rfl⟩ := hinfo
  obtain ⟨c, hnew, hc, -⟩ := @Desktop.new_eq_ok _ _ screen.toFrameBufferWriter hok rfl rfl
  have harea : 290 * 1 ≤ screen.info.width * screen.info.height :=
    Nat.mul_le_mul hwide (by omega)
  obtain ⟨heap, p, h₁, q, h₂, hkernel, hbuffer, hlist⟩ :=
    (allocates_iff (m := m) hplaced (by omega)).mpr hheap
  have hkeeps := keeps_defaultWindows hhigh
  have hlayout : (LayoutManager.new screen.info.width screen.info.height).run defaultWindows =
      .ok (layoutOf screen.info.width screen.info.height [1, 2, 3]) :=
    @run_layoutOf _ _ [] (by omega) (by omega) (by omega) (by omega) defaultWindows hkeeps
  have hstart : Follows screen.info.width screen.info.height screen.info
      ⟨h₂, _, _, c, screen, layoutOf screen.info.width screen.info.height [1, 2, 3],
        screen.info.width / 2, screen.info.height / 2, []⟩
      (Scene.initial screen.info.width screen.info.height) :=
    ⟨rfl, rfl, hc, rfl, hkeeps _ (List.prefix_refl _), rfl, rfl,
      Nat.div_lt_self (by omega) (by omega), Nat.div_lt_self (by omega) (by omega)⟩
  obtain ⟨c', hmark, hmarked, -⟩ := hstart.markAll hroom
  have hlen : c.buffer.len = screen.info.width * screen.info.height := hc.len
  have hnewIn : Compositor.newIn heap screen.info.width screen.info.height = .ok (c, h₁) := by
    rw [Compositor.newIn, hnew, Checked.ok_bind, hlen, hbuffer]
    rfl
  rw [GuiServer.boot, hkernel, Checked.ok_bind, GuiServer.start, hnewIn, Checked.ok_bind]
  dsimp only
  rw [hlist, Checked.ok_bind]
  dsimp only
  rw [hlayout, Checked.ok_bind]
  exact ⟨_, hmark, hmarked⟩

theorem HeapFits.area_le {start : ℕ} (h : HeapFits start W H) : 4 * (W * H) ≤ kernelHeapSize := by
  have hstart := le_roundUp start (show 0 < 16 by omega)
  have hbuffer := le_roundUp (4 * (W * H)) (show 0 < 16 by omega)
  rw [HeapFits] at h
  omega

/-- **The GUI server** shows the scene. From its start on it handles every sequence of messages that
has a scene, on every screen that is wide and high enough and for which the heap has room, without a
panic; at the end of each iteration every pixel of the screen shows the desktop, whatever other
programs have left there. -/
theorem serve_run (font : Font) (api : WindowApi) (mem : Mem)
    {screen : TextWriter} (hok : screen.info.Ok screen.buffer.len)
    (hwide : 290 ≤ screen.info.width) (hhigh : 90 ≤ screen.info.height)
    {m : Mem} {start : ℕ} (hplaced : HeapPlaced start)
    (hheap : HeapFits start screen.info.width screen.info.height)
    {batches : List (TextWriter × List Message)}
    (hscreens : ∀ batch ∈ batches, batch.1.info = screen.info ∧
      screen.info.Ok batch.1.buffer.len)
    (hafter : (batches.flatMap Prod.snd).foldlM
      (Scene.after screen.info.width screen.info.height)
      (Scene.initial screen.info.width screen.info.height) = some s) :
    ∃ g₀ g, GuiServer.boot m start screen = .ok g₀ ∧ g₀.serve font api mem batches = .ok g ∧
      (g.layout = layoutOf screen.info.width screen.info.height s.ids ∧
        g.mouseX = s.mouseX ∧ g.mouseY = s.mouseY) ∧
      (g.mouseX < screen.info.width ∧ g.mouseY < screen.info.height) ∧
      (batches ≠ [] → s.ShownOn font g.screen) := by
  have harea := hheap.area_le
  have hsize : kernelHeapSize = 33554432 := rfl
  have hroom : Room screen.info.width screen.info.height := ⟨hwide, by omega, by omega⟩
  obtain ⟨g₀, hstart, h₀⟩ := boot_follows (m := m) hroom hhigh ⟨rfl, rfl⟩ hplaced hheap rfl hok
  obtain ⟨g, hserve, hg, hshown⟩ :=
    serve_follows hroom (by omega) ⟨rfl, rfl⟩ h₀ font hscreens hafter
  refine ⟨g₀, g, hstart, hserve, ⟨hg.layout, hg.mouseX, hg.mouseY⟩, ?_, hshown⟩
  rw [hg.mouseX, hg.mouseY]
  exact hg.onScreen

/-- Methods that do nothing. -/
def idleApi : WindowApi where
  cycleActiveWindow m := .ok m
  activeOwner _ := none
  windowCount _ := 0
  getWindow _ _ := none
  toggleWindow m _ := .ok m
  setActive m _ := .ok m
  addWindow m _ _ _ _ _ _ := .ok (m, 0)

theorem ok_wideScreen : wideScreen.info.Ok wideScreen.buffer.len :=
  ⟨by decide, by decide, by decide, by decide, by decide⟩

/-- The mouse is moved, and in the next iteration a window is closed. -/
def twoBatches : List (TextWriter × List Message) :=
  [(wideScreen, [⟨4, 30, 5, 3, 0, 0⟩]), (wideScreen, [⟨1, 41, 2, 0, 0, 0⟩])]

theorem serve_run_twoBatches : ∃ g₀ g,
    GuiServer.boot (fun _ ↦ 0) 0x100000 wideScreen = .ok g₀ ∧
    g₀.serve (fun _ ↦ none) idleApi (fun _ ↦ 0) twoBatches = .ok g ∧
    g.layout = layoutOf 1024 768 [1, 3] ∧ (g.mouseX = 517 ∧ g.mouseY = 381) ∧
    Scene.ShownOn (fun _ ↦ none) ⟨[1, 3], 517, 381⟩ g.screen := by
  have hscreens : ∀ batch ∈ twoBatches, batch.1.info = wideScreen.info ∧
      wideScreen.info.Ok batch.1.buffer.len := by
    intro batch hbatch
    simp only [twoBatches, List.mem_cons, List.not_mem_nil, or_false] at hbatch
    rcases hbatch with rfl | rfl
    · exact ⟨rfl, ok_wideScreen⟩
    · exact ⟨rfl, ok_wideScreen⟩
  have hafter : (twoBatches.flatMap Prod.snd).foldlM
      (Scene.after wideScreen.info.width wideScreen.info.height)
      (Scene.initial wideScreen.info.width wideScreen.info.height) =
        some ⟨[1, 3], 517, 381⟩ := rfl
  have hplaced : HeapPlaced 0x100000 := by decide
  obtain ⟨g₀, g, hstart, hserve, ⟨hlayout, hx, hy⟩, -, hshown⟩ := serve_run (fun _ ↦ none)
    idleApi (fun _ ↦ 0) ok_wideScreen (by decide) (by decide) (m := fun _ ↦ 0) hplaced (by decide)
    hscreens hafter
  exact ⟨g₀, g, hstart, hserve, hlayout, ⟨hx, hy⟩, hshown (List.cons_ne_nil _ _)⟩

/-! ## Screens that are too small -/

theorem bounds_of_run {m : LayoutManager}
    (hrun : (LayoutManager.new W H).run defaultWindows = .ok m) : 30 ≤ W ∧ 80 ≤ H := by
  rw [LayoutManager.run, defaultWindows, List.foldlM_cons, Checked.bind_eq_ok] at hrun
  obtain ⟨m₁, hfirst, hrun⟩ := hrun
  rw [List.foldlM_cons, Checked.bind_eq_ok] at hrun
  obtain ⟨m₂, hsecond, -⟩ := hrun
  -- the first window takes the workspace
  change LayoutManager.recalculate ⟨W, H, 60, [⟨1, 0, 0, 0, 0⟩]⟩ = .ok m₁ at hfirst
  obtain ⟨usableH, husable, hfirst⟩ := Checked.bind_eq_ok.mp hfirst
  obtain ⟨w, hw, hfirst⟩ := Checked.bind_eq_ok.mp hfirst
  obtain ⟨h, hh, hfirst⟩ := Checked.bind_eq_ok.mp hfirst
  obtain rfl := Except.ok.inj hfirst
  obtain ⟨hH, rfl⟩ := Checked.sub_eq_ok.mp husable
  obtain ⟨hW, -⟩ := Checked.sub_eq_ok.mp hw
  obtain ⟨hh, -⟩ := Checked.sub_eq_ok.mp hh
  -- the second one leaves it half of the columns
  change LayoutManager.recalculate ⟨W, H, 60, [⟨1, 10, 10, w, h⟩, ⟨2, 0, 0, 0, 0⟩]⟩ = .ok m₂
    at hsecond
  obtain ⟨_, -, hsecond⟩ := Checked.bind_eq_ok.mp hsecond
  obtain ⟨half, hhalf, hsecond⟩ := Checked.bind_eq_ok.mp hsecond
  obtain ⟨_, hmaster, -⟩ := Checked.bind_eq_ok.mp hsecond
  obtain ⟨hten, rfl⟩ := Checked.sub_eq_ok.mp hhalf
  obtain ⟨hfive, -⟩ := Checked.sub_eq_ok.mp hmaster
  simp only [LayoutManager.gaps] at hten hfive hh
  omega

theorem width_of_markDirty {c c' : Compositor} {x y w k : ℕ} (h : c.markDirty x y w k = .ok c') :
    c'.width = c.width := by
  obtain ⟨_, -, h⟩ := Checked.bind_eq_ok.mp h
  obtain ⟨_, -, h⟩ := Checked.bind_eq_ok.mp h
  rw [← Except.ok.inj h]

theorem refresh_ne_ok (hwidth : g.compositor.width = W) (hW : g.layout.screenW = W)
    (hH : g.layout.screenH = H) (hdockH : g.layout.dockH = 60) (hsmall : ¬(290 ≤ W ∧ 60 ≤ H))
    (font : Font) (g' : GuiServer) : g.refresh font ≠ .ok g' := by
  intro hrefresh
  obtain ⟨g₁, hmark, hrefresh⟩ := Checked.bind_eq_ok.mp hrefresh
  obtain ⟨c₁, hdirty, hmark⟩ := Checked.bind_eq_ok.mp hmark
  obtain rfl := Except.ok.inj hmark
  obtain ⟨c₂, hcomposite, -⟩ := Checked.bind_eq_ok.mp hrefresh
  exact composite_ne_ok ((width_of_markDirty hdirty).trans hwidth) hW hH hdockH hsmall c₂ hcomposite

theorem boot_eq_ok {m : Mem} {start : ℕ} {screen : TextWriter}
    (h : GuiServer.boot m start screen = .ok g) :
    (∃ heap p h₁ q h₂, kernelHeap m start = .ok heap ∧
      heap.withCapacity 4 2 (screen.info.width * screen.info.height) = .ok (p, h₁) ∧
      h₁.firstPush 40 3 = .ok (q, h₂)) ∧
    (LayoutManager.new screen.info.width screen.info.height).run defaultWindows = .ok g.layout ∧
    g.compositor.width = screen.info.width := by
  obtain ⟨heap, hkernel, h⟩ := Checked.bind_eq_ok.mp h
  obtain ⟨⟨c, h₁⟩, hnewIn, h⟩ := Checked.bind_eq_ok.mp h
  obtain ⟨⟨q, h₂⟩, hlist, h⟩ := Checked.bind_eq_ok.mp h
  obtain ⟨layout, hrun, h⟩ := Checked.bind_eq_ok.mp h
  obtain ⟨c', hdirty, h⟩ := Checked.bind_eq_ok.mp h
  obtain rfl := Except.ok.inj h
  obtain ⟨_, hnew, hnewIn⟩ := Checked.bind_eq_ok.mp hnewIn
  obtain ⟨⟨p, _⟩, hbuffer, hnewIn⟩ := Checked.bind_eq_ok.mp hnewIn
  obtain ⟨rfl, rfl⟩ := Prod.mk.inj (Except.ok.inj hnewIn)
  obtain ⟨_, hsize, hnew⟩ := Checked.bind_eq_ok.mp hnew
  obtain ⟨-, rfl⟩ := Checked.mul_eq_ok.mp hsize
  obtain rfl := Except.ok.inj hnew
  exact ⟨⟨heap, p, _, q, h₂, hkernel, hbuffer, hlist⟩, hrun, width_of_markDirty hdirty⟩

/-- **The desktop comes up** exactly on screens with at least 290 columns and 90 rows for which the
heap has room. -/
theorem comesUp_iff (font : Font) {screen : TextWriter} (hok : screen.info.Ok screen.buffer.len)
    {m : Mem} {start : ℕ} (hplaced : HeapPlaced start) :
    (∃ g₀ g, GuiServer.boot m start screen = .ok g₀ ∧ g₀.refresh font = .ok g) ↔
      (290 ≤ screen.info.width ∧ 90 ≤ screen.info.height) ∧
        HeapFits start screen.info.width screen.info.height := by
  have hsize : kernelHeapSize = 33554432 := rfl
  constructor
  · rintro ⟨g₀, g, hboot, hrefresh⟩
    obtain ⟨hcalls, hrun, hwidth⟩ := boot_eq_ok hboot
    obtain ⟨hW, hH⟩ := bounds_of_run hrun
    have harea : 30 * 80 ≤ screen.info.width * screen.info.height := Nat.mul_le_mul hW hH
    have hheap : HeapFits start screen.info.width screen.info.height :=
      (allocates_iff hplaced (by omega)).mp hcalls
    have hcolumns : 30 * screen.info.height ≤ screen.info.width * screen.info.height :=
      Nat.mul_le_mul_right _ hW
    have hrows : screen.info.width * 80 ≤ screen.info.width * screen.info.height :=
      Nat.mul_le_mul_left _ hH
    have harea' := hheap.area_le
    have hkeeps := keeps_of_run hW hH (by omega) (by omega) hrun
    have hthree : Fits screen.info.height 3 := hkeeps _ (List.prefix_refl _)
    rw [Fits] at hthree
    obtain ⟨hscreenW, hscreenH, hdockH, -⟩ := sidesKept_of_run hrun
    refine ⟨⟨?_, by omega⟩, hheap⟩
    by_contra hnarrow
    exact refresh_ne_ok hwidth hscreenW hscreenH hdockH (fun h ↦ hnarrow h.1) font g hrefresh
  · rintro ⟨⟨hwide, hhigh⟩, hheap⟩
    have harea := hheap.area_le
    have hroom : Room screen.info.width screen.info.height := ⟨hwide, by omega, by omega⟩
    obtain ⟨g₀, hstart, h₀⟩ := boot_follows (m := m) hroom hhigh ⟨rfl, rfl⟩ hplaced hheap rfl hok
    obtain ⟨g, hrefresh, -⟩ := h₀.refresh hroom (by omega) ⟨rfl, rfl⟩ font
    exact ⟨g₀, g, hstart, hrefresh⟩

/-- A screen of 3840 by 2160 pixels leaves room in the heap, one of 4096 by 2160 does not. -/
example : HeapFits 0x100000 3840 2160 ∧ ¬HeapFits 0x100000 4096 2160 := by decide

theorem comesUp_wideScreen : ∃ g₀ g, GuiServer.boot (fun _ ↦ 0) 0x100000 wideScreen = .ok g₀ ∧
    g₀.refresh (fun _ ↦ none) = .ok g :=
  (comesUp_iff (fun _ ↦ none) ok_wideScreen (by decide)).mpr (by decide)

end

end RelizOS.Gui
