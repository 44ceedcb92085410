import Mathlib.Data.List.Induction
import Mathlib.Logic.Equiv.Fin.Basic
import RelizOS.Allocator.Collections
import RelizOS.Gui.FrameBuffer
import RelizOS.Library.Damage

/-!
# The compositor

`Compositor` keeps the picture of the desktop in a buffer of its own and the bounding box of what
has changed since the last blit. `mark_dirty` enlarges the box, `blit_dirty` hands the part of the
picture in the box to system call 12, which paints it to the frame buffer, and empties the box. An
empty box is an inverted one: its left edge is the width of the screen and its right edge zero.

The compositor with the frame buffer is a damage tracker (`step_refines`). So if every pixel that
changes is marked before the next blit, the screen shows the picture after every blit
(`screen_coherent`).

## What is left out

The drawing of windows, which is any sequence of changes of pixels here. The memory of the buffer is
taken from the heap in `newIn`; what the compositor does afterwards depends on the pixels alone.
-/

open LabelledRun

namespace RelizOS.Gui

/-! ## The code -/

/-- `BlitRequest`, with the pixels behind its pointer. -/
structure BlitRequest where
  /-- The pixels from `buffer_ptr` on. -/
  buffer : ℕ → UInt32
  srcStride : ℕ
  x : ℕ
  y : ℕ
  w : ℕ
  h : ℕ

/-- `Compositor`. -/
structure Compositor where
  width : ℕ
  height : ℕ
  buffer : Slice UInt32
  dirtyX0 : ℕ
  dirtyY0 : ℕ
  dirtyX1 : ℕ
  dirtyY1 : ℕ

namespace Compositor

/-- `Compositor::new`, where there is memory for the buffer. The box is the whole screen. -/
def new (width height : ℕ) : Checked Compositor := do
  let size ← Checked.mul 64 width height
  return { width, height, buffer := ⟨fun _ ↦ 0, size⟩
           dirtyX0 := 0, dirtyY0 := 0, dirtyX1 := width, dirtyY1 := height }

/-- `Compositor::new` with the heap that the buffer is allocated from. -/
def newIn (heap : HeapAllocator) (width height : ℕ) : Checked (Compositor × HeapAllocator) := do
  let compositor ← new width height
  let (_, heap) ← heap.withCapacity 4 2 compositor.buffer.len
  return (compositor, heap)

/-- `mark_dirty`. -/
def markDirty (c : Compositor) (x y w h : ℕ) : Checked Compositor := do
  let x1 := min (← Checked.add 64 x w) c.width
  let y1 := min (← Checked.add 64 y h) c.height
  return { c with
    dirtyX0 := min c.dirtyX0 x
    dirtyY0 := min c.dirtyY0 y
    dirtyX1 := max c.dirtyX1 x1
    dirtyY1 := max c.dirtyY1 y1 }

/-- The first half of `blit_dirty`: the request, if the box is not empty. -/
def request (c : Compositor) : Checked (Option BlitRequest) := do
  if c.dirtyX1 ≤ c.dirtyX0 ∨ c.dirtyY1 ≤ c.dirtyY0 then return none
  else
    let w ← Checked.sub c.dirtyX1 c.dirtyX0
    let h ← Checked.sub c.dirtyY1 c.dirtyY0
    return some
      { buffer := c.buffer.get, srcStride := c.width, x := c.dirtyX0, y := c.dirtyY0, w, h }

/-- The end of `blit_dirty`: the box is emptied. -/
def resetDirty (c : Compositor) : Compositor :=
  { c with dirtyX0 := c.width, dirtyY0 := c.height, dirtyX1 := 0, dirtyY1 := 0 }

/-- Draw one pixel: `buffer[y * stride + x] = color`. -/
def setPixel (c : Compositor) (x y : ℕ) (color : UInt32) : Checked Compositor := do
  let row ← Checked.mul 64 y c.width
  let buffer ← c.buffer.write (← Checked.add 64 row x) color
  return { c with buffer := buffer }

end Compositor

/-- The slice that system call 12 builds. -/
def BlitRequest.slice (req : BlitRequest) : Checked (Slice UInt32) := do
  let rows ← Checked.add 64 req.y req.h
  return ⟨req.buffer, ← Checked.mul 64 req.srcStride rows⟩

/-- System call 12. -/
def blitSyscall (writer : FrameBufferWriter) (req : BlitRequest) : Checked FrameBufferWriter := do
  writer.blitRect (← req.slice) req.srcStride req.x req.y req.w req.h

/-! ## The compositor and the screen -/

/-- The compositor, and the frame buffer it blits to. -/
structure Desktop where
  compositor : Compositor
  writer : FrameBufferWriter

namespace Desktop

/-- What the compositor does, on a screen of `W` by `H` pixels. -/
inductive Op (W H : ℕ) where
  /-- A pixel of the picture gets a colour. -/
  | set (x : Fin W) (y : Fin H) (color : UInt32)
  /-- `mark_dirty`. -/
  | mark (x y w h : ℕ)
  /-- `blit_dirty`. -/
  | blit

/-- `blit_dirty`. -/
def blitDirty (s : Desktop) : Checked Desktop := do
  match ← s.compositor.request with
  | none => return s
  | some req =>
    let writer ← blitSyscall s.writer req
    return ⟨s.compositor.resetDirty, writer⟩

/-- One operation. -/
def step {W H : ℕ} (s : Desktop) : Op W H → Checked Desktop
  | .set x y color => do return { s with compositor := ← s.compositor.setPixel x y color }
  | .mark x y w h => do return { s with compositor := ← s.compositor.markDirty x y w h }
  | .blit => s.blitDirty

/-- A sequence of operations, from a new compositor. -/
def run {W H : ℕ} (writer : FrameBufferWriter) (ops : List (Op W H)) : Checked Desktop := do
  let compositor ← Compositor.new W H
  ops.foldlM step ⟨compositor, writer⟩

end Desktop

/-! ## The compositor is a damage tracker -/

/-- The pixels of a rectangle. -/
def rectangle (W H x y w h : ℕ) : Set (Fin W × Fin H) :=
  {p | (x ≤ p.1 ∧ p.1 < x + w) ∧ y ≤ p.2 ∧ p.2 < y + h}

namespace Desktop

/-- What an operation is for a damage tracker. Colours are what the screen shows of them. -/
def Op.event {W H : ℕ} (format : PixelFormat) : Op W H → Damage.Event (Fin W × Fin H) (List UInt8)
  | .set x y color => .change (x, y) (encode format color)
  | .mark x y w h => .mark (rectangle W H x y w h)
  | .blit => .blit

/-- The sums in `mark_dirty` do not wrap. -/
def Op.NoWrap {W H : ℕ} : Op W H → Prop
  | .mark x y w h => x + w < 2 ^ 64 ∧ y + h < 2 ^ 64
  | _ => True

/-- The picture, the screen, and the box. -/
def tracker (W H : ℕ) (s : Desktop) : Damage.State (Fin W × Fin H) (List UInt8) where
  back p := encode s.writer.info.pixelFormat (colorAt s.compositor.buffer W p.1 p.2)
  screen p := pixelAt s.writer.info s.writer.buffer p.1 p.2
  dirty := {p | (s.compositor.dirtyX0 ≤ p.1 ∧ p.1 < s.compositor.dirtyX1) ∧
    s.compositor.dirtyY0 ≤ p.2 ∧ p.2 < s.compositor.dirtyY1}

/-- What every operation keeps. -/
structure Ok (W H : ℕ) (info : FrameBufferInfo) (s : Desktop) : Prop where
  width : s.compositor.width = W
  height : s.compositor.height = H
  len : s.compositor.buffer.len = W * H
  /-- The box does not reach over the right and the lower edge. -/
  dirtyX1_le : s.compositor.dirtyX1 ≤ W
  dirtyY1_le : s.compositor.dirtyY1 ≤ H
  writer : s.writer.info = info
  fits : info.Ok s.writer.buffer.len

section

variable {W H : ℕ} {info : FrameBufferInfo} {s : Desktop}

theorem cell_eq (x : Fin W) (y : Fin H) : y * W + x = (finProdFinEquiv (y, x) : ℕ) := by
  rw [finProdFinEquiv_apply_val, mul_comm, add_comm]

theorem cell_lt (x : Fin W) (y : Fin H) : y * W + x < W * H := by
  rw [cell_eq]
  exact lt_of_lt_of_eq (Fin.isLt _) (mul_comm H W)

theorem cell_inj {p q : Fin W × Fin H} (h : p.2 * W + p.1 = q.2 * W + (q.1 : ℕ)) : p = q := by
  rw [cell_eq, cell_eq] at h
  exact Prod.swap_injective (finProdFinEquiv.injective (Fin.ext h))

theorem setPixel_eq_ok {c : Compositor} {x y i : ℕ} (color : UInt32) (hi : y * c.width + x = i)
    (hlt : i < c.buffer.len) (hlen : c.buffer.len < 2 ^ 64) :
    c.setPixel x y color =
      .ok { c with buffer := { c.buffer with get := Function.update c.buffer.get i color } } := by
  subst hi
  rw [Compositor.setPixel, Checked.mul, if_pos (by omega), Checked.ok_bind,
    Checked.add_of_lt (by omega), Checked.ok_bind, Slice.write_of_lt hlt, Checked.ok_bind,
    Checked.pure_eq_ok]

theorem step_set (hs : s.Ok W H info) (hlt : W * H < 2 ^ 64) (x : Fin W) (y : Fin H)
    (color : UInt32) :
    ∃ s', s.step (.set x y color : Op W H) = .ok s' ∧ s'.Ok W H info ∧
      Damage.Step (s.tracker W H) (.change (x, y) (encode info.pixelFormat color))
        (s'.tracker W H) := by
  have hcell : (y : ℕ) * s.compositor.width + x = y * W + x := by rw [hs.width]
  rw [step, setPixel_eq_ok color hcell (by rw [hs.len]; exact cell_lt x y) (by rwa [hs.len]),
    Checked.ok_bind, Checked.pure_eq_ok]
  refine ⟨_, rfl, ⟨hs.width, hs.height, hs.len, hs.dirtyX1_le,
    hs.dirtyY1_le, hs.writer, hs.fits⟩, ?_⟩
  have hback : ∀ p : Fin W × Fin H,
      encode s.writer.info.pixelFormat
        (Function.update s.compositor.buffer.get (y * W + x) color (p.2 * W + p.1)) =
      Function.update (s.tracker W H).back (x, y) (encode info.pixelFormat color) p := by
    intro p
    by_cases hp : p = (x, y)
    · rw [hp, Function.update_self, Function.update_self, hs.writer]
    · rw [Function.update_of_ne hp, Function.update_of_ne fun heq ↦ hp (cell_inj heq)]
      rfl
  have hchange := Damage.Step.change (s := s.tracker W H) (x, y) (encode info.pixelFormat color)
  rw [← funext hback] at hchange
  exact hchange

theorem markDirty_eq_ok {c : Compositor} {x y w h : ℕ} (hx : x + w < 2 ^ 64)
    (hy : y + h < 2 ^ 64) :
    c.markDirty x y w h = .ok { c with
      dirtyX0 := min c.dirtyX0 x
      dirtyY0 := min c.dirtyY0 y
      dirtyX1 := max c.dirtyX1 (min (x + w) c.width)
      dirtyY1 := max c.dirtyY1 (min (y + h) c.height) } := by
  rw [Compositor.markDirty, Checked.add_of_lt hx, Checked.ok_bind, Checked.add_of_lt hy,
    Checked.ok_bind, Checked.pure_eq_ok]

/-- A mark enlarges the box by the part of the rectangle that is on the screen. -/
theorem step_mark (hs : s.Ok W H info) {x y w h : ℕ} (hx : x + w < 2 ^ 64) (hy : y + h < 2 ^ 64) :
    ∃ s', s.step (.mark x y w h : Op W H) = .ok s' ∧ s'.Ok W H info ∧
      Damage.Step (s.tracker W H) (.mark (rectangle W H x y w h)) (s'.tracker W H) := by
  have hwidth := hs.width
  have hheight := hs.height
  have hx1 := hs.dirtyX1_le
  have hy1 := hs.dirtyY1_le
  rw [step, markDirty_eq_ok hx hy, Checked.ok_bind, Checked.pure_eq_ok]
  refine ⟨_, rfl, ⟨hwidth, hheight, hs.len, ?_, ?_, hs.writer, hs.fits⟩,
    .mark (s := s.tracker W H) ?_⟩
  · exact max_le hx1 (hwidth ▸ min_le_right _ _)
  · exact max_le hy1 (hheight ▸ min_le_right _ _)
  · rintro ⟨px, py⟩ (hp | hp)
    · obtain ⟨hpx, hpy⟩ := hp
      constructor
      · dsimp only at hpx ⊢
        omega
      · dsimp only at hpy ⊢
        omega
    · obtain ⟨hpx, hpy⟩ := hp
      have hpxlt := px.isLt
      have hpylt := py.isLt
      constructor
      · dsimp only at hpx ⊢
        omega
      · dsimp only at hpy ⊢
        omega

/-- The request that covers the box. -/
def boxRequest (c : Compositor) : BlitRequest where
  buffer := c.buffer.get
  srcStride := c.width
  x := c.dirtyX0
  y := c.dirtyY0
  w := c.dirtyX1 - c.dirtyX0
  h := c.dirtyY1 - c.dirtyY0

theorem request_eq (c : Compositor) :
    c.request = .ok (if c.dirtyX0 < c.dirtyX1 ∧ c.dirtyY0 < c.dirtyY1 then some (boxRequest c)
      else none) := by
  rw [Compositor.request]
  by_cases hbox : c.dirtyX0 < c.dirtyX1 ∧ c.dirtyY0 < c.dirtyY1
  · rw [if_pos hbox, if_neg (by omega), Checked.sub_of_le hbox.1.le, Checked.ok_bind,
      Checked.sub_of_le hbox.2.le, Checked.ok_bind, Checked.pure_eq_ok]
    rfl
  · rw [if_neg hbox, if_pos (by omega), Checked.pure_eq_ok]

theorem blitSyscall_eq_ok (writer : FrameBufferWriter) (req : BlitRequest)
    (hok : writer.info.Ok writer.buffer.len) (hsrc : req.x + req.w ≤ req.srcStride)
    (hrows : req.y + req.h < 2 ^ 64) (hlen : req.srcStride * (req.y + req.h) < 2 ^ 64) :
    ∃ buffer', blitSyscall writer req = .ok { writer with buffer := buffer' } ∧
      Painted writer.info (fun px py ↦ req.buffer (py * req.srcStride + px))
        (fun px py ↦ (req.x ≤ px ∧ px < req.x + req.w) ∧ req.y ≤ py ∧ py < req.y + req.h)
        writer.buffer buffer' := by
  rw [blitSyscall, BlitRequest.slice, Checked.add_of_lt hrows, Checked.ok_bind, Checked.mul,
    if_pos hlen, Checked.ok_bind, Checked.pure_eq_ok, Checked.ok_bind]
  exact blitRect_eq_ok hok hsrc le_rfl hlen

theorem boxRequest_spec (hs : s.Ok W H info)
    (hbox : s.compositor.dirtyX0 < s.compositor.dirtyX1 ∧
      s.compositor.dirtyY0 < s.compositor.dirtyY1) :
    let req := boxRequest s.compositor
    req.srcStride = W ∧ req.x + req.w = s.compositor.dirtyX1 ∧
      req.y + req.h = s.compositor.dirtyY1 ∧ req.srcStride * (req.y + req.h) ≤ W * H := by
  have hy : s.compositor.dirtyY0 + (s.compositor.dirtyY1 - s.compositor.dirtyY0) =
      s.compositor.dirtyY1 := Nat.add_sub_cancel' hbox.2.le
  refine ⟨hs.width, Nat.add_sub_cancel' hbox.1.le, hy, ?_⟩
  rw [boxRequest, hs.width, hy]
  exact Nat.mul_le_mul_left W hs.dirtyY1_le

theorem step_blit (hs : s.Ok W H info) (hinfo : info.width = W ∧ info.height = H)
    (hlt : W * H < 2 ^ 64) :
    ∃ s', s.step (.blit : Op W H) = .ok s' ∧ s'.Ok W H info ∧
      Damage.Step (s.tracker W H) .blit (s'.tracker W H) := by
  have hx1 := hs.dirtyX1_le
  have hy1 := hs.dirtyY1_le
  rw [step, blitDirty, request_eq, Checked.ok_bind]
  by_cases hbox : s.compositor.dirtyX0 < s.compositor.dirtyX1 ∧
      s.compositor.dirtyY0 < s.compositor.dirtyY1
  · obtain ⟨hstride, hright, hbottom, hlen⟩ := boxRequest_spec hs hbox
    have hrows : H ≤ W * H := Nat.le_mul_of_pos_left H (by omega)
    obtain ⟨buffer', hblit, hpainted⟩ := blitSyscall_eq_ok s.writer
      (boxRequest s.compositor) (by rw [hs.writer]; exact hs.fits) (by omega) (by omega)
      (lt_of_le_of_lt hlen hlt)
    rw [hright, hbottom, hstride, hs.writer] at hpainted
    rw [if_pos hbox]
    dsimp only
    rw [hblit, Checked.ok_bind, Checked.pure_eq_ok]
    refine ⟨_, rfl, ⟨hs.width, hs.height, hs.len, Nat.zero_le _, Nat.zero_le _, hs.writer, ?_⟩,
      .blit (s := s.tracker W H) (fun p hp ↦ ?_) fun p hp ↦ ?_⟩
    · dsimp only
      rw [hpainted.len]
      exact hs.fits
    · rw [tracker, hs.writer]
      exact hpainted.painted p.1 p.2 (hinfo.1 ▸ p.1.isLt) (hinfo.2 ▸ p.2.isLt) hp
    · rw [tracker, hs.writer]
      exact hpainted.kept p.1 p.2 (hinfo.1 ▸ p.1.isLt) (hinfo.2 ▸ p.2.isLt) hp
  -- without a request nothing is copied, and there is nothing to copy
  · rw [if_neg hbox]
    refine ⟨s, rfl, hs, .blit (s := s.tracker W H) (fun p hp ↦ ?_) fun p _ ↦ rfl⟩
    obtain ⟨hpx, hpy⟩ := hp
    exact absurd ⟨lt_of_le_of_lt hpx.1 hpx.2, lt_of_le_of_lt hpy.1 hpy.2⟩ hbox

/-- **Every operation is a step of the tracker.** -/
theorem step_refines (hs : s.Ok W H info) (hinfo : info.width = W ∧ info.height = H)
    (hlt : W * H < 2 ^ 64) {op : Op W H} (hop : op.NoWrap) :
    ∃ s', s.step op = .ok s' ∧ s'.Ok W H info ∧
      Damage.Step (s.tracker W H) (op.event info.pixelFormat) (s'.tracker W H) := by
  cases op with
  | set x y color => exact step_set hs hlt x y color
  | mark x y w h => exact step_mark hs hop.1 hop.2
  | blit => exact step_blit hs hinfo hlt

/-- **Every sequence of operations is a run of the tracker.** -/
theorem run_refines (hs : s.Ok W H info) (hinfo : info.width = W ∧ info.height = H)
    (hlt : W * H < 2 ^ 64) (ops : List (Op W H)) (hops : ∀ op ∈ ops, op.NoWrap) :
    ∃ s', ops.foldlM step s = .ok s' ∧ s'.Ok W H info ∧
      Run Damage.Step (s.tracker W H) (ops.map (Op.event info.pixelFormat)) (s'.tracker W H) := by
  induction ops using List.reverseRecOn with
  | nil => exact ⟨s, rfl, hs, .nil⟩
  | append_singleton ops op ih =>
    obtain ⟨s', hrun, hs', hruns⟩ := ih fun op hop ↦ hops op (List.mem_append_left _ hop)
    obtain ⟨s'', hstep, hs'', hsteps⟩ := step_refines hs' hinfo hlt
      (hops op (List.mem_append_right _ (List.mem_singleton_self op)))
    refine ⟨s'', ?_, hs'', ?_⟩
    · rw [List.foldlM_append, hrun, Checked.ok_bind, List.foldlM_cons, hstep, Checked.ok_bind,
        List.foldlM_nil, Checked.pure_eq_ok]
    · rw [List.map_append]
      exact hruns.snoc hsteps

theorem new_eq_ok {writer : FrameBufferWriter} (hok : writer.info.Ok writer.buffer.len)
    (hW : writer.info.width = W) (hH : writer.info.height = H) :
    ∃ c, Compositor.new W H = .ok c ∧ (Desktop.mk c writer).Ok W H writer.info ∧
      Damage.Tracked [] ((Desktop.mk c writer).tracker W H) := by
  have hlt : W * H < 2 ^ 64 := hW ▸ hH ▸ hok.pixels_lt
  rw [Compositor.new, Checked.mul, if_pos hlt, Checked.ok_bind, Checked.pure_eq_ok]
  refine ⟨_, rfl, ⟨rfl, rfl, rfl, le_rfl, le_rfl, rfl, hok⟩, fun p ↦ Or.inr (Or.inl ?_)⟩
  exact ⟨⟨Nat.zero_le _, p.1.isLt⟩, Nat.zero_le _, p.2.isLt⟩

end

end Desktop

/-! ## The screen shows the picture -/

/-- Every pixel of the rectangle lies in the slice of `src_stride * (y + h)` pixels. -/
def BlitRequest.Inside (req : BlitRequest) : Prop :=
  ∀ px py, (req.x ≤ px ∧ px < req.x + req.w) → (req.y ≤ py ∧ py < req.y + req.h) →
    py * req.srcStride + px < req.srcStride * (req.y + req.h)

theorem BlitRequest.inside_of_le {req : BlitRequest} (h : req.x + req.w ≤ req.srcStride) :
    req.Inside := by
  intro px py hpx hpy
  have hrow : (py + 1) * req.srcStride ≤ (req.y + req.h) * req.srcStride :=
    Nat.mul_le_mul_right _ hpy.2
  rw [Nat.succ_mul, mul_comm (req.y + req.h)] at hrow
  omega

/-- Every pixel of the screen is the encoding of the pixel of the picture at the same place. -/
def Desktop.Coherent (W H : ℕ) (s : Desktop) : Prop :=
  ∀ (x : Fin W) (y : Fin H), pixelAt s.writer.info s.writer.buffer x y =
    encode s.writer.info.pixelFormat (s.compositor.buffer.get (y * W + x))

/-- **After every blit the screen shows the picture**, when every pixel that changes is marked
between its change and the next blit. The operations before the blit and the blit itself end without
a fault, and what the blit requests lies in the slice of the request and in the picture. -/
theorem screen_coherent {W H : ℕ} {writer : FrameBufferWriter}
    (hok : writer.info.Ok writer.buffer.len) (hW : writer.info.width = W)
    (hH : writer.info.height = H) (ops pre : List (Desktop.Op W H))
    (hops : ∀ op ∈ ops, op.NoWrap)
    (hcovered : Damage.Covered (ops.map (Desktop.Op.event writer.info.pixelFormat)))
    (hpre : pre ++ [.blit] <+: ops) :
    ∃ s s', Desktop.run writer pre = .ok s ∧ s.step (.blit : Desktop.Op W H) = .ok s' ∧
      (∀ req, s.compositor.request = .ok (some req) →
        req.Inside ∧ req.srcStride * (req.y + req.h) ≤ s.compositor.buffer.len) ∧
      s'.Coherent W H := by
  have hlt : W * H < 2 ^ 64 := hW ▸ hH ▸ hok.pixels_lt
  obtain ⟨rest, rfl⟩ := hpre
  obtain ⟨c, hnew, hc, htracked⟩ := Desktop.new_eq_ok hok hW hH
  obtain ⟨s, hrun, hs, hruns⟩ := Desktop.run_refines hc ⟨hW, hH⟩ hlt pre fun op hop ↦
    hops op (List.mem_append_left _ (List.mem_append_left _ hop))
  obtain ⟨s', hblit, -, hstep⟩ := Desktop.step_blit hs ⟨hW, hH⟩ hlt
  refine ⟨s, s', ?_, hblit, fun req hreq ↦ ?_, fun x y ↦ ?_⟩
  · rw [Desktop.run, hnew, Checked.ok_bind, hrun]
  -- the request is the dirty box, which the tracker keeps within the screen
  · rw [Desktop.request_eq, Except.ok.injEq] at hreq
    split at hreq
    · rename_i hbox
      obtain rfl := Option.some.inj hreq
      obtain ⟨hstride, hright, -, hlen⟩ := Desktop.boxRequest_spec hs hbox
      have hx1 := hs.dirtyX1_le
      exact ⟨BlitRequest.inside_of_le (by omega), hs.len ▸ hlen⟩
    · cases hreq
  · rw [List.map_append, List.map_append] at hcovered
    exact congrFun (Damage.coherent_of_blit htracked hruns hstep hcovered.of_append) (x, y)

/-- The theorem at a run: on a screen of two pixels one is drawn, marked and blitted. -/
theorem screen_coherent_twoPixels :
    ∃ s s' : Desktop,
      Desktop.run ⟨⟨fun _ ↦ 7, 6⟩, ⟨2, 1, 2, 3, .rgb⟩⟩ [.set (1 : Fin 2) (0 : Fin 1) 0xFF336699,
        .mark 1 0 5 1] = .ok s ∧ s.step (.blit : Desktop.Op 2 1) = .ok s' ∧
      (∀ req, s.compositor.request = .ok (some req) →
        req.Inside ∧ req.srcStride * (req.y + req.h) ≤ s.compositor.buffer.len) ∧
      s'.Coherent 2 1 := by
  refine screen_coherent ⟨by decide, by decide, by decide, by decide, by decide⟩ rfl rfl
    [.set (1 : Fin 2) (0 : Fin 1) 0xFF336699, .mark 1 0 5 1, .blit] _ ?_ ?_ (List.prefix_refl _)
  · intro op hop
    simp only [List.mem_cons, List.not_mem_nil, or_false] at hop
    rcases hop with rfl | rfl | rfl
    · trivial
    · exact ⟨by decide, by decide⟩
    · trivial
  -- the only change is the first event, and the mark that follows covers it
  · rintro (_ | ⟨e, _ | ⟨e', _ | ⟨e'', before⟩⟩⟩) p c (_ | ⟨mark, after⟩) rest hes -
    all_goals simp only [List.map_cons, List.map_nil, Desktop.Op.event, List.nil_append,
      List.cons_append, List.cons.injEq, reduceCtorEq, false_and, and_false,
      List.nil_eq_append_iff] at hes
    obtain ⟨hchange, rfl, -⟩ := hes
    refine ⟨_, List.mem_cons_self, ?_⟩
    obtain ⟨rfl, -⟩ := Damage.Event.change.inj hchange
    exact ⟨by decide, by decide⟩

end RelizOS.Gui
