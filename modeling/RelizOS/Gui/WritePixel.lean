import RelizOS.Gui.FrameBuffer
import RelizOS.Library.Grid

/-!
# Two ways to the screen

Text and solid rectangles reach the screen pixel by pixel, through `write_pixel`, which leaves out
what is off the screen and stores without looking at the length of the buffer. `blit_rect` clips the
rectangle first and looks before every store. On a frame buffer that covers its rows the two do the
same stores in the same order, those of the visible pixels (`putPixel`): so the buffer is the same
afterwards, byte for byte, and differs from the one before only in bytes of these pixels
(`blitRect_eq_writePixels`). This includes a format that neither can encode; then nothing is stored.
-/

open ByteMemory

namespace RelizOS.Gui

/-! ## `write_pixel` -/

/-- A colour: red, green and blue. -/
abbrev Color := UInt8 × UInt8 × UInt8

/-- The stores of `write_pixel` for three bytes, without a test. -/
def storeChannels (buffer : Slice UInt8) (pixelOffset : ℕ) (a b c : UInt8) :
    Checked (Slice UInt8) := do
  let buffer ← buffer.write pixelOffset a
  let buffer ← buffer.write (← Checked.add 64 pixelOffset 1) b
  buffer.write (← Checked.add 64 pixelOffset 2) c

/-- The `match` on the pixel format. -/
def storeColor (format : PixelFormat) (buffer : Slice UInt8) (pixelOffset : ℕ) (color : Color) :
    Checked (Slice UInt8) :=
  match format with
  | .rgb => storeChannels buffer pixelOffset color.1 color.2.1 color.2.2
  | .bgr => storeChannels buffer pixelOffset color.2.2 color.2.1 color.1
  | .u8 => buffer.write pixelOffset
      ((color.1.toUInt32 + color.2.1.toUInt32 + color.2.2.toUInt32) / 3).toUInt8
  | .unknown => return buffer

/-- `write_pixel`. -/
def FrameBufferWriter.writePixel (writer : FrameBufferWriter) (x y : ℕ) (color : Color) :
    Checked FrameBufferWriter := do
  if x ≥ writer.info.width ∨ y ≥ writer.info.height then return writer
  else
    let row ← Checked.mul 64 y writer.info.stride
    let pixelOffset ← Checked.mul 64 (← Checked.add 64 row x) writer.info.bytesPerPixel
    let buffer ← storeColor writer.info.pixelFormat writer.buffer pixelOffset color
    return { writer with buffer := buffer }

/-- The channels of a pixel of the source. -/
def channels (pixel : UInt32) : Color := (red pixel, green pixel, blue pixel)

/-- `write_pixel` for every pixel of a rectangle, in the loops of `draw_rect`, with the colours of
the source. -/
def FrameBufferWriter.writePixels (writer : FrameBufferWriter) (source : Slice UInt32)
    (srcStride x y w h : ℕ) : Checked FrameBufferWriter :=
  (List.range h).foldlM (fun writer dy ↦
    (List.range w).foldlM (fun (writer : FrameBufferWriter) dx ↦ do
      let px ← Checked.add 64 x dx
      let py ← Checked.add 64 y dy
      writer.writePixel px py (channels (colorAt source srcStride px py))) writer) writer

/-! ## What is stored -/

section

variable {buffer : Slice UInt8} {offset : ℕ}

theorem storeChannels_eq (a b c : UInt8) (hfits : offset + 3 ≤ buffer.len)
    (hlen : buffer.len < 2 ^ 64) : storeChannels buffer offset a b c =
      .ok { buffer with get := writeBytes buffer.get offset [a, b, c] } := by
  rw [storeChannels]
  exact write_three a b c hfits hlen

theorem storeColor_eq {format : PixelFormat} (pixel : UInt32)
    (hfits : offset + format.size ≤ buffer.len) (hlen : buffer.len < 2 ^ 64) :
    storeColor format buffer offset (channels pixel) =
      .ok { buffer with get := writeBytes buffer.get offset (encode format pixel) } := by
  cases format with
  | rgb => exact storeChannels_eq _ _ _ hfits hlen
  | bgr => exact storeChannels_eq _ _ _ hfits hlen
  | u8 =>
    rw [PixelFormat.size] at hfits
    rw [storeColor, Slice.write_of_lt (by omega), encode, writeBytes_cons, writeBytes_nil]
    rfl
  | unknown => rw [encode, writeBytes_nil]; rfl

end

section

variable {source : Slice UInt32} {srcStride x y w h : ℕ} {writer : FrameBufferWriter}

/-- The bytes of a pixel that is off the screen are not stored. -/
theorem writePixel_eq (hok : writer.info.Covered writer.buffer.len) (color : ℕ → ℕ → UInt32)
    (px py : ℕ) : writer.writePixel px py (channels (color px py)) =
      .ok { writer with
        buffer := if px < writer.info.width ∧ py < writer.info.height then
          putPixel writer.info color writer.buffer (px, py) else writer.buffer } := by
  rw [FrameBufferWriter.writePixel]
  by_cases hout : px ≥ writer.info.width ∨ py ≥ writer.info.height
  · rw [if_pos hout, if_neg (by omega)]
    rfl
  · rw [if_neg hout, if_pos (by omega)]
    rw [not_or, not_le, not_le] at hout
    have hbuffer := hok.len_lt
    have hsize := hok.size_le
    have hle := hok.offset_le hout.1 hout.2
    obtain ⟨-, hcell⟩ := hok.cell_lt hout.1 hout.2
    have hfits : writer.info.offset px py + writer.info.pixelFormat.size ≤ writer.buffer.len := by
      omega
    have hstore := storeColor_eq (color px py) hfits hbuffer
    rw [FrameBufferInfo.offset] at hle hstore
    rw [Checked.mul, if_pos (by omega), Checked.ok_bind, Checked.add_of_lt hcell, Checked.ok_bind,
      Checked.mul, if_pos (by omega), Checked.ok_bind, hstore]
    rfl

/-- The writer after `write_pixel`. -/
def FrameBufferWriter.afterPixel (writer : FrameBufferWriter) (color : ℕ → ℕ → UInt32)
    (p : ℕ × ℕ) : FrameBufferWriter :=
  { writer with
    buffer := if p.1 < writer.info.width ∧ p.2 < writer.info.height then
      putPixel writer.info color writer.buffer p else writer.buffer }

theorem foldl_afterPixel (color : ℕ → ℕ → UInt32) (l : List (ℕ × ℕ)) :
    l.foldl (fun writer p ↦ writer.afterPixel color p) writer =
      { writer with
        buffer := (l.filter fun p ↦ p.1 < writer.info.width ∧ p.2 < writer.info.height).foldl
          (putPixel writer.info color) writer.buffer } := by
  induction l generalizing writer with
  | nil => rfl
  | cons p l ih =>
    rw [List.foldl_cons, ih, FrameBufferWriter.afterPixel]
    by_cases hin : p.1 < writer.info.width ∧ p.2 < writer.info.height
    · rw [List.filter_cons_of_pos (by simpa using hin), List.foldl_cons, if_pos hin]
    · rw [List.filter_cons_of_neg (by simpa using hin), if_neg hin]

/-- **Writing pixels one after another** stores those that are on the screen. -/
theorem foldlM_writePixel (hok : writer.info.Covered writer.buffer.len) (color : ℕ → ℕ → UInt32)
    (l : List (ℕ × ℕ)) :
    l.foldlM (fun (writer : FrameBufferWriter) p ↦
        writer.writePixel p.1 p.2 (channels (color p.1 p.2))) writer =
      .ok { writer with
        buffer := (l.filter fun p ↦ p.1 < writer.info.width ∧ p.2 < writer.info.height).foldl
          (putPixel writer.info color) writer.buffer } := by
  rw [← foldl_afterPixel]
  refine Checked.foldlM_eq_foldl (g := fun (wr : FrameBufferWriter) p ↦ wr.afterPixel color p)
    (fun wr : FrameBufferWriter ↦ wr.info = writer.info ∧ wr.buffer.len = writer.buffer.len)
    ⟨rfl, rfl⟩ fun p _ wr hwr ↦ ⟨writePixel_eq (hwr.1 ▸ hwr.2 ▸ hok) color p.1 p.2, hwr.1, ?_⟩
  rw [FrameBufferWriter.afterPixel]
  dsimp only
  split
  · exact hwr.2
  · exact hwr.2

theorem foldlM_cells (write : FrameBufferWriter → ℕ × ℕ → Checked FrameBufferWriter) :
    (List.range h).foldlM (fun writer dy ↦
        (List.range w).foldlM (fun writer dx ↦ write writer (x + dx, y + dy)) writer) writer =
      (Grid.cells x y w h).foldlM write writer := by
  rw [Grid.cells, Checked.foldlM_flatMap]
  simp only [List.foldlM_map]

/-- **The loops with `write_pixel`** store the pixels of the rectangle that are on the screen. -/
theorem writePixels_eq_foldl (hok : writer.info.Covered writer.buffer.len)
    (hsrc : x + w ≤ srcStride) (hlen : srcStride * (y + h) ≤ source.len)
    (hsource : source.len < 2 ^ 64) :
    writer.writePixels source srcStride x y w h =
      .ok { writer with
        buffer := ((Grid.cells x y w h).filter fun p ↦
          p.1 < writer.info.width ∧ p.2 < writer.info.height).foldl
            (putPixel writer.info (colorAt source srcStride)) writer.buffer } := by
  have hcell : ∀ dy < h, ∀ dx < w, x + dx < 2 ^ 64 ∧ y + dy < 2 ^ 64 := by
    intro dy hdy dx hdx
    have hcolumn : srcStride ≤ srcStride * (y + h) := Nat.le_mul_of_pos_right _ (by omega)
    have hrow : y + h ≤ srcStride * (y + h) := Nat.le_mul_of_pos_left _ (by omega)
    omega
  rw [← foldlM_writePixel hok, ← foldlM_cells, FrameBufferWriter.writePixels]
  refine Checked.foldlM_congr (fun dy hdy writer ↦
    Checked.foldlM_congr (fun dx hdx writer ↦ ?_) _) _
  obtain ⟨hx, hy⟩ := hcell dy (List.mem_range.mp hdy) dx (List.mem_range.mp hdx)
  rw [Checked.add_of_lt hx, Checked.ok_bind, Checked.add_of_lt hy, Checked.ok_bind]

/-- **`blit_rect` and `write_pixel` agree**: the buffer is the same after both, and only bytes of
the visible pixels of the rectangle have changed. -/
theorem blitRect_eq_writePixels (hok : writer.info.Covered writer.buffer.len)
    (hsrc : x + w ≤ srcStride) (hlen : srcStride * (y + h) ≤ source.len)
    (hsource : source.len < 2 ^ 64) :
    ∃ buffer', writer.blitRect source srcStride x y w h = .ok { writer with buffer := buffer' } ∧
      writer.writePixels source srcStride x y w h = .ok { writer with buffer := buffer' } ∧
      buffer'.len = writer.buffer.len ∧
      ∀ a, buffer'.get a ≠ writer.buffer.get a → ∃ px py,
        (px < writer.info.width ∧ py < writer.info.height) ∧
        ((x ≤ px ∧ px < x + w) ∧ y ≤ py ∧ py < y + h) ∧
        writer.info.offset px py ≤ a ∧
        a < writer.info.offset px py + writer.info.pixelFormat.size := by
  have hpixels := writePixels_eq_foldl hok hsrc hlen hsource
  rw [Grid.filter_cells] at hpixels
  refine ⟨_, blitRect_eq_foldl hok hsrc hlen hsource, hpixels, len_foldl_putPixel _,
    fun a hchanged ↦ ?_⟩
  by_contra hnone
  refine hchanged (get_foldl_putPixel fun p hp hin ↦ hnone ?_)
  obtain ⟨hx, hy⟩ := Grid.mem_cells.mp hp
  exact ⟨p.1, p.2, by omega, by omega, hin⟩

end

/-- A screen of two pixels. -/
def smallScreen : FrameBufferWriter := ⟨⟨fun _ ↦ 0, 6⟩, ⟨2, 1, 2, 3, .rgb⟩⟩

theorem blitRect_eq_writePixels_smallScreen : ∃ buffer',
    smallScreen.blitRect ⟨fun _ ↦ 0x010203, 3⟩ 3 1 0 2 1 = .ok ⟨buffer', smallScreen.info⟩ ∧
    smallScreen.writePixels ⟨fun _ ↦ 0x010203, 3⟩ 3 1 0 2 1 = .ok ⟨buffer', smallScreen.info⟩ := by
  have hok : smallScreen.info.Covered smallScreen.buffer.len :=
    ⟨by decide, by decide, by decide, by decide⟩
  have hsrc : 1 + 2 ≤ 3 := le_rfl
  have hlen : 3 * (0 + 1) ≤ (Slice.mk (fun _ ↦ (0x010203 : UInt32)) 3).len := le_rfl
  obtain ⟨buffer', hblit, hpixels, -⟩ := blitRect_eq_writePixels hok hsrc hlen (by decide)
  exact ⟨buffer', hblit, hpixels⟩

end RelizOS.Gui
