import RelizOS.Library.ByteStrings
import RelizOS.Library.Grid
import RelizOS.Library.Slice

/-!
# Blitting to the frame buffer

`FrameBufferWriter::blit_rect` copies a rectangle of 32-bit pixels into the frame buffer, row by row
and pixel by pixel, in the encoding of the frame buffer's pixel format. The rectangle is clipped at
the right and lower edges of the screen.

On a frame buffer that covers its rows (`FrameBufferInfo.Covered`) no check fails, and the two loops
store the pixels of the clipped rectangle one after another (`blitRect_eq_foldl`). A pixel of the
screen is the list of bytes that encode it, `pixelAt`. Where the pixels lie side by side
(`FrameBufferInfo.Ok`), storing some is painting them, which is a fact about `pixelAt` only: the
pixels of the rectangle become those of the source, all others stay (`blitRect_eq_ok`).

## What is left out

The text cursor and the colours of the writer, which blitting does not use.
-/

open ByteMemory

namespace RelizOS.Gui

/-! ## The code -/

/-- `PixelFormat`. -/
inductive PixelFormat where
  | rgb
  | bgr
  | u8
  | unknown
  deriving DecidableEq

/-- `FrameBufferInfo`. -/
structure FrameBufferInfo where
  /-- Pixels in a row. -/
  width : ℕ
  /-- Rows. -/
  height : ℕ
  /-- Pixels between the starts of two rows. -/
  stride : ℕ
  /-- Bytes between the starts of two pixels. -/
  bytesPerPixel : ℕ
  /-- The encoding of a pixel. -/
  pixelFormat : PixelFormat

/-- The red, green and blue parts of a pixel `0xAARRGGBB`. -/
def red (pixel : UInt32) : UInt8 := ((pixel >>> 16) &&& 0xFF).toUInt8

@[inherit_doc red] def green (pixel : UInt32) : UInt8 := ((pixel >>> 8) &&& 0xFF).toUInt8

@[inherit_doc red] def blue (pixel : UInt32) : UInt8 := (pixel &&& 0xFF).toUInt8

/-- The grey of a pixel. -/
def grey (pixel : UInt32) : UInt8 :=
  (((red pixel).toUInt32 + (green pixel).toUInt32 + (blue pixel).toUInt32) / 3).toUInt8

/-- Store three bytes, if they fit. -/
def storeThree (buffer : Slice UInt8) (offset : ℕ) (a b c : UInt8) : Checked (Slice UInt8) := do
  if (← Checked.add 64 offset 2) < buffer.len then
    let buffer ← buffer.write offset a
    let buffer ← buffer.write (← Checked.add 64 offset 1) b
    buffer.write (← Checked.add 64 offset 2) c
  else return buffer

/-- The `match` on the pixel format: store a pixel at an offset, if it fits. -/
def storePixel (format : PixelFormat) (buffer : Slice UInt8) (offset : ℕ) (pixel : UInt32) :
    Checked (Slice UInt8) :=
  match format with
  | .rgb => storeThree buffer offset (red pixel) (green pixel) (blue pixel)
  | .bgr => storeThree buffer offset (blue pixel) (green pixel) (red pixel)
  | .u8 => if offset < buffer.len then buffer.write offset (grey pixel) else return buffer
  | .unknown => return buffer

/-- The body of the inner loop. -/
def blitPixel (info : FrameBufferInfo) (source : Slice UInt32) (srcRowOffset destRowOffset : ℕ)
    (buffer : Slice UInt8) (dx : ℕ) : Checked (Slice UInt8) := do
  let pixel ← source.read (← Checked.add 64 srcRowOffset dx)
  let offset ← Checked.add 64 destRowOffset (← Checked.mul 64 dx info.bytesPerPixel)
  storePixel info.pixelFormat buffer offset pixel

/-- The body of the outer loop. -/
def blitRow (info : FrameBufferInfo) (source : Slice UInt32) (srcStride x y w : ℕ)
    (buffer : Slice UInt8) (dy : ℕ) : Checked (Slice UInt8) := do
  let destY ← Checked.add 64 y dy
  let srcY ← Checked.add 64 y dy
  let destRow ← Checked.add 64 (← Checked.mul 64 destY info.stride) x
  let destRowOffset ← Checked.mul 64 destRow info.bytesPerPixel
  let srcRowOffset ← Checked.add 64 (← Checked.mul 64 srcY srcStride) x
  (List.range w).foldlM (blitPixel info source srcRowOffset destRowOffset) buffer

/-- `FrameBufferWriter`. -/
structure FrameBufferWriter where
  /-- The memory of the frame buffer. -/
  buffer : Slice UInt8
  /-- Its layout. -/
  info : FrameBufferInfo

/-- `blit_rect`. -/
def FrameBufferWriter.blitRect (writer : FrameBufferWriter) (source : Slice UInt32)
    (srcStride x y w h : ℕ) : Checked FrameBufferWriter := do
  if x ≥ writer.info.width ∨ y ≥ writer.info.height then return writer
  else
    let w := min w (← Checked.sub writer.info.width x)
    let h := min h (← Checked.sub writer.info.height y)
    let buffer ← (List.range h).foldlM (blitRow writer.info source srcStride x y w) writer.buffer
    return { writer with buffer := buffer }

/-! ## Pixels -/

/-- The bytes that stand for a pixel. -/
def encode (format : PixelFormat) (pixel : UInt32) : List UInt8 :=
  match format with
  | .rgb => [red pixel, green pixel, blue pixel]
  | .bgr => [blue pixel, green pixel, red pixel]
  | .u8 => [grey pixel]
  | .unknown => []

/-- The number of bytes of a pixel. -/
def PixelFormat.size : PixelFormat → ℕ
  | .rgb | .bgr => 3
  | .u8 => 1
  | .unknown => 0

@[simp] theorem length_encode (format : PixelFormat) (pixel : UInt32) :
    (encode format pixel).length = format.size := by
  cases format <;> rfl

/-- A frame buffer of `len` bytes in which the pixels lie side by side: rows do not overlap, a pixel
has room for its bytes, and the format is one of those that `blit_rect` can encode. -/
structure FrameBufferInfo.Ok (info : FrameBufferInfo) (len : ℕ) : Prop where
  stride : info.width ≤ info.stride
  format : info.pixelFormat ≠ .unknown
  room : info.pixelFormat.size ≤ info.bytesPerPixel
  covers : info.stride * info.height * info.bytesPerPixel ≤ len
  len_lt : len < 2 ^ 64

/-- Where a pixel is. -/
def FrameBufferInfo.offset (info : FrameBufferInfo) (x y : ℕ) : ℕ :=
  (y * info.stride + x) * info.bytesPerPixel

theorem offset_add (info : FrameBufferInfo) (x dx row : ℕ) :
    info.offset x row + dx * info.bytesPerPixel = info.offset (x + dx) row := by
  rw [FrameBufferInfo.offset, FrameBufferInfo.offset, ← Nat.add_assoc, Nat.add_mul _ dx]

/-- The bytes of a pixel on the screen. -/
def pixelAt (info : FrameBufferInfo) (buffer : Slice UInt8) (x y : ℕ) : List UInt8 :=
  buffer.segment (info.offset x y) info.pixelFormat.size

namespace FrameBufferInfo.Ok

variable {info : FrameBufferInfo} {len x y : ℕ}

theorem offset_le (h : info.Ok len) (hx : x < info.width) (hy : y < info.height) :
    info.offset x y + info.bytesPerPixel ≤ len := by
  have hrow : (y + 1) * info.stride ≤ info.height * info.stride := Nat.mul_le_mul_right _ hy
  have hcell : y * info.stride + x + 1 ≤ info.stride * info.height := by
    have := h.stride
    rw [Nat.succ_mul] at hrow
    rw [mul_comm info.stride]
    omega
  calc info.offset x y + info.bytesPerPixel
      = (y * info.stride + x + 1) * info.bytesPerPixel := by
        rw [FrameBufferInfo.offset, Nat.succ_mul]
    _ ≤ info.stride * info.height * info.bytesPerPixel := Nat.mul_le_mul_right _ hcell
    _ ≤ len := h.covers

theorem bytesPerPixel_pos (h : info.Ok len) : 0 < info.bytesPerPixel := by
  refine lt_of_lt_of_le ?_ h.room
  have hformat := h.format
  cases hcase : info.pixelFormat with
  | rgb => exact Nat.succ_pos 2
  | bgr => exact Nat.succ_pos 2
  | u8 => exact Nat.one_pos
  | unknown => exact absurd hcase hformat

theorem cell_lt (h : info.Ok len) (hx : x < info.width) (hy : y < info.height) :
    y < 2 ^ 64 ∧ y * info.stride + x < 2 ^ 64 := by
  have hcell : y * info.stride + x ≤ info.offset x y :=
    Nat.le_mul_of_pos_right _ h.bytesPerPixel_pos
  have hrow : y ≤ y * info.stride :=
    Nat.le_mul_of_pos_right _ (lt_of_le_of_lt (Nat.zero_le x) (lt_of_lt_of_le hx h.stride))
  have hle := h.offset_le hx hy
  have hlen := h.len_lt
  constructor
  · omega
  · omega

theorem pixels_lt (h : info.Ok len) : info.width * info.height < 2 ^ 64 := by
  have hstride : info.width * info.height ≤ info.stride * info.height :=
    Nat.mul_le_mul_right _ h.stride
  have hbytes : info.stride * info.height ≤ info.stride * info.height * info.bytesPerPixel :=
    Nat.le_mul_of_pos_right _ h.bytesPerPixel_pos
  exact lt_of_le_of_lt ((hstride.trans hbytes).trans h.covers) h.len_lt

end FrameBufferInfo.Ok

/-- A frame buffer of `len` bytes covers its rows, which do not overlap, and a pixel has three
bytes, or one if it is grey. -/
structure FrameBufferInfo.Covered (info : FrameBufferInfo) (len : ℕ) : Prop where
  stride : info.width ≤ info.stride
  bytes : (if info.pixelFormat = .u8 then 1 else 3) ≤ info.bytesPerPixel
  covers : info.stride * info.height * info.bytesPerPixel ≤ len
  len_lt : len < 2 ^ 64

namespace FrameBufferInfo.Covered

variable {info : FrameBufferInfo} {len x y x' y' : ℕ}

theorem size_le (h : info.Covered len) : info.pixelFormat.size ≤ info.bytesPerPixel := by
  refine le_trans ?_ h.bytes
  cases info.pixelFormat <;> decide

/-- As far as the places of the pixels go, they might all be grey. -/
theorem grey (h : info.Covered len) : FrameBufferInfo.Ok { info with pixelFormat := .u8 } len where
  stride := h.stride
  format := show PixelFormat.u8 ≠ .unknown by decide
  room := le_trans (show 1 ≤ _ by split <;> omega) h.bytes
  covers := h.covers
  len_lt := h.len_lt

theorem offset_le (h : info.Covered len) (hx : x < info.width) (hy : y < info.height) :
    info.offset x y + info.bytesPerPixel ≤ len := h.grey.offset_le hx hy

theorem cell_lt (h : info.Covered len) (hx : x < info.width) (hy : y < info.height) :
    y < 2 ^ 64 ∧ y * info.stride + x < 2 ^ 64 := h.grey.cell_lt hx hy

theorem sides_lt (h : info.Covered len) (hwidth : 10 ≤ info.width) (hheight : 10 ≤ info.height) :
    info.width < 2 ^ 61 ∧ info.height < 2 ^ 61 := by
  have hbytes : 1 ≤ info.bytesPerPixel := h.grey.room
  have hpixels : info.stride * info.height ≤ info.stride * info.height * info.bytesPerPixel :=
    Nat.le_mul_of_pos_right _ hbytes
  have hrow : info.stride * 10 ≤ info.stride * info.height := Nat.mul_le_mul_left _ hheight
  have hcolumn : 10 * info.height ≤ info.stride * info.height :=
    Nat.mul_le_mul_right _ (hwidth.trans h.stride)
  have hstride := h.stride
  have hcovers := h.covers
  have hlen := h.len_lt
  omega

theorem offset_apart (h : info.Covered len) (hx : x < info.width) (hx' : x' < info.width)
    (hne : ¬(x = x' ∧ y = y')) :
    info.offset x y + info.pixelFormat.size ≤ info.offset x' y' ∨
      info.offset x' y' + info.pixelFormat.size ≤ info.offset x y := by
  have hstride := h.stride
  have hroom := h.size_le
  have hcells : y * info.stride + x + 1 ≤ y' * info.stride + x' ∨
      y' * info.stride + x' + 1 ≤ y * info.stride + x := by
    rcases Nat.lt_trichotomy y y' with hlt | rfl | hgt
    · have hrow := Nat.mul_le_mul_right info.stride (Nat.succ_le_of_lt hlt)
      rw [Nat.succ_mul] at hrow
      omega
    · omega
    · have hrow := Nat.mul_le_mul_right info.stride (Nat.succ_le_of_lt hgt)
      rw [Nat.succ_mul] at hrow
      omega
  rw [FrameBufferInfo.offset, FrameBufferInfo.offset]
  refine hcells.imp (fun hle ↦ ?_) fun hle ↦ ?_
  · have hbytes := Nat.mul_le_mul_right info.bytesPerPixel hle
    rw [Nat.succ_mul] at hbytes
    omega
  · have hbytes := Nat.mul_le_mul_right info.bytesPerPixel hle
    rw [Nat.succ_mul] at hbytes
    omega

end FrameBufferInfo.Covered

theorem FrameBufferInfo.Ok.covered {info : FrameBufferInfo} {len : ℕ} (h : info.Ok len) :
    info.Covered len where
  stride := h.stride
  bytes := by
    refine le_trans (le_of_eq ?_) h.room
    have hformat := h.format
    cases hcase : info.pixelFormat with
    | rgb => rfl
    | bgr => rfl
    | u8 => rfl
    | unknown => exact absurd hcase hformat
  covers := h.covers
  len_lt := h.len_lt

/-! ## Painting -/

/-- The pixels in `P` have become those of the source, the others are as before. -/
structure Painted (info : FrameBufferInfo) (source : ℕ → ℕ → UInt32) (P : ℕ → ℕ → Prop)
    (buffer buffer' : Slice UInt8) : Prop where
  len : buffer'.len = buffer.len
  painted : ∀ x y, x < info.width → y < info.height → P x y →
    pixelAt info buffer' x y = encode info.pixelFormat (source x y)
  kept : ∀ x y, x < info.width → y < info.height → ¬P x y →
    pixelAt info buffer' x y = pixelAt info buffer x y

section

variable {info : FrameBufferInfo} {source : ℕ → ℕ → UInt32} {P Q R : ℕ → ℕ → Prop}
  {buffer buffer₁ buffer₂ : Slice UInt8}

theorem Painted.refl (hP : ∀ x y, x < info.width → y < info.height → ¬P x y) :
    Painted info source P buffer buffer where
  len := rfl
  painted x y hx hy hpainted := absurd hpainted (hP x y hx hy)
  kept _ _ _ _ _ := rfl

theorem Painted.trans (h₁ : Painted info source P buffer buffer₁)
    (h₂ : Painted info source Q buffer₁ buffer₂) (hR : ∀ x y, R x y ↔ P x y ∨ Q x y) :
    Painted info source R buffer buffer₂ where
  len := h₂.len.trans h₁.len
  painted x y hx hy hpainted := by
    by_cases hQ : Q x y
    · exact h₂.painted x y hx hy hQ
    · rw [h₂.kept x y hx hy hQ]
      exact h₁.painted x y hx hy (((hR x y).mp hpainted).resolve_right hQ)
  kept x y hx hy hnot := by
    rw [hR, not_or] at hnot
    rw [h₂.kept x y hx hy hnot.2, h₁.kept x y hx hy hnot.1]

theorem segment_of_bytesAt (buffer : Slice UInt8) {i : ℕ} {bs : List UInt8}
    (h : BytesAt buffer.get i bs) :
    buffer.segment i bs.length = bs := by
  apply List.ext_getElem
  · rw [Slice.segment, List.length_map, List.length_range]
  · intro k hk hk'
    rw [← h k hk']
    simp only [Slice.segment, List.getElem_map, List.getElem_range]

end

/-! ## Stores -/

/-- Store the bytes of a pixel at its place. -/
def putPixel (info : FrameBufferInfo) (source : ℕ → ℕ → UInt32) (buffer : Slice UInt8)
    (p : ℕ × ℕ) : Slice UInt8 :=
  { buffer with
    get := writeBytes buffer.get (info.offset p.1 p.2) (encode info.pixelFormat (source p.1 p.2)) }

section

variable {info : FrameBufferInfo} {source : ℕ → ℕ → UInt32} {buffer : Slice UInt8} {offset x y : ℕ}

theorem write_three (a b c : UInt8) (hfits : offset + 3 ≤ buffer.len) (hlen : buffer.len < 2 ^ 64) :
    (do
      let buffer ← buffer.write offset a
      let buffer ← buffer.write (← Checked.add 64 offset 1) b
      buffer.write (← Checked.add 64 offset 2) c) =
      Except.ok { buffer with get := writeBytes buffer.get offset [a, b, c] } := by
  rw [Slice.write_of_lt (by omega), Checked.ok_bind, Checked.add_of_lt (by omega), Checked.ok_bind,
    Slice.write_of_lt (by dsimp only; omega), Checked.ok_bind, Checked.add_of_lt (by omega),
    Checked.ok_bind, Slice.write_of_lt (by dsimp only; omega), writeBytes_cons, writeBytes_cons,
    writeBytes_cons, writeBytes_nil]

theorem storeThree_eq (a b c : UInt8) (hfits : offset + 3 ≤ buffer.len)
    (hlen : buffer.len < 2 ^ 64) : storeThree buffer offset a b c =
      .ok { buffer with get := writeBytes buffer.get offset [a, b, c] } := by
  rw [storeThree, write_three a b c hfits hlen, Checked.add_of_lt (by omega), Checked.ok_bind,
    if_pos (by omega)]

/-- A pixel that fits is stored; if it cannot be encoded, it has no bytes. -/
theorem storePixel_eq {format : PixelFormat} (pixel : UInt32)
    (hfits : offset + format.size ≤ buffer.len) (hlen : buffer.len < 2 ^ 64) :
    storePixel format buffer offset pixel =
      .ok { buffer with get := writeBytes buffer.get offset (encode format pixel) } := by
  cases format with
  | rgb => exact storeThree_eq _ _ _ hfits hlen
  | bgr => exact storeThree_eq _ _ _ hfits hlen
  | u8 =>
    rw [PixelFormat.size] at hfits
    rw [storePixel, if_pos (by omega), Slice.write_of_lt (by omega), encode, writeBytes_cons,
      writeBytes_nil]
  | unknown => rw [encode, writeBytes_nil]; rfl

/-- The bytes that stores for some pixels leave alone. -/
theorem get_foldl_putPixel {l : List (ℕ × ℕ)} {a : ℕ}
    (h : ∀ p ∈ l, ¬(info.offset p.1 p.2 ≤ a ∧
      a < info.offset p.1 p.2 + info.pixelFormat.size)) :
    (l.foldl (putPixel info source) buffer).get a = buffer.get a := by
  induction l generalizing buffer with
  | nil => rfl
  | cons p l ih =>
    obtain ⟨hp, hl⟩ := List.forall_mem_cons.mp h
    rw [List.foldl_cons, ih hl]
    refine writeBytes_outside ?_
    rw [length_encode]
    omega

theorem len_foldl_putPixel (l : List (ℕ × ℕ)) :
    (l.foldl (putPixel info source) buffer).len = buffer.len := by
  induction l generalizing buffer with
  | nil => rfl
  | cons p l ih => rw [List.foldl_cons, ih]; rfl

theorem painted_putPixel (hok : info.Covered buffer.len) (hx : x < info.width)
    (hy : y < info.height) (color : ℕ → ℕ → UInt32) :
    Painted info color (fun px py ↦ px = x ∧ py = y) buffer
      (putPixel info color buffer (x, y)) := by
  refine ⟨rfl, ?_, fun px py hpx _ hne ↦ ?_⟩
  · rintro px py - - ⟨rfl, rfl⟩
    have hbytes := bytesAt_writeBytes buffer.get (info.offset px py)
      (encode info.pixelFormat (color px py))
    have hsegment := segment_of_bytesAt (Slice.mk _ buffer.len) hbytes
    rwa [length_encode] at hsegment
  · apply Slice.segment_congr
    intro k hk
    have hapart := hok.offset_apart hpx hx hne
    refine writeBytes_outside ?_
    rw [length_encode]
    dsimp only
    omega

theorem painted_foldl_putPixel (hok : info.Covered buffer.len) {l : List (ℕ × ℕ)}
    (hl : ∀ p ∈ l, p.1 < info.width ∧ p.2 < info.height) (color : ℕ → ℕ → UInt32) :
    Painted info color (fun px py ↦ (px, py) ∈ l) buffer
      (l.foldl (putPixel info color) buffer) := by
  induction l generalizing buffer with
  | nil => exact Painted.refl fun _ _ _ _ ↦ List.not_mem_nil
  | cons p l ih =>
    obtain ⟨hp, hl⟩ := List.forall_mem_cons.mp hl
    have hfirst := painted_putPixel hok hp.1 hp.2 color
    refine hfirst.trans (ih (hfirst.len ▸ hok) hl) fun px py ↦ ?_
    rw [List.mem_cons, Prod.ext_iff]

end

/-! ## The loops -/

section

variable {info : FrameBufferInfo} {source : Slice UInt32} {buffer : Slice UInt8}
  {srcStride x y w h dy : ℕ}

/-- The colour at a place of a source whose rows have the given stride. -/
def colorAt (source : Slice UInt32) (srcStride x y : ℕ) : UInt32 := source.get (y * srcStride + x)

theorem blitRow_eq_foldl (hok : info.Covered buffer.len) (hx : x < info.width)
    (hw : x + w ≤ info.width) (hsrc : x + w ≤ srcStride) (hy : y + dy < info.height)
    (hlen : (y + dy + 1) * srcStride ≤ source.len) (hsource : source.len < 2 ^ 64) :
    blitRow info source srcStride x y w buffer dy =
      .ok (((List.range w).map fun dx ↦ (x + dx, y + dy)).foldl
        (putPixel info (colorAt source srcStride)) buffer) := by
  have hbuffer := hok.len_lt
  have hsize := hok.size_le
  rw [Nat.succ_mul] at hlen
  have hle := hok.offset_le hx hy
  obtain ⟨hrow, hdest⟩ := hok.cell_lt hx hy
  rw [FrameBufferInfo.offset] at hle
  rw [blitRow, Checked.add_of_lt hrow, Checked.ok_bind, Checked.ok_bind, Checked.mul,
    if_pos (by omega), Checked.ok_bind, Checked.add_of_lt hdest, Checked.ok_bind, Checked.mul,
    if_pos (by omega), Checked.ok_bind, Checked.mul, if_pos (by omega), Checked.ok_bind,
    Checked.add_of_lt (by omega), Checked.ok_bind, List.foldl_map]
  refine Checked.foldlM_eq_foldl
    (g := fun b dx ↦ putPixel info (colorAt source srcStride) b (x + dx, y + dy))
    (fun b ↦ b.len = buffer.len) rfl fun dx hdx b hb ↦ ⟨?_, hb⟩
  have hdx := List.mem_range.mp hdx
  have hpixel := hok.offset_le (show x + dx < info.width by omega) hy
  have hfits : info.offset (x + dx) (y + dy) + info.pixelFormat.size ≤ b.len := by omega
  have hstore := storePixel_eq (colorAt source srcStride (x + dx) (y + dy)) hfits (by omega)
  rw [← offset_add, FrameBufferInfo.offset] at hpixel
  rw [blitPixel, Checked.add_of_lt (by omega), Checked.ok_bind, Slice.read_of_lt (by omega),
    Checked.ok_bind, Checked.mul, if_pos (by omega), Checked.ok_bind, Checked.add_of_lt (by omega),
    Checked.ok_bind]
  rw [putPixel, ← hstore, ← offset_add, FrameBufferInfo.offset, colorAt, ← Nat.add_assoc]

variable {writer : FrameBufferWriter}

/-- **`blit_rect`** stores the pixels of the clipped rectangle. -/
theorem blitRect_eq_foldl (hok : writer.info.Covered writer.buffer.len) (hsrc : x + w ≤ srcStride)
    (hlen : srcStride * (y + h) ≤ source.len) (hsource : source.len < 2 ^ 64) :
    writer.blitRect source srcStride x y w h =
      .ok { writer with
        buffer := (Grid.cells x y (min w (writer.info.width - x))
          (min h (writer.info.height - y))).foldl
            (putPixel writer.info (colorAt source srcStride)) writer.buffer } := by
  rw [FrameBufferWriter.blitRect]
  by_cases hout : x ≥ writer.info.width ∨ y ≥ writer.info.height
  · have hnil : Grid.cells x y (min w (writer.info.width - x))
        (min h (writer.info.height - y)) = [] := by
      rw [List.eq_nil_iff_forall_not_mem]
      intro p hp
      have := Grid.mem_cells.mp hp
      omega
    rw [if_pos hout, hnil]
    rfl
  · rw [if_neg hout]
    rw [not_or, not_le, not_le] at hout
    rw [Checked.sub_of_le (by omega), Checked.ok_bind, Checked.sub_of_le (by omega),
      Checked.ok_bind, Grid.cells, List.foldl_flatMap]
    dsimp only
    rw [Checked.foldlM_eq_foldl (fun b ↦ b.len = writer.buffer.len) rfl fun dy hdy b hb ↦
      ⟨?_, (len_foldl_putPixel _).trans hb⟩]
    · rfl
    · have hdy := List.mem_range.mp hdy
      have hrows : (y + dy + 1) * srcStride ≤ srcStride * (y + h) := by
        rw [mul_comm]
        exact Nat.mul_le_mul_left _ (by omega)
      exact blitRow_eq_foldl (hb ▸ hok) hout.1 (by omega) (by omega) (by omega)
        (hrows.trans hlen) hsource

/-- **Blitting paints the rectangle**, as far as it lies on the screen, with the colours of the
source. -/
theorem blitRect_eq_ok (hok : writer.info.Ok writer.buffer.len) (hsrc : x + w ≤ srcStride)
    (hlen : srcStride * (y + h) ≤ source.len) (hsource : source.len < 2 ^ 64) :
    ∃ buffer', writer.blitRect source srcStride x y w h = .ok { writer with buffer := buffer' } ∧
      Painted writer.info (colorAt source srcStride)
        (fun px py ↦ (x ≤ px ∧ px < x + w) ∧ y ≤ py ∧ py < y + h) writer.buffer buffer' := by
  refine ⟨_, blitRect_eq_foldl hok.covered hsrc hlen hsource, ?_⟩
  have honScreen : ∀ p ∈ Grid.cells x y (min w (writer.info.width - x))
      (min h (writer.info.height - y)), p.1 < writer.info.width ∧ p.2 < writer.info.height := by
    intro p hp
    have hcell := Grid.mem_cells.mp hp
    omega
  obtain ⟨hkeeps, hpainted, hkept⟩ :=
    painted_foldl_putPixel hok.covered honScreen (colorAt source srcStride)
  -- on the screen the clipped rectangle is the rectangle
  refine ⟨hkeeps, fun px py hx hy hp ↦ ?_, fun px py hx hy hp ↦ ?_⟩
  · exact hpainted px py hx hy (Grid.mem_cells.mpr (by dsimp only; omega))
  · refine hkept px py hx hy fun hmem ↦ hp ?_
    have hcell := Grid.mem_cells.mp hmem
    dsimp only at hcell
    omega

end

end RelizOS.Gui
