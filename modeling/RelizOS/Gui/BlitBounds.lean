import RelizOS.Gui.Compositor

/-!
# Which rectangles can be blitted

System call 12 takes a rectangle from any program. The kernel clips it at the edges of the screen,
and looks before every store whether the frame buffer has room. The source is not looked at in this
way: its rows have `src_stride` pixels and its slice `src_stride * (y + h)`, but the loops go over
what the screen shows of the rectangle, whatever the stride.

So a rectangle that is wider than the rows of its source takes pixels from the row below, and in the
last row of the slice there is none: the kernel panics (`not_blitsClipped`). Everything else that
can go wrong is an overflow, and on a frame buffer in which the pixels lie side by side none happens
(`blitFits_iff`).
-/

namespace RelizOS.Gui

section

variable (info : FrameBufferInfo) (req : BlitRequest)

/-! ## What a request copies -/

namespace BlitRequest

/-- `w` after clipping. -/
def shownWidth : ℕ := min req.w (info.width - req.x)

/-- `h` after clipping. -/
def shownHeight : ℕ := min req.h (info.height - req.y)

/-- The pixels of the rectangle that are on the screen. -/
def pixels : List (ℕ × ℕ) :=
  (List.range (req.shownHeight info)).flatMap fun dy ↦
    (List.range (req.shownWidth info)).map fun dx ↦ (req.x + dx, req.y + dy)

/-- The record of the loops of `blit_rect`: the pixels that are copied, in their order. The clipping
is that of the source. -/
def copied : Checked (List (ℕ × ℕ)) := do
  if req.x ≥ info.width ∨ req.y ≥ info.height then return []
  else
    let w := min req.w (← Checked.sub info.width req.x)
    let h := min req.h (← Checked.sub info.height req.y)
    return (List.range h).flatMap fun dy ↦
      (List.range w).map fun dx ↦ (req.x + dx, req.y + dy)

/-- The slice of the source, if its length can be computed. -/
def source : Slice UInt32 := ⟨req.buffer, req.srcStride * (req.y + req.h)⟩

end BlitRequest

/-- Copy one pixel from the source to its place in the frame buffer. -/
def copyPixel (buffer : Slice UInt8) (p : ℕ × ℕ) : Checked (Slice UInt8) := do
  let pixel ← req.source.read (p.2 * req.srcStride + p.1)
  storePixel info.pixelFormat buffer (info.offset p.1 p.2) pixel

/-- The loops copy the pixels `ps`, one after another. -/
structure Copies (writer : FrameBufferWriter) (ps : List (ℕ × ℕ)) : Prop where
  recorded : req.copied writer.info = .ok ps
  eq : ∀ writer', blitSyscall writer req = .ok writer' → writer'.info = writer.info ∧
    ps.foldlM (copyPixel writer.info req) writer.buffer = .ok writer'.buffer

/-- The request is served without a panic, and what is copied are pixels of the screen that lie in
their own row of the source: what exceeds one or the other is clipped. -/
structure BlitsClipped (writer : FrameBufferWriter) : Prop where
  returns : (blitSyscall writer req).Returns
  clipped : ∃ ps, Copies req writer ps ∧
    ∀ p ∈ ps, (p.1 < writer.info.width ∧ p.2 < writer.info.height) ∧ p.1 < req.srcStride

/-! ## When it is served -/

/-- The offsets at which a row begins in the frame buffer and in the source are machine words. -/
structure RowFits (row : ℕ) : Prop where
  cell : row * info.stride + req.x < 2 ^ 64
  offset : info.offset req.x row < 2 ^ 64
  src : row * req.srcStride + req.x < 2 ^ 64

/-- A pixel lies in the slice of the source, and its bytes in the frame buffer have offsets that are
machine words. -/
structure PixelFits (column row : ℕ) : Prop where
  read : row * req.srcStride + column < req.srcStride * (req.y + req.h)
  store : info.offset column row + (info.pixelFormat.size - 1) < 2 ^ 64

/-- The length of the slice is a machine word, and the last row and the last pixel that are shown
fit. -/
structure BlitFits : Prop where
  rows : req.y + req.h < 2 ^ 64
  slice : req.srcStride * (req.y + req.h) < 2 ^ 64
  lastRow : req.x < info.width → 0 < req.shownHeight info →
    RowFits info req (req.y + req.shownHeight info - 1)
  lastPixel : 0 < req.shownWidth info → 0 < req.shownHeight info →
    PixelFits info req (req.x + req.shownWidth info - 1) (req.y + req.shownHeight info - 1)

/-- What is shown of the rectangle is no wider than the rows of the source. -/
def InSourceRow : Prop :=
  0 < req.shownWidth info → 0 < req.shownHeight info →
    req.x + req.shownWidth info ≤ req.srcStride

end

variable {info : FrameBufferInfo} {req : BlitRequest} {writer : FrameBufferWriter}

theorem RowFits.mono {row row' : ℕ} (h : RowFits info req row') (hle : row ≤ row') :
    RowFits info req row where
  cell := lt_of_le_of_lt (Nat.add_le_add_right (Nat.mul_le_mul_right _ hle) _) h.cell
  offset := lt_of_le_of_lt
    (Nat.mul_le_mul_right _ (Nat.add_le_add_right (Nat.mul_le_mul_right _ hle) _)) h.offset
  src := lt_of_le_of_lt (Nat.add_le_add_right (Nat.mul_le_mul_right _ hle) _) h.src

theorem PixelFits.mono {column row column' row' : ℕ} (h : PixelFits info req column' row')
    (hcolumn : column ≤ column') (hrow : row ≤ row') : PixelFits info req column row where
  read := lt_of_le_of_lt (Nat.add_le_add (Nat.mul_le_mul_right _ hrow) hcolumn) h.read
  store := lt_of_le_of_lt (Nat.add_le_add_right (Nat.mul_le_mul_right _
    (Nat.add_le_add (Nat.mul_le_mul_right _ hrow) hcolumn)) _) h.store

/-! ## The loops -/

section

variable {buffer : Slice UInt8} {srcStride x y w : ℕ}

theorem returns_storeThree {offset : ℕ} {a b c : UInt8} :
    (storeThree buffer offset a b c).Returns ↔ offset + 2 < 2 ^ 64 := by
  rw [storeThree, Checked.returns_add_bind]
  refine and_iff_left_of_imp fun hoffset ↦ ?_
  split
  · next hroom =>
    rw [Slice.write_of_lt (by omega), Checked.ok_bind, Checked.returns_add_bind,
      Slice.write_of_lt (by dsimp only; omega), Checked.ok_bind, Checked.returns_add_bind,
      Slice.write_of_lt (by dsimp only; omega)]
    exact ⟨by omega, by omega, _, rfl⟩
  · exact ⟨_, rfl⟩

theorem returns_storePixel {format : PixelFormat} {offset : ℕ} {pixel : UInt32}
    (hoffset : offset < 2 ^ 64) :
    (storePixel format buffer offset pixel).Returns ↔ offset + (format.size - 1) < 2 ^ 64 := by
  cases format with
  | rgb => exact returns_storeThree
  | bgr => exact returns_storeThree
  | u8 =>
    refine iff_of_true ?_ hoffset
    rw [storePixel]
    split
    · next hroom => exact ⟨_, Slice.write_of_lt hroom⟩
    · exact ⟨_, rfl⟩
  | unknown => exact iff_of_true ⟨_, rfl⟩ hoffset

theorem returns_blitPixel (hslice : req.srcStride * (req.y + req.h) < 2 ^ 64) {row dx : ℕ} :
    (blitPixel info req.source (row * req.srcStride + req.x) (info.offset req.x row) buffer
      dx).Returns ↔ PixelFits info req (req.x + dx) row := by
  rw [blitPixel, Checked.returns_add_bind, Slice.returns_read_bind, Checked.returns_mul_bind,
    Checked.returns_add_bind, offset_add, Nat.add_assoc]
  constructor
  · rintro ⟨-, hread, -, hoffset, hstore⟩
    exact ⟨hread, (returns_storePixel hoffset).mp hstore⟩
  · rintro ⟨hread, hstore⟩
    have hoffset : info.offset (req.x + dx) row < 2 ^ 64 :=
      lt_of_le_of_lt (Nat.le_add_right _ _) hstore
    have hproduct : dx * info.bytesPerPixel ≤ info.offset (req.x + dx) row := by
      rw [← offset_add]
      exact Nat.le_add_left _ _
    exact ⟨hread.trans hslice, hread, lt_of_le_of_lt hproduct hoffset, hoffset,
      (returns_storePixel hoffset).mpr hstore⟩

theorem returns_blitRow (hslice : req.srcStride * (req.y + req.h) < 2 ^ 64) {dy : ℕ}
    (hrow : req.y + dy < 2 ^ 64) :
    (blitRow info req.source req.srcStride req.x req.y w buffer dy).Returns ↔
      RowFits info req (req.y + dy) ∧
        ∀ dx < w, PixelFits info req (req.x + dx) (req.y + dy) := by
  rw [blitRow]
  simp only [Checked.returns_add_bind, Checked.returns_mul_bind]
  rw [show ((req.y + dy) * info.stride + req.x) * info.bytesPerPixel =
    info.offset req.x (req.y + dy) from rfl, Checked.returns_foldlM_range
      (P := fun dx ↦ PixelFits info req (req.x + dx) (req.y + dy))
      fun _ _ _ ↦ returns_blitPixel hslice]
  constructor
  · rintro ⟨-, -, -, hcell, hoffset, -, hsrc, hpixels⟩
    exact ⟨⟨hcell, hoffset, hsrc⟩, hpixels⟩
  · rintro ⟨⟨hcell, hoffset, hsrc⟩, hpixels⟩
    exact ⟨hrow, hrow, lt_of_le_of_lt (Nat.le_add_right _ _) hcell, hcell, hoffset,
      lt_of_le_of_lt (Nat.le_add_right _ _) hsrc, hsrc, hpixels⟩

end

/-- System call 12 panics when the length of the slice cannot be computed, or a row or a pixel that
is shown does not fit. -/
theorem returns_blitSyscall : (blitSyscall writer req).Returns ↔
    req.y + req.h < 2 ^ 64 ∧ req.srcStride * (req.y + req.h) < 2 ^ 64 ∧
      (req.x < writer.info.width → ∀ dy < req.shownHeight writer.info,
        RowFits writer.info req (req.y + dy) ∧
          ∀ dx < req.shownWidth writer.info,
            PixelFits writer.info req (req.x + dx) (req.y + dy)) := by
  rw [blitSyscall, BlitRequest.slice, bind_assoc, Checked.returns_add_bind]
  refine and_congr_right fun hrows ↦ ?_
  rw [bind_assoc, Checked.returns_mul_bind]
  refine and_congr_right fun hslice ↦ ?_
  rw [Checked.pure_eq_ok, Checked.ok_bind, FrameBufferWriter.blitRect]
  by_cases hout : req.x ≥ writer.info.width ∨ req.y ≥ writer.info.height
  · rw [if_pos hout]
    refine iff_of_true ⟨_, rfl⟩ fun hx dy hdy ↦ ?_
    rw [BlitRequest.shownHeight] at hdy
    omega
  · rw [if_neg hout]
    rw [not_or, not_le, not_le] at hout
    rw [Checked.sub_of_le (by omega), Checked.ok_bind, Checked.sub_of_le (by omega),
      Checked.ok_bind, forall_prop_of_true hout.1]
    refine (Checked.returns_bind_iff fun _ ↦ ⟨_, rfl⟩).trans (Checked.returns_foldlM_range ?_)
    intro dy hdy buffer
    exact returns_blitRow hslice (by omega)

/-- **Which requests end without a panic.** -/
theorem returns_blitSyscall_iff : (blitSyscall writer req).Returns ↔ BlitFits writer.info req := by
  rw [returns_blitSyscall]
  constructor
  · rintro ⟨hrows, hslice, hloop⟩
    refine ⟨hrows, hslice, fun hx hheight ↦ ?_, fun hwidth hheight ↦ ?_⟩
    · have hlast := (hloop hx (req.shownHeight writer.info - 1) (by omega)).1
      rwa [← Nat.add_sub_assoc hheight] at hlast
    · have hx : req.x < writer.info.width := by
        rw [BlitRequest.shownWidth] at hwidth
        omega
      have hlast := (hloop hx (req.shownHeight writer.info - 1) (by omega)).2
        (req.shownWidth writer.info - 1) (by omega)
      rwa [← Nat.add_sub_assoc hheight, ← Nat.add_sub_assoc hwidth] at hlast
  · rintro ⟨hrows, hslice, hrow, hpixel⟩
    refine ⟨hrows, hslice, fun hx dy hdy ↦ ⟨?_, fun dx hdx ↦ ?_⟩⟩
    · exact (hrow hx (by omega)).mono (by omega)
    · exact (hpixel (by omega) (by omega)).mono (by omega) (by omega)

/-! ## What is copied -/

theorem mem_pixels {p : ℕ × ℕ} : p ∈ req.pixels info ↔
    (req.x ≤ p.1 ∧ p.1 < req.x + req.shownWidth info) ∧
      req.y ≤ p.2 ∧ p.2 < req.y + req.shownHeight info := Grid.mem_cells

theorem copyPixel_of_blitPixel {buffer buffer' : Slice UInt8} {row dx : ℕ}
    (h : blitPixel info req.source (row * req.srcStride + req.x) (info.offset req.x row) buffer
      dx = .ok buffer') : copyPixel info req buffer (req.x + dx, row) = .ok buffer' := by
  obtain ⟨index, hindex, h⟩ := Checked.bind_eq_ok.mp h
  obtain ⟨-, rfl⟩ := Checked.add_eq_ok.mp hindex
  obtain ⟨pixel, hread, h⟩ := Checked.bind_eq_ok.mp h
  obtain ⟨bytes, hbytes, h⟩ := Checked.bind_eq_ok.mp h
  obtain ⟨-, rfl⟩ := Checked.mul_eq_ok.mp hbytes
  obtain ⟨offset, hoffset, h⟩ := Checked.bind_eq_ok.mp h
  obtain ⟨-, rfl⟩ := Checked.add_eq_ok.mp hoffset
  rw [offset_add] at h
  rw [Nat.add_assoc] at hread
  exact Checked.bind_eq_ok.mpr ⟨pixel, hread, h⟩

theorem copies_of_blitRow {buffer buffer' : Slice UInt8} {w dy : ℕ}
    (h : blitRow info req.source req.srcStride req.x req.y w buffer dy = .ok buffer') :
    ((List.range w).map fun dx ↦ (req.x + dx, req.y + dy)).foldlM (copyPixel info req) buffer =
      .ok buffer' := by
  obtain ⟨destY, hdestY, h⟩ := Checked.bind_eq_ok.mp h
  obtain ⟨-, rfl⟩ := Checked.add_eq_ok.mp hdestY
  obtain ⟨srcY, hsrcY, h⟩ := Checked.bind_eq_ok.mp h
  obtain ⟨-, rfl⟩ := Checked.add_eq_ok.mp hsrcY
  obtain ⟨start, hstart, h⟩ := Checked.bind_eq_ok.mp h
  obtain ⟨-, rfl⟩ := Checked.mul_eq_ok.mp hstart
  obtain ⟨destRow, hdestRow, h⟩ := Checked.bind_eq_ok.mp h
  obtain ⟨-, rfl⟩ := Checked.add_eq_ok.mp hdestRow
  obtain ⟨destRowOffset, hoffset, h⟩ := Checked.bind_eq_ok.mp h
  obtain ⟨-, rfl⟩ := Checked.mul_eq_ok.mp hoffset
  obtain ⟨srcStart, hsrcStart, h⟩ := Checked.bind_eq_ok.mp h
  obtain ⟨-, rfl⟩ := Checked.mul_eq_ok.mp hsrcStart
  obtain ⟨srcRowOffset, hsrcRow, h⟩ := Checked.bind_eq_ok.mp h
  obtain ⟨-, rfl⟩ := Checked.add_eq_ok.mp hsrcRow
  rw [List.foldlM_map]
  exact Checked.foldlM_of_imp (fun dx _ _ _ hpixel ↦ copyPixel_of_blitPixel hpixel) h

theorem pixels_eq_nil (hout : req.x ≥ info.width ∨ req.y ≥ info.height) :
    req.pixels info = [] := by
  rw [List.eq_nil_iff_forall_not_mem]
  intro p hp
  obtain ⟨hx, hy⟩ := mem_pixels.mp hp
  rw [BlitRequest.shownWidth] at hx
  rw [BlitRequest.shownHeight] at hy
  omega

theorem copied_eq : req.copied info = .ok (req.pixels info) := by
  rw [BlitRequest.copied]
  split
  · next hout =>
    rw [pixels_eq_nil hout]
    rfl
  · next hin =>
    rw [not_or, not_le, not_le] at hin
    rw [Checked.sub_of_le (by omega), Checked.ok_bind, Checked.sub_of_le (by omega),
      Checked.ok_bind]
    rfl

/-- **The two loops copy** the pixels of the rectangle that are on the screen. -/
theorem copies_of_blitSyscall {writer' : FrameBufferWriter}
    (h : blitSyscall writer req = .ok writer') : writer'.info = writer.info ∧
      (req.pixels writer.info).foldlM (copyPixel writer.info req) writer.buffer =
        .ok writer'.buffer := by
  obtain ⟨s, hs, h⟩ := Checked.bind_eq_ok.mp h
  obtain ⟨rows, hrows, hs⟩ := Checked.bind_eq_ok.mp hs
  obtain ⟨-, rfl⟩ := Checked.add_eq_ok.mp hrows
  obtain ⟨len, hlen, hs⟩ := Checked.bind_eq_ok.mp hs
  obtain ⟨-, rfl⟩ := Checked.mul_eq_ok.mp hlen
  obtain rfl := Except.ok.inj hs
  rw [FrameBufferWriter.blitRect] at h
  split at h
  -- a rectangle that begins off the screen shows no pixel
  · next hout =>
    obtain rfl := Except.ok.inj h
    rw [pixels_eq_nil hout]
    exact ⟨rfl, rfl⟩
  · next hin =>
    rw [not_or, not_le, not_le] at hin
    rw [Checked.sub_of_le (by omega), Checked.ok_bind, Checked.sub_of_le (by omega),
      Checked.ok_bind] at h
    obtain ⟨buffer', hloop, h⟩ := Checked.bind_eq_ok.mp h
    obtain rfl := Except.ok.inj h
    refine ⟨rfl, ?_⟩
    rw [BlitRequest.pixels, Checked.foldlM_flatMap]
    exact Checked.foldlM_of_imp (fun dy _ _ _ hrow ↦ copies_of_blitRow hrow) hloop

/-- What is copied is clipped at the screen, and lies in its row of the source when what is shown
does. -/
theorem clipped_iff : (∀ p ∈ req.pixels info, (p.1 < info.width ∧ p.2 < info.height) ∧
    p.1 < req.srcStride) ↔ InSourceRow info req := by
  constructor
  · intro h hwidth hheight
    have hlast := (h (req.x + (req.shownWidth info - 1), req.y)
      (mem_pixels.mpr ⟨⟨Nat.le_add_right _ _, by omega⟩, le_rfl, by omega⟩)).2
    dsimp only at hlast
    omega
  · intro h p hp
    obtain ⟨hx, hy⟩ := mem_pixels.mp hp
    have hle := h (by omega) (by omega)
    rw [BlitRequest.shownWidth] at hx hle
    rw [BlitRequest.shownHeight] at hy
    omega

/-- **A request is served, and clipped**, exactly when the arithmetic on what is shown of it fits
and this is no wider than the rows of the source. -/
theorem blitsClipped_iff :
    BlitsClipped req writer ↔ BlitFits writer.info req ∧ InSourceRow writer.info req := by
  constructor
  · rintro ⟨hreturns, ps, hcopies, hclipped⟩
    obtain rfl := Except.ok.inj (copied_eq.symm.trans hcopies.recorded)
    exact ⟨returns_blitSyscall_iff.mp hreturns, clipped_iff.mp hclipped⟩
  · rintro ⟨hfits, hrow⟩
    exact ⟨returns_blitSyscall_iff.mpr hfits, req.pixels writer.info,
      ⟨copied_eq, fun _ ↦ copies_of_blitSyscall⟩, clipped_iff.mpr hrow⟩

/-- Where the pixels lie side by side, only the source can make a request fail. -/
theorem blitFits_iff {len : ℕ} (hok : info.Ok len) : BlitFits info req ↔
    req.y + req.h < 2 ^ 64 ∧ req.srcStride * (req.y + req.h) < 2 ^ 64 ∧
      (req.x < info.width → 0 < req.shownHeight info →
        (req.y + req.shownHeight info - 1) * req.srcStride + req.x < 2 ^ 64) ∧
      (0 < req.shownWidth info → 0 < req.shownHeight info →
        (req.y + req.shownHeight info - 1) * req.srcStride + (req.x + req.shownWidth info - 1) <
          req.srcStride * (req.y + req.h)) := by
  have hlen := hok.len_lt
  have hroom := hok.room
  have hpos := hok.bytesPerPixel_pos
  constructor
  · rintro ⟨hrows, hslice, hrow, hpixel⟩
    exact ⟨hrows, hslice, fun hx hheight ↦ (hrow hx hheight).src, fun hwidth hheight ↦
      (hpixel hwidth hheight).read⟩
  · -- the offsets into the frame buffer cannot wrap, so only those into the source are left
    rintro ⟨hrows, hslice, hrow, hpixel⟩
    refine ⟨hrows, hslice, fun hx hheight ↦ ?_, fun hwidth hheight ↦ ?_⟩
    · have hy : req.y + req.shownHeight info - 1 < info.height := by
        rw [BlitRequest.shownHeight] at hheight ⊢
        omega
      have hle := hok.offset_le hx hy
      exact ⟨(hok.cell_lt hx hy).2, by omega, hrow hx hheight⟩
    · have hx : req.x + req.shownWidth info - 1 < info.width := by
        rw [BlitRequest.shownWidth] at hwidth ⊢
        omega
      have hy : req.y + req.shownHeight info - 1 < info.height := by
        rw [BlitRequest.shownHeight] at hheight ⊢
        omega
      have hle := hok.offset_le hx hy
      exact ⟨hpixel hwidth hheight, by omega⟩

/-! ### A pixel beside the source

The screen has two pixels, the source one. The request is for the second pixel. -/

def twoPixels : FrameBufferWriter := ⟨⟨fun _ ↦ 0, 6⟩, ⟨2, 1, 2, 3, .rgb⟩⟩

def besideSource : BlitRequest where
  buffer _ := 0
  srcStride := 1
  x := 1
  y := 0
  w := 1
  h := 1

/-- **The kernel panics** on a request that is legal on the screen. -/
theorem not_blitsClipped :
    ¬∀ (writer : FrameBufferWriter) (req : BlitRequest), writer.info.Ok writer.buffer.len →
      req.y + req.h < 2 ^ 64 → req.srcStride * (req.y + req.h) < 2 ^ 64 →
      BlitsClipped req writer := by
  intro h
  have hok : twoPixels.info.Ok twoPixels.buffer.len :=
    ⟨by decide, by decide, by decide, by decide, by decide⟩
  obtain ⟨writer', hreturns⟩ := (h twoPixels besideSource hok (by decide) (by decide)).returns
  have hpanic : blitSyscall twoPixels besideSource = .error .bounds := rfl
  rw [hpanic] at hreturns
  cases hreturns

end RelizOS.Gui
