import Mathlib.Data.List.Nodup
import RelizOS.Library.Cursor

/-!
# The boot frame allocator

`BootInfoFrameAllocator` walks the memory regions reported by the bootloader with a cursor, a region
and the number of frames already taken from it, and hands out one 4 KiB frame per call.

The frames still to come are a list, `frames`: what is left of the current region, then the whole
frames of every usable region behind it. One call takes the head of that list
(`allocateFrame_isCursor`), so everything said about sequences of calls is a fact about the list.

## What is left out

`regions` and `region_count` are one list, the array behind the raw pointer.
-/

namespace RelizOS

/-- What a memory region may be used for. -/
inductive MemoryRegionKind where
  | usable
  | bootloader
  | unknownUefi (tag : UInt32)
  | unknownBios (tag : UInt32)
  deriving DecidableEq, Repr

/-- A region of physical memory, `end_` exclusive. -/
structure MemoryRegion where
  /-- The first address. -/
  start : ℕ
  /-- The first address behind the region. -/
  end_ : ℕ
  /-- Its use. -/
  kind : MemoryRegionKind
  start_lt : start < 2 ^ 64
  end_lt : end_ < 2 ^ 64

/-- The allocator: the boot regions and the cursor. -/
structure BootInfoFrameAllocator where
  /-- The regions. -/
  regions : List MemoryRegion
  /-- The index of the current region. -/
  nextRegion : ℕ
  /-- The number of frames taken from the current region. -/
  nextFrameInRegion : ℕ

namespace BootInfoFrameAllocator

/-- An allocator that has handed out nothing. -/
def new (regions : List MemoryRegion) : BootInfoFrameAllocator := ⟨regions, 0, 0⟩

/-- The number of regions. -/
def regionCount (a : BootInfoFrameAllocator) : ℕ := a.regions.length

/-- The region with a given index. -/
def region (a : BootInfoFrameAllocator) (idx : ℕ) : Checked MemoryRegion :=
  match a.regions[idx]? with
  | some region => .ok region
  | none => .error .bounds

/-- The loop of `allocate_frame`, with a bound on its iterations. -/
def allocateFrameLoop :
    ℕ → BootInfoFrameAllocator → Checked (Option ℕ × BootInfoFrameAllocator)
  | 0, _ => .error .diverges
  | fuel + 1, a => do
    if a.nextRegion ≥ a.regionCount then
      return (none, a)
    let region ← a.region a.nextRegion
    if region.kind ≠ .usable then
      let nextRegion ← Checked.add 64 a.nextRegion 1
      allocateFrameLoop fuel { a with nextRegion := nextRegion, nextFrameInRegion := 0 }
    else
      let startFrame := (← Checked.add 64 region.start 0xFFF) >>> 12
      let endFrame := region.end_ >>> 12
      let frame ← Checked.add 64 startFrame a.nextFrameInRegion
      if frame < endFrame then
        let nextFrame ← Checked.add 64 a.nextFrameInRegion 1
        return (some ((frame <<< 12) % 2 ^ 64), { a with nextFrameInRegion := nextFrame })
      else
        let nextRegion ← Checked.add 64 a.nextRegion 1
        allocateFrameLoop fuel { a with nextRegion := nextRegion, nextFrameInRegion := 0 }

/-- Allocate one 4 KiB frame and return its address, or `none` when usable memory is exhausted. -/
def allocateFrame (a : BootInfoFrameAllocator) :
    Checked (Option ℕ × BootInfoFrameAllocator) :=
  allocateFrameLoop (a.regionCount - a.nextRegion + 1) a

end BootInfoFrameAllocator

/-! ## The frames of a region

`startFrame` and `endFrame` bound the numbers of the whole frames inside a region. -/

namespace MemoryRegion

variable (r : MemoryRegion) {f : ℕ}

/-- The number of the first whole frame. -/
def startFrame : ℕ := (r.start + 0xFFF) / 2 ^ 12

/-- The number behind the last whole frame. -/
def endFrame : ℕ := r.end_ / 2 ^ 12

/-- The addresses of the whole frames, in order, if the region may be used. -/
def frames : List ℕ :=
  if r.kind = .usable then
    (List.range' r.startFrame (r.endFrame - r.startFrame)).map (· * 2 ^ 12)
  else []

/-- `f` is the address of a whole frame inside the region, which may be used. -/
def HasFrame (f : ℕ) : Prop :=
  r.kind = .usable ∧ 4096 ∣ f ∧ r.start ≤ f ∧ f + 4096 ≤ r.end_

/-- An address of the region. -/
def Contains (x : ℕ) : Prop := r.start ≤ x ∧ x < r.end_

variable {r}

theorem mem_frames : f ∈ r.frames ↔ r.HasFrame f := by
  rw [frames, HasFrame]
  by_cases hkind : r.kind = .usable
  · rw [if_pos hkind, List.mem_map]
    simp only [List.mem_range'_1, startFrame, endFrame, hkind, true_and]
    constructor
    · rintro ⟨n, hn, rfl⟩
      exact ⟨Dvd.intro_left n rfl, by omega, by omega⟩
    · rintro ⟨⟨n, rfl⟩, hlo, hhi⟩
      exact ⟨n, by omega, by omega⟩
  · simp [hkind]

theorem nodup_frames : r.frames.Nodup := by
  rw [frames]
  by_cases hkind : r.kind = .usable
  · rw [if_pos hkind]
    exact (List.nodup_range').map fun a b hab ↦ by omega
  · rw [if_neg hkind]
    exact List.nodup_nil

theorem HasFrame.contains (h : r.HasFrame f) : r.Contains f := by
  obtain ⟨-, -, hlo, hhi⟩ := h
  exact ⟨hlo, by omega⟩

theorem length_frames (hkind : r.kind = .usable) :
    r.frames.length = r.endFrame - r.startFrame := by
  rw [frames, if_pos hkind, List.length_map, List.length_range']

theorem endFrame_lt : r.endFrame < 2 ^ 52 := by
  have := r.end_lt
  rw [endFrame]
  omega

theorem frame_lt {n : ℕ} (hn : n < r.endFrame) : n * 2 ^ 12 < 2 ^ 64 := by
  have := r.endFrame_lt
  omega

/-- The arithmetic of `allocate_frame` on a region whose start is not at the end of the number
range. -/
theorem startFrame_add_lt {i : ℕ} (hi : i ≤ r.endFrame - r.startFrame)
    (hstart : r.start + 4096 ≤ 2 ^ 64) : r.startFrame + i < 2 ^ 53 := by
  have := r.endFrame_lt
  rw [startFrame] at *
  omega

/-- The frames from number `i` on: none, or the one with that number and those behind it. -/
theorem drop_frames (hkind : r.kind = .usable) (i : ℕ) :
    r.frames.drop i =
      if r.startFrame + i < r.endFrame then
        (r.startFrame + i) * 2 ^ 12 :: r.frames.drop (i + 1)
      else [] := by
  have hlen := length_frames hkind
  by_cases hi : r.startFrame + i < r.endFrame
  · have hlt : i < r.frames.length := by omega
    rw [if_pos hi, List.drop_eq_getElem_cons hlt]
    congr 1
    simp only [frames, if_pos hkind, List.getElem_map, List.getElem_range', one_mul]
  · rw [if_neg hi, List.drop_eq_nil_iff]
    omega

end MemoryRegion

/-! ## The frames still to come -/

namespace BootInfoFrameAllocator

variable {a a' : BootInfoFrameAllocator} {o : Option ℕ}

/-- The frames the allocator has not handed out yet, in order. -/
def frames (a : BootInfoFrameAllocator) : List ℕ :=
  match a.regions.drop a.nextRegion with
  | [] => []
  | r :: rs => r.frames.drop a.nextFrameInRegion ++ rs.flatMap MemoryRegion.frames

theorem frames_new (regions : List MemoryRegion) :
    (new regions).frames = regions.flatMap MemoryRegion.frames := by
  cases regions <;> rfl

theorem frames_exhausted (h : a.regionCount ≤ a.nextRegion) : a.frames = [] := by
  rw [frames, List.drop_eq_nil_iff.mpr h]

theorem dvd_of_mem_frames {f : ℕ} (h : f ∈ a.frames) : 4096 ∣ f := by
  rw [frames] at h
  cases hdrop : a.regions.drop a.nextRegion with
  | nil => simp [hdrop] at h
  | cons r rs =>
    rw [hdrop] at h
    rcases List.mem_append.mp h with h | h
    · exact (MemoryRegion.mem_frames.mp (List.mem_of_mem_drop h)).2.1
    · obtain ⟨r', -, hf⟩ := List.mem_flatMap.mp h
      exact (MemoryRegion.mem_frames.mp hf).2.1

theorem frames_of_getElem? {r : MemoryRegion} (h : a.regions[a.nextRegion]? = some r) :
    a.frames = r.frames.drop a.nextFrameInRegion ++
      (a.regions.drop (a.nextRegion + 1)).flatMap MemoryRegion.frames := by
  obtain ⟨hlt, rfl⟩ := List.getElem?_eq_some_iff.mp h
  rw [frames, List.drop_eq_getElem_cons hlt]

/-! ## One call -/

/-- The cursor moved to the next region. -/
def skip (a : BootInfoFrameAllocator) : BootInfoFrameAllocator :=
  { a with nextRegion := a.nextRegion + 1, nextFrameInRegion := 0 }

/-- The cursor moved to the next frame. -/
def take (a : BootInfoFrameAllocator) : BootInfoFrameAllocator :=
  { a with nextFrameInRegion := a.nextFrameInRegion + 1 }

theorem frames_skip {r : MemoryRegion} (h : a.regions[a.nextRegion]? = some r)
    (hnil : r.frames.drop a.nextFrameInRegion = []) : a.skip.frames = a.frames := by
  rw [frames_of_getElem? h, hnil, List.nil_append, frames, skip]
  dsimp only
  cases a.regions.drop (a.nextRegion + 1) <;> rfl

theorem frames_take {r : MemoryRegion} {n : ℕ} {fs : List ℕ}
    (h : a.regions[a.nextRegion]? = some r)
    (hcons : r.frames.drop a.nextFrameInRegion = n :: fs) : a.frames = n :: a.take.frames := by
  have htail : fs = r.frames.drop (a.nextFrameInRegion + 1) := by
    rw [← List.drop_drop, hcons, List.drop_one, List.tail_cons]
  rw [frames_of_getElem? h, hcons, htail, List.cons_append]
  exact congrArg _ (frames_of_getElem? (a := a.take) h).symm

/-- **One round of the loop**, when it does not fault: the regions are exhausted, or a frame is
taken, or a region with nothing left is skipped. -/
theorem allocateFrameLoop_cases {fuel : ℕ}
    (h : allocateFrameLoop (fuel + 1) a = .ok (o, a')) :
    (a.regionCount ≤ a.nextRegion ∧ o = none ∧ a' = a) ∨
      ∃ r, a.regions[a.nextRegion]? = some r ∧
        ((∃ n fs, r.frames.drop a.nextFrameInRegion = n :: fs ∧ o = some n ∧ a' = a.take) ∨
          r.frames.drop a.nextFrameInRegion = [] ∧
            allocateFrameLoop fuel a.skip = .ok (o, a')) := by
  rw [allocateFrameLoop] at h
  by_cases hend : a.nextRegion ≥ a.regionCount
  · rw [if_pos hend] at h
    cases h
    exact Or.inl ⟨hend, rfl, rfl⟩
  have hlt : a.nextRegion < a.regions.length := Nat.lt_of_not_ge hend
  have hr := List.getElem?_eq_getElem hlt
  generalize a.regions[a.nextRegion] = r at hr
  refine Or.inr ⟨r, hr, ?_⟩
  rw [if_neg hend, region, hr] at h
  simp only [Checked.pure_eq_ok, Checked.ok_bind] at h
  -- a region that is not usable has no frames, and is passed over like one that is used up
  by_cases hkind : r.kind = .usable
  · rw [if_neg (not_not.mpr hkind)] at h
    obtain ⟨up, hup, h⟩ := Checked.bind_eq_ok.mp h
    obtain ⟨frame, hframe, h⟩ := Checked.bind_eq_ok.mp h
    obtain ⟨-, rfl⟩ := Checked.add_eq_ok.mp hup
    obtain ⟨-, rfl⟩ := Checked.add_eq_ok.mp hframe
    have hfirst : (r.start + 0xFFF) >>> 12 = r.startFrame := Nat.shiftRight_eq_div_pow _ _
    have hlast : r.end_ >>> 12 = r.endFrame := Nat.shiftRight_eq_div_pow _ _
    have hdrop := MemoryRegion.drop_frames hkind a.nextFrameInRegion
    rw [hfirst, hlast] at h
    by_cases hroom : r.startFrame + a.nextFrameInRegion < r.endFrame
    · rw [if_pos hroom] at h hdrop
      obtain ⟨n, hn, h⟩ := Checked.bind_eq_ok.mp h
      obtain ⟨-, rfl⟩ := Checked.add_eq_ok.mp hn
      cases h
      refine Or.inl ⟨_, _, hdrop, ?_, rfl⟩
      rw [Nat.shiftLeft_eq, Nat.mod_eq_of_lt (MemoryRegion.frame_lt hroom)]
    · rw [if_neg hroom] at h hdrop
      obtain ⟨n, hn, h⟩ := Checked.bind_eq_ok.mp h
      obtain ⟨-, rfl⟩ := Checked.add_eq_ok.mp hn
      exact Or.inr ⟨hdrop, h⟩
  · rw [if_pos hkind] at h
    obtain ⟨n, hn, h⟩ := Checked.bind_eq_ok.mp h
    obtain ⟨-, rfl⟩ := Checked.add_eq_ok.mp hn
    exact Or.inr ⟨by rw [MemoryRegion.frames, if_neg hkind, List.drop_nil], h⟩

/-- **What a call that returns has done**: it took the head of the list of frames. -/
theorem allocateFrame_eq_ok (h : a.allocateFrame = .ok (o, a')) :
    o = a.frames.head? ∧ a'.frames = a.frames.tail := by
  rw [allocateFrame] at h
  generalize a.regionCount - a.nextRegion + 1 = fuel at h
  induction fuel generalizing a with
  | zero => cases h
  | succ fuel ih =>
    rcases allocateFrameLoop_cases h with ⟨hend, rfl, rfl⟩ |
      ⟨r, hr, ⟨n, fs, hcons, rfl, rfl⟩ | ⟨hnil, hloop⟩⟩
    · rw [frames_exhausted hend]
      exact ⟨rfl, rfl⟩
    · rw [frames_take hr hcons]
      exact ⟨rfl, rfl⟩
    · rw [← frames_skip hr hnil]
      exact ih hloop

/-! ## Every call returns -/

/-- The cursor is far from the end of the number range: no address of a region is within 4096 of
`2 ^ 64`, and no more frames have been taken from the current region than it has. -/
structure InRange (a : BootInfoFrameAllocator) : Prop where
  count_lt : a.regionCount < 2 ^ 64
  start_le : ∀ r ∈ a.regions, r.start + 4096 ≤ 2 ^ 64
  nextFrame_le : ∀ r, a.regions[a.nextRegion]? = some r → a.nextFrameInRegion ≤ r.frames.length

theorem InRange.skip (h : a.InRange) : a.skip.InRange :=
  ⟨h.count_lt, h.start_le, fun _ _ ↦ Nat.zero_le _⟩

theorem InRange.take {r : MemoryRegion} (h : a.InRange) (hr : a.regions[a.nextRegion]? = some r)
    (hlt : a.nextFrameInRegion < r.frames.length) : a.take.InRange := by
  refine ⟨h.count_lt, h.start_le, fun r' hr' ↦ ?_⟩
  obtain rfl : r = r' := Option.some_inj.mp (hr.symm.trans hr')
  exact hlt

/-- Every call returns, and the loop bound is never used up. -/
theorem InRange.allocateFrame_returns (h : a.InRange) :
    ∃ o a', a.allocateFrame = .ok (o, a') ∧ a'.InRange := by
  -- the fuel is one more than the regions that are left
  rw [allocateFrame]
  have hfuel : a.regionCount - a.nextRegion < a.regionCount - a.nextRegion + 1 := Nat.lt_succ_self _
  generalize a.regionCount - a.nextRegion + 1 = fuel at hfuel
  induction fuel generalizing a with
  | zero => omega
  | succ fuel ih =>
    rw [allocateFrameLoop]
    by_cases hend : a.nextRegion ≥ a.regionCount
    · exact ⟨none, a, by rw [if_pos hend]; rfl, h⟩
    have hlt : a.nextRegion < a.regions.length := Nat.lt_of_not_ge hend
    have hr := List.getElem?_eq_getElem hlt
    have hmem := List.getElem_mem hlt
    generalize a.regions[a.nextRegion] = r at hr hmem
    have hskip : Checked.add 64 a.nextRegion 1 = .ok (a.nextRegion + 1) :=
      Checked.add_of_lt (lt_of_le_of_lt hlt h.count_lt)
    have hloop := ih h.skip (by
      have : a.skip.regionCount - a.skip.nextRegion = a.regionCount - (a.nextRegion + 1) := rfl
      omega)
    rw [if_neg hend, region, hr]
    simp only [Checked.pure_eq_ok, Checked.ok_bind]
    by_cases hkind : r.kind = .usable
    · have hfirst : (r.start + 0xFFF) >>> 12 = r.startFrame := Nat.shiftRight_eq_div_pow _ _
      have hlast : r.end_ >>> 12 = r.endFrame := Nat.shiftRight_eq_div_pow _ _
      have hnext := h.nextFrame_le r hr
      have hlen := MemoryRegion.length_frames hkind
      have hstart := h.start_le r hmem
      have hframe := MemoryRegion.startFrame_add_lt (hlen ▸ hnext) hstart
      rw [if_neg (not_not.mpr hkind), Checked.add_of_lt (by omega), Checked.ok_bind, hfirst,
        hlast, Checked.add_of_lt (by omega), Checked.ok_bind]
      by_cases hroom : r.startFrame + a.nextFrameInRegion < r.endFrame
      · rw [if_pos hroom, Checked.add_of_lt (by omega), Checked.ok_bind]
        exact ⟨_, _, rfl, h.take hr (by omega)⟩
      · rw [if_neg hroom, hskip, Checked.ok_bind]
        exact hloop
    · rw [if_pos hkind, hskip, Checked.ok_bind]
      exact hloop

/-- **One call takes one frame**: `allocate_frame` is a cursor over `frames`. -/
theorem allocateFrame_isCursor : Cursor.IsCursor allocateFrame frames InRange := by
  intro a h
  obtain ⟨o, a', hcall, h'⟩ := h.allocateFrame_returns
  obtain ⟨rfl, hframes⟩ := allocateFrame_eq_ok hcall
  exact ⟨a', hcall, hframes, h'⟩

theorem InRange.new {regions : List MemoryRegion} (hcount : regions.length < 2 ^ 64)
    (hstart : ∀ r ∈ regions, r.start + 4096 ≤ 2 ^ 64) : (new regions).InRange :=
  ⟨hcount, hstart, fun _ _ ↦ Nat.zero_le _⟩

/-! ## The allocator hands out every usable frame once -/

/-- The boot memory map: at most as many regions as a `usize` counts, none of them reversed or near
the end of the number range, the usable ones disjoint. -/
structure BootMap (regions : List MemoryRegion) : Prop where
  count_lt : regions.length < 2 ^ 64
  start_le_end : ∀ r ∈ regions, r.start ≤ r.end_
  end_le : ∀ r ∈ regions, r.end_ + 4096 ≤ 2 ^ 64
  disjoint : regions.Pairwise fun r r' ↦
    r.kind = .usable → r'.kind = .usable → ∀ x, r.Contains x → ¬r'.Contains x

theorem BootMap.nodup_frames {regions : List MemoryRegion} (h : BootMap regions) :
    (regions.flatMap MemoryRegion.frames).Nodup := by
  rw [List.nodup_flatMap]
  refine ⟨fun r _ ↦ MemoryRegion.nodup_frames, h.disjoint.imp fun {r r'} hdisj ↦ ?_⟩
  intro f hf hf'
  have hr := MemoryRegion.mem_frames.mp hf
  have hr' := MemoryRegion.mem_frames.mp hf'
  exact hdisj hr.1 hr'.1 f hr.contains hr'.contains

/-- **The frame allocator hands out every usable frame once.** There is a list of frames, without
repetition, which are exactly the aligned 4 KiB frames inside a usable region. However often
`allocate_frame` is called on a fresh allocator, every call returns: the `i`-th call returns the
`i`-th of them, and `None` when there are no more. -/
theorem allocateFrame_complete (regions : List MemoryRegion) (h : BootMap regions) :
    ∃ fs : List ℕ, fs.Nodup ∧ (∀ f, f ∈ fs ↔ ∃ r ∈ regions, r.HasFrame f) ∧
      ∀ n, ∃ a, Cursor.draw allocateFrame n (new regions) =
        .ok ((List.range n).map fun i ↦ fs[i]?, a) := by
  refine ⟨regions.flatMap MemoryRegion.frames, h.nodup_frames, fun f ↦ ?_, fun n ↦ ?_⟩
  · rw [List.mem_flatMap]
    simp only [MemoryRegion.mem_frames]
  · have hstart : ∀ r ∈ regions, r.start + 4096 ≤ 2 ^ 64 := fun r hr ↦
      le_trans (Nat.add_le_add_right (h.start_le_end r hr) _) (h.end_le r hr)
    obtain ⟨a, hdraw, -⟩ := allocateFrame_isCursor.draw_eq n (InRange.new h.count_lt hstart)
    rw [frames_new] at hdraw
    exact ⟨a, hdraw⟩

/-- A boot map with an unaligned start, an unaligned end and a region that is not usable. -/
def lowMemory : List MemoryRegion :=
  [⟨0x1000, 0x3800, .usable, by decide, by decide⟩,
    ⟨0x3800, 0x5000, .bootloader, by decide, by decide⟩,
    ⟨0x5001, 0x8000, .usable, by decide, by decide⟩]

/-- The boot map `lowMemory` meets the assumptions, and has four frames. -/
theorem allocateFrame_complete_lowMemory :
    BootMap lowMemory ∧ ∃ fs : List ℕ, fs.Nodup ∧
      (∀ f, f ∈ fs ↔ ∃ r ∈ lowMemory, r.HasFrame f) ∧
      ∀ n, ∃ a, Cursor.draw allocateFrame n (new lowMemory) =
        .ok ((List.range n).map fun i ↦ fs[i]?, a) :=
  have hmap : BootMap lowMemory :=
    ⟨by decide, by decide, by decide, by
      simp only [lowMemory, List.pairwise_cons, MemoryRegion.Contains]
      simp
      omega⟩
  ⟨hmap, allocateFrame_complete lowMemory hmap⟩

example : (Cursor.draw allocateFrame 5 (new lowMemory)).map Prod.fst =
    .ok [some 0x1000, some 0x2000, some 0x6000, some 0x7000, none] := by decide

end BootInfoFrameAllocator

end RelizOS
