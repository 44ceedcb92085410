import RelizOS.Library.LabelledRun
import RelizOS.Paging.HugePages

/-!
# The address space over a run

The kernel takes frames from the frame allocator, maps pages to frames, and marks all pages as
accessible to user mode; in between, programs write to the frames that have been handed out. Here
these steps are taken in any order and any number.

A `View` is what an address space is for: a translation for every address. One step of the paging
code is one step of the view (`translate_step`), whatever tables have to be created on the way, so
over a run the last successful mapping of a page decides, and a mark behind it adds a flag. This
needs that no program writes to a table. `Sound` is the invariant behind it: a frame that is handed
out, or is still to come, holds no table, and no frame is handed out twice (`frames_run`).

## What is assumed

Pages are canonical, and frames are mapped with the flag that says they are present. `P` are the
addresses that may be mapped: at the start no huge page is in their way.
-/

open ByteMemory RadixTable LabelledRun

namespace RelizOS

namespace Paging

variable {s s' : Paging} {P : ℕ → Prop} {given : List ℕ} {virt phys : ℕ} {flags : PageTableFlags}

theorem entryMeaning_last_ne_table {entry : UInt64} {f : ℕ} :
    entryMeaning 0 entry ≠ .table f := by
  rw [entryMeaning, if_pos rfl]
  intro h
  split at h
  · cases h
  · cases h

theorem walkMeaning_zero (level : ℕ) : walkMeaning level 0 = .absent := if_pos (by decide)

/-! ## The invariant -/

/-- The tables form a tree, the entries on the paths of the pages in `P` are unused or name tables,
and the frames that have been handed out and those still to come are all different and hold no
table. -/
structure Sound (P : ℕ → Prop) (s : Paging) (given : List ℕ) : Prop where
  tree : Tree entryMeaning s.tables 4 s.cr3
  extendable : ∀ virt, P virt → Extendable entryMeaning s.tables 4 s.cr3 0 (pagePath virt)
  nodup : (given ++ s.framesLeft).Nodup
  fresh : ∀ phys ∈ given ++ s.framesLeft, ∀ p, s.tableAt p ≠ some (phys / 4096)
  aligned : ∀ phys ∈ given, 4096 ∣ phys

namespace Sound

theorem hierarchy (h : Sound P s given) (hvirt : P virt) : Hierarchy s virt where
  tree := h.tree
  extendable := h.extendable virt hvirt
  nodup alloc halloc := by
    rw [← framesLeft_of_some halloc]
    exact (List.nodup_append.mp h.nodup).2.1
  fresh alloc halloc phys hphys := by
    rw [← framesLeft_of_some halloc] at hphys
    exact h.fresh phys (List.mem_append_right _ hphys)

theorem drop_frames (h : Sound P s given) {alloc : Option BootInfoFrameAllocator}
    (hs' : s' = { s with frameAllocator := alloc }) (hleft : s'.framesLeft = []) :
    Sound P s' given := by
  have hsub : given ++ s'.framesLeft <+: given ++ s.framesLeft := by
    rw [hleft, List.append_nil]
    exact List.prefix_append _ _
  refine ⟨?_, ?_, h.nodup.sublist hsub.sublist, fun phys hphys p ↦ ?_, h.aligned⟩
  · rw [hs']
    exact h.tree
  · rw [hs']
    exact h.extendable
  · rw [hs']
    exact h.fresh phys (hsub.subset hphys) p

/-- The hierarchy of tables is kept, and so are the unused entries above the last level. -/
theorem congr (h : Sound P s given) (hcr3 : s'.cr3 = s.cr3) (hleft : s'.framesLeft = s.framesLeft)
    (hat : ∀ p, RadixTable.tableAt entryMeaning s'.tables 4 s.cr3 p = s.tableAt p)
    (hunused : ∀ p i f, p.length + 1 < 4 → s.tableAt p = some f → s.tables f i = 0 →
      s'.tables f i = 0) : Sound P s' given where
  tree := by
    rw [hcr3]
    exact h.tree.congr hat
  extendable virt hvirt := by
    rw [hcr3]
    exact (h.extendable virt hvirt).congr hat hunused
  nodup := by
    rw [hleft]
    exact h.nodup
  fresh phys hphys p := by
    rw [hleft] at hphys
    rw [tableAt, hcr3, hat]
    exact h.fresh phys hphys p
  aligned := h.aligned

/-- **Linking a table** takes the next frame. -/
theorem link (h : Sound P s given) {alloc alloc' : BootInfoFrameAllocator} {p : List (Fin 512)}
    {f : ℕ} {i : Fin 512} (hlen : p.length + 1 < 4) (hf : s.tableAt p = some f)
    (hunused : s.tables f i = 0) (hsome : s.frameAllocator = some alloc)
    (hframes : alloc.frames = phys :: alloc'.frames) (hlt : phys < 2 ^ 52)
    (hs' : s' = { s with
      frameAllocator := some alloc'
      mem := writeU64 (zeroFill s.mem (phys + s.physMemOffset) 4096)
        (f * 4096 + s.physMemOffset + 8 * i) (mkEntry phys .table) }) : Sound P s' given := by
  have hleft := framesLeft_of_some hsome
  have hleft' : s'.framesLeft = alloc'.frames := by rw [hs', framesLeft_of_some rfl]
  have hmem : phys ∈ s.framesLeft := by
    rw [hleft, hframes]
    exact List.mem_cons_self
  have hdvd : 4096 ∣ phys := BootInfoFrameAllocator.dvd_of_mem_frames (hleft ▸ hmem)
  have hfresh := h.fresh phys (List.mem_append_right _ hmem)
  have hcr3 : s'.cr3 = s.cr3 := by rw [hs']
  -- the frame is cleared first and linked then
  have htables : s'.tables = setEntry (clear s.tables (phys / 4096) 0) f i
      (mkEntry phys .table) := by
    have hzero : ({ s with mem := zeroFill s.mem (phys + s.physMemOffset) 4096 } : Paging).tables
        = clear s.tables (phys / 4096) 0 :=
      tables_zeroFill (by rw [Nat.div_mul_cancel hdvd]) rfl
    rw [← hzero]
    exact tables_writeU64 (by rw [hs']) (by rw [hs'])
  have hlink : Link entryMeaning (clear s.tables (phys / 4096) 0) 4 s.cr3 p f i
      (mkEntry phys .table) (phys / 4096) := by
    refine ⟨h.tree.congr fun q ↦ tableAt_clear hfresh, ?_, by omega, ?_, ?_, fun q ↦ ?_,
      fun k j ↦ ?_⟩
    · rw [tableAt_clear hfresh]
      exact hf
    · rw [clear_of_reachable hfresh hf, hunused, entryMeaning_zero]
    · exact entryMeaning_table hdvd hlt (by omega)
    · rw [tableAt_clear hfresh]
      exact hfresh q
    · rw [clear_self, entryMeaning_zero]
  have hnodup : (given ++ phys :: alloc'.frames).Nodup := hframes ▸ hleft ▸ h.nodup
  obtain ⟨hnot, hnodup⟩ := List.nodup_cons.mp (List.nodup_middle.mp hnodup)
  refine ⟨?_, fun virt hvirt ↦ ?_, by rwa [hleft'], fun phys' hphys' q hq ↦ ?_, h.aligned⟩
  · rw [htables, hcr3]
    exact hlink.tree_setEntry
  · rw [htables, hcr3]
    refine hlink.extendable (fun j ↦ clear_self) fun q j g hq hqlen hg ↦ ?_
    rw [tableAt_clear hfresh] at hg
    rw [clear_of_reachable hfresh hg]
    exact h.extendable virt hvirt q j g hq hqlen hg
  · rw [hleft'] at hphys'
    have hold : phys' ∈ given ++ s.framesLeft := by
      rw [hleft, hframes]
      exact List.perm_middle.mem_iff.mpr (List.mem_cons_of_mem _ hphys')
    rw [tableAt, htables, hcr3, hlink.tableAt_iff, tableAt_clear hfresh] at hq
    -- a frame that is still spare is another one
    rcases hq with hq | ⟨-, heq⟩
    · exact h.fresh phys' hold q hq
    · have hdvd' : 4096 ∣ phys' := by
        rcases List.mem_append.mp hphys' with hgiven | hcome
        · exact h.aligned phys' hgiven
        · exact BootInfoFrameAllocator.dvd_of_mem_frames hcome
      obtain rfl : phys' = phys := by omega
      exact hnot hphys'

/-- **One level of the descent.** -/
theorem nextTable (h : Sound P s given) {r : Except String ℕ} {f : ℕ} {p : List (Fin 512)}
    {i : Fin 512} (hlen : p.length + 1 < 4) (hf : s.tableAt p = some f)
    (hcall : s.nextTable (f * 4096 + s.physMemOffset) i = .ok (r, s')) :
    Sound P s' given := by
  rcases nextTable_cases hcall with ⟨-, rfl, -⟩ | ⟨e, alloc, -, hleft, hs'⟩ |
    ⟨hunused, alloc, alloc', phys, hsome, hframes, hlt, -, hs'⟩
  · exact h
  · exact h.drop_frames hs' hleft
  · exact h.link hlen hf hunused hsome hframes hlt hs'

/-- **Storing the leaf** keeps the hierarchy of tables. -/
theorem leaf (h : Sound P s given) {p : List (Fin 512)} {f : ℕ} {i : Fin 512} {e : UInt64}
    (hlen : p.length + 1 = 4) (hf : s.tableAt p = some f)
    (hs' : s' = { s with mem := writeU64 s.mem (f * 4096 + s.physMemOffset + 8 * i) e }) :
    Sound P s' given := by
  have htables : s'.tables = setEntry s.tables f i e :=
    tables_writeU64 (by rw [hs']) (by rw [hs'])
  refine h.congr (by rw [hs']) (by rw [hs']; rfl) (fun q ↦ ?_) fun q j g hqlen hg hunused ↦ ?_
  · rw [htables]
    exact tableAt_setEntry_last h.tree hf hlen (fun _ ↦ entryMeaning_last_ne_table)
      fun _ ↦ entryMeaning_last_ne_table
  · -- the entry is in a table of the last level
    rw [htables, setEntry_of_ne (Or.inl ?_), hunused]
    rintro rfl
    obtain rfl := h.tree p q g hf hg
    omega

/-- **`map_page`** keeps the invariant, also when it fails. -/
theorem mapPage (h : Sound P s given) (hvirt : P virt) {r : Except String Unit}
    (hcall : s.mapPage virt phys flags = .ok (r, s')) : Sound P s' given := by
  obtain ⟨l4, hl4, hcall⟩ := Checked.bind_eq_ok.mp hcall
  obtain ⟨-, rfl⟩ := Checked.add_eq_ok.mp hl4
  simp only [pageIndex_eq] at hcall
  have hroot : s.tableAt [] = some s.cr3 := rfl
  rcases andThen_eq_ok hcall with ⟨e, h3, rfl⟩ | ⟨l3, s₁, h3, hcall⟩
  · exact h.nextTable (by decide) hroot h3
  have hs₁ := h.nextTable (p := []) (by decide) hroot h3
  obtain ⟨-, f₁, rfl, hf₁⟩ :=
    ((h.hierarchy hvirt).nextTable (p := []) ⟨_, rfl⟩ (by decide) hroot h3).2 l3 rfl
  rcases andThen_eq_ok hcall with ⟨e, h2, rfl⟩ | ⟨l2, s₂, h2, hcall⟩
  · exact hs₁.nextTable (by simp) hf₁ h2
  have hs₂ := hs₁.nextTable (by simp) hf₁ h2
  obtain ⟨-, f₂, rfl, hf₂⟩ :=
    ((hs₁.hierarchy hvirt).nextTable ⟨_, rfl⟩ (by simp) hf₁ h2).2 l2 rfl
  rcases andThen_eq_ok hcall with ⟨e, h1, rfl⟩ | ⟨l1, s₃, h1, hcall⟩
  · exact hs₂.nextTable (by simp) hf₂ h1
  have hs₃ := hs₂.nextTable (by simp) hf₂ h1
  obtain ⟨-, f₃, rfl, hf₃⟩ :=
    ((hs₂.hierarchy hvirt).nextTable ⟨_, rfl⟩ (by simp) hf₂ h1).2 l1 rfl
  obtain ⟨entry, hentry, hcall⟩ := Checked.bind_eq_ok.mp hcall
  obtain ⟨p, -, hcall⟩ := Checked.bind_eq_ok.mp hcall
  obtain ⟨s₄, hset, hcall⟩ := Checked.bind_eq_ok.mp hcall
  obtain ⟨_, -, hret⟩ := Checked.bind_eq_ok.mp hcall
  obtain rfl := entryPtr_eq_ok hentry
  obtain ⟨-, hs₄⟩ := setAddr_eq_ok hset
  cases hret
  exact hs₃.leaf (by simp) hf₃ hs₄

/-- **Handing a frame out.** -/
theorem allocate (h : Sound P s given) {alloc alloc' : BootInfoFrameAllocator} {frame : Option ℕ}
    (hsome : s.frameAllocator = some alloc) (hcall : alloc.allocateFrame = .ok (frame, alloc')) :
    Sound P { s with frameAllocator := some alloc' } (frame.toList ++ given) := by
  obtain ⟨hhead, htail⟩ := BootInfoFrameAllocator.allocateFrame_eq_ok hcall
  have hleft := framesLeft_of_some hsome
  have hleft' : ({ s with frameAllocator := some alloc' } : Paging).framesLeft = alloc'.frames :=
    framesLeft_of_some rfl
  cases hframes : alloc.frames with
  | nil =>
    rw [hframes] at hhead htail
    obtain rfl : frame = none := hhead
    exact h.drop_frames rfl (hleft'.trans htail)
  | cons phys rest =>
    rw [hframes] at hhead htail
    obtain rfl : frame = some phys := hhead
    rw [List.tail_cons] at htail
    have hperm : (phys :: given ++ alloc'.frames).Perm (given ++ s.framesLeft) := by
      rw [hleft, hframes, htail, List.cons_append]
      exact List.perm_middle.symm
    refine ⟨h.tree, h.extendable, ?_, fun f hf ↦ ?_, fun f hf ↦ ?_⟩
    · rw [hleft']
      exact hperm.nodup_iff.mpr h.nodup
    · rw [hleft'] at hf
      exact h.fresh f (hperm.mem_iff.mp hf)
    · rcases List.mem_cons.mp hf with rfl | hf
      · exact BootInfoFrameAllocator.dvd_of_mem_frames (hframes ▸ List.mem_cons_self)
      · exact h.aligned f hf

/-- **Marking all pages.** -/
theorem mark (h : Sound P s given) (hmark : Marked s.Walked s s') : Sound P s' given := by
  have hleft : s'.framesLeft = s.framesLeft := by rw [framesLeft, framesLeft, hmark.frameAllocator]
  refine h.congr hmark.cr3 hleft (fun p ↦ tableAt_congr_table fun k f i g ↦ ?_)
    fun p i f _ _ hunused ↦ ?_
  · by_cases hwalked : s.Walked f i
    · rw [hmark.marked f i hwalked, entryMeaning_userEntry]
      cases entryMeaning k (s.tables f i) <;> simp [Meaning.map]
    · rw [hmark.kept f i hwalked]
  · rw [hmark.kept f i fun hwalked ↦ ?_, hunused]
    obtain ⟨k, hk⟩ := hwalked.ne_absent
    rw [hunused] at hk
    exact hk (walkMeaning_zero k)

end Sound

/-! ## Writes to frames that have been handed out -/

/-- From the first state to the second, memory has changed in some frames only. -/
structure WrittenIn (given : List ℕ) (s s' : Paging) : Prop where
  eq : s' = { s with mem := s'.mem }
  within : ∀ a, s'.mem a ≠ s.mem a →
    ∃ f ∈ given, f + s.physMemOffset ≤ a ∧ a < f + s.physMemOffset + 4096

theorem WrittenIn.framesLeft_eq {given : List ℕ} {s s' : Paging} (h : WrittenIn given s s') :
    s'.framesLeft = s.framesLeft := by
  rw [h.eq]
  rfl

section

variable {f : ℕ} {p : List (Fin 512)} {i : Fin 512}

theorem WrittenIn.tables_eq (h : WrittenIn given s s') (hs : Sound P s given)
    (hf : s.tableAt p = some f) (i : Fin 512) : s'.tables f i = s.tables f i := by
  have hoff : s'.physMemOffset = s.physMemOffset := by rw [h.eq]
  have hi := i.isLt
  rw [tables, tables, hoff]
  refine readU64_congr fun a hlo hhi ↦ ?_
  by_contra hne
  obtain ⟨g, hg, hbelow, habove⟩ := h.within a hne
  have hdvd := hs.aligned g hg
  refine hs.fresh g (List.mem_append_left _ hg) p (hf.trans (congrArg some ?_))
  omega

theorem WrittenIn.agreeOn (h : WrittenIn given s s') (hs : Sound P s given) (q : List (Fin 512)) :
    RadixTable.AgreeOn entryMeaning s.tables s'.tables 4 s.cr3 q := by
  intro p i f _ hf
  exact h.tables_eq hs hf i

theorem WrittenIn.sound (h : WrittenIn given s s') (hs : Sound P s given) : Sound P s' given := by
  refine hs.congr (by rw [h.eq]) (by rw [h.eq]; rfl) (fun q ↦ tableAt_congr (h.agreeOn hs q))
    fun p i f _ hf hunused ↦ ?_
  rw [h.tables_eq hs hf, hunused]

theorem WrittenIn.translate_eq (h : WrittenIn given s s') (hs : Sound P s given) (v : ℕ) :
    s'.translate v = s.translate v := by
  have hcr3 : s'.cr3 = s.cr3 := by rw [h.eq]
  rw [translate, translate, hcr3]
  exact lookup_congr (length_pagePath v) (h.agreeOn hs _)

end

/-! ## What `map_page` keeps -/

theorem lt_of_nextTable {table index : ℕ} {r : Except String ℕ}
    (hcall : s.nextTable table index = .ok (r, s')) : index < 512 := by
  obtain ⟨entry, hentry, -⟩ := Checked.bind_eq_ok.mp hcall
  rw [entryPtr] at hentry
  split_ifs at hentry with hlt
  exact hlt

/-- What the descent and the storing of an entry keep, `map_page` keeps. -/
theorem mapPage_invariant {I : Paging → Prop}
    (hnext : ∀ {s s' : Paging} {table index : ℕ} {r : Except String ℕ}, I s →
      s.nextTable table index = .ok (r, s') → I s')
    (hset : ∀ {s s' : Paging} {entry phys : ℕ} {flags : PageTableFlags}, I s →
      s.setAddr entry phys flags = .ok s' → I s')
    (h : I s) {r : Except String Unit} (hcall : s.mapPage virt phys flags = .ok (r, s')) :
    I s' := by
  obtain ⟨l4, -, hcall⟩ := Checked.bind_eq_ok.mp hcall
  rcases andThen_eq_ok hcall with ⟨e, h3, rfl⟩ | ⟨l3, s₁, h3, hcall⟩
  · exact hnext h h3
  rcases andThen_eq_ok hcall with ⟨e, h2, rfl⟩ | ⟨l2, s₂, h2, hcall⟩
  · exact hnext (hnext h h3) h2
  rcases andThen_eq_ok hcall with ⟨e, h1, rfl⟩ | ⟨l1, s₃, h1, hcall⟩
  · exact hnext (hnext (hnext h h3) h2) h1
  obtain ⟨entry, -, hcall⟩ := Checked.bind_eq_ok.mp hcall
  obtain ⟨p, -, hcall⟩ := Checked.bind_eq_ok.mp hcall
  obtain ⟨s₄, hleaf, hcall⟩ := Checked.bind_eq_ok.mp hcall
  obtain ⟨_, -, hret⟩ := Checked.bind_eq_ok.mp hcall
  cases hret
  exact hset (hnext (hnext (hnext h h3) h2) h1) hleaf

theorem framesLeft_nextTable {table index : ℕ} {r : Except String ℕ}
    (hcall : s.nextTable table index = .ok (r, s')) : s'.framesLeft <:+ s.framesLeft := by
  rcases nextTable_cases hcall with ⟨-, rfl, -⟩ | ⟨e, -, -, hleft, -⟩ |
    ⟨-, alloc, alloc', phys, hsome, hframes, -, -, rfl⟩
  · exact List.suffix_rfl
  · rw [hleft]
    exact List.nil_suffix
  · rw [framesLeft_of_some hsome, framesLeft_of_some rfl, hframes]
    exact List.suffix_cons phys _

theorem framesLeft_mapPage {r : Except String Unit}
    (hcall : s.mapPage virt phys flags = .ok (r, s')) : s'.framesLeft <:+ s.framesLeft := by
  refine mapPage_invariant (I := fun t ↦ t.framesLeft <:+ s.framesLeft)
    (fun h hnext ↦ (framesLeft_nextTable hnext).trans h) (fun h hset ↦ ?_) List.suffix_rfl hcall
  obtain ⟨-, rfl⟩ := setAddr_eq_ok hset
  exact h

namespace InRange

theorem nextTable (h : s.InRange) {table index : ℕ} {r : Except String ℕ}
    (hcall : s.nextTable table index = .ok (r, s')) : s'.InRange := by
  obtain ⟨r', s'', hcall', hs''⟩ := h.nextTable_returns table (lt_of_nextTable hcall)
  rw [hcall'] at hcall
  cases hcall
  exact hs''

theorem mapPage (h : s.InRange) {r : Except String Unit}
    (hcall : s.mapPage virt phys flags = .ok (r, s')) : s'.InRange := by
  refine mapPage_invariant (fun h hnext ↦ h.nextTable hnext) (fun h hset ↦ ?_) h hcall
  obtain ⟨-, rfl⟩ := setAddr_eq_ok hset
  exact ⟨h.offset_le, h.cr3_lt, h.alloc⟩

theorem allocate (h : s.InRange) {alloc alloc' : BootInfoFrameAllocator} {frame : Option ℕ}
    (hsome : s.frameAllocator = some alloc) (hcall : alloc.allocateFrame = .ok (frame, alloc')) :
    InRange { s with frameAllocator := some alloc' } := by
  obtain ⟨hin, hlt⟩ := h.alloc alloc hsome
  obtain ⟨alloc'', hcall', htail, hin'⟩ := BootInfoFrameAllocator.allocateFrame_isCursor alloc hin
  rw [hcall'] at hcall
  cases hcall
  refine ⟨h.offset_le, h.cr3_lt, fun a ha ↦ ?_⟩
  obtain rfl := Option.some.inj ha
  exact ⟨hin', fun phys hphys ↦ hlt phys (List.mem_of_mem_tail (htail ▸ hphys))⟩

theorem congr (h : s.InRange) (hoffset : s'.physMemOffset = s.physMemOffset)
    (hcr3 : s'.cr3 = s.cr3) (halloc : s'.frameAllocator = s.frameAllocator) : s'.InRange :=
  ⟨hoffset ▸ h.offset_le, hcr3 ▸ h.cr3_lt, halloc ▸ h.alloc⟩

end InRange

end Paging

/-! ## The system -/

/-- The paging state and the frames that have been handed out, the last one first. -/
structure Space where
  paging : Paging
  given : List ℕ

namespace Space

/-- What happens to an address space. -/
inductive Event where
  /-- `allocate_frame` has returned a frame or `None`. -/
  | allocate (frame : Option ℕ)
  /-- `map_page` has returned. -/
  | map (virt phys : ℕ) (flags : PageTableFlags) (result : Except String Unit)
  /-- `mark_all_user_accessible`. -/
  | markAll
  /-- Programs have written to frames that have been handed out. -/
  | write

/-- The steps, where the addresses in `P` may be mapped. -/
inductive Step (P : ℕ → Prop) (s : Space) : Event → Space → Prop
  | allocate {alloc alloc' : BootInfoFrameAllocator} {frame : Option ℕ}
      (hsome : s.paging.frameAllocator = some alloc)
      (hcall : alloc.allocateFrame = .ok (frame, alloc')) :
      Step P s (.allocate frame)
        ⟨{ s.paging with frameAllocator := some alloc' }, frame.toList ++ s.given⟩
  | map {virt phys : ℕ} {flags : PageTableFlags} {r : Except String Unit} {paging : Paging}
      (hvirt : P virt) (hcanon : Canonical virt)
      (hpresent : PageTableFlags.contains flags.bits PageTableFlags.PRESENT)
      (hcall : s.paging.mapPage virt phys flags = .ok (r, paging)) :
      Step P s (.map virt phys flags r) ⟨paging, s.given⟩
  | markAll {paging : Paging} (hcall : s.paging.markAllUserAccessible = .ok paging) :
      Step P s .markAll ⟨paging, s.given⟩
  | write {paging : Paging} (h : Paging.WrittenIn s.given s.paging paging) :
      Step P s .write ⟨paging, s.given⟩

/-- What an address space is for: a translation for every address. -/
abbrev View := ℕ → Option Leaf

/-- What an event does to the translations. -/
def View.after (view : View) : Event → View
  | .map virt phys flags (.ok ()) => fun v ↦
    if v / 4096 = virt / 4096 then some ⟨0, phys, flags.bits⟩ else view v
  | .markAll => fun v ↦ (view v).map Leaf.withUser
  | _ => view

/-- The frame that an event hands out. -/
def Event.handsOut : Event → Option ℕ
  | .allocate frame => frame
  | _ => none

/-- The invariant of a run. -/
structure Ok (P : ℕ → Prop) (s : Space) : Prop where
  sound : s.paging.Sound P s.given
  inRange : s.paging.InRange

variable {P : ℕ → Prop} {s s' : Space} {e : Event}

/-- The walk finds all tables in the bootloader's mapping. -/
theorem Ok.window (h : s.Ok P) : s.paging.Window 4 s.paging.cr3 :=
  Paging.window_of_offset h.inRange.offset_le h.inRange.cr3_lt

theorem Ok.marked (h : s.Ok P) {paging : Paging}
    (hcall : s.paging.markAllUserAccessible = .ok paging) :
    Paging.Marked s.paging.Walked s.paging paging := by
  obtain ⟨paging', hcall', hmark⟩ := Paging.markAllUserAccessible_marked h.window
  rw [hcall'] at hcall
  cases hcall
  exact hmark

/-- **The step lemma.** -/
theorem Step.ok (hstep : Step P s e s') (h : s.Ok P) : s'.Ok P := by
  cases hstep with
  | allocate hsome hcall => exact ⟨h.sound.allocate hsome hcall, h.inRange.allocate hsome hcall⟩
  | map hvirt _ _ hcall => exact ⟨h.sound.mapPage hvirt hcall, h.inRange.mapPage hcall⟩
  | markAll hcall =>
    have hmark := h.marked hcall
    exact ⟨h.sound.mark hmark, h.inRange.congr hmark.offset hmark.cr3 hmark.frameAllocator⟩
  | write hwrite =>
    refine ⟨hwrite.sound h.sound, h.inRange.congr ?_ ?_ ?_⟩ <;> rw [hwrite.eq]

theorem pagePath_congr {v w : ℕ} (h : v / 4096 = w / 4096) : pagePath v = pagePath w := by
  simp only [pagePath, pageIndex, List.cons.injEq, Fin.mk.injEq, and_true]
  omega

/-- **One step of the code is one step of the view.** -/
theorem Step.translate_eq (hstep : Step P s e s') (h : s.Ok P) {v : ℕ} (hv : Canonical v) :
    s'.paging.translate v = View.after s.paging.translate e v := by
  cases hstep with
  | allocate hsome hcall => rfl
  | map hvirt hcanon hpresent hcall =>
    rename_i virt phys flags r paging
    rcases Paging.mapPage_cases (h.sound.hierarchy hvirt) hcanon hpresent hcall with
      ⟨e, rfl, hsame⟩ | ⟨rfl, hpage, hothers⟩
    · exact hsame.translate v
    · dsimp only [View.after]
      by_cases hsamePage : v / 4096 = virt / 4096
      · rw [if_pos hsamePage, ← hpage, Paging.translate, Paging.translate,
          pagePath_congr hsamePage]
      · rw [if_neg hsamePage]
        exact hothers v hv hsamePage
  | markAll hcall => exact (h.marked hcall).translate_eq v
  | write hwrite => exact hwrite.translate_eq h.sound v

theorem View.after_congr {view view' : View} {v : ℕ} (h : view v = view' v) (e : Event) :
    view.after e v = view'.after e v := by
  cases e with
  | map virt phys flags r =>
    cases r with
    | error e => exact h
    | ok u => dsimp only [after]; rw [h]
  | markAll => dsimp only [after]; rw [h]
  | allocate frame => exact h
  | write => exact h

/-- **The run lemma.** -/
theorem run_ok {s₀ : Space} {events : List Event} (hrun : Run (Step P) s₀ events s)
    (h0 : s₀.Ok P) : s.Ok P :=
  hrun.invariant h0 fun _ _ _ h hstep ↦ hstep.ok h

/-- **Over a run the address space is the view**, whatever tables have been created on the way: the
last successful mapping of a page decides, and a mark behind it adds a flag. Every further call
returns. -/
theorem translate_run {paging : Paging} (h0 : paging.Sound P []) (hin : paging.InRange)
    {events : List Event} (hrun : Run (Step P) ⟨paging, []⟩ events s) :
    (∀ v, Canonical v →
      s.paging.translate v = events.foldl View.after paging.translate v) ∧
    (∀ virt phys flags, Canonical virt → 4096 ∣ phys → phys < 2 ^ 52 →
      ∃ r paging', s.paging.mapPage virt phys flags = .ok (r, paging')) ∧
    ∃ paging', s.paging.markAllUserAccessible = .ok paging' := by
  have hok : s.Ok P := run_ok hrun ⟨h0, hin⟩
  refine ⟨fun v hv ↦ ?_, fun virt phys flags hcanon hdvd hlt ↦
    hok.inRange.mapPage_returns hcanon hdvd hlt flags, ?_⟩
  · clear hok
    induction hrun with
    | nil => rfl
    | snoc hrun hstep ih =>
      rw [List.foldl_append, List.foldl_cons, List.foldl_nil,
        hstep.translate_eq (run_ok hrun ⟨h0, hin⟩) hv]
      exact View.after_congr ih _
  · obtain ⟨paging', hcall, -⟩ := Paging.markAllUserAccessible_marked hok.window
    exact ⟨paging', hcall⟩

/-! ### The test mapping of `kernel_main` -/

theorem sound_emptySpace : Paging.emptySpace.Sound (fun _ ↦ True) [] where
  tree := (Paging.hierarchy_emptySpace 0).tree
  extendable virt _ := (Paging.hierarchy_emptySpace virt).extendable
  nodup := (Paging.hierarchy_emptySpace 0).nodup _ rfl
  fresh := (Paging.hierarchy_emptySpace 0).fresh _ rfl
  aligned phys hphys := by cases hphys

theorem inRange_emptySpace : Paging.emptySpace.InRange where
  offset_le := by decide
  cr3_lt := by decide
  alloc alloc h := by
    obtain rfl := Option.some.inj h
    exact ⟨.new (by decide) (by decide), by decide⟩

/-- A frame is handed out and mapped, and all pages are marked. -/
def testMapping : List Event :=
  [.allocate (some 0x1000), .map 0x777700000000 0x1000 .table (.ok ()), .markAll]

/-- The state after the first frame. -/
private def oneFrame : Space :=
  ⟨{ Paging.emptySpace with frameAllocator := some ⟨BootInfoFrameAllocator.lowMemory, 0, 1⟩ },
    [0x1000]⟩

theorem run_testMapping :
    ∃ s, Run (Step fun _ ↦ True) ⟨Paging.emptySpace, []⟩ testMapping s := by
  have hfirst : Step (fun _ ↦ True) ⟨Paging.emptySpace, []⟩ (.allocate (some 0x1000)) oneFrame :=
    .allocate rfl rfl
  have hok := hfirst.ok ⟨sound_emptySpace, inRange_emptySpace⟩
  obtain ⟨r, paging, hcall⟩ : ∃ r paging,
      oneFrame.paging.mapPage 0x777700000000 0x1000 .table = .ok (r, paging) :=
    hok.inRange.mapPage_returns (Or.inl (by decide)) (by decide) (by decide) .table
  -- the three tables that are missing take the frames that are left
  obtain rfl : r = .ok () := by
    have hret : (oneFrame.paging.mapPage 0x777700000000 0x1000 .table).map (·.1.isOk) =
      .ok true := by decide
    rw [hcall] at hret
    cases r with
    | error e => cases hret
    | ok u => rfl
  have hsecond : Step (fun _ ↦ True) oneFrame (.map 0x777700000000 0x1000 .table (.ok ()))
      ⟨paging, [0x1000]⟩ := .map trivial (Or.inl (by decide)) (by decide) hcall
  obtain ⟨paging', hmark, -⟩ := Paging.markAllUserAccessible_marked (hsecond.ok hok).window
  exact ⟨_, ((Run.nil.snoc hfirst).snoc hsecond).snoc (.markAll hmark)⟩

/-- After the test mapping the page is translated to the frame, and no other page. -/
theorem translate_run_testMapping : ∃ s : Space,
    Run (Step fun _ ↦ True) ⟨Paging.emptySpace, []⟩ testMapping s ∧
    (∀ v, Canonical v →
      s.paging.translate v = testMapping.foldl View.after Paging.emptySpace.translate v) ∧
    (∀ virt phys flags, Canonical virt → 4096 ∣ phys → phys < 2 ^ 52 →
      ∃ r paging', s.paging.mapPage virt phys flags = .ok (r, paging')) ∧
    ∃ paging', s.paging.markAllUserAccessible = .ok paging' := by
  obtain ⟨s, hrun⟩ := run_testMapping
  exact ⟨s, hrun, translate_run sound_emptySpace inRange_emptySpace hrun⟩

theorem Step.framesLeft_suffix (hstep : Step P s e s') (h : s.Ok P) :
    s'.paging.framesLeft <:+ s.paging.framesLeft := by
  cases hstep with
  | allocate hsome hcall =>
    rw [Paging.framesLeft_of_some hsome, Paging.framesLeft_of_some rfl,
      (BootInfoFrameAllocator.allocateFrame_eq_ok hcall).2]
    exact List.tail_suffix _
  | map _ _ _ hcall => exact Paging.framesLeft_mapPage hcall
  | markAll hcall =>
    simp only [Paging.framesLeft, (h.marked hcall).frameAllocator, List.suffix_rfl]
  | write hwrite => exact hwrite.framesLeft_eq ▸ List.suffix_rfl

theorem Step.given_eq (hstep : Step P s e s') : s'.given = e.handsOut.toList ++ s.given := by
  cases hstep <;> rfl

/-- **Over a run no frame is used twice**: the frames that have been handed out are all different,
none of them is handed out or made a table later, and none holds a table of the hierarchy. When a
mapping has failed, there are no frames left, for good. -/
theorem frames_run {paging : Paging} (h0 : paging.Sound P []) (hin : paging.InRange)
    {events : List Event} (hrun : Run (Step P) ⟨paging, []⟩ events s) :
    (events.filterMap Event.handsOut).Nodup ∧
    (∀ f ∈ events.filterMap Event.handsOut,
      f ∉ s.paging.framesLeft ∧ ∀ p, s.paging.tableAt p ≠ some (f / 4096)) ∧
    ∀ virt phys flags error, .map virt phys flags (.error error) ∈ events →
      s.paging.framesLeft = [] := by
  have hok : s.Ok P := run_ok hrun ⟨h0, hin⟩
  have hgiven : s.given = (events.filterMap Event.handsOut).reverse := by
    clear hok
    induction hrun with
    | nil => rfl
    | @snoc es s s' e hrun hstep ih =>
      rw [hstep.given_eq, ih, List.filterMap_append, List.reverse_append]
      cases hout : e.handsOut <;> simp [hout]
  obtain ⟨hnodup, -, hapart⟩ := List.nodup_append.mp hok.sound.nodup
  rw [hgiven, List.nodup_reverse] at hnodup
  refine ⟨hnodup, fun f hf ↦ ?_, fun virt phys flags error hmem ↦ ?_⟩
  · have hf : f ∈ s.given := by rwa [hgiven, List.mem_reverse]
    exact ⟨fun hleft ↦ hapart f hf f hleft rfl,
      hok.sound.fresh f (List.mem_append_left _ hf)⟩
  · clear hok hgiven hapart hnodup
    induction hrun with
    | nil => cases hmem
    | snoc hrun hstep ih =>
      have hbefore := run_ok hrun ⟨h0, hin⟩
      rcases List.mem_append.mp hmem with hmem | hmem
      · have hsuffix := hstep.framesLeft_suffix hbefore
        rw [ih hmem] at hsuffix
        exact List.suffix_nil.mp hsuffix
      · obtain rfl := List.mem_singleton.mp hmem
        cases hstep with
        | map hvirt _ _ hcall => exact Paging.framesLeft_of_mapPage hcall

/-- The frame of the test mapping is not handed out again. -/
theorem frames_run_testMapping : ∃ s : Space,
    Run (Step fun _ ↦ True) ⟨Paging.emptySpace, []⟩ testMapping s ∧
    (testMapping.filterMap Event.handsOut).Nodup ∧
    (∀ f ∈ testMapping.filterMap Event.handsOut,
      f ∉ s.paging.framesLeft ∧ ∀ p, s.paging.tableAt p ≠ some (f / 4096)) ∧
    ∀ virt phys flags error, .map virt phys flags (.error error) ∈ testMapping →
      s.paging.framesLeft = [] := by
  obtain ⟨s, hrun⟩ := run_testMapping
  exact ⟨s, hrun, frames_run sound_emptySpace inRange_emptySpace hrun⟩

end Space

end RelizOS
