import RelizOS.Paging.PageTable

/-!
# `map_page` maps one page

`map_page` descends from the level 4 table, creating the tables that are missing, and stores the
leaf. Every step of the descent either finds the next table or links a fresh zeroed frame under an
unused entry; neither changes any translation. So a failure on the way leaves all translations as
they were, whichever tables have been linked already, and a success changes the one of the page.

The bytes are connected to the tables of `RadixTable` once, by `tables_writeU64` and
`tables_zeroFill`: storing an entry is `setEntry`, zeroing a frame is `clear`.

## Assumptions

`Hierarchy` collects what `map_page` relies on: the tables form a tree, the entries on the page's
path are unused or name tables, and the frames still to be allocated are distinct and not in use as
tables.
-/

open ByteMemory RadixTable

namespace RelizOS

namespace Paging

variable {s s' : Paging} {virt : ℕ}

/-! ## Bytes and tables -/

theorem entry_disjoint {f g o : ℕ} {i j : Fin 512} (h : g ≠ f ∨ j ≠ i) :
    (g * 4096 + o + 8 * j) + 8 ≤ f * 4096 + o + 8 * i ∨
      f * 4096 + o + 8 * i + 8 ≤ g * 4096 + o + 8 * j := by
  have hi := i.isLt
  have hj := j.isLt
  rcases Nat.lt_trichotomy g f with hlt | rfl | hgt
  · omega
  · have hne : j.val ≠ i.val := fun heq ↦ h.resolve_left (not_not.mpr rfl) (Fin.ext heq)
    omega
  · omega

theorem tables_writeU64 {f : ℕ} {i : Fin 512} {e : UInt64}
    (hmem : s'.mem = writeU64 s.mem (f * 4096 + s.physMemOffset + 8 * i) e)
    (hoff : s'.physMemOffset = s.physMemOffset) : s'.tables = setEntry s.tables f i e := by
  funext g j
  rw [tables, hmem, hoff]
  by_cases h : g = f ∧ j = i
  · obtain ⟨rfl, rfl⟩ := h
    rw [setEntry_self, readU64_writeU64_self]
  · rw [setEntry_of_ne (not_and_or.mp h),
      readU64_writeU64_of_disjoint (entry_disjoint (not_and_or.mp h)), tables]

theorem tables_zeroFill {f : ℕ}
    (hmem : s'.mem = zeroFill s.mem (f * 4096 + s.physMemOffset) 4096)
    (hoff : s'.physMemOffset = s.physMemOffset) : s'.tables = clear s.tables f 0 := by
  funext g j
  have hj := j.isLt
  rw [tables, hmem, hoff, clear]
  by_cases h : g = f
  · subst h
    rw [Function.update_self, readU64_zeroFill (by omega) (by omega)]
  · rw [Function.update_of_ne h, tables]
    refine readU64_congr (agreeOn_zeroFill ?_)
    omega

/-! ## Paths of pages -/

theorem pageIndex_eq (virt shift : ℕ) : (virt >>> shift) &&& 0x1FF = pageIndex virt shift := by
  rw [Nat.shiftRight_eq_div_pow]
  exact Nat.and_two_pow_sub_one_eq_mod _ 9

@[simp] theorem length_pagePath (virt : ℕ) : (pagePath virt).length = 4 := rfl

theorem pagePath_inj {v w : ℕ} (hv : Canonical v) (hw : Canonical w)
    (h : pagePath v = pagePath w) : v / 4096 = w / 4096 := by
  simp only [pagePath, pageIndex, List.cons.injEq, Fin.mk.injEq, and_true] at h
  obtain ⟨h4, h3, h2, h1⟩ := h
  rw [Canonical] at hv hw
  omega

/-! ## The assumptions -/

/-- What `map_page` assumes of the tables, the page and the frame allocator. -/
structure Hierarchy (s : Paging) (virt : ℕ) : Prop where
  /-- No two entries point to one table, and none to the level 4 table. -/
  tree : Tree entryMeaning s.tables 4 s.cr3
  /-- The entries of levels 4, 3 and 2 on the page's path are unused or point to tables. -/
  extendable : Extendable entryMeaning s.tables 4 s.cr3 0 (pagePath virt)
  /-- No frame is still to be allocated twice. -/
  nodup : ∀ alloc, s.frameAllocator = some alloc → alloc.frames.Nodup
  /-- No frame still to be allocated is a table. -/
  fresh : ∀ alloc, s.frameAllocator = some alloc → ∀ phys ∈ alloc.frames, ∀ p,
    s.tableAt p ≠ some (phys / 4096)

/-- The two states translate every address alike, from the same level 4 table. -/
structure SameTranslations (s s' : Paging) : Prop where
  offset : s'.physMemOffset = s.physMemOffset
  cr3 : s'.cr3 = s.cr3
  translate : ∀ v, s'.translate v = s.translate v

theorem SameTranslations.refl (s : Paging) : SameTranslations s s := ⟨rfl, rfl, fun _ ↦ rfl⟩

theorem SameTranslations.trans {s'' : Paging} (h : SameTranslations s s')
    (h' : SameTranslations s' s'') : SameTranslations s s'' :=
  ⟨h'.offset.trans h.offset, h'.cr3.trans h.cr3, fun v ↦ (h'.translate v).trans (h.translate v)⟩

/-! ## Allocating a table -/

/-- The frames still to be allocated. -/
def framesLeft (s : Paging) : List ℕ :=
  match s.frameAllocator with
  | some alloc => alloc.frames
  | none => []

theorem framesLeft_of_some {alloc : BootInfoFrameAllocator} (h : s.frameAllocator = some alloc) :
    s.framesLeft = alloc.frames := by rw [framesLeft, h]

/-- **What `alloc_zeroed_frame` does**, when it returns: an error and no change of memory, and then
no frame is left, or the next frame, zeroed. -/
theorem allocZeroedFrame_cases {r : Except String ℕ} (h : s.allocZeroedFrame = .ok (r, s')) :
    (∃ e alloc, r = .error e ∧ s'.framesLeft = [] ∧ s' = { s with frameAllocator := alloc }) ∨
      ∃ alloc alloc' phys, r = .ok phys ∧ s.frameAllocator = some alloc ∧
        alloc.frames = phys :: alloc'.frames ∧
        s' = { s with
          frameAllocator := some alloc'
          mem := zeroFill s.mem (phys + s.physMemOffset) 4096 } := by
  rw [allocZeroedFrame] at h
  -- without an allocator and without a frame left the call fails alike, but the second has moved
  -- the allocator on
  cases halloc : s.frameAllocator with
  | none =>
    rw [halloc] at h
    cases h
    exact Or.inl ⟨_, none, rfl, by rw [framesLeft, halloc], by rw [← halloc]⟩
  | some alloc =>
    rw [halloc] at h
    obtain ⟨⟨frame, alloc'⟩, hcall, h⟩ := Checked.bind_eq_ok.mp h
    obtain ⟨hhead, htail⟩ := BootInfoFrameAllocator.allocateFrame_eq_ok hcall
    cases frame with
    | none =>
      cases h
      refine Or.inl ⟨_, _, rfl, ?_, rfl⟩
      rw [framesLeft_of_some rfl, htail, List.head?_eq_none_iff.mp hhead.symm, List.tail_nil]
    | some phys =>
      obtain ⟨v, hv, h⟩ := Checked.bind_eq_ok.mp h
      obtain ⟨-, rfl⟩ := Checked.add_eq_ok.mp hv
      cases h
      refine Or.inr ⟨alloc, alloc', phys, rfl, rfl, ?_, rfl⟩
      rw [htail]
      exact List.eq_cons_of_mem_head? hhead.symm

theorem entryPtr_eq_ok {table index entry : ℕ} (h : entryPtr table index = .ok entry) :
    entry = table + 8 * index := by
  rw [entryPtr] at h
  split_ifs at h
  exact (Except.ok.inj h).symm

theorem physAddrNew_eq_ok {phys p : ℕ} (h : physAddrNew phys = .ok p) :
    phys < 2 ^ 52 ∧ p = phys := by
  obtain ⟨_, hlt, h⟩ := Checked.bind_eq_ok.mp h
  exact ⟨Checked.ensure_eq_ok.mp hlt, (Except.ok.inj h).symm⟩

theorem setAddr_eq_ok {entry phys : ℕ} {flags : PageTableFlags}
    (h : s.setAddr entry phys flags = .ok s') :
    4096 ∣ phys ∧ s' = { s with mem := writeU64 s.mem entry (mkEntry phys flags) } := by
  obtain ⟨_, hdvd, h⟩ := Checked.bind_eq_ok.mp h
  exact ⟨Checked.ensure_eq_ok.mp hdvd, (Except.ok.inj h).symm⟩

/-- **What `next_table` does**, when it returns: it finds the table, or fails for want of a frame
and changes no memory, or links the next frame, zeroed, under the entry. -/
theorem nextTable_cases {table index : ℕ} {r : Except String ℕ}
    (h : s.nextTable table index = .ok (r, s')) :
    (readU64 s.mem (table + 8 * index) ≠ 0 ∧ s' = s ∧
        r = .ok (entryAddr (readU64 s.mem (table + 8 * index)) + s.physMemOffset)) ∨
      (∃ e alloc, r = .error e ∧ s'.framesLeft = [] ∧ s' = { s with frameAllocator := alloc }) ∨
        readU64 s.mem (table + 8 * index) = 0 ∧ ∃ alloc alloc' phys,
          s.frameAllocator = some alloc ∧ alloc.frames = phys :: alloc'.frames ∧
          phys < 2 ^ 52 ∧ r = .ok (phys + s.physMemOffset) ∧
          s' = { s with
            frameAllocator := some alloc'
            mem := writeU64 (zeroFill s.mem (phys + s.physMemOffset) 4096) (table + 8 * index)
              (mkEntry phys .table) } := by
  obtain ⟨entry, hentry, h⟩ := Checked.bind_eq_ok.mp h
  obtain rfl := entryPtr_eq_ok hentry
  -- an entry is taken as a table as soon as it is not zero; only an unused one gets a new frame
  by_cases hunused : readU64 s.mem (table + 8 * index) = 0
  · rw [if_pos hunused, andThen] at h
    obtain ⟨⟨frame, s₁⟩, halloc, h⟩ := Checked.bind_eq_ok.mp h
    rcases allocZeroedFrame_cases halloc with ⟨e, alloc, rfl, hleft, hs₁⟩ |
      ⟨alloc, alloc', phys, rfl, hsome, hframes, rfl⟩
    · cases h
      exact Or.inr (Or.inl ⟨e, alloc, rfl, hleft, hs₁⟩)
    · obtain ⟨p, hp, h⟩ := Checked.bind_eq_ok.mp h
      obtain ⟨s₂, hset, h⟩ := Checked.bind_eq_ok.mp h
      obtain ⟨v, hv, h⟩ := Checked.bind_eq_ok.mp h
      obtain ⟨hlt, rfl⟩ := physAddrNew_eq_ok hp
      obtain ⟨haligned, rfl⟩ := setAddr_eq_ok hset
      obtain ⟨-, rfl⟩ := Checked.add_eq_ok.mp hv
      cases h
      refine Or.inr (Or.inr ⟨hunused, alloc, alloc', p, hsome, hframes, hlt, ?_, rfl⟩)
      rw [readU64_writeU64_self, entryAddr_mkEntry haligned hlt]
  · rw [if_neg hunused] at h
    obtain ⟨v, hv, h⟩ := Checked.bind_eq_ok.mp h
    obtain ⟨-, rfl⟩ := Checked.add_eq_ok.mp hv
    cases h
    exact Or.inl ⟨hunused, rfl, rfl⟩

/-! ## One level of the descent -/

private theorem link_of_fresh {phys f : ℕ} {p : List (Fin 512)} {i : Fin 512}
    (htree : Tree entryMeaning s.tables 4 s.cr3) (hf : s.tableAt p = some f)
    (hlen : p.length + 1 < 4) (hunused : s.tables f i = 0)
    (hfresh : ∀ q, s.tableAt q ≠ some (phys / 4096)) (hdvd : 4096 ∣ phys) (hlt : phys < 2 ^ 52) :
    Link entryMeaning (clear s.tables (phys / 4096) 0) 4 s.cr3 p f i (mkEntry phys .table)
      (phys / 4096) where
  tree q q' g hq hq' := by
    rw [tableAt_clear hfresh] at hq hq'
    exact htree q q' g hq hq'
  parent := by rw [tableAt_clear hfresh]; exact hf
  level := by omega
  absent := by rw [clear_of_reachable hfresh hf, hunused, entryMeaning_zero]
  entry := entryMeaning_table hdvd hlt (by omega)
  fresh q := by rw [tableAt_clear hfresh]; exact hfresh q
  blank k j := by rw [clear_self, entryMeaning_zero]

/-- **One level of the descent** changes no translation, and if it returns `Ok`, it returns the
table at the next position of the page's path. -/
theorem Hierarchy.nextTable {r : Except String ℕ} {f : ℕ} {p : List (Fin 512)} {i : Fin 512}
    (hs : Hierarchy s virt) (hpath : p ++ [i] <+: pagePath virt) (hlen : p.length + 1 < 4)
    (hf : s.tableAt p = some f)
    (h : s.nextTable (f * 4096 + s.physMemOffset) i = .ok (r, s')) :
    SameTranslations s s' ∧ ∀ v, r = .ok v → Hierarchy s' virt ∧
      ∃ g, v = g * 4096 + s'.physMemOffset ∧ s'.tableAt (p ++ [i]) = some g := by
  rcases nextTable_cases h with ⟨hused, rfl, rfl⟩ | ⟨e, alloc, rfl, -, rfl⟩ |
    ⟨hunused, alloc, alloc', phys, hsome, hframes, hlt, rfl, hs'⟩
  · refine ⟨SameTranslations.refl s', fun v hv ↦ ⟨hs, ?_⟩⟩
    obtain ⟨g, hg⟩ := (hs.extendable p i f hpath hlen hf).resolve_left hused
    refine ⟨g, ?_, tableAt_snoc hf hg (by omega)⟩
    rw [← Except.ok.inj hv, ← entryAddr_of_table hg]
    rfl
  · exact ⟨⟨rfl, rfl, fun v ↦ rfl⟩, fun v hv ↦ by cases hv⟩
  -- the new frame comes from the allocator, so no table is in it yet
  · have hmem : phys ∈ alloc.frames := hframes ▸ List.mem_cons_self
    have hdvd := BootInfoFrameAllocator.dvd_of_mem_frames hmem
    have hfresh := hs.fresh alloc hsome phys hmem
    have hlink := link_of_fresh hs.tree hf hlen hunused hfresh hdvd hlt
    have hoff : s'.physMemOffset = s.physMemOffset := by rw [hs']
    have hcr3 : s'.cr3 = s.cr3 := by rw [hs']
    -- the frame is cleared first and linked then, so it never shows an entry of its own
    have htables : s'.tables = setEntry (clear s.tables (phys / 4096) 0) f i
        (mkEntry phys .table) := by
      have hzero : ({ s with mem := zeroFill s.mem (phys + s.physMemOffset) 4096 } : Paging).tables
          = clear s.tables (phys / 4096) 0 :=
        tables_zeroFill (by rw [Nat.div_mul_cancel hdvd]) rfl
      rw [← hzero]
      exact tables_writeU64 (by rw [hs']) hoff
    refine ⟨⟨hoff, hcr3, fun v ↦ ?_⟩, fun v hv ↦ ⟨⟨?_, ?_, ?_, ?_⟩, ?_⟩⟩
    · rw [translate, translate, htables, hcr3, hlink.lookup_eq (length_pagePath v),
        lookup_clear hfresh (length_pagePath v)]
    · rw [htables, hcr3]
      exact hlink.tree_setEntry
    · rw [htables, hcr3]
      refine hlink.extendable (fun j ↦ clear_self) fun q j g hq hqlen hg ↦ ?_
      rw [tableAt_clear hfresh] at hg
      rw [clear_of_reachable hfresh hg]
      exact hs.extendable q j g hq hqlen hg
    · intro a ha
      obtain rfl : alloc' = a := by rw [hs'] at ha; exact Option.some.inj ha
      exact (List.nodup_cons.mp (hframes ▸ hs.nodup alloc hsome)).2
    · intro a ha phys' hphys' q hq
      obtain rfl : alloc' = a := by rw [hs'] at ha; exact Option.some.inj ha
      rw [tableAt, htables, hcr3, hlink.tableAt_iff, tableAt_clear hfresh] at hq
      rcases hq with hq | ⟨-, heq⟩
      · exact hs.fresh alloc hsome phys' (hframes ▸ List.mem_cons_of_mem _ hphys') q hq
      · have hdvd' := BootInfoFrameAllocator.dvd_of_mem_frames hphys'
        have hne := (List.nodup_cons.mp (hframes ▸ hs.nodup alloc hsome)).1
        obtain rfl : phys' = phys := by omega
        exact hne hphys'
    · refine ⟨phys / 4096, ?_, ?_⟩
      · rw [← Except.ok.inj hv, hoff, Nat.div_mul_cancel hdvd]
      · rw [tableAt, htables, hcr3]
        exact hlink.tableAt_child

/-! ## The whole of `map_page` -/

/-- A sequence `x?; f` that returns `Ok` or `Err`: the first part has returned `Err`, or both have
been executed. -/
theorem andThen_eq_ok {α β : Type} {x : Checked (Except String α × Paging)}
    {f : α → Paging → Checked (Except String β × Paging)} {r : Except String β}
    (h : andThen x f = .ok (r, s')) :
    (∃ e, x = .ok (.error e, s') ∧ r = .error e) ∨
      ∃ a s₁, x = .ok (.ok a, s₁) ∧ f a s₁ = .ok (r, s') := by
  obtain ⟨⟨y, s₁⟩, hx, h⟩ := Checked.bind_eq_ok.mp h
  cases y with
  | error e =>
    cases h
    exact Or.inl ⟨e, hx, rfl⟩
  | ok a => exact Or.inr ⟨a, s₁, hx, h⟩

theorem framesLeft_of_nextTable {table index : ℕ} {e : String}
    (h : s.nextTable table index = .ok (.error e, s')) : s'.framesLeft = [] := by
  rcases nextTable_cases h with ⟨-, -, he⟩ | ⟨_, _, -, hleft, -⟩ | ⟨-, _, _, _, -, -, -, he, -⟩
  · cases he
  · exact hleft
  · cases he

/-- `map_page` fails only when a table is missing and there is no frame left for it. -/
theorem framesLeft_of_mapPage {phys : ℕ} {flags : PageTableFlags} {e : String}
    (h : s.mapPage virt phys flags = .ok (.error e, s')) : s'.framesLeft = [] := by
  obtain ⟨l4, -, h⟩ := Checked.bind_eq_ok.mp h
  rcases andThen_eq_ok h with ⟨_, h3, -⟩ | ⟨l3, s₁, -, h⟩
  · exact framesLeft_of_nextTable h3
  rcases andThen_eq_ok h with ⟨_, h2, -⟩ | ⟨l2, s₂, -, h⟩
  · exact framesLeft_of_nextTable h2
  rcases andThen_eq_ok h with ⟨_, h1, -⟩ | ⟨l1, s₃, -, h⟩
  · exact framesLeft_of_nextTable h1
  obtain ⟨_, -, h⟩ := Checked.bind_eq_ok.mp h
  obtain ⟨_, -, h⟩ := Checked.bind_eq_ok.mp h
  obtain ⟨_, -, h⟩ := Checked.bind_eq_ok.mp h
  obtain ⟨_, -, h⟩ := Checked.bind_eq_ok.mp h
  cases h

/-- Storing the leaf gives the page its translation and leaves the others alone. -/
theorem translate_leaf {f phys : ℕ} {flags : PageTableFlags} (hcanon : Canonical virt)
    (htree : Tree entryMeaning s.tables 4 s.cr3)
    (hf : s.tableAt [pageIndex virt 39, pageIndex virt 30, pageIndex virt 21] = some f)
    (hdvd : 4096 ∣ phys) (hlt : phys < 2 ^ 52)
    (hpresent : PageTableFlags.contains flags.bits PageTableFlags.PRESENT)
    (hmem : s'.mem = writeU64 s.mem (f * 4096 + s.physMemOffset + 8 * pageIndex virt 12)
      (mkEntry phys flags))
    (hoff : s'.physMemOffset = s.physMemOffset) (hcr3 : s'.cr3 = s.cr3) :
    s'.translate virt = some ⟨0, phys, flags.bits⟩ ∧
      ∀ v, Canonical v → v / 4096 ≠ virt / 4096 → s'.translate v = s.translate v := by
  refine ⟨?_, fun v hv hne ↦ ?_⟩
  · rw [translate, tables_writeU64 hmem hoff, hcr3]
    exact lookup_setEntry_leaf htree hf rfl (entryMeaning_leaf hdvd hlt hpresent)
  · rw [translate, translate, tables_writeU64 hmem hoff, hcr3]
    refine lookup_setEntry_of_not_prefix htree hf (length_pagePath v) fun hpre ↦ hne ?_
    exact pagePath_inj hv hcanon (hpre.eq_of_length rfl).symm

theorem mapPage_cases {phys : ℕ} {flags : PageTableFlags} {r : Except String Unit}
    (hs : Hierarchy s virt) (hcanon : Canonical virt)
    (hpresent : PageTableFlags.contains flags.bits PageTableFlags.PRESENT)
    (h : s.mapPage virt phys flags = .ok (r, s')) :
    (∃ e, r = .error e ∧ SameTranslations s s') ∨
      r = .ok () ∧ s'.translate virt = some ⟨0, phys, flags.bits⟩ ∧
        ∀ v, Canonical v → v / 4096 ≠ virt / 4096 → s'.translate v = s.translate v := by
  obtain ⟨l4, hl4, h⟩ := Checked.bind_eq_ok.mp h
  obtain ⟨-, rfl⟩ := Checked.add_eq_ok.mp hl4
  simp only [pageIndex_eq] at h
  have hroot : s.tableAt [] = some s.cr3 := rfl
  -- each of the three descents may fail, and until the last entry is set nothing is translated anew
  rcases andThen_eq_ok h with ⟨e, h3, rfl⟩ | ⟨l3, s₁, h3, h⟩
  · exact Or.inl ⟨e, rfl, (hs.nextTable ⟨_, rfl⟩ (by decide) hroot h3).1⟩
  obtain ⟨hsame₁, hnext⟩ := hs.nextTable (p := []) ⟨_, rfl⟩ (by decide) hroot h3
  obtain ⟨hs₁, f₁, rfl, hf₁⟩ := hnext l3 rfl
  rcases andThen_eq_ok h with ⟨e, h2, rfl⟩ | ⟨l2, s₂, h2, h⟩
  · exact Or.inl ⟨e, rfl, hsame₁.trans (hs₁.nextTable ⟨_, rfl⟩ (by simp) hf₁ h2).1⟩
  obtain ⟨hsame₂, hnext⟩ := hs₁.nextTable ⟨_, rfl⟩ (by simp) hf₁ h2
  obtain ⟨hs₂, f₂, rfl, hf₂⟩ := hnext l2 rfl
  rcases andThen_eq_ok h with ⟨e, h1, rfl⟩ | ⟨l1, s₃, h1, h⟩
  · exact Or.inl ⟨e, rfl,
      (hsame₁.trans hsame₂).trans (hs₂.nextTable ⟨_, rfl⟩ (by simp) hf₂ h1).1⟩
  obtain ⟨hsame₃, hnext⟩ := hs₂.nextTable ⟨_, rfl⟩ (by simp) hf₂ h1
  obtain ⟨hs₃, f₃, rfl, hf₃⟩ := hnext l1 rfl
  have hsame := (hsame₁.trans hsame₂).trans hsame₃
  obtain ⟨entry, hentry, h⟩ := Checked.bind_eq_ok.mp h
  obtain ⟨p, hp, h⟩ := Checked.bind_eq_ok.mp h
  obtain ⟨s₄, hset, h⟩ := Checked.bind_eq_ok.mp h
  obtain ⟨_, -, hret⟩ := Checked.bind_eq_ok.mp h
  obtain rfl := entryPtr_eq_ok hentry
  obtain ⟨hlt, rfl⟩ := physAddrNew_eq_ok hp
  obtain ⟨hdvd, hs₄⟩ := setAddr_eq_ok hset
  cases hret
  obtain ⟨hpage, hothers⟩ := translate_leaf hcanon hs₃.tree hf₃ hdvd hlt hpresent
    (congrArg mem hs₄) (by rw [hs₄]) (by rw [hs₄])
  exact Or.inr ⟨rfl, hpage, fun v hv hne ↦ (hothers v hv hne).trans (hsame.translate v)⟩

/-! ## When `map_page` returns -/

/-- The numbers `map_page` computes with stay in range: physical addresses are below `2 ^ 52` and
their images below `2 ^ 64`. -/
structure InRange (s : Paging) : Prop where
  offset_le : s.physMemOffset + 2 ^ 52 ≤ 2 ^ 64
  cr3_lt : s.cr3 < 2 ^ 40
  alloc : ∀ alloc, s.frameAllocator = some alloc →
    alloc.InRange ∧ ∀ phys ∈ alloc.frames, phys < 2 ^ 52

namespace InRange

variable (hs : s.InRange)

include hs

theorem physToVirt_of_lt {phys : ℕ} (h : phys < 2 ^ 52) :
    s.physToVirt phys = .ok (phys + s.physMemOffset) :=
  Checked.add_of_lt (by have := hs.offset_le; omega)

theorem allocZeroedFrame_returns : ∃ r s', s.allocZeroedFrame = .ok (r, s') ∧ s'.InRange ∧
    ∀ phys, r = .ok phys → 4096 ∣ phys ∧ phys < 2 ^ 52 := by
  rw [allocZeroedFrame]
  cases halloc : s.frameAllocator with
  | none => exact ⟨_, s, rfl, hs, fun phys h ↦ by cases h⟩
  | some alloc =>
    obtain ⟨hin, hlt⟩ := hs.alloc alloc halloc
    obtain ⟨alloc', hcall, htail, hin'⟩ := BootInfoFrameAllocator.allocateFrame_isCursor alloc hin
    dsimp only
    rw [hcall, Checked.ok_bind]
    have hlt' : ∀ phys ∈ alloc'.frames, phys < 2 ^ 52 := fun phys h ↦
      hlt phys (List.mem_of_mem_tail (htail ▸ h))
    cases hframes : alloc.frames with
    | nil =>
      refine ⟨_, _, rfl, ⟨hs.offset_le, hs.cr3_lt, fun a ha ↦ ?_⟩, fun phys h ↦ by cases h⟩
      exact Option.some.inj ha ▸ ⟨hin', hlt'⟩
    | cons phys fs =>
      have hmem : phys ∈ alloc.frames := hframes ▸ List.mem_cons_self
      have hvirt : ({ s with frameAllocator := some alloc' } : Paging).physToVirt phys =
          .ok (phys + s.physMemOffset) := hs.physToVirt_of_lt (hlt phys hmem)
      dsimp only [List.head?_cons]
      rw [hvirt]
      refine ⟨_, _, rfl, ⟨hs.offset_le, hs.cr3_lt, fun a ha ↦ ?_⟩, fun p h ↦ ?_⟩
      · exact Option.some.inj ha ▸ ⟨hin', hlt'⟩
      · exact Except.ok.inj h ▸ ⟨BootInfoFrameAllocator.dvd_of_mem_frames hmem, hlt phys hmem⟩

theorem nextTable_returns (table : ℕ) {index : ℕ} (hindex : index < 512) :
    ∃ r s', s.nextTable table index = .ok (r, s') ∧ s'.InRange := by
  rw [nextTable, entryPtr, if_pos hindex, Checked.ok_bind]
  by_cases hunused : readU64 s.mem (table + 8 * index) = 0
  · obtain ⟨r, s₁, halloc, hs₁, hphys⟩ := hs.allocZeroedFrame_returns
    rw [if_pos hunused, andThen, halloc, Checked.ok_bind]
    cases r with
    | error e => exact ⟨_, s₁, rfl, hs₁⟩
    | ok phys =>
      obtain ⟨hdvd, hlt⟩ := hphys phys rfl
      dsimp only
      simp only [physAddrNew, setAddr, Checked.ensure, if_pos hlt, if_pos hdvd, Checked.ok_bind,
        Checked.pure_eq_ok]
      have hs₂ : ({ s₁ with mem := writeU64 s₁.mem (table + 8 * index) (mkEntry phys .table) } :
        Paging).InRange := ⟨hs₁.offset_le, hs₁.cr3_lt, hs₁.alloc⟩
      rw [hs₂.physToVirt_of_lt (entryAddr_lt _)]
      exact ⟨_, _, rfl, hs₂⟩
  · rw [if_neg hunused, hs.physToVirt_of_lt (entryAddr_lt _)]
    exact ⟨_, s, rfl, hs⟩

theorem mapPage_returns {phys : ℕ} (hcanon : Canonical virt) (hdvd : 4096 ∣ phys)
    (hlt : phys < 2 ^ 52) (flags : PageTableFlags) :
    ∃ r s', s.mapPage virt phys flags = .ok (r, s') := by
  rw [mapPage, activeLevel4Table, hs.physToVirt_of_lt (by have := hs.cr3_lt; omega),
    Checked.ok_bind]
  simp only [pageIndex_eq]
  obtain ⟨r₃, s₁, h₃, hs₁⟩ :=
    hs.nextTable_returns (s.cr3 * 4096 + s.physMemOffset) (pageIndex virt 39).isLt
  rw [andThen, h₃, Checked.ok_bind]
  cases r₃ with
  | error e => exact ⟨_, _, rfl⟩
  | ok l3 =>
    obtain ⟨r₂, s₂, h₂, hs₂⟩ := hs₁.nextTable_returns l3 (pageIndex virt 30).isLt
    dsimp only
    rw [andThen, h₂, Checked.ok_bind]
    cases r₂ with
    | error e => exact ⟨_, _, rfl⟩
    | ok l2 =>
      obtain ⟨r₁, s₃, h₁, hs₃⟩ := hs₂.nextTable_returns l2 (pageIndex virt 21).isLt
      dsimp only
      rw [andThen, h₁, Checked.ok_bind]
      cases r₁ with
      | error e => exact ⟨_, _, rfl⟩
      | ok l1 =>
        -- the last entry is set under checks that hold of any aligned frame in range and any
        -- canonical page
        have hvirt : virt / 2 ^ 47 = 0 ∨ virt / 2 ^ 47 = 1 ∨ virt / 2 ^ 47 = 0x1FFFF :=
          hcanon.imp_right Or.inr
        simp only [entryPtr, if_pos (pageIndex virt 12).isLt, physAddrNew, setAddr, virtAddrNew,
          Checked.ensure, if_pos hlt, if_pos hdvd, if_pos hvirt, Checked.ok_bind,
          Checked.pure_eq_ok]
        exact ⟨_, _, rfl⟩

end InRange

/-! ## `map_page` is correct -/

/-- **`map_page` maps one page.** If it returns `Ok`, the page is translated to the frame with the
flags, by an entry of a last-level table, and every other page as before; if it returns `Err`, every
page is translated as before, and there is no frame left. It does return when the numbers it
computes with are in range. -/
theorem mapPage_correct {phys : ℕ} {flags : PageTableFlags} (hs : Hierarchy s virt)
    (hcanon : Canonical virt) (hdvd : 4096 ∣ phys) (hlt : phys < 2 ^ 52)
    (hpresent : PageTableFlags.contains flags.bits PageTableFlags.PRESENT) :
    (∀ s', s.mapPage virt phys flags = .ok (.ok (), s') →
      s'.translate virt = some ⟨0, phys, flags.bits⟩ ∧
        ∀ v, Canonical v → v / 4096 ≠ virt / 4096 → s'.translate v = s.translate v) ∧
    (∀ e s', s.mapPage virt phys flags = .ok (.error e, s') →
      (∀ v, s'.translate v = s.translate v) ∧ s'.framesLeft = []) ∧
    (s.InRange → ∃ r s', s.mapPage virt phys flags = .ok (r, s')) := by
  refine ⟨fun s' h ↦ ?_, fun e s' h ↦ ?_, fun hin ↦ hin.mapPage_returns hcanon hdvd hlt flags⟩
  · rcases mapPage_cases hs hcanon hpresent h with ⟨e, he, -⟩ | ⟨-, hmap⟩
    · cases he
    · exact hmap
  · rcases mapPage_cases hs hcanon hpresent h with ⟨-, -, hsame⟩ | ⟨hr, -⟩
    · exact ⟨hsame.translate, framesLeft_of_mapPage h⟩
    · cases hr

/-! ### An empty address space -/

/-- No page is mapped; the level 4 table is frame 16, and `lowMemory` has the frames for new
tables. -/
def emptySpace : Paging :=
  ⟨0x10000000000, fun _ ↦ 0, 16, some (.new BootInfoFrameAllocator.lowMemory)⟩

private theorem tables_emptySpace (f : ℕ) (i : Fin 512) : emptySpace.tables f i = 0 := by
  rw [tables, readU64]
  simp only [emptySpace, readLE, UInt8.toNat_zero, Nat.mul_zero, Nat.add_zero]
  rfl

private theorem tableAt_emptySpace {p : List (Fin 512)} {f : ℕ}
    (h : emptySpace.tableAt p = some f) : p = [] ∧ f = 16 := by
  cases p with
  | nil => exact ⟨rfl, (Option.some.inj h).symm⟩
  | cons i p =>
    obtain ⟨k, hk, -⟩ := tableAt_cons_eq_some.mp h
    rw [tables_emptySpace, entryMeaning_zero] at hk
    cases hk

theorem hierarchy_emptySpace (virt : ℕ) : Hierarchy emptySpace virt where
  tree p q f hp hq := by rw [(tableAt_emptySpace hp).1, (tableAt_emptySpace hq).1]
  extendable p i f _ _ _ := Or.inl (tables_emptySpace f i)
  nodup alloc h := by
    obtain rfl := Option.some.inj h
    decide
  fresh alloc h phys hphys p hp := by
    obtain rfl := Option.some.inj h
    have hne : ∀ phys ∈ (BootInfoFrameAllocator.new BootInfoFrameAllocator.lowMemory).frames,
      phys / 4096 ≠ 16 := by decide
    exact hne phys hphys (tableAt_emptySpace hp).2

/-- The test mapping of `kernel_main`, in the empty address space. -/
theorem mapPage_correct_emptySpace :
    Hierarchy emptySpace 0x777700000000 ∧
      (∀ s', emptySpace.mapPage 0x777700000000 0x5000 .table = .ok (.ok (), s') →
        s'.translate 0x777700000000 = some ⟨0, 0x5000, 7⟩ ∧
          ∀ v, Canonical v → v / 4096 ≠ 0x777700000000 / 4096 →
            s'.translate v = emptySpace.translate v) ∧
      (∀ e s', emptySpace.mapPage 0x777700000000 0x5000 .table = .ok (.error e, s') →
        (∀ v, s'.translate v = emptySpace.translate v) ∧ s'.framesLeft = []) ∧
      (emptySpace.InRange → ∃ r s',
        emptySpace.mapPage 0x777700000000 0x5000 .table = .ok (r, s')) :=
  ⟨hierarchy_emptySpace _, mapPage_correct (hierarchy_emptySpace _) (Or.inl (by decide))
    (by decide) (by decide) (by decide)⟩

example : (emptySpace.mapPage 0x777700000000 0x5000 .table).map (·.1.isOk) = .ok true := by decide

end Paging

end RelizOS
