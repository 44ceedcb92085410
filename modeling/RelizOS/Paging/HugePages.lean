import RelizOS.Paging.UserAccess

/-!
# `map_page` on a huge page

`mark_all_user_accessible` stops at an entry with the huge-page flag: there is no table beneath.
`map_page` asks of an entry only whether it is unused. When the page it is to map lies in a huge
page, it takes the memory of the huge page for a page table and stores an entry there.

`Refuses` is what should happen instead. `refuses_hugePage_iff` says when it does happen: never on a
2 MiB page, and on a 1 GiB page only where the descent happens to read a zero and then fails for
want of a frame.
-/

open ByteMemory RadixTable

namespace RelizOS

/-- The physical addresses that a translation maps. -/
def Leaf.Covers (l : Leaf) (phys : ℕ) : Prop :=
  phys / 2 ^ (12 + 9 * l.level) = l.addr / 2 ^ (12 + 9 * l.level)

theorem entryMeaning_eq_leaf {level : ℕ} {entry : UInt64} {l : Leaf}
    (h : entryMeaning level entry = .leaf l) :
    entry ≠ 0 ∧ level ≠ 3 ∧ l.level = level ∧ l.addr = entryAddr entry := by
  refine ⟨?_, ?_⟩
  · rintro rfl
    rw [entryMeaning_zero] at h
    cases h
  · rw [entryMeaning] at h
    split_ifs at h with _ h0 _ h3
    · obtain rfl := Meaning.leaf.inj h
      exact ⟨h0 ▸ by decide, h0.symm, rfl⟩
    · obtain rfl := Meaning.leaf.inj h
      exact ⟨h3, rfl, rfl⟩

theorem ne_zero_of_table {level f : ℕ} {entry : UInt64} (h : entryMeaning level entry = .table f) :
    entry ≠ 0 := by
  rintro rfl
  rw [entryMeaning_zero] at h
  cases h

namespace Paging

variable {s s' : Paging} {virt phys table index : ℕ} {flags : PageTableFlags} {leaf : Leaf}
  {e : String}

/-- `map_page` returns `Err`, and the memory of the huge page and all translations stay. -/
def Refuses (s : Paging) (virt phys : ℕ) (flags : PageTableFlags) (leaf : Leaf) : Prop :=
  ∃ e s', s.mapPage virt phys flags = .ok (.error e, s') ∧
    (∀ x, leaf.Covers x → s'.mem (x + s.physMemOffset) = s.mem (x + s.physMemOffset)) ∧
    ∀ v, s'.translate v = s.translate v

/-- The addresses that the descent to a 1 GiB page converts are in range. -/
def DescentFits (s : Paging) (virt : ℕ) (leaf : Leaf) : Prop :=
  ∀ phys ∈ [s.cr3 * 4096, entryAddr (s.tables s.cr3 (pageIndex virt 39)), leaf.addr],
    phys + s.physMemOffset < 2 ^ 64

instance (s : Paging) (virt : ℕ) (leaf : Leaf) : Decidable (s.DescentFits virt leaf) :=
  inferInstanceAs (Decidable (∀ phys ∈ [_, _, _], _))

/-- The word of a 1 GiB page that `map_page` takes for the entry of its level 2 table. -/
def takenForEntry (s : Paging) (virt : ℕ) (leaf : Leaf) : UInt64 :=
  readU64 s.mem (leaf.addr + s.physMemOffset + 8 * pageIndex virt 21)

/-- There is no frame to allocate. -/
def OutOfFrames (s : Paging) : Prop := ∀ alloc, s.frameAllocator = some alloc → alloc.frames = []

/-! ## Where a huge page is met -/

/-- **A huge page** is met in the level 3 table or in the level 2 table. -/
theorem hugePage_cases (h : s.translate virt = some leaf) (hlevel : leaf.level ≠ 0) :
    ∃ f, entryMeaning 3 (s.tables s.cr3 (pageIndex virt 39)) = .table f ∧
      (leaf.level = 2 ∧ entryMeaning 2 (s.tables f (pageIndex virt 30)) = .leaf leaf ∨
        leaf.level = 1 ∧ ∃ g, entryMeaning 2 (s.tables f (pageIndex virt 30)) = .table g ∧
          entryMeaning 1 (s.tables g (pageIndex virt 21)) = .leaf leaf) := by
  rw [translate, pagePath] at h
  rcases lookup_cons_eq_some.mp h with h4 | ⟨f, h4, h⟩
  · exact absurd rfl (entryMeaning_eq_leaf h4).2.1
  refine ⟨f, h4, ?_⟩
  rcases lookup_cons_eq_some.mp h with h3 | ⟨g, h3, h⟩
  · exact Or.inl ⟨(entryMeaning_eq_leaf h3).2.2.1, h3⟩
  rcases lookup_cons_eq_some.mp h with h2 | ⟨f', h2, h⟩
  · exact Or.inr ⟨(entryMeaning_eq_leaf h2).2.2.1, g, h3, h2⟩
  -- what is left are the pages of 4 KiB
  rcases lookup_cons_eq_some.mp h with h1 | ⟨_, -, h⟩
  · exact absurd (entryMeaning_eq_leaf h1).2.2.1 hlevel
  · cases h

/-! ## The descent -/

theorem entryPtr_of_lt (h : index < 512) : entryPtr table index = .ok (table + 8 * index) :=
  if_pos h

/-- An entry that is in use is followed, whatever its flags. -/
theorem andThen_nextTable_of_used {β : Type}
    {f : ℕ → Paging → Checked (Except String β × Paging)} (hindex : index < 512)
    (hused : readU64 s.mem (table + 8 * index) ≠ 0) :
    andThen (s.nextTable table index) f =
      s.physToVirt (entryAddr (readU64 s.mem (table + 8 * index))) >>= fun v ↦ f v s := by
  rw [andThen, nextTable, entryPtr_of_lt hindex, Checked.ok_bind, if_neg hused]
  cases s.physToVirt (entryAddr (readU64 s.mem (table + 8 * index))) <;> rfl

theorem nextTable_eq_error (hindex : index < 512) :
    s.nextTable table index = .ok (.error e, s') ↔
      readU64 s.mem (table + 8 * index) = 0 ∧ s.allocZeroedFrame = .ok (.error e, s') := by
  rw [nextTable, entryPtr_of_lt hindex, Checked.ok_bind]
  by_cases hunused : readU64 s.mem (table + 8 * index) = 0
  · rw [if_pos hunused, and_iff_right hunused]
    constructor
    · intro h
      rcases andThen_eq_ok h with ⟨e', halloc, he⟩ | ⟨a, s₁, -, h⟩
      · rwa [Except.error.inj he]
      · obtain ⟨_, -, h⟩ := Checked.bind_eq_ok.mp h
        obtain ⟨_, -, h⟩ := Checked.bind_eq_ok.mp h
        obtain ⟨_, -, h⟩ := Checked.bind_eq_ok.mp h
        cases h
    · intro halloc
      rw [andThen, halloc, Checked.ok_bind]
      rfl
  · rw [if_neg hunused]
    refine iff_of_false (fun h ↦ ?_) fun h ↦ hunused h.1
    obtain ⟨_, -, h⟩ := Checked.bind_eq_ok.mp h
    cases h

theorem allocZeroedFrame_eq_error
    (hin : ∀ alloc, s.frameAllocator = some alloc → alloc.InRange) :
    (∃ e s', s.allocZeroedFrame = .ok (.error e, s')) ↔ s.OutOfFrames := by
  rw [OutOfFrames, allocZeroedFrame]
  cases halloc : s.frameAllocator with
  | none =>
    refine iff_of_true ⟨_, s, rfl⟩ fun alloc h ↦ ?_
    cases h
  | some alloc =>
    obtain ⟨alloc', hcall, -, -⟩ :=
      BootInfoFrameAllocator.allocateFrame_isCursor alloc (hin alloc halloc)
    simp only [hcall, Checked.ok_bind, Option.some.injEq, forall_eq']
    cases alloc.frames with
    | nil => exact iff_of_true ⟨_, _, rfl⟩ rfl
    | cons phys fs =>
      refine iff_of_false ?_ (List.cons_ne_nil phys fs)
      rintro ⟨e, s', h⟩
      obtain ⟨v, -, h⟩ := Checked.bind_eq_ok.mp h
      cases h

/-! ## When `map_page` refuses -/

/-- Nothing that `map_page` does with the entry of the page itself ends in `Err`. -/
private theorem leaf_ne_error {l1Table : ℕ} {s₁ : Paging} (h : (do
    let entry ← entryPtr l1Table index
    let phys ← physAddrNew phys
    let s ← s₁.setAddr entry phys flags
    virtAddrNew virt
    return (.ok (), s) : Checked (Except String Unit × Paging)) = .ok (.error e, s')) : False := by
  obtain ⟨_, -, h⟩ := Checked.bind_eq_ok.mp h
  obtain ⟨_, -, h⟩ := Checked.bind_eq_ok.mp h
  obtain ⟨_, -, h⟩ := Checked.bind_eq_ok.mp h
  obtain ⟨_, -, h⟩ := Checked.bind_eq_ok.mp h
  cases h

theorem physToVirt_bind_eq_ok {α : Type} {a : ℕ} {k : ℕ → Checked α} {r : α} :
    (s.physToVirt a >>= k) = .ok r ↔
      a + s.physMemOffset < 2 ^ 64 ∧ k (a + s.physMemOffset) = .ok r := by
  rw [Checked.bind_eq_ok]
  constructor
  · rintro ⟨v, hv, h⟩
    obtain ⟨hlt, rfl⟩ := Checked.add_eq_ok.mp hv
    exact ⟨hlt, h⟩
  · rintro ⟨hlt, h⟩
    exact ⟨_, Checked.add_of_lt hlt, h⟩

/-- **When the entries of levels 4 and 3 are in use**, `map_page` follows them, whatever the flags
of the second are, and only the third level can end in `Err`. -/
theorem mapPage_eq_error_iff {f : ℕ}
    (h4 : entryMeaning 3 (s.tables s.cr3 (pageIndex virt 39)) = .table f)
    (hused : s.tables f (pageIndex virt 30) ≠ 0) :
    s.mapPage virt phys flags = .ok (.error e, s') ↔
      s.cr3 * 4096 + s.physMemOffset < 2 ^ 64 ∧
        entryAddr (s.tables s.cr3 (pageIndex virt 39)) + s.physMemOffset < 2 ^ 64 ∧
        entryAddr (s.tables f (pageIndex virt 30)) + s.physMemOffset < 2 ^ 64 ∧
        s.nextTable (entryAddr (s.tables f (pageIndex virt 30)) + s.physMemOffset)
          (pageIndex virt 21) = .ok (.error e, s') := by
  have hread4 : readU64 s.mem (s.cr3 * 4096 + s.physMemOffset + 8 * pageIndex virt 39) =
      s.tables s.cr3 (pageIndex virt 39) := rfl
  have hread3 : readU64 s.mem (f * 4096 + s.physMemOffset + 8 * pageIndex virt 30) =
      s.tables f (pageIndex virt 30) := rfl
  rw [mapPage, activeLevel4Table]
  simp only [pageIndex_eq]
  rw [physToVirt_bind_eq_ok, andThen_nextTable_of_used (pageIndex virt 39).isLt
    (hread4 ▸ ne_zero_of_table h4), hread4, physToVirt_bind_eq_ok, entryAddr_of_table h4,
    andThen_nextTable_of_used (pageIndex virt 30).isLt (hread3 ▸ hused), hread3,
    physToVirt_bind_eq_ok]
  refine and_congr_right fun _ ↦ and_congr_right fun _ ↦ and_congr_right fun _ ↦ ?_
  constructor
  · intro h
    rcases andThen_eq_ok h with ⟨e', hnext, he⟩ | ⟨l1, s₁, -, h⟩
    · rwa [Except.error.inj he]
    · exact (leaf_ne_error h).elim
  · intro hnext
    rw [andThen, hnext, Checked.ok_bind]
    rfl

/-- **`map_page` refuses a huge page** exactly when this is a 1 GiB page, the word of its memory
that is taken for an entry is zero, and there is no frame for the table that then seems to be
missing. -/
theorem refuses_hugePage_iff (h : s.translate virt = some leaf) (hlevel : leaf.level ≠ 0)
    (hin : ∀ alloc, s.frameAllocator = some alloc → alloc.InRange) :
    s.Refuses virt phys flags leaf ↔
      leaf.level = 2 ∧ s.DescentFits virt leaf ∧ s.takenForEntry virt leaf = 0 ∧
        s.OutOfFrames := by
  obtain ⟨f, h4, ⟨hl, h3⟩ | ⟨hl, g, h3, h2⟩⟩ := hugePage_cases h hlevel
  · obtain ⟨hused, -, -, haddr⟩ := entryMeaning_eq_leaf h3
    have hiff : ∀ e s', s.mapPage virt phys flags = .ok (.error e, s') ↔ _ :=
      fun e s' ↦ mapPage_eq_error_iff h4 hused
    rw [← haddr] at hiff
    simp only [nextTable_eq_error (pageIndex virt 21).isLt] at hiff
    rw [Refuses, and_iff_right hl, ← allocZeroedFrame_eq_error hin]
    simp only [DescentFits, List.forall_mem_cons]
    constructor
    · rintro ⟨e, s', hmap, -, -⟩
      obtain ⟨hfits4, hfits3, hfits2, hzero, halloc⟩ := (hiff e s').mp hmap
      exact ⟨⟨hfits4, hfits3, hfits2, nofun⟩, hzero, e, s', halloc⟩
    · rintro ⟨⟨hfits4, hfits3, hfits2, -⟩, hzero, e, s', halloc⟩
      refine ⟨e, s', (hiff e s').mpr ⟨hfits4, hfits3, hfits2, hzero, halloc⟩, ?_⟩
      rcases allocZeroedFrame_cases halloc with ⟨_, alloc, -, -, rfl⟩ | ⟨_, _, _, hr, -⟩
      · exact ⟨fun _ _ ↦ rfl, fun _ ↦ rfl⟩
      · cases hr
  · -- the entry of a 2 MiB page is in use, so nothing is allocated
    refine iff_of_false ?_ fun hcond ↦ by rw [hl] at hcond; exact absurd hcond.1 (by decide)
    rintro ⟨e, s', hmap, -, -⟩
    obtain ⟨-, -, -, hnext⟩ := (mapPage_eq_error_iff h4 (ne_zero_of_table h3)).mp hmap
    rw [entryAddr_of_table h3, nextTable_eq_error (pageIndex virt 21).isLt] at hnext
    exact (entryMeaning_eq_leaf h2).1 hnext.1

/-- In `sharedSpace`, the page is in the 1 GiB page, whose memory is zero, and there is no frame
allocator. -/
theorem refuses_hugePage_iff_sharedSpace :
    sharedSpace.translate 0x8000000000 = some ⟨2, 0x40000000, 0x83⟩ ∧
      sharedSpace.Refuses 0x8000000000 0x5000 .table ⟨2, 0x40000000, 0x83⟩ :=
  have hleaf : sharedSpace.translate 0x8000000000 = some ⟨2, 0x40000000, 0x83⟩ := by decide
  ⟨hleaf, (refuses_hugePage_iff hleaf (by decide) nofun).mpr ⟨rfl, by decide, by decide, nofun⟩⟩

/-- In `sharedSpace`, an entry is stored into the memory of the 2 MiB page, and the result is `Ok`.
-/
theorem not_refuses_sharedSpace :
    ¬(∀ (s : Paging) virt phys flags leaf, s.translate virt = some leaf → leaf.level ≠ 0 →
        s.Refuses virt phys flags leaf) ∧
      sharedSpace.translate 0x40000000 = some ⟨1, 0x200000, 0x83⟩ ∧
      readU64 sharedSpace.mem (0x200000 + sharedSpace.physMemOffset) = 0 ∧
      (sharedSpace.mapPage 0x40000000 0x5000 .table).map (fun r ↦
        (r.1.isOk, readU64 r.2.mem (0x200000 + sharedSpace.physMemOffset))) =
          .ok (true, 0x5007) := by
  have hleaf : sharedSpace.translate 0x40000000 = some ⟨1, 0x200000, 0x83⟩ := by decide
  have hrun : (sharedSpace.mapPage 0x40000000 0x5000 .table).map (fun r ↦
      (r.1.isOk, readU64 r.2.mem (0x200000 + sharedSpace.physMemOffset))) = .ok (true, 0x5007) := by
    decide
  refine ⟨fun hgeneral ↦ ?_, hleaf, by decide, hrun⟩
  obtain ⟨e, s', h, -, -⟩ := hgeneral sharedSpace 0x40000000 0x5000 .table _ hleaf (by decide)
  rw [h] at hrun
  cases hrun

end Paging

end RelizOS
