import RelizOS.RelizFs.Agreement
import RelizOS.RelizFs.Panics

/-!
# Looking up and listing

`find_entry` and `list_directory` go over the same blocks and the same entries, with the same tests
in the same order, each in loops of its own. Both are functions of the names and inode numbers of
the entries that have a name (`namedPairs`): the listing prints them all, the look-up returns the
first with the name.

Only the listing reads the inodes that the entries point to, for the type it prints. It prints
`<ERR>` when an inode cannot be read; but when the address of the inode does not fit in 32 bits it
panics, and then the look-up finds what the listing has not printed. So the two agree exactly on the
directories in which no address overflows (`lookupAgrees_iff`).
-/

open ByteMemory

namespace RelizOS.RelizFs

variable {d : Drive} {r : RelizFsReader} {dir : Inode} {name : String}

/-! ## Names and numbers -/

/-- The name and the inode number of an entry that has a name. -/
def DirectoryEntry.namedPair (e : DirectoryEntry) : Option (String × UInt32) :=
  if e.inodeNum ≠ 0 ∨ 0 < e.nameLen then e.getName.map fun name ↦ (name, e.inodeNum) else none

/-- The names and inode numbers of some entries. -/
def namedPairs (entries : List DirectoryEntry) : List (String × UInt32) :=
  entries.filterMap DirectoryEntry.namedPair

/-- What a line shows of an entry. -/
def RelizFsReader.DirectoryLine.pair (l : RelizFsReader.DirectoryLine) : String × UInt32 :=
  (l.name, l.inodeNum)

/-- The number that comes with a name. -/
def lookup (name : String) (pairs : List (String × UInt32)) : Option UInt32 :=
  (pairs.find? fun p ↦ p.1 = name).map Prod.snd

theorem DirectoryEntry.namedPair_eq_some {e : DirectoryEntry} {p : String × UInt32} :
    e.namedPair = some p ↔ e.Named p.1 ∧ e.inodeNum = p.2 := by
  rw [namedPair, Named]
  by_cases huse : e.inodeNum ≠ 0 ∨ 0 < e.nameLen
  · rw [if_pos huse, Option.map_eq_some_iff, and_iff_right huse]
    constructor
    · rintro ⟨name, hname, rfl⟩
      exact ⟨hname, rfl⟩
    · rintro ⟨hname, hnum⟩
      exact ⟨p.1, hname, Prod.ext rfl hnum⟩
  · rw [if_neg huse]
    exact iff_of_false (by simp) fun h ↦ huse h.1.1

theorem namedPairs_cons (e : DirectoryEntry) (es : List DirectoryEntry) :
    namedPairs (e :: es) = match e.namedPair with
      | none => namedPairs es
      | some p => p :: namedPairs es := by
  rw [namedPairs, List.filterMap_cons]
  cases e.namedPair with
  | none => rfl
  | some p => rfl

theorem namedPairs_append (es es' : List DirectoryEntry) :
    namedPairs (es ++ es') = namedPairs es ++ namedPairs es' := List.filterMap_append

/-- The sectors of the allocated ones among some blocks can be read. -/
def BlocksReadable (d : Drive) (blocks : List UInt32) : Prop :=
  ∀ b ∈ blocks, b ≠ 0 → AddressFits b.toNat ∧ ∃ s, Holds d b.toNat s

theorem blocksReadable_cons {b : UInt32} {n : ℕ} {blocks : List UInt32}
    (hblocks : blocks = b :: List.replicate n 0) (hfits : AddressFits b.toNat)
    (hholds : ∃ s, Holds d b.toNat s) : BlocksReadable d blocks := by
  intro b' hb' hne
  rw [hblocks, List.mem_cons] at hb'
  obtain rfl := hb'.resolve_right fun h ↦ hne (List.eq_of_mem_replicate h)
  exact ⟨hfits, hholds⟩

theorem Holds.block_eq {b : UInt32} {s : Mem} (h : Holds d b.toNat s) : block d b = s := by
  rw [Holds] at h
  rw [block, content, h]

/-! ## The look-up -/

theorem matchEntry_eq_namedPair (e : DirectoryEntry) :
    matchEntry name e = e.namedPair.bind fun p ↦ if p.1 = name then some p.2 else none := by
  rw [matchEntry, DirectoryEntry.namedPair]
  split
  · cases e.getName with
    | none => rfl
    | some name' => rfl
  · rfl

/-- The search in a block is a look-up of the name. -/
theorem findInBlock_eq_lookup (entries : List DirectoryEntry) :
    findInBlock name entries = lookup name (namedPairs entries) := by
  rw [findInBlock]
  induction entries with
  | nil => rfl
  | cons e entries ih =>
    rw [List.findSome?_cons, ih, matchEntry_eq_namedPair, namedPairs_cons]
    cases e.namedPair with
    | none => rfl
    | some p =>
      dsimp only [Option.bind_some]
      rw [lookup, lookup, List.find?_cons]
      by_cases hp : p.1 = name <;> simp [hp]

theorem lookup_append (pairs pairs' : List (String × UInt32)) :
    lookup name (pairs ++ pairs') = (lookup name pairs).or (lookup name pairs') := by
  rw [lookup, List.find?_append, Option.map_or, ← lookup, ← lookup]

/-- **`find_entry`** looks the name up among the entries in the allocated blocks. -/
theorem findInBlocks_eq {blocks : List UInt32} (h : BlocksReadable d blocks) :
    (findInBlocks d name blocks).run = match lookup name (namedPairs (entriesIn d blocks)) with
      | some inodeNum => .ok (.ok inodeNum)
      | none => .ok (.error "File not found") := by
  induction blocks with
  | nil => rfl
  | cons b blocks ih =>
    obtain ⟨hb, hrest⟩ := List.forall_mem_cons.mp h
    rw [findInBlocks]
    by_cases hzero : b = 0
    · rw [if_pos hzero, hzero, entriesIn_zero_cons]
      exact ih hrest
    · obtain ⟨hfits, s, hs⟩ := hb hzero
      rw [if_neg hzero, Fallible.run_bind, readPartition_eq_ok_ok.mpr ⟨hfits, hs⟩, Checked.ok_bind,
        entriesIn_cons_of_ne blocks hzero, hs.block_eq, namedPairs_append, lookup_append]
      dsimp only
      rw [findInBlock_eq_lookup]
      cases lookup name (namedPairs (entriesOf s)) with
      | some inodeNum => rfl
      | none => exact ih hrest

theorem exists_findEntry (hdir : dir.IsDirectory)
    (hblocks : BlocksReadable d dir.directBlocks.toList) :
    (∃ inodeNum, (findEntry d dir name).run = .ok (.ok inodeNum)) ↔
      ∃ e ∈ entriesIn d dir.directBlocks.toList, e.Named name := by
  have hfound : (∃ inodeNum, (findEntry d dir name).run = .ok (.ok inodeNum)) ↔
      (lookup name (namedPairs (entriesIn d dir.directBlocks.toList))).isSome := by
    rw [findEntry, if_pos hdir, findInBlocks_eq hblocks]
    cases lookup name (namedPairs (entriesIn d dir.directBlocks.toList)) with
    | none => simp
    | some inodeNum => simp
  rw [hfound, lookup, Option.isSome_map, List.find?_isSome]
  constructor
  · rintro ⟨p, hp, hname⟩
    obtain ⟨e, he, hpair⟩ := List.mem_filterMap.mp hp
    rw [decide_eq_true_eq] at hname
    exact ⟨e, he, hname ▸ (DirectoryEntry.namedPair_eq_some.mp hpair).1⟩
  · rintro ⟨e, he, hnamed⟩
    exact ⟨(name, e.inodeNum), List.mem_filterMap.mpr
      ⟨e, he, DirectoryEntry.namedPair_eq_some.mpr ⟨hnamed, rfl⟩⟩, decide_eq_true rfl⟩

/-! ## The listing -/

theorem listEntries_append (es es' : List DirectoryEntry) :
    r.listEntries d (es ++ es') = do
      let lines ← r.listEntries d es
      let lines' ← r.listEntries d es'
      return lines ++ lines' := by
  induction es with
  | nil => exact (bind_pure _).symm
  | cons e es ih =>
    rw [List.cons_append, RelizFsReader.listEntries, RelizFsReader.listEntries]
    split
    · split
      · simp only [ih, bind_assoc, pure_bind, List.cons_append]
      · exact ih
    · exact ih

/-- **`list_directory`** goes over all entries in the allocated blocks. -/
theorem listBlocks_eq {blocks : List UInt32} (h : BlocksReadable d blocks) :
    r.listBlocks d blocks = do
      let lines ← r.listEntries d (entriesIn d blocks)
      return (lines, .ok ()) := by
  induction blocks with
  | nil => rfl
  | cons b blocks ih =>
    obtain ⟨hb, hrest⟩ := List.forall_mem_cons.mp h
    rw [RelizFsReader.listBlocks]
    by_cases hzero : b = 0
    · rw [if_pos hzero, hzero, entriesIn_zero_cons]
      exact ih hrest
    · obtain ⟨hfits, s, hs⟩ := hb hzero
      rw [if_neg hzero, readPartition_eq_ok_ok.mpr ⟨hfits, hs⟩, Checked.ok_bind,
        entriesIn_cons_of_ne blocks hzero, hs.block_eq, listEntries_append, ih hrest]
      simp only [bind_assoc, pure_bind]

theorem pair_of_listEntries {entries : List DirectoryEntry}
    {lines : List RelizFsReader.DirectoryLine} (h : r.listEntries d entries = .ok lines) :
    lines.map RelizFsReader.DirectoryLine.pair = namedPairs entries := by
  induction entries generalizing lines with
  | nil =>
    rw [← Except.ok.inj h]
    rfl
  | cons e entries ih =>
    rw [RelizFsReader.listEntries] at h
    rw [namedPairs_cons, DirectoryEntry.namedPair]
    by_cases hvalid : e.inodeNum ≠ 0 ∨ 0 < e.nameLen
    · rw [if_pos hvalid] at h ⊢
      cases hname : e.getName with
      | none =>
        rw [hname] at h
        exact ih h
      | some name =>
        rw [hname] at h
        obtain ⟨t, -, h⟩ := Checked.bind_eq_ok.mp h
        obtain ⟨rest, hrest, h⟩ := Checked.bind_eq_ok.mp h
        rw [← Except.ok.inj h, List.map_cons, ih hrest]
        rfl
    · rw [if_neg hvalid] at h ⊢
      exact ih h

/-! ## Agreement -/

/-- The look-up finds the first line with the name, and nothing exactly when there is none. -/
structure FindsPrinted (d : Drive) (dir : Inode) (lines : List RelizFsReader.DirectoryLine)
    (name : String) : Prop where
  found : ∀ inodeNum, (findEntry d dir name).run = .ok (.ok inodeNum) ↔
    ∃ l, lines.find? (fun l ↦ l.name = name) = some l ∧ l.inodeNum = inodeNum
  missing : (findEntry d dir name).run = .ok (.error "File not found") ↔
    ∀ l ∈ lines, l.name ≠ name

/-- The directory is listed, and every look-up finds what the listing shows. -/
def LookupAgrees (r : RelizFsReader) (d : Drive) (dir : Inode) : Prop :=
  ∃ lines, r.listDirectory d dir = .ok (lines, .ok ()) ∧ ∀ name, FindsPrinted d dir lines name

/-- The address of every inode fits that the listing reads for a type. -/
def TypesFit (r : RelizFsReader) (d : Drive) (dir : Inode) : Prop :=
  ∀ e ∈ entriesIn d dir.directBlocks.toList, ∀ name, e.Named name → name ≠ "." → name ≠ ".." →
    e.inodeNum < r.superblock.inodeCount →
      AddressFits (inodeSector r.superblock.inodeTableStart e.inodeNum)

theorem findsPrinted_of_lines (hdir : dir.IsDirectory)
    (hblocks : BlocksReadable d dir.directBlocks.toList)
    {lines : List RelizFsReader.DirectoryLine}
    (hlines : lines.map RelizFsReader.DirectoryLine.pair =
      namedPairs (entriesIn d dir.directBlocks.toList)) : FindsPrinted d dir lines name := by
  have hfind : (findEntry d dir name).run =
      match lines.find? fun l ↦ l.name = name with
      | some l => .ok (.ok l.inodeNum)
      | none => .ok (.error "File not found") := by
    rw [findEntry, if_pos hdir, findInBlocks_eq hblocks, ← hlines, lookup, List.find?_map,
      Option.map_map]
    cases hl : lines.find? fun l ↦ l.name = name with
    | none =>
      have hnone : lines.find? ((fun p ↦ decide (p.1 = name)) ∘
        RelizFsReader.DirectoryLine.pair) = none := hl
      rw [hnone]
      rfl
    | some l =>
      have hsome : lines.find? ((fun p ↦ decide (p.1 = name)) ∘
        RelizFsReader.DirectoryLine.pair) = some l := hl
      rw [hsome]
      rfl
  constructor
  · intro inodeNum
    rw [hfind]
    cases lines.find? fun l ↦ l.name = name with
    | none => simp
    | some l => simp
  · rw [hfind]
    cases hl : lines.find? fun l ↦ l.name = name with
    | none => simpa using hl
    | some l =>
      have hmem := List.mem_of_find?_eq_some hl
      have hname : l.name = name := by simpa using List.find?_some hl
      exact iff_of_false (by simp) fun h ↦ h l hmem hname

/-- **Looking up and listing agree** exactly on the directories whose listing computes no address
that overflows. -/
theorem lookupAgrees_iff (hdir : dir.IsDirectory)
    (hblocks : BlocksReadable d dir.directBlocks.toList) :
    LookupAgrees r d dir ↔ TypesFit r d dir := by
  have hlist : r.listDirectory d dir = do
      let lines ← r.listEntries d (entriesIn d dir.directBlocks.toList)
      return (lines, .ok ()) := by
    rw [RelizFsReader.listDirectory, if_pos hdir, listBlocks_eq hblocks]
  have hreturns : (r.listEntries d (entriesIn d dir.directBlocks.toList)).Returns ↔
      TypesFit r d dir := by
    rw [returns_listEntries_iff]
    simp only [returns_typeStr, returns_readInode]
    rfl
  rw [← hreturns]
  constructor
  · rintro ⟨lines, h, -⟩
    rw [hlist] at h
    obtain ⟨lines', hlines', -⟩ := Checked.bind_eq_ok.mp h
    exact ⟨lines', hlines'⟩
  · rintro ⟨lines, hlines⟩
    refine ⟨lines, ?_, fun name ↦ findsPrinted_of_lines hdir hblocks (pair_of_listEntries hlines)⟩
    rw [hlist, hlines]
    rfl

/-! ### An inode table at the last sector

The root inode is in the last sector that has an address; the entry `f` names an inode in the sector
behind it. -/

def lastSector : Drive := fun lba ↦ .ok <| sectorWith <|
  match lba with
  | 40002 => [(0, [0x53, 0x46, 0x5A, 0x49, 0x4C, 0x45, 0x52]), (12, [16]),
      (16, [0xBF, 0x63, 0xFF, 0xFF])]
  | 268435455 => [(8, [2, 0, 13])]
  | 40013 => [(0, [8, 0, 0, 0, 1, 102])]
  | _ => []

theorem lookupAgrees_smallImage : LookupAgrees smallReader smallImage (inodeAt smallImage 0) := by
  have hreadable : BlocksReadable smallImage (inodeAt smallImage 0).directBlocks.toList :=
    blocksReadable_cons (show _ = 13 :: List.replicate 9 0 by decide +kernel) (by decide) ⟨_, rfl⟩
  refine (lookupAgrees_iff (by decide +kernel) hreadable).mpr fun e he name _ _ _ _ ↦ ?_
  have hfits : ∀ e ∈ entriesIn smallImage (inodeAt smallImage 0).directBlocks.toList,
      AddressFits (inodeSector smallReader.superblock.inodeTableStart e.inodeNum) := by
    decide +kernel
  exact hfits e he

/-- **The look-up finds what the listing does not live to print.** -/
theorem not_lookupAgrees :
    ¬∀ (d : Drive) (r : RelizFsReader) (dir : Inode), (RelizFsReader.init d).run = .ok (.ok r) →
      (r.readInode d 0).run = .ok (.ok dir) → dir.IsDirectory →
      BlocksReadable d dir.directBlocks.toList → LookupAgrees r d dir := by
  intro h
  have hmount : (RelizFsReader.init lastSector).run = .ok (.ok ⟨superblockOf lastSector⟩) := by
    decide +kernel
  have hroot : (RelizFsReader.readInode ⟨superblockOf lastSector⟩ lastSector 0).run =
      .ok (.ok (inodeAt lastSector 0)) := by
    decide +kernel
  have hpanic : (RelizFsReader.listDirectory ⟨superblockOf lastSector⟩ lastSector
      (inodeAt lastSector 0)).toOption.isNone := by
    decide +kernel
  obtain ⟨lines, hlist, -⟩ := h lastSector _ _ hmount hroot (by decide +kernel)
    (blocksReadable_cons (show _ = 13 :: List.replicate 9 0 by decide +kernel) (by decide)
      ⟨_, rfl⟩)
  rw [hlist] at hpanic
  cases hpanic

end RelizOS.RelizFs
