import RelizOS.RelizFs.Image

/-!
# Which images make the code panic

Everything that the code adds to the start of the partition comes from the disk, and the sums are
checked. An image is harmless when all addresses that the code gets to compute stay below `2 ^ 32`
(`AddressesFit`): those of the inode table up to `inode_count`, of the blocks of every inode in it
that are reached before one that cannot be read, and of what the server looks at. Mounting and
reading never panic exactly on these images (`neverPanics_iff`); nothing else can go wrong, whatever
the disk holds.

The superblock of an image can name an inode table that begins beyond any address
(`not_neverPanics`).
-/

open ByteMemory

namespace RelizOS.RelizFs

/-! ## Addresses -/

/-- The address of a sector of the partition fits in 32 bits. -/
def AddressFits (sector : ℕ) : Prop := relizfsStartSector + sector < 2 ^ 32

instance (sector : ℕ) : Decidable (AddressFits sector) :=
  inferInstanceAs (Decidable (_ < _))

/-- A sector of the partition can be read and is `s`. -/
def Holds (d : Drive) (sector : ℕ) (s : Mem) : Prop :=
  readSector d (relizfsStartSector + sector) = .ok s

/-- The inode with a given index in its sector. -/
def inodeIn (s : Mem) (inodeIdx : UInt32) : Inode :=
  Inode.read s (inodeIdx.toNat * sizeOfInode % blockSize)

/-- The addresses of some blocks fit, up to the first that cannot be read. -/
def BlocksFit (d : Drive) : List UInt32 → Prop
  | [] => True
  | b :: blocks =>
    if b = 0 then BlocksFit d blocks
    else AddressFits b.toNat ∧ ((∃ s, Holds d b.toNat s) → BlocksFit d blocks)

/-- The addresses of the blocks of a file of `size` bytes fit, up to its end, the first hole, or the
first block that cannot be read; `pos` bytes are in the blocks before. -/
def FileFits (d : Drive) (size : ℕ) : List UInt32 → ℕ → Prop
  | [], _ => True
  | b :: blocks, pos =>
    b = 0 ∨ size ≤ pos ∨
      AddressFits b.toNat ∧ ((∃ s, Holds d b.toNat s) → FileFits d size blocks (pos + blockSize))

/-- The addresses that lead from an inode fit. -/
def InodeFits (d : Drive) (inode : Inode) : Prop :=
  (inode.IsDirectory → BlocksFit d inode.directBlocks.toList) ∧
    (inode.IsFile → FileFits d inode.size.toNat inode.directBlocks.toList 0)

/-- The addresses of the inodes of a superblock fit, and those that lead from the inodes. -/
def TableFits (d : Drive) (sb : Superblock) : Prop :=
  ∀ idx < sb.inodeCount, AddressFits (inodeSector sb.inodeTableStart idx) ∧
    ∀ s, Holds d (inodeSector sb.inodeTableStart idx) s → InodeFits d (inodeIn s idx)

/-- The addresses that the server computes for the entries of a directory sector fit: the inodes of
all that it lists, and the first block of the file that it finds for a name. -/
def EntriesFit (d : Drive) (sb : Superblock) (entries : List DirectoryEntry) : Prop :=
  (∀ e ∈ entries, e.inodeNum ≠ 0 → 0 < e.nameLen → e.getName ≠ none →
    AddressFits (inodeSector sb.inodeTableStart e.inodeNum)) ∧
  ∀ name e s, 0 ∉ bytesOf name →
    (entries.find? fun e ↦ (e.inodeNum ≠ 0 ∧ 0 < e.nameLen) ∧ e.getName = some name) = some e →
    Holds d (inodeSector sb.inodeTableStart e.inodeNum) s →
    AddressFits (inodeIn s e.inodeNum).firstBlock.toNat

/-- The addresses that the server computes on its way to the root directory and there fit. -/
def ServerFits (d : Drive) (sb : Superblock) : Prop :=
  AddressFits sb.inodeTableStart.toNat ∧
  ∀ s, Holds d sb.inodeTableStart.toNat s →
    AddressFits (Inode.read s 0).firstBlock.toNat ∧
    ∀ dir, Holds d (Inode.read s 0).firstBlock.toNat dir → EntriesFit d sb (entriesOf dir)

/-- **The addresses that the disk makes the code compute fit**, where the kernel goes on only if the
magic number is right. -/
def AddressesFit (d : Drive) : Prop :=
  ∀ s, Holds d 2 s →
    ((Superblock.read s).magic = relizfsMagic → TableFits d (Superblock.read s)) ∧
    ServerFits d (Superblock.read s)

/-! ## The reader -/

variable {d : Drive} {r : RelizFsReader}

theorem returns_readPartition {b : ℕ} : (readPartition d b).Returns ↔ AddressFits b := by
  constructor
  · rintro ⟨q, hq⟩
    exact (readPartition_eq_ok.mp hq).1
  · intro h
    exact ⟨_, readPartition_eq_ok.mpr ⟨h, rfl⟩⟩

theorem readPartition_eq_ok_ok {b : ℕ} {s : Mem} :
    (readPartition d b).run = .ok (.ok s) ↔ AddressFits b ∧ Holds d b s := by
  rw [readPartition_eq_ok, AddressFits, Holds, eq_comm (a := Except.ok s)]

theorem returns_init (d : Drive) : (RelizFsReader.init d).Returns := by
  refine Fallible.returns_bind.mpr ⟨returns_readPartition.mpr (by decide), fun s _ ↦ ?_⟩
  dsimp only
  split
  · exact Fallible.returns_throw _
  · exact Fallible.returns_pure _

theorem init_eq_ok_iff :
    (RelizFsReader.init d).run = .ok (.ok r) ↔
      ∃ s, Holds d 2 s ∧ (Superblock.read s).magic = relizfsMagic ∧ r = ⟨Superblock.read s⟩ := by
  rw [RelizFsReader.init, Fallible.bind_eq_ok]
  constructor
  · rintro ⟨s, hs, h⟩
    dsimp only at h
    split at h
    · cases h
    · next hmagic =>
      exact ⟨s, (readPartition_eq_ok_ok.mp hs).2, not_not.mp hmagic,
        (Except.ok.inj (Except.ok.inj h)).symm⟩
  · rintro ⟨s, hs, hmagic, rfl⟩
    refine ⟨s, readPartition_eq_ok_ok.mpr ⟨by decide, hs⟩, ?_⟩
    dsimp only
    rw [if_neg (not_not.mpr hmagic)]
    rfl

/-- Reading an inode panics exactly when it is in the table and its address does not fit. -/
theorem returns_readInode {idx : UInt32} : (r.readInode d idx).Returns ↔
    (idx < r.superblock.inodeCount →
      AddressFits (inodeSector r.superblock.inodeTableStart idx)) := by
  rw [RelizFsReader.readInode]
  by_cases hidx : r.superblock.inodeCount ≤ idx
  · rw [if_pos hidx]
    exact iff_of_true (Fallible.returns_throw _) fun h ↦ absurd h (UInt32.not_lt.mpr hidx)
  · rw [if_neg hidx, Fallible.returns_bind, Fallible.returns_checked]
    simp only [Fallible.run_checked]
    constructor
    · rintro ⟨⟨a, ha⟩, h⟩ -
      obtain ⟨hread, -⟩ := Fallible.returns_bind.mp (h a ha)
      obtain ⟨-, rfl⟩ := Checked.add_eq_ok.mp ha
      exact returns_readPartition.mp hread
    · intro h
      have hfits := h (UInt32.not_le.mp hidx)
      have hlt : r.superblock.inodeTableStart.toNat + idx.toNat * sizeOfInode / blockSize <
          2 ^ 32 := lt_of_le_of_lt (Nat.le_add_left _ _) hfits
      refine ⟨⟨_, Checked.add_of_lt hlt⟩, fun a ha ↦ ?_⟩
      obtain ⟨-, rfl⟩ := Checked.add_eq_ok.mp ha
      exact Fallible.returns_bind.mpr ⟨returns_readPartition.mpr hfits, fun _ _ ↦
        Fallible.returns_pure _⟩

theorem readInode_eq_ok {idx : UInt32} {inode : Inode} :
    (r.readInode d idx).run = .ok (.ok inode) ↔ idx < r.superblock.inodeCount ∧
      AddressFits (inodeSector r.superblock.inodeTableStart idx) ∧
      ∃ s, Holds d (inodeSector r.superblock.inodeTableStart idx) s ∧ inode = inodeIn s idx := by
  rw [RelizFsReader.readInode]
  by_cases hidx : r.superblock.inodeCount ≤ idx
  · rw [if_pos hidx]
    constructor
    · intro h
      cases h
    · rintro ⟨hlt, -⟩
      exact absurd hidx (UInt32.not_le.mpr hlt)
  · rw [if_neg hidx, Fallible.bind_eq_ok]
    simp only [Fallible.run_checked]
    constructor
    · rintro ⟨a, ha, h⟩
      obtain ⟨-, rfl⟩ := Checked.add_eq_ok.mp ha
      obtain ⟨s, hs, h⟩ := Fallible.bind_eq_ok.mp h
      obtain ⟨hfits, hholds⟩ := readPartition_eq_ok_ok.mp hs
      exact ⟨UInt32.not_le.mp hidx, hfits, s, hholds, (Except.ok.inj (Except.ok.inj h)).symm⟩
    · rintro ⟨-, hfits, s, hholds, rfl⟩
      exact ⟨_, Checked.add_of_lt (lt_of_le_of_lt (Nat.le_add_left _ _) hfits),
        Fallible.bind_eq_ok.mpr ⟨s, readPartition_eq_ok_ok.mpr ⟨hfits, hholds⟩, rfl⟩⟩

/-! ### Directories -/

/-- The reader takes an entry for one with the name. -/
def DirectoryEntry.Named (e : DirectoryEntry) (name : String) : Prop :=
  (e.inodeNum ≠ 0 ∨ 0 < e.nameLen) ∧ e.getName = some name

theorem returns_typeStr {name : String} {inodeNum : UInt32} :
    (r.typeStr d name inodeNum).Returns ↔
      (name ≠ "." → name ≠ ".." → (r.readInode d inodeNum).Returns) := by
  rw [RelizFsReader.typeStr]
  by_cases hdots : name = "." ∨ name = ".."
  · rw [if_pos hdots]
    exact iff_of_true ⟨_, rfl⟩ fun hself hparent ↦ absurd hdots (not_or.mpr ⟨hself, hparent⟩)
  · rw [if_neg hdots, Checked.returns_bind_iff]
    · rw [not_or] at hdots
      exact ⟨fun h _ _ ↦ h, fun h ↦ h hdots.1 hdots.2⟩
    · rintro (e | inode)
      · exact ⟨_, rfl⟩
      · exact ⟨_, rfl⟩

theorem returns_listEntries_iff {entries : List DirectoryEntry} :
    (r.listEntries d entries).Returns ↔
      ∀ e ∈ entries, ∀ name, e.Named name → (r.typeStr d name e.inodeNum).Returns := by
  induction entries with
  | nil => exact iff_of_true ⟨_, rfl⟩ fun e he ↦ (nomatch he)
  | cons e entries ih =>
    rw [RelizFsReader.listEntries, List.forall_mem_cons, ← ih]
    by_cases hvalid : e.inodeNum ≠ 0 ∨ 0 < e.nameLen
    · rw [if_pos hvalid]
      cases hname : e.getName with
      | none =>
        refine (and_iff_right fun name h ↦ ?_).symm
        rw [h.2] at hname
        cases hname
      | some name =>
        have hnamed : (∀ name', e.Named name' → (r.typeStr d name' e.inodeNum).Returns) ↔
            (r.typeStr d name e.inodeNum).Returns := by
          constructor
          · exact fun h ↦ h name ⟨hvalid, hname⟩
          · rintro h name' ⟨-, hname'⟩
            rwa [Option.some.inj (hname'.symm.trans hname)]
        rw [hnamed]
        constructor
        · intro h
          obtain ⟨t, ht, h⟩ := Checked.returns_bind.mp h
          obtain ⟨lines, hlines, -⟩ := Checked.returns_bind.mp h
          exact ⟨⟨t, ht⟩, lines, hlines⟩
        · rintro ⟨⟨t, ht⟩, lines, hlines⟩
          exact Checked.returns_bind.mpr ⟨t, ht, Checked.returns_bind.mpr ⟨lines, hlines, _, rfl⟩⟩
    · rw [if_neg hvalid]
      exact (and_iff_right fun name h ↦ absurd h.1 hvalid).symm

theorem returns_listEntries (hread : ∀ idx, (r.readInode d idx).Returns)
    (entries : List DirectoryEntry) : (r.listEntries d entries).Returns :=
  returns_listEntries_iff.mpr fun e _ _ _ ↦ returns_typeStr.mpr fun _ _ ↦ hread e.inodeNum

/-- Listing blocks panics exactly when an address does not fit that is reached. -/
theorem returns_listBlocks (hread : ∀ idx, (r.readInode d idx).Returns) {blocks : List UInt32} :
    (r.listBlocks d blocks).Returns ↔ BlocksFit d blocks := by
  induction blocks with
  | nil => exact iff_of_true ⟨_, rfl⟩ trivial
  | cons b blocks ih =>
    rw [RelizFsReader.listBlocks, BlocksFit]
    by_cases hb : b = 0
    · rw [if_pos hb, if_pos hb]
      exact ih
    rw [if_neg hb, if_neg hb, Checked.returns_bind, ← ih]
    constructor
    · rintro ⟨q, hq, h⟩
      obtain ⟨hfits, rfl⟩ := readPartition_eq_ok.mp hq
      refine ⟨hfits, ?_⟩
      rintro ⟨s, hs⟩
      rw [show readSector d (relizfsStartSector + b.toNat) = .ok s from hs] at h
      obtain ⟨lines, -, h⟩ := Checked.returns_bind.mp h
      obtain ⟨q, hq, -⟩ := Checked.returns_bind.mp h
      exact ⟨q, hq⟩
    · rintro ⟨hfits, hrest⟩
      refine ⟨_, readPartition_eq_ok.mpr ⟨hfits, rfl⟩, ?_⟩
      cases hs : readSector d (relizfsStartSector + b.toNat) with
      | error e => exact ⟨_, rfl⟩
      | ok s =>
        obtain ⟨lines, hlines⟩ := returns_listEntries hread (entriesOf s)
        obtain ⟨q, hq⟩ := hrest ⟨s, hs⟩
        exact Checked.returns_bind.mpr ⟨lines, hlines, Checked.returns_bind.mpr ⟨q, hq, _, rfl⟩⟩

theorem returns_findInBlocks {name : String} {blocks : List UInt32} (h : BlocksFit d blocks) :
    (findInBlocks d name blocks).Returns := by
  induction blocks with
  | nil => exact Fallible.returns_throw _
  | cons b blocks ih =>
    rw [BlocksFit] at h
    rw [findInBlocks]
    by_cases hb : b = 0
    · rw [if_pos hb] at h ⊢
      exact ih h
    · rw [if_neg hb] at h ⊢
      refine Fallible.returns_bind.mpr ⟨returns_readPartition.mpr h.1, fun s hs ↦ ?_⟩
      split
      · exact Fallible.returns_pure _
      · exact ih (h.2 ⟨s, (readPartition_eq_ok_ok.mp hs).2⟩)

/-! ### Files -/

/-- Behind the end of a file no address is computed. -/
theorem fileFits_of_le {size pos : ℕ} {blocks : List UInt32} (h : size ≤ pos) :
    FileFits d size blocks pos := by
  cases blocks with
  | nil => trivial
  | cons b blocks => exact Or.inr (Or.inl h)

theorem FileFits.mono {size size' pos : ℕ} {blocks : List UInt32} (h : FileFits d size blocks pos)
    (hle : size' ≤ size) : FileFits d size' blocks pos := by
  induction blocks generalizing pos with
  | nil => trivial
  | cons b blocks ih =>
    rcases h with hb | hpos | ⟨hfits, hrest⟩
    · exact Or.inl hb
    · exact Or.inr (Or.inl (hle.trans hpos))
    · exact Or.inr (Or.inr ⟨hfits, fun hs ↦ ih (hrest hs)⟩)

theorem returns_readBlocks {total pos : ℕ} {blocks : List UInt32} {outBuf : List UInt8}
    (hpos : pos ≤ total) (hlen : total ≤ outBuf.length) :
    (readBlocks d total blocks pos outBuf).Returns ↔ FileFits d total blocks pos := by
  induction blocks generalizing pos outBuf with
  | nil => exact iff_of_true (Fallible.returns_pure _) trivial
  | cons b blocks ih =>
    rw [readBlocks, FileFits]
    by_cases hstop : b = 0 ∨ total ≤ pos
    · rw [if_pos hstop]
      refine iff_of_true (Fallible.returns_pure _) ?_
      rcases hstop with hb | hle
      · exact Or.inl hb
      · exact Or.inr (Or.inl hle)
    rw [if_neg hstop]
    have hstep : ∀ s, Fallible.Returns ((do
        let remaining ← Checked.sub total pos
        let chunkSize := min remaining blockSize
        let outBuf ← copyFromSlice outBuf pos (sectorBytes s chunkSize)
        readBlocks d total blocks (pos + chunkSize) outBuf) : Fs (ℕ × List UInt8)) ↔
          FileFits d total blocks (pos + blockSize) := by
      intro s
      rw [Checked.sub_of_le hpos, Fallible.checked_ok_bind]
      dsimp only
      generalize hchunk : min (total - pos) blockSize = chunk
      rw [copyFromSlice_of_fits (by rw [length_sectorBytes]; omega), Fallible.checked_ok_bind,
        length_sectorBytes, ih (by omega) (by simp; omega)]
      -- a chunk that is not a whole block is the last
      by_cases hwhole : chunk = blockSize
      · rw [hwhole]
      · exact iff_of_true (fileFits_of_le (by omega)) (fileFits_of_le (by omega))
    rw [or_iff_right (not_or.mp hstop).1, or_iff_right (not_or.mp hstop).2, Fallible.returns_bind,
      returns_readPartition]
    constructor
    · rintro ⟨hfits, h⟩
      refine ⟨hfits, ?_⟩
      rintro ⟨s, hs⟩
      exact (hstep s).mp (h s (readPartition_eq_ok_ok.mpr ⟨hfits, hs⟩))
    · rintro ⟨hfits, h⟩
      exact ⟨hfits, fun s hs ↦ (hstep s).mpr (h ⟨s, (readPartition_eq_ok_ok.mp hs).2⟩)⟩

/-! ## The server -/

section

variable {α : Type} {b : ℕ} {sb : Superblock} {inodeNum : UInt32}

theorem fsReadSector_eq_some {s : Mem} :
    fsReadSector d b = .ok (some s) ↔ AddressFits b ∧ Holds d b s := by
  rw [fsReadSector_eq_ok, AddressFits, Holds]
  cases readSector d (relizfsStartSector + b) with
  | error e => simp [Except.toOption]
  | ok t => simp [Except.toOption, eq_comm]

theorem returns_fsReadSector_bind {g : Option Mem → Checked α} (hnone : (g none).Returns) :
    (fsReadSector d b >>= g).Returns ↔
      AddressFits b ∧ ∀ s, Holds d b s → (g (some s)).Returns := by
  rw [Checked.returns_bind]
  constructor
  · rintro ⟨o, ho, hg⟩
    obtain ⟨hfits, -⟩ := fsReadSector_eq_ok.mp ho
    refine ⟨hfits, fun s hs ↦ ?_⟩
    obtain rfl : o = some s :=
      Except.ok.inj (ho.symm.trans (fsReadSector_eq_some.mpr ⟨hfits, hs⟩))
    exact hg
  · rintro ⟨hfits, hg⟩
    refine ⟨_, fsReadSector_eq_ok.mpr ⟨hfits, rfl⟩, ?_⟩
    cases hs : readSector d (relizfsStartSector + b) with
    | error e => exact hnone
    | ok s => exact hg s hs

theorem returns_entryInode_bind {g : Option Inode → Checked α} (hnone : (g none).Returns) :
    (entryInode d sb inodeNum >>= g).Returns ↔
      AddressFits (inodeSector sb.inodeTableStart inodeNum) ∧
        ∀ s, Holds d (inodeSector sb.inodeTableStart inodeNum) s →
          (g (some (inodeIn s inodeNum))).Returns := by
  rw [entryInode, bind_assoc, Checked.returns_bind]
  have hrest : ∀ a, (Checked.add 32 sb.inodeTableStart.toNat
      (inodeNum.toNat * sizeOfInode / blockSize) = .ok a ↔
        a < 2 ^ 32 ∧ a = inodeSector sb.inodeTableStart inodeNum) := by
    intro a
    rw [Checked.add_eq_ok, inodeSector]
    constructor
    · rintro ⟨hlt, rfl⟩
      exact ⟨hlt, rfl⟩
    · rintro ⟨hlt, rfl⟩
      exact ⟨hlt, rfl⟩
  simp only [hrest, bind_assoc]
  constructor
  · rintro ⟨a, ⟨-, rfl⟩, h⟩
    exact (returns_fsReadSector_bind hnone).mp h
  · rintro ⟨hfits, h⟩
    exact ⟨_, ⟨lt_of_le_of_lt (Nat.le_add_left _ _) hfits, rfl⟩,
      (returns_fsReadSector_bind hnone).mpr ⟨hfits, h⟩⟩

theorem fits_of_entryInode {o : Option Inode} (h : entryInode d sb inodeNum = .ok o) :
    AddressFits (inodeSector sb.inodeTableStart inodeNum) :=
  ((returns_entryInode_bind (g := fun _ ↦ .ok ()) ⟨_, rfl⟩).mp
    (Checked.returns_bind.mpr ⟨o, h, (), rfl⟩)).1

theorem returns_rootSector_bind {g : Option (Superblock × Mem) → Checked α}
    (hnone : (g none).Returns) :
    (rootSector d >>= g).Returns ↔ ∀ s, Holds d 2 s →
      AddressFits (Superblock.read s).inodeTableStart.toNat ∧
      ∀ t, Holds d (Superblock.read s).inodeTableStart.toNat t →
        AddressFits (Inode.read t 0).firstBlock.toNat ∧
        ∀ dir, Holds d (Inode.read t 0).firstBlock.toNat dir →
          (g (some (Superblock.read s, dir))).Returns := by
  rw [rootSector, bind_assoc, returns_fsReadSector_bind hnone, and_iff_right (by decide)]
  refine forall_congr' fun s ↦ imp_congr_right fun _ ↦ ?_
  dsimp only
  rw [bind_assoc, returns_fsReadSector_bind hnone]
  refine and_congr_right fun _ ↦ forall_congr' fun t ↦ imp_congr_right fun _ ↦ ?_
  dsimp only
  rw [bind_assoc, returns_fsReadSector_bind hnone]
  rfl

end

/-! ### The listing -/

theorem returns_sizeDigits {sIdx size : ℕ} {digits : List UInt8} (h : size < 10 ^ sIdx) :
    (sizeDigits sIdx size digits).Returns := by
  induction sIdx generalizing size digits with
  | zero =>
    rw [pow_zero, Nat.lt_one_iff] at h
    rw [sizeDigits, if_neg (by omega)]
    exact ⟨_, rfl⟩
  | succ sIdx ih =>
    rw [sizeDigits]
    split
    · apply ih
      rw [pow_succ] at h
      omega
    · exact ⟨_, rfl⟩

theorem returns_sizeText (size : UInt64) : (sizeText size).Returns := by
  rw [sizeText]
  split
  · exact ⟨_, rfl⟩
  · exact returns_sizeDigits (lt_of_lt_of_le size.toNat_lt (by decide))

theorem returns_listEntry (listRes : List UInt8) (name : String) (inode : Inode) :
    (listEntry listRes name inode).Returns := by
  obtain ⟨text, htext⟩ := returns_sizeText inode.size
  rw [listEntry]
  dsimp only
  split
  · exact Checked.returns_bind.mpr ⟨text, htext, _, rfl⟩
  · exact ⟨_, rfl⟩

/-- Listing panics exactly when the address of an inode does not fit. -/
theorem returns_serverEntries {sb : Superblock} {entries : List DirectoryEntry}
    {listRes : List UInt8} :
    (listEntries d sb entries listRes).Returns ↔
      ∀ e ∈ entries, e.inodeNum ≠ 0 → 0 < e.nameLen → e.getName ≠ none →
        AddressFits (inodeSector sb.inodeTableStart e.inodeNum) := by
  induction entries generalizing listRes with
  | nil => exact iff_of_true ⟨_, rfl⟩ fun e he ↦ (nomatch he)
  | cons e entries ih =>
    rw [List.forall_mem_cons, listEntries]
    -- only an entry in use with a name is looked up; the others cannot fail
    by_cases hvalid : e.inodeNum ≠ 0 ∧ 0 < e.nameLen
    · rw [if_pos hvalid]
      cases hname : e.getName with
      | none =>
        rw [and_iff_right fun _ _ h ↦ absurd rfl h]
        exact ih
      | some name =>
        constructor
        · intro h
          obtain ⟨o, ho, h⟩ := Checked.returns_bind.mp h
          refine ⟨fun _ _ _ ↦ fits_of_entryInode ho, ?_⟩
          cases o with
          | none => exact ih.mp h
          | some inode =>
            obtain ⟨t, -, h⟩ := Checked.returns_bind.mp h
            exact ih.mp h
        · rintro ⟨hfits, hrest⟩
          refine (returns_entryInode_bind (ih.mpr hrest)).mpr
            ⟨hfits hvalid.1 hvalid.2 nofun, fun s _ ↦ ?_⟩
          obtain ⟨t, ht⟩ := returns_listEntry listRes name (inodeIn s e.inodeNum)
          exact Checked.returns_bind.mpr ⟨t, ht, ih.mpr hrest⟩
    · rw [if_neg hvalid, and_iff_right fun h h' _ ↦ absurd ⟨h, h'⟩ hvalid]
      exact ih

/-! ### Reading a file -/

/-- Copying a file panics exactly when the address of its inode or of its first block does not
fit. -/
theorem returns_copyFile {sb : Superblock} {inodeNum : UInt32} {mem : Mem}
    {clientBuf maxLen : ℕ} :
    (copyFile d sb inodeNum mem clientBuf maxLen).Returns ↔
      AddressFits (inodeSector sb.inodeTableStart inodeNum) ∧
        ∀ s, Holds d (inodeSector sb.inodeTableStart inodeNum) s →
          AddressFits (inodeIn s inodeNum).firstBlock.toNat := by
  rw [copyFile, returns_entryInode_bind]
  · refine and_congr_right fun _ ↦ forall_congr' fun s ↦ imp_congr_right fun _ ↦ ?_
    dsimp only
    rw [returns_fsReadSector_bind]
    · exact and_iff_left fun t _ ↦ ⟨_, rfl⟩
    · exact ⟨_, rfl⟩
  · exact ⟨_, rfl⟩

/-- Reading panics exactly when copying the file that it finds does. -/
theorem returns_readEntries {sb : Superblock} {name : String} {mem : Mem} {clientBuf maxLen : ℕ}
    {entries : List DirectoryEntry} :
    (readEntries d sb name mem clientBuf maxLen entries).Returns ↔
      ∀ e, (entries.find? fun e ↦ (e.inodeNum ≠ 0 ∧ 0 < e.nameLen) ∧ e.getName = some name) =
        some e → (copyFile d sb e.inodeNum mem clientBuf maxLen).Returns := by
  rw [readEntries_eq]
  split
  · next hnone => exact iff_of_true ⟨_, rfl⟩ fun e he ↦ absurd (hnone.symm.trans he) (by simp)
  · next e hsome =>
    rw [hsome]
    constructor
    · rintro h _ ⟨⟩
      exact h
    · intro h
      exact h e rfl

theorem ne_zero_of_lt_filenameLen {mem : Mem} {ptr fuel len i : ℕ}
    (hbytes : ∀ i < len, mem (ptr + i) ≠ 0) (hi : i < filenameLen mem ptr fuel len) :
    mem (ptr + i) ≠ 0 := by
  induction fuel generalizing len with
  | zero => exact hbytes i hi
  | succ fuel ih =>
    rw [filenameLen] at hi
    split at hi
    · next hne =>
      refine ih (fun j hj ↦ ?_) hi
      rcases Nat.lt_succ_iff_lt_or_eq.mp hj with hlt | rfl
      · exact hbytes j hlt
      · exact hne.1
    · exact hbytes i hi

theorem zero_not_mem_targetFilename (mem : Mem) (ptr : ℕ) :
    0 ∉ bytesOf (targetFilename mem ptr) := by
  rw [targetFilename]
  generalize hbytes : readBytes mem ptr (filenameLen mem ptr 33 0) = bytes
  cases htext : fromUtf8 bytes with
  | none => with_unfolding_all decide
  | some text =>
    rw [Option.getD_some, fromUtf8_eq_some.mp htext, ← hbytes, readBytes, List.mem_map]
    rintro ⟨i, hi, hzero⟩
    exact ne_zero_of_lt_filenameLen (fun _ h ↦ absurd h (Nat.not_lt_zero _))
      (List.mem_range.mp hi) hzero

theorem exists_targetFilename {name : String} (hnul : 0 ∉ bytesOf name)
    (hlen : (bytesOf name).length ≤ 31) : ∃ mem, targetFilename mem 0 = name := by
  refine ⟨writeBytes (fun _ ↦ 0) 0 (bytesOf name),
    targetFilename_eq ⟨readBytes_writeBytes _ _ _, ?_⟩ hnul hlen⟩
  rw [writeBytes, if_pos (Nat.zero_le _), List.getElem?_eq_none (by omega)]
  rfl

/-! ## All of it -/

/-- Mounting and reading do not panic. -/
structure NeverPanics (d : Drive) : Prop where
  init : (RelizFsReader.init d).Returns
  readInode : ∀ r, (RelizFsReader.init d).run = .ok (.ok r) → ∀ idx, (r.readInode d idx).Returns
  listDirectory : ∀ r, (RelizFsReader.init d).run = .ok (.ok r) → ∀ idx inode,
    (r.readInode d idx).run = .ok (.ok inode) → (r.listDirectory d inode).Returns
  findEntry : ∀ r, (RelizFsReader.init d).run = .ok (.ok r) → ∀ idx inode,
    (r.readInode d idx).run = .ok (.ok inode) → ∀ name, (findEntry d inode name).Returns
  readFile : ∀ r, (RelizFsReader.init d).run = .ok (.ok r) → ∀ idx inode,
    (r.readInode d idx).run = .ok (.ok inode) → ∀ outBuf, (readFile d inode outBuf).Returns
  fsList : ∀ mem clientBuf maxLen, (fsList d mem clientBuf maxLen).Returns
  fsRead : ∀ mem filenamePtr clientBuf maxLen,
    (fsRead d mem filenamePtr clientBuf maxLen).Returns

theorem returns_listDirectory (hread : ∀ idx, (r.readInode d idx).Returns) {inode : Inode} :
    (r.listDirectory d inode).Returns ↔
      (inode.IsDirectory → BlocksFit d inode.directBlocks.toList) := by
  rw [RelizFsReader.listDirectory]
  by_cases hdir : inode.IsDirectory
  · rw [if_pos hdir, returns_listBlocks hread]
    exact ⟨fun h _ ↦ h, fun h ↦ h hdir⟩
  · rw [if_neg hdir]
    exact iff_of_true ⟨_, rfl⟩ fun h ↦ absurd h hdir

theorem returns_findEntry {inode : Inode} {name : String}
    (h : inode.IsDirectory → BlocksFit d inode.directBlocks.toList) :
    (findEntry d inode name).Returns := by
  rw [findEntry]
  split
  · next hdir => exact returns_findInBlocks (h hdir)
  · exact Fallible.returns_throw _

/-- Reading a file into some buffer panics exactly when an address does not fit that is reached. -/
theorem returns_readFile {inode : Inode} : (∀ outBuf, (readFile d inode outBuf).Returns) ↔
    (inode.IsFile → FileFits d inode.size.toNat inode.directBlocks.toList 0) := by
  by_cases hfile : inode.IsFile
  · simp only [readFile, if_pos hfile]
    rw [forall_prop_of_true hfile]
    constructor
    · intro h
      have hbuf := h (List.replicate inode.size.toNat 0)
      rwa [List.length_replicate, min_self,
        returns_readBlocks (Nat.zero_le _) (by rw [List.length_replicate])] at hbuf
    · intro h outBuf
      exact (returns_readBlocks (Nat.zero_le _) (min_le_right _ _)).mpr (h.mono (min_le_left _ _))
  · simp only [readFile, if_neg hfile]
    exact iff_of_true (fun _ ↦ Fallible.returns_throw _) fun h ↦ absurd h hfile

/-- Listing panics exactly when an address does not fit on the way to the entries. -/
theorem returns_fsList {mem : Mem} {clientBuf maxLen : ℕ} :
    (fsList d mem clientBuf maxLen).Returns ↔ ∀ s, Holds d 2 s →
      AddressFits (Superblock.read s).inodeTableStart.toNat ∧
      ∀ t, Holds d (Superblock.read s).inodeTableStart.toNat t →
        AddressFits (Inode.read t 0).firstBlock.toNat ∧
        ∀ dir, Holds d (Inode.read t 0).firstBlock.toNat dir →
          ∀ e ∈ entriesOf dir, e.inodeNum ≠ 0 → 0 < e.nameLen → e.getName ≠ none →
            AddressFits (inodeSector (Superblock.read s).inodeTableStart e.inodeNum) := by
  have hlisting : (fsList d mem clientBuf maxLen).Returns ↔ (listing d).Returns := by
    rw [fsList]
    exact Checked.returns_bind_iff fun _ ↦ ⟨_, rfl⟩
  rw [hlisting, listing, returns_rootSector_bind]
  · simp only [returns_serverEntries]
  · exact ⟨_, rfl⟩

/-- Reading panics exactly when an address does not fit on the way to the file with the name. -/
theorem returns_fsRead {mem : Mem} {ptr clientBuf maxLen : ℕ} :
    (fsRead d mem ptr clientBuf maxLen).Returns ↔ ∀ s, Holds d 2 s →
      AddressFits (Superblock.read s).inodeTableStart.toNat ∧
      ∀ t, Holds d (Superblock.read s).inodeTableStart.toNat t →
        AddressFits (Inode.read t 0).firstBlock.toNat ∧
        ∀ dir, Holds d (Inode.read t 0).firstBlock.toNat dir →
          ∀ e, ((entriesOf dir).find? fun e ↦
              (e.inodeNum ≠ 0 ∧ 0 < e.nameLen) ∧
                e.getName = some (targetFilename mem ptr)) = some e →
            AddressFits (inodeSector (Superblock.read s).inodeTableStart e.inodeNum) ∧
            ∀ b, Holds d (inodeSector (Superblock.read s).inodeTableStart e.inodeNum) b →
              AddressFits (inodeIn b e.inodeNum).firstBlock.toNat := by
  rw [fsRead]
  dsimp only
  rw [returns_rootSector_bind]
  · refine forall_congr' fun s ↦ imp_congr_right fun _ ↦ and_congr_right fun _ ↦
      forall_congr' fun t ↦ imp_congr_right fun _ ↦ and_congr_right fun _ ↦
      forall_congr' fun dir ↦ imp_congr_right fun _ ↦ ?_
    -- the reply itself is built without any arithmetic
    refine (Checked.returns_bind_iff ?_).trans ?_
    · rintro ⟨_ | n, mem⟩
      · exact ⟨_, rfl⟩
      · exact ⟨_, rfl⟩
    · rw [returns_readEntries]
      simp only [returns_copyFile]
  · exact ⟨_, rfl⟩

/-- **The server** panics exactly when an address does not fit that it computes. -/
theorem returns_server :
    ((∀ mem clientBuf maxLen, (fsList d mem clientBuf maxLen).Returns) ∧
      ∀ mem ptr clientBuf maxLen, (fsRead d mem ptr clientBuf maxLen).Returns) ↔
    ∀ s, Holds d 2 s → ServerFits d (Superblock.read s) := by
  simp only [returns_fsList, returns_fsRead]
  constructor
  · rintro ⟨hlist, hread⟩ s hs
    obtain ⟨hstart, hlist⟩ := hlist (fun _ ↦ 0) 0 0 s hs
    refine ⟨hstart, fun t ht ↦ ?_⟩
    obtain ⟨hroot, hlist⟩ := hlist t ht
    refine ⟨hroot, fun dir hdir ↦ ⟨hlist dir hdir, fun name e b hnul hfind hb ↦ ?_⟩⟩
    have hname : e.getName = some name := by
      have := List.find?_some hfind
      simp only [decide_eq_true_eq] at this
      exact this.2
    -- the name of a directory entry fits the buffer of the server, so a client can ask for it
    obtain ⟨mem, hmem⟩ := exists_targetFilename hnul
      (by rw [DirectoryEntry.length_getName hname]; omega)
    have h := (((hread mem 0 0 0 s hs).2 t ht).2 dir hdir e (by rw [hmem]; exact hfind)).2
    exact h b hb
  · intro h
    constructor
    · intro _ _ _ s hs
      refine ⟨(h s hs).1, fun t ht ↦ ?_⟩
      exact ⟨((h s hs).2 t ht).1, fun dir hdir ↦ (((h s hs).2 t ht).2 dir hdir).1⟩
    · intro mem ptr _ _ s hs
      refine ⟨(h s hs).1, fun t ht ↦ ⟨((h s hs).2 t ht).1, fun dir hdir e he ↦ ?_⟩⟩
      obtain ⟨hentries, hfiles⟩ := ((h s hs).2 t ht).2 dir hdir
      have hfound := List.find?_some he
      simp only [decide_eq_true_eq] at hfound
      refine ⟨hentries e (List.mem_of_find?_eq_some he) hfound.1.1 hfound.1.2
        (by rw [hfound.2]; exact nofun), fun b hb ↦ ?_⟩
      exact hfiles _ e b (zero_not_mem_targetFilename mem ptr) he hb

/-- **Mounting and reading never panic** exactly on the images whose addresses fit. -/
theorem neverPanics_iff (d : Drive) : NeverPanics d ↔ AddressesFit d := by
  constructor
  · -- a mounted reader has the superblock of the drive, so it computes with what the drive holds
    intro h s hs
    refine ⟨fun hmagic idx hidx ↦ ?_, returns_server.mp ⟨h.fsList, h.fsRead⟩ s hs⟩
    have hinit := init_eq_ok_iff.mpr ⟨s, hs, hmagic, rfl⟩
    have hfits := returns_readInode.mp (h.readInode _ hinit idx) hidx
    refine ⟨hfits, fun t ht ↦ ?_⟩
    have hinode := readInode_eq_ok.mpr ⟨hidx, hfits, t, ht, rfl⟩
    exact ⟨(returns_listDirectory (h.readInode _ hinit)).mp (h.listDirectory _ hinit _ _ hinode),
      returns_readFile.mp (h.readFile _ hinit _ _ hinode)⟩
  · intro h
    have htable : ∀ r, (RelizFsReader.init d).run = .ok (.ok r) → TableFits d r.superblock := by
      intro r hr
      obtain ⟨s, hs, hmagic, rfl⟩ := init_eq_ok_iff.mp hr
      exact (h s hs).1 hmagic
    have hread : ∀ r, (RelizFsReader.init d).run = .ok (.ok r) →
        ∀ idx, (r.readInode d idx).Returns :=
      fun r hr idx ↦ returns_readInode.mpr fun hidx ↦ (htable r hr idx hidx).1
    have hinode : ∀ r, (RelizFsReader.init d).run = .ok (.ok r) → ∀ idx inode,
        (r.readInode d idx).run = .ok (.ok inode) → InodeFits d inode := by
      intro r hr idx inode hinode
      obtain ⟨hidx, -, t, ht, rfl⟩ := readInode_eq_ok.mp hinode
      exact (htable r hr idx hidx).2 t ht
    have hserver := returns_server.mpr fun s hs ↦ (h s hs).2
    exact
      { init := returns_init d
        readInode := hread
        listDirectory := fun r hr idx inode hi ↦
          (returns_listDirectory (hread r hr)).mpr (hinode r hr idx inode hi).1
        findEntry := fun r hr idx inode hi _ ↦ returns_findEntry (hinode r hr idx inode hi).1
        readFile := fun r hr idx inode hi ↦ returns_readFile.mpr (hinode r hr idx inode hi).2
        fsList := hserver.1
        fsRead := hserver.2 }

/-! ### An image with an inode table beyond all addresses -/

def farTable : Drive := fun lba ↦ .ok <| sectorWith <|
  match lba with
  | 40002 => [(0, [0x53, 0x46, 0x5A, 0x49, 0x4C, 0x45, 0x52]), (12, [1]),
      (16, [0xFF, 0xFF, 0xFF, 0xFF])]
  | _ => []

/-- **Mounting succeeds on it, and reading the root inode panics.** -/
theorem not_neverPanics : ¬∀ d, NeverPanics d := by
  intro h
  have hmount : (RelizFsReader.init farTable).run = .ok (.ok ⟨superblockOf farTable⟩) := by
    with_unfolding_all decide
  have hpanic : (RelizFsReader.readInode ⟨superblockOf farTable⟩ farTable 0).run =
      .error .overflow := by with_unfolding_all decide
  obtain ⟨q, hq⟩ := (h farTable).readInode _ hmount 0
  rw [hpanic] at hq
  cases hq

end RelizOS.RelizFs
