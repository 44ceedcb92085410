import RelizOS.RelizFs.Formatter
import RelizOS.RelizFs.Panics

/-!
# Mounting what was formatted

After the host tool has formatted a disk image, the kernel mounts it, finds the three entries of the
root directory and reads `hello.txt` back, whatever the image held before. The inode table agrees
with the inode bitmap (`AsFormatted`) exactly when the formatter did not have to clear anything
there: it writes the first two of the 64 inodes and leaves the others as they were
(`asFormatted_iff`). On an image that had a file system before, an old inode can remain
(`not_asFormatted`).
-/

open ByteMemory

namespace RelizOS.RelizFs

/-- The drive has the file as its content, as far as the file reaches. -/
def Attached (d : Drive) (f : DiskFile) : Prop :=
  ∀ lba, (lba + 1) * blockSize ≤ f.length →
    ∃ s, d lba = .ok s ∧ ∀ i < blockSize, s i = f.bytes (lba * blockSize + i)

/-- The kernel mounts the file system and finds in it what the formatter has put there. -/
structure AsFormatted (d : Drive) (r : RelizFsReader) (root : Inode) : Prop where
  mount : (RelizFsReader.init d).run = .ok (.ok r)
  readRoot : (r.readInode d 0).run = .ok (.ok root)
  list : r.listDirectory d root =
    .ok ([⟨"<DIR>", ".", 0⟩, ⟨"<DIR>", "..", 0⟩, ⟨"<FILE>", "hello.txt", 1⟩], .ok ())
  find : ∀ name idx, (findEntry d root name).run = .ok (.ok idx) ↔
    (name, idx) ∈ [(".", 0), ("..", 0), ("hello.txt", (1 : UInt32))]
  file : ∃ hello, (r.readInode d 1).run = .ok (.ok hello) ∧ ∀ outBuf : List UInt8,
    (bytesOf testFileContent).length ≤ outBuf.length →
      (readFile d hello outBuf).run = .ok (.ok ((bytesOf testFileContent).length,
        bytesOf testFileContent ++ outBuf.drop (bytesOf testFileContent).length))
  /-- An inode is free exactly when its bit in the inode bitmap is 0. -/
  bitmap : ∃ bits, Holds d r.superblock.inodeBitmapStart.toNat bits ∧
    ∀ idx < r.superblock.inodeCount, ∃ inode, (r.readInode d idx).run = .ok (.ok inode) ∧
      (inode.IsFree ↔ (bits (idx.toNat / 8)).toNat.testBit (idx.toNat % 8) = false)

/-! ## Sectors of the image -/

section

variable {d : Drive} {prev f : DiskFile}

theorem Formatted.holds (h : Formatted prev f) (hd : Attached d f) (sector : ℕ)
    (hsector : sector < 4096) :
    ∃ s, Holds d sector s ∧ ∀ i < blockSize, s i = f.bytes (sectorStart sector + i) := by
  have hlength : (relizfsStartSector + sector + 1) * blockSize ≤ f.length :=
    (sectorStart_mono (Nat.succ_le_of_lt hsector)).trans h.length
  obtain ⟨s, hs, hbytes⟩ := hd _ hlength
  have hlba : (relizfsStartSector + sector) % 2 ^ 28 = relizfsStartSector + sector := by
    rw [Nat.mod_eq_of_lt]
    rw [relizfsStartSector]
    omega
  refine ⟨s, ?_, hbytes⟩
  rw [Holds, readSector, hlba]
  exact hs

theorem bytesAt_of_sector {s : Mem} {sector a : ℕ} {bs : List UInt8}
    (hs : ∀ i < blockSize, s i = f.bytes (sectorStart sector + i))
    (h : BytesAt f.bytes (sectorStart sector + a) bs) (hfits : a + bs.length ≤ blockSize) :
    BytesAt s a bs := by
  intro i hi
  rw [hs (a + i) (by omega), ← add_assoc]
  exact h i hi

/-! ## The reader -/

/-- **The kernel mounts** the file system. -/
theorem Formatted.init (h : Formatted prev f) (hd : Attached d f) :
    (RelizFsReader.init d).run = .ok (.ok ⟨newSuperblock⟩) := by
  obtain ⟨s, hs, hbytes⟩ := h.holds hd 2 (by omega)
  have hread : Superblock.read s = newSuperblock :=
    Superblock.read_bytes (bytesAt_of_sector hbytes h.superblock
      (by rw [Superblock.length_bytes]; decide))
  exact init_eq_ok_iff.mpr ⟨s, hs, by rw [hread]; rfl, by rw [hread]⟩

theorem Formatted.readInode (h : Formatted prev f) (hd : Attached d f) {idx : UInt32}
    (hidx : idx.toNat < 64) :
    ∃ s, (RelizFsReader.readInode ⟨newSuperblock⟩ d idx).run = .ok (.ok (inodeIn s idx)) ∧
      ∀ i < sizeOfInode, s (idx.toNat * sizeOfInode % blockSize + i) =
        f.bytes (sectorStart 3 + idx.toNat * sizeOfInode + i) := by
  have hsector : inodeSector newSuperblock.inodeTableStart idx =
      3 + idx.toNat * sizeOfInode / blockSize := rfl
  have hdiv : idx.toNat * sizeOfInode / blockSize < 8 := by
    rw [sizeOfInode, blockSize]
    omega
  obtain ⟨s, hs, hbytes⟩ := h.holds hd (inodeSector newSuperblock.inodeTableStart idx)
    (by rw [hsector]; omega)
  refine ⟨s, readInode_eq_ok.mpr ⟨?_, ?_, s, hs, rfl⟩, fun i hi ↦ ?_⟩
  · exact UInt32.lt_iff_toNat_lt.mpr hidx
  · rw [AddressFits, hsector, relizfsStartSector]
    omega
  · have hlt : idx.toNat * sizeOfInode % blockSize + i < blockSize := by
      rw [sizeOfInode, blockSize] at *
      omega
    rw [hbytes _ hlt, hsector, sectorStart_add]
    congr 1
    have := Nat.div_add_mod (idx.toNat * sizeOfInode) blockSize
    rw [mul_comm] at this
    omega

theorem Formatted.readInode_of_bytesAt (h : Formatted prev f) (hd : Attached d f) {idx : UInt32}
    (hidx : idx.toNat < 64) {inode : Inode}
    (hinode : BytesAt f.bytes (sectorStart 3 + idx.toNat * sizeOfInode) inode.bytes) :
    (RelizFsReader.readInode ⟨newSuperblock⟩ d idx).run = .ok (.ok inode) := by
  obtain ⟨s, hs, hbytes⟩ := h.readInode hd hidx
  have hread : inodeIn s idx = inode := by
    apply Inode.read_bytes
    intro i hi
    rw [hbytes i (by rwa [Inode.length_bytes] at hi)]
    exact hinode i hi
  rw [hs, hread]

theorem Formatted.readRoot (h : Formatted prev f) (hd : Attached d f) :
    (RelizFsReader.readInode ⟨newSuperblock⟩ d 0).run = .ok (.ok rootInode) :=
  h.readInode_of_bytesAt hd (by decide) h.root

theorem Formatted.readHello (h : Formatted prev f) (hd : Attached d f) :
    (RelizFsReader.readInode ⟨newSuperblock⟩ d 1).run = .ok (.ok helloInode) :=
  h.readInode_of_bytesAt hd (by decide) h.hello

/-! ### The root directory -/

/-- An entry of 32 zero bytes. -/
def emptyEntry : DirectoryEntry := ⟨0, 0, Vector.replicate 27 0⟩

theorem dirBlock_eq :
    dirBlock = (newEntries ++ List.replicate 13 emptyEntry).flatMap DirectoryEntry.bytes := by
  decide +kernel

theorem rootInode_blocks : rootInode.directBlocks.toList = 13 :: List.replicate 9 0 := by
  with_unfolding_all decide

theorem helloInode_blocks : helloInode.directBlocks.toList = 14 :: List.replicate 9 0 := by
  with_unfolding_all decide

theorem Formatted.rootSector (h : Formatted prev f) (hd : Attached d f) :
    ∃ s, Holds d 13 s ∧ entriesOf s = newEntries ++ List.replicate 13 emptyEntry := by
  obtain ⟨s, hs, hbytes⟩ := h.holds hd 13 (by omega)
  refine ⟨s, hs, entriesOf_bytes rfl ?_⟩
  rw [← dirBlock_eq]
  exact bytesAt_of_sector hbytes h.dirBlock (by rw [length_dirBlock, Nat.zero_add])

theorem getName_self : (DirectoryEntry.new 0 ".").getName = some "." := by
  with_unfolding_all decide

theorem getName_parent : (DirectoryEntry.new 0 "..").getName = some ".." := by
  with_unfolding_all decide

theorem getName_hello : (DirectoryEntry.new 1 "hello.txt").getName = some "hello.txt" := by
  with_unfolding_all decide

theorem matchEntry_emptyEntry (name : String) : matchEntry name emptyEntry = none := rfl

theorem findInBlock_newEntries (name : String) :
    findInBlock name (newEntries ++ List.replicate 13 emptyEntry) =
      if name = "." then some 0 else if name = ".." then some 0
      else if name = "hello.txt" then some 1 else none := by
  have hempty : (List.replicate 13 emptyEntry).findSome? (matchEntry name) = none := by
    rw [List.findSome?_eq_none_iff]
    intro e he
    rw [List.eq_of_mem_replicate he]
    exact matchEntry_emptyEntry name
  have hself : matchEntry name (.new 0 ".") = if "." = name then some 0 else none := by
    rw [matchEntry, if_pos (by with_unfolding_all decide), getName_self]
    rfl
  have hparent : matchEntry name (.new 0 "..") = if ".." = name then some 0 else none := by
    rw [matchEntry, if_pos (by with_unfolding_all decide), getName_parent]
    rfl
  have hhello : matchEntry name (.new 1 "hello.txt") =
      if "hello.txt" = name then some 1 else none := by
    rw [matchEntry, if_pos (by with_unfolding_all decide), getName_hello]
    rfl
  rw [findInBlock, newEntries, List.findSome?_append, hempty, Option.or_none]
  simp only [List.findSome?_cons, List.findSome?_nil, hself, hparent, hhello, eq_comm (b := name)]
  split_ifs <;> rfl

/-! ### Behind the first block -/

theorem findInBlocks_holes (name : String) (n : ℕ) :
    findInBlocks d name (List.replicate n 0) = throw "File not found" := by
  induction n with
  | zero => rfl
  | succ n ih => rw [List.replicate_succ, findInBlocks, if_pos rfl, ih]

theorem listBlocks_holes (r : RelizFsReader) (n : ℕ) :
    r.listBlocks d (List.replicate n 0) = .ok ([], .ok ()) := by
  induction n with
  | zero => rfl
  | succ n ih => rw [List.replicate_succ, RelizFsReader.listBlocks, if_pos rfl, ih]

theorem readBlocks_holes (total pos n : ℕ) (outBuf : List UInt8) :
    readBlocks d total (List.replicate n 0) pos outBuf = pure (pos, outBuf) := by
  cases n with
  | zero => rfl
  | succ n => rw [List.replicate_succ, readBlocks, if_pos (Or.inl rfl)]

theorem listEntries_cons {r : RelizFsReader} {e : DirectoryEntry} {es : List DirectoryEntry}
    {name t : String} {lines : List RelizFsReader.DirectoryLine}
    (hvalid : e.inodeNum ≠ 0 ∨ 0 < e.nameLen) (hname : e.getName = some name)
    (htype : r.typeStr d name e.inodeNum = .ok t) (hrest : r.listEntries d es = .ok lines) :
    r.listEntries d (e :: es) = .ok (⟨t, name, e.inodeNum⟩ :: lines) := by
  rw [RelizFsReader.listEntries, if_pos hvalid, hname]
  dsimp only
  rw [htype, Checked.ok_bind, hrest]
  rfl

/-! ### What the kernel finds -/

theorem Formatted.findEntry_run (h : Formatted prev f) (hd : Attached d f) (name : String) :
    (findEntry d rootInode name).run =
      .ok ((findInBlock name (newEntries ++ List.replicate 13 emptyEntry)).elim
        (.error "File not found") .ok) := by
  obtain ⟨s, hs, hentries⟩ := h.rootSector hd
  have hread : (readPartition d 13).run = .ok (.ok s) :=
    readPartition_eq_ok_ok.mpr ⟨by decide, hs⟩
  rw [findEntry, if_pos (by with_unfolding_all decide), rootInode_blocks, findInBlocks,
    if_neg (by decide), Fallible.run_bind, show UInt32.toNat 13 = 13 from rfl, hread]
  dsimp only [Checked.ok_bind]
  rw [hentries]
  cases findInBlock name (newEntries ++ List.replicate 13 emptyEntry) with
  | some idx => rfl
  | none =>
    dsimp only
    rw [findInBlocks_holes]
    rfl

/-- **Entries are found** by their names. -/
theorem Formatted.find (h : Formatted prev f) (hd : Attached d f) (name : String) (idx : UInt32) :
    (findEntry d rootInode name).run = .ok (.ok idx) ↔
      (name, idx) ∈ [(".", 0), ("..", 0), ("hello.txt", (1 : UInt32))] := by
  rw [h.findEntry_run hd, findInBlock_newEntries]
  by_cases hself : name = "."
  · simp [hself, eq_comm]
  by_cases hparent : name = ".."
  · simp [hparent, eq_comm]
  by_cases hhello : name = "hello.txt"
  · simp [hhello, eq_comm]
  · simp [hself, hparent, hhello]

/-- **The listing** has the three entries. -/
theorem Formatted.list (h : Formatted prev f) (hd : Attached d f) :
    RelizFsReader.listDirectory ⟨newSuperblock⟩ d rootInode =
      .ok ([⟨"<DIR>", ".", 0⟩, ⟨"<DIR>", "..", 0⟩, ⟨"<FILE>", "hello.txt", 1⟩], .ok ()) := by
  obtain ⟨s, hs, hentries⟩ := h.rootSector hd
  have hread : (readPartition d 13).run = .ok (.ok s) :=
    readPartition_eq_ok_ok.mpr ⟨by decide, hs⟩
  have hempty : ∀ n, RelizFsReader.listEntries ⟨newSuperblock⟩ d
      (List.replicate n emptyEntry) = .ok [] := by
    intro n
    induction n with
    | zero => rfl
    | succ n ih =>
      rw [List.replicate_succ, RelizFsReader.listEntries, if_neg (by decide), ih]
  have hhello : RelizFsReader.typeStr ⟨newSuperblock⟩ d "hello.txt" 1 = .ok "<FILE>" := by
    rw [RelizFsReader.typeStr, if_neg (by decide), h.readHello hd]
    rfl
  have hlines := listEntries_cons (by with_unfolding_all decide) getName_self (by rfl)
    (listEntries_cons (by with_unfolding_all decide) getName_parent (by rfl)
      (listEntries_cons (by with_unfolding_all decide) getName_hello hhello (hempty 13)))
  rw [RelizFsReader.listDirectory, if_pos (by with_unfolding_all decide), rootInode_blocks,
    RelizFsReader.listBlocks, if_neg (by decide), show UInt32.toNat 13 = 13 from rfl, hread,
    Checked.ok_bind]
  dsimp only
  rw [hentries, newEntries, List.cons_append, List.cons_append, List.cons_append,
    List.nil_append, hlines, Checked.ok_bind, listBlocks_holes]
  rfl

/-- **The file is read back.** -/
theorem Formatted.readFile (h : Formatted prev f) (hd : Attached d f) {outBuf : List UInt8}
    (hlen : (bytesOf testFileContent).length ≤ outBuf.length) :
    (readFile d helloInode outBuf).run = .ok (.ok ((bytesOf testFileContent).length,
        bytesOf testFileContent ++ outBuf.drop (bytesOf testFileContent).length)) := by
  have hsize : helloInode.size.toNat = (bytesOf testFileContent).length := by
    with_unfolding_all decide
  have hpos : 0 < (bytesOf testFileContent).length := by with_unfolding_all decide
  have hfits : (bytesOf testFileContent).length ≤ blockSize := by with_unfolding_all decide
  obtain ⟨s, hs, hbytes⟩ := h.holds hd 14 (by omega)
  have hread : (readPartition d 14).run = .ok (.ok s) :=
    readPartition_eq_ok_ok.mpr ⟨by decide, hs⟩
  have hblock := bytesAt_of_sector (a := 0) hbytes h.fileBlock
    (by rw [length_fileBlock, Nat.zero_add])
  have hdata : sectorBytes s (bytesOf testFileContent).length = bytesOf testFileContent := by
    obtain ⟨hcontent, -⟩ := bytesAt_append.mp hblock
    apply List.ext_getElem
    · rw [length_sectorBytes]
    · intro i hi hi'
      have hbyte := hcontent i hi'
      rw [Nat.zero_add] at hbyte
      simp only [sectorBytes, List.getElem_map, List.getElem_range, hbyte]
  -- the first block has the whole file, and the rest of the blocks are holes
  rw [RelizFs.readFile, if_pos (by with_unfolding_all decide), helloInode_blocks, hsize,
    min_eq_left hlen,
    readBlocks, if_neg (not_or.mpr ⟨by decide, by omega⟩), Fallible.run_bind,
    show UInt32.toNat 14 = 14 from rfl, hread]
  dsimp only [Checked.ok_bind]
  rw [Checked.sub_of_le (Nat.zero_le _), Fallible.checked_ok_bind, Nat.sub_zero,
    min_eq_left hfits, hdata, copyFromSlice_of_fits (by rwa [Nat.zero_add]),
    Fallible.checked_ok_bind, readBlocks_holes]
  simp

/-! ### The inode table and its bitmap -/

/-- In the previous content, the type of every inode that the formatter does not write is 0. -/
def OldInodesFree (prev : DiskFile) : Prop :=
  ∀ idx, 2 ≤ idx → idx < 64 → prev.byteAt (sectorStart 3 + idx * sizeOfInode + 8) = 0

theorem testBit_newBitmap :
    ∀ i < 64, ((newBitmap[i / 8]?).getD 0).toNat.testBit (i % 8) = decide (i < 2) := by
  with_unfolding_all decide

theorem Formatted.bit (h : Formatted prev f) (hd : Attached d f) :
    ∃ bits, Holds d 11 bits ∧
      ∀ i < 64, (bits (i / 8)).toNat.testBit (i % 8) = decide (i < 2) := by
  obtain ⟨bits, hbits, hbytes⟩ := h.holds hd 11 (by omega)
  have hbitmap := bytesAt_of_sector (a := 0) hbytes h.inodeBitmap
    (by rw [length_newBitmap, Nat.zero_add])
  refine ⟨bits, hbits, fun i hi ↦ ?_⟩
  have hlt : i / 8 < newBitmap.length := by
    rw [length_newBitmap, blockSize]
    omega
  have hbyte := hbitmap (i / 8) hlt
  rw [Nat.zero_add] at hbyte
  rw [← testBit_newBitmap i hi, hbyte, List.getElem?_eq_getElem hlt, Option.getD_some]

/-- An inode that the formatter does not write is free if it was. -/
theorem Formatted.readOld (h : Formatted prev f) (hd : Attached d f) {idx : UInt32}
    (hlo : 2 ≤ idx.toNat) (hhi : idx.toNat < 64) :
    ∃ inode, (RelizFsReader.readInode ⟨newSuperblock⟩ d idx).run = .ok (.ok inode) ∧
      (inode.IsFree ↔ prev.byteAt (sectorStart 3 + idx.toNat * sizeOfInode + 8) = 0) := by
  obtain ⟨s, hs, hbytes⟩ := h.readInode hd hhi
  have htable : sectorStart 11 = sectorStart 3 + 8 * blockSize := sectorStart_add 3 8
  have htype := hbytes 8 (by decide)
  rw [h.kept _ (by rw [sizeOfInode]; omega)
    (by rw [htable, sizeOfInode, blockSize]; omega)] at htype
  refine ⟨_, hs, ?_⟩
  rw [← htype]
  rfl

theorem Formatted.bitmap (h : Formatted prev f) (hd : Attached d f) (hold : OldInodesFree prev)
    {idx : UInt32} (hidx : idx.toNat < 64) :
    ∃ inode, (RelizFsReader.readInode ⟨newSuperblock⟩ d idx).run = .ok (.ok inode) ∧
      (inode.IsFree ↔ decide (idx.toNat < 2) = false) := by
  by_cases hlo : 2 ≤ idx.toNat
  · obtain ⟨inode, hread, hfree⟩ := h.readOld hd hlo hidx
    exact ⟨inode, hread, iff_of_true (hfree.mpr (hold _ hlo hidx))
      (decide_eq_false (Nat.not_lt.mpr hlo))⟩
  · have hset : ¬decide (idx.toNat < 2) = false := by
      rw [decide_eq_false_iff_not, not_not]
      exact Nat.lt_of_not_le hlo
    rcases (by omega : idx.toNat = 0 ∨ idx.toNat = 1) with hzero | hone
    · obtain rfl : idx = 0 := UInt32.toNat_inj.mp hzero
      exact ⟨_, h.readRoot hd, iff_of_false (by with_unfolding_all decide) hset⟩
    · obtain rfl : idx = 1 := UInt32.toNat_inj.mp hone
      exact ⟨_, h.readHello hd, iff_of_false (by with_unfolding_all decide) hset⟩

/-! ## All of it -/

theorem Formatted.asFormatted (h : Formatted prev f) (hd : Attached d f)
    (hold : OldInodesFree prev) : AsFormatted d ⟨newSuperblock⟩ rootInode where
  mount := h.init hd
  readRoot := h.readRoot hd
  list := h.list hd
  find := h.find hd
  file := ⟨helloInode, h.readHello hd, fun _ ↦ h.readFile hd⟩
  bitmap := by
    obtain ⟨bits, hbits, hbit⟩ := h.bit hd
    refine ⟨bits, hbits, fun idx hidx ↦ ?_⟩
    have hlt : idx.toNat < 64 := UInt32.lt_iff_toNat_lt.mp hidx
    rw [hbit _ hlt]
    exact h.bitmap hd hold hlt

theorem AsFormatted.oldInodesFree (h : Formatted prev f) (hd : Attached d f) {r : RelizFsReader}
    {root : Inode} (hwell : AsFormatted d r root) : OldInodesFree prev := by
  obtain rfl : (⟨newSuperblock⟩ : RelizFsReader) = r :=
    Except.ok.inj (Except.ok.inj ((h.init hd).symm.trans hwell.mount))
  intro i hlo hhi
  obtain ⟨bits, hbits, hfree⟩ := hwell.bitmap
  obtain ⟨bits', hbits', hbit⟩ := h.bit hd
  obtain rfl : bits' = bits := Except.ok.inj (hbits'.symm.trans hbits)
  have hidx : (UInt32.ofNat i).toNat = i := UInt32.toNat_ofNat_of_lt' (by
    rw [UInt32.size]
    omega)
  obtain ⟨inode, hread, hinode⟩ := hfree (UInt32.ofNat i)
    (UInt32.lt_iff_toNat_lt.mpr (by rw [hidx]; exact hhi))
  obtain ⟨inode', hread', hold⟩ := h.readOld hd (hidx.symm ▸ hlo) (hidx.symm ▸ hhi)
  obtain rfl : inode' = inode := Except.ok.inj (Except.ok.inj (hread'.symm.trans hread))
  rw [hidx] at hinode hold
  rw [hbit i hhi] at hinode
  exact hold.mp (hinode.mpr (decide_eq_false (Nat.not_lt.mpr hlo)))

/-- **The kernel finds what the formatter promises** exactly when no old inode remains. -/
theorem asFormatted_iff (hf : format relizfsStartSector prev = .ok f) (hd : Attached d f) :
    (∃ r root, AsFormatted d r root) ↔ OldInodesFree prev := by
  obtain ⟨f', hf', h⟩ := format_eq_ok prev
  obtain rfl : f' = f := Except.ok.inj (hf'.symm.trans hf)
  constructor
  · rintro ⟨r, root, hwell⟩
    exact hwell.oldInodesFree h hd
  · intro hold
    exact ⟨_, _, h.asFormatted hd hold⟩

end

/-! ### New and used images -/

/-- The drive with a file as its content. -/
def driveOf (f : DiskFile) : Drive := fun lba ↦ .ok fun i ↦ f.bytes (lba * blockSize + i)

theorem attached_driveOf (f : DiskFile) : Attached (driveOf f) f :=
  fun _ _ ↦ ⟨_, rfl, fun _ _ ↦ rfl⟩

/-- A new file. -/
def newFile : DiskFile := ⟨0, fun _ ↦ 0, 0⟩

/-- An image full of old bytes, in which no inode is used. -/
def oldFile : DiskFile := ⟨sectorStart 4096, fun a ↦ if a % sizeOfInode = 8 then 0 else 0xE5, 0⟩

theorem asFormatted_oldFile :
    ∃ f, format relizfsStartSector oldFile = .ok f ∧ ∃ r root, AsFormatted (driveOf f) r root := by
  obtain ⟨f, hf, -⟩ := format_eq_ok oldFile
  have hold : OldInodesFree oldFile := by
    intro idx _ hidx
    have hbefore : sectorStart 3 + idx * sizeOfInode + 8 < oldFile.length := by
      simp only [oldFile, sectorStart, sizeOfInode, blockSize]
      omega
    have htype : (sectorStart 3 + idx * sizeOfInode + 8) % sizeOfInode = 8 := by
      simp only [sectorStart, sizeOfInode, blockSize]
      omega
    rw [DiskFile.byteAt, if_pos hbefore]
    exact if_pos htype
  exact ⟨f, hf, (asFormatted_iff hf (attached_driveOf f)).mpr hold⟩

/-- An image with a third inode from before. -/
def usedFile : DiskFile :=
  ⟨sectorStart 4096, fun a ↦ if a = sectorStart 3 + 2 * sizeOfInode + 8 then 1 else 0, 0⟩

/-- **An old inode remains**: formatting does not clear the inode table. -/
theorem not_asFormatted :
    ¬∀ (prev f : DiskFile) (d : Drive), format relizfsStartSector prev = .ok f → Attached d f →
      ∃ r root, AsFormatted d r root := by
  intro hgeneral
  obtain ⟨f, hf, h⟩ := format_eq_ok usedFile
  obtain ⟨r, root, hwell⟩ := hgeneral usedFile f (driveOf f) hf (attached_driveOf f)
  have hbyte := hwell.oldInodesFree h (attached_driveOf f) 2 le_rfl (by omega)
  have hold : usedFile.byteAt (sectorStart 3 + 2 * sizeOfInode + 8) = 1 := by
    with_unfolding_all decide
  rw [hold] at hbyte
  exact absurd hbyte (by decide)

end RelizOS.RelizFs
