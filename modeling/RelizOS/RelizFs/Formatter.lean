import RelizOS.Library.ByteStrings
import RelizOS.RelizFs.Image

/-!
# The formatter

The host tool lays a file system out in a disk image: it extends the file if it is too short and
then writes the superblock, the two bitmaps, the inodes of the root directory and of `hello.txt`,
the directory block and the content of the file, each at its place. What it does not write keeps its
previous content.

The structures are written as they lie in memory (`Superblock.bytes`, `Inode.bytes`,
`DirectoryEntry.bytes`), and reading them back gives the same structure (`Superblock.read_bytes`,
`Inode.read_bytes`, `entriesOf_bytes`). `format_eq_ok` says what the file holds afterwards.
-/

open ByteMemory

namespace RelizOS.RelizFs

/-! ## Structures as bytes -/

/-- The bytes of a superblock. -/
def Superblock.bytes (sb : Superblock) : List UInt8 :=
  leBytes 8 sb.magic.toNat ++ leBytes 4 sb.totalBlocks.toNat ++ leBytes 4 sb.inodeCount.toNat ++
    leBytes 4 sb.inodeTableStart.toNat ++ leBytes 4 sb.inodeTableBlocks.toNat ++
    leBytes 4 sb.inodeBitmapStart.toNat ++ leBytes 4 sb.blockBitmapStart.toNat ++
    leBytes 4 sb.dataBlocksStart.toNat ++ leBytes 4 sb.dataBlocksCount.toNat

/-- The bytes of an inode. -/
def Inode.bytes (i : Inode) : List UInt8 :=
  leBytes 8 i.size.toNat ++ [i.fileType, i.reservedFlags] ++
    i.directBlocks.toList.flatMap (fun b ↦ leBytes 4 b.toNat) ++
    leBytes 4 i.singleIndirect.toNat ++ leBytes 4 i.doubleIndirect.toNat ++ i.reserved.toList

/-- The bytes of a directory entry. -/
def DirectoryEntry.bytes (e : DirectoryEntry) : List UInt8 :=
  leBytes 4 e.inodeNum.toNat ++ [e.nameLen] ++ e.name.toList

theorem Superblock.length_bytes (sb : Superblock) : sb.bytes.length = 40 := by
  simp [Superblock.bytes]

theorem length_flatMap_of_forall {α : Type} {f : α → List UInt8} {k : ℕ}
    (hf : ∀ x, (f x).length = k) (l : List α) : (l.flatMap f).length = k * l.length := by
  simp [List.length_flatMap, hf, mul_comm]

theorem Inode.length_bytes (i : Inode) : i.bytes.length = sizeOfInode := by
  simp only [Inode.bytes, List.length_append, length_leBytes,
    length_flatMap_of_forall fun b : UInt32 ↦ length_leBytes 4 b.toNat, Vector.length_toList]
  rfl

theorem DirectoryEntry.length_bytes (e : DirectoryEntry) : e.bytes.length = sizeOfEntry := by
  rw [DirectoryEntry.bytes, List.length_append, List.length_append, length_leBytes,
    Vector.length_toList]
  rfl

section

variable {s : Mem} {a : ℕ}

theorem readU32_of_bytesAt {v : UInt32} (h : BytesAt s a (leBytes 4 v.toNat)) :
    readU32 s a = v := by
  have hlt : v.toNat < 256 ^ 4 := v.toNat_lt
  rw [readU32, readLE_of_bytesAt h, Nat.mod_eq_of_lt hlt, UInt32.ofNat_toNat]

theorem Superblock.read_bytes {sb : Superblock} (h : BytesAt s 0 sb.bytes) :
    Superblock.read s = sb := by
  rw [Superblock.bytes] at h
  simp only [bytesAt_append, List.length_append, length_leBytes, Nat.zero_add, Nat.reduceAdd] at h
  obtain ⟨⟨⟨⟨⟨⟨⟨⟨h0, h1⟩, h2⟩, h3⟩, h4⟩, h5⟩, h6⟩, h7⟩, h8⟩ := h
  rw [Superblock.read, readU64_of_bytesAt h0, readU32_of_bytesAt h1, readU32_of_bytesAt h2,
    readU32_of_bytesAt h3, readU32_of_bytesAt h4, readU32_of_bytesAt h5, readU32_of_bytesAt h6,
    readU32_of_bytesAt h7, readU32_of_bytesAt h8]

theorem Inode.read_bytes {i : Inode} (h : BytesAt s a i.bytes) : Inode.read s a = i := by
  rw [Inode.bytes] at h
  simp only [bytesAt_append, bytesAt_cons, List.length_append, List.length_cons, List.length_nil,
    length_flatMap_of_forall fun b : UInt32 ↦ length_leBytes 4 b.toNat, Vector.length_toList,
    length_leBytes, Nat.zero_add, Nat.reduceAdd, Nat.reduceMul] at h
  obtain ⟨⟨⟨⟨⟨hsize, htype, hflags, -⟩, hblocks⟩, hsingle⟩, hdouble⟩, hpadding⟩ := h
  have hread : (Vector.ofFn fun j : Fin 10 ↦ readU32 s (a + 10 + 4 * j)) = i.directBlocks := by
    apply Vector.ext
    intro j hj
    have hblock := (bytesAt_flatMap fun b ↦ length_leBytes 4 (UInt32.toNat b)).mp hblocks j
      (by rw [Vector.length_toList]; exact hj)
    rw [Vector.getElem_ofFn, readU32_of_bytesAt hblock, Vector.getElem_toList]
  have hreserved : (Vector.ofFn fun j : Fin 6 ↦ s (a + 58 + j)) = i.reserved := by
    apply Vector.ext
    intro j hj
    rw [Vector.getElem_ofFn, hpadding j (by rw [Vector.length_toList]; exact hj),
      Vector.getElem_toList]
  rw [Inode.read, readU64_of_bytesAt hsize, htype, hflags, hread, readU32_of_bytesAt hsingle,
    readU32_of_bytesAt hdouble, hreserved]

theorem DirectoryEntry.read_bytes {e : DirectoryEntry} (h : BytesAt s a e.bytes) :
    DirectoryEntry.read s a = e := by
  rw [DirectoryEntry.bytes] at h
  simp only [bytesAt_append, bytesAt_singleton, List.length_append, List.length_singleton,
    length_leBytes, Nat.reduceAdd] at h
  obtain ⟨⟨hnum, hlen⟩, hname⟩ := h
  have hread : (Vector.ofFn fun i : Fin 27 ↦ s (a + 5 + i)) = e.name := by
    apply Vector.ext
    intro i hi
    rw [Vector.getElem_ofFn, hname i (by rw [Vector.length_toList]; exact hi),
      Vector.getElem_toList]
  rw [DirectoryEntry.read, readU32_of_bytesAt hnum, hlen, hread]

theorem entriesOf_bytes {es : List DirectoryEntry} (hlen : es.length = 16)
    (h : BytesAt s 0 (es.flatMap DirectoryEntry.bytes)) : entriesOf s = es := by
  rw [bytesAt_flatMap DirectoryEntry.length_bytes] at h
  apply List.ext_getElem
  · rw [entriesOf, List.length_map, List.length_range, hlen]
    rfl
  · intro i hi hi'
    have hentry := h i hi'
    rw [Nat.zero_add, mul_comm] at hentry
    simp only [entriesOf, List.getElem_map, List.getElem_range, DirectoryEntry.read_bytes hentry]

end

/-! ## Files -/

/-- An open file. Behind its length the bytes mean nothing. -/
structure DiskFile where
  length : ℕ
  bytes : Mem
  /-- The position of the next write. -/
  cursor : ℕ

namespace DiskFile

/-- The byte at a position, zero where a longer file would have a hole. -/
def byteAt (f : DiskFile) (a : ℕ) : UInt8 := if a < f.length then f.bytes a else 0

/-- `set_len`: new bytes are zero. -/
def setLen (f : DiskFile) (n : ℕ) : DiskFile := { f with length := n, bytes := f.byteAt }

/-- `seek(SeekFrom::Start(..))`. -/
def seek (f : DiskFile) (a : ℕ) : DiskFile := { f with cursor := a }

/-- `write_all`. -/
def writeAll (f : DiskFile) (bs : List UInt8) : DiskFile where
  length := max f.length (f.cursor + bs.length)
  bytes := writeBytes f.bytes f.cursor bs
  cursor := f.cursor + bs.length

end DiskFile

/-! ## `main` -/

/-- `DirectoryEntry::new`. -/
def DirectoryEntry.new (inodeNum : UInt32) (nameStr : String) : DirectoryEntry where
  inodeNum := inodeNum
  nameLen := UInt8.ofNat (min (bytesOf nameStr).length maxFilenameLen)
  name := Vector.ofFn fun i ↦ ((bytesOf nameStr)[i.val]?).getD 0

/-- `sb`. -/
def newSuperblock : Superblock where
  magic := relizfsMagic
  totalBlocks := 4096
  inodeCount := 64
  inodeTableStart := 3
  inodeTableBlocks := 8
  inodeBitmapStart := 11
  blockBitmapStart := 12
  dataBlocksStart := 13
  dataBlocksCount := 4096 - 13

/-- `inode_bitmap` and `block_bitmap`: the first two are allocated. -/
def newBitmap : List UInt8 := 0b0000_0011 :: List.replicate 511 0

/-- `test_file_content`. -/
def testFileContent : String :=
  "Hello from RelizFS on Rust UEFI!\n" ++
    "If you can read this, your custom filesystem driver works perfectly!\n"

/-- An inode with one direct block. -/
def inodeWith (size : UInt64) (fileType : UInt8) (block : UInt32) : Inode where
  size := size
  fileType := fileType
  reservedFlags := 0
  directBlocks := (Vector.replicate 10 0).setIfInBounds 0 block
  singleIndirect := 0
  doubleIndirect := 0
  reserved := Vector.replicate 6 0

/-- `root_inode`. -/
def rootInode : Inode := inodeWith 512 2 newSuperblock.dataBlocksStart

/-- `hello_inode`. -/
def helloInode : Inode :=
  inodeWith (UInt64.ofNat (bytesOf testFileContent).length) 1 (newSuperblock.dataBlocksStart + 1)

/-- The entries of the root directory. -/
def newEntries : List DirectoryEntry := [.new 0 ".", .new 0 "..", .new 1 "hello.txt"]

/-- `dir_block`. -/
def dirBlock : List UInt8 :=
  newEntries.flatMap DirectoryEntry.bytes ++ List.replicate (blockSize - 3 * sizeOfEntry) 0

/-- `file_block`. -/
def fileBlock : List UInt8 :=
  bytesOf testFileContent ++ List.replicate (blockSize - (bytesOf testFileContent).length) 0

/-- The position of a sector of the partition. -/
def positionOf (sectorOffset sector : ℕ) : Checked ℕ := do
  Checked.mul 64 (← Checked.add 64 sectorOffset sector) blockSize

/-- `main`, on an open file. -/
def format (sectorOffset : ℕ) (file : DiskFile) : Checked DiskFile := do
  let requiredSize ← positionOf sectorOffset newSuperblock.totalBlocks.toNat
  let file := if file.length < requiredSize then file.setLen requiredSize else file
  let file := (file.seek (← positionOf sectorOffset 2)).writeAll newSuperblock.bytes
  let file := (file.seek (← positionOf sectorOffset 11)).writeAll newBitmap
  let file := (file.seek (← positionOf sectorOffset 12)).writeAll newBitmap
  let file := (file.seek (← positionOf sectorOffset 3)).writeAll rootInode.bytes
  let file := file.writeAll helloInode.bytes
  let file := (file.seek (← positionOf sectorOffset 13)).writeAll dirBlock
  return (file.seek (← positionOf sectorOffset (13 + 1))).writeAll fileBlock

/-! ## What the file holds afterwards -/

/-- The position of a sector of the kernel's partition. -/
def sectorStart (sector : ℕ) : ℕ := (relizfsStartSector + sector) * blockSize

/-- The formatter has written its parts of the file, and the inode table behind the first two inodes
is as it was. -/
structure Formatted (prev f : DiskFile) : Prop where
  length : sectorStart 4096 ≤ f.length
  superblock : BytesAt f.bytes (sectorStart 2) newSuperblock.bytes
  root : BytesAt f.bytes (sectorStart 3) rootInode.bytes
  hello : BytesAt f.bytes (sectorStart 3 + sizeOfInode) helloInode.bytes
  inodeBitmap : BytesAt f.bytes (sectorStart 11) newBitmap
  dirBlock : BytesAt f.bytes (sectorStart 13) dirBlock
  fileBlock : BytesAt f.bytes (sectorStart 14) fileBlock
  kept : ∀ a, sectorStart 3 + 2 * sizeOfInode ≤ a → a < sectorStart 11 → f.bytes a = prev.byteAt a

theorem positionOf_eq {sector : ℕ} (h : sector ≤ 4096) :
    positionOf relizfsStartSector sector = .ok (sectorStart sector) := by
  have hsum : relizfsStartSector + sector ≤ 44096 := Nat.add_le_add_left h 40000
  have hprod : (relizfsStartSector + sector) * blockSize ≤ 44096 * 512 :=
    Nat.mul_le_mul_right 512 hsum
  rw [positionOf, Checked.add_of_lt (by omega), Checked.ok_bind, Checked.mul, if_pos (by omega)]
  rfl

theorem length_newBitmap : newBitmap.length = blockSize := by
  rw [newBitmap, List.length_cons, List.length_replicate]
  rfl

theorem length_dirBlock : dirBlock.length = blockSize := by
  rw [dirBlock, List.length_append, length_flatMap_of_forall DirectoryEntry.length_bytes,
    List.length_replicate]
  rfl

theorem length_fileBlock : fileBlock.length = blockSize := by
  have hfits : (bytesOf testFileContent).length ≤ blockSize := by with_unfolding_all decide
  rw [fileBlock, List.length_append, List.length_replicate]
  omega

/-- The file that is written to: all of it up to the end of the partition is there. -/
def extended (prev : DiskFile) : DiskFile :=
  if prev.length < sectorStart 4096 then prev.setLen (sectorStart 4096) else prev

theorem length_extended (prev : DiskFile) : sectorStart 4096 ≤ (extended prev).length := by
  rw [extended]
  split
  · exact le_rfl
  · omega

theorem bytes_extended {prev : DiskFile} {a : ℕ} (h : a < sectorStart 4096) :
    (extended prev).bytes a = prev.byteAt a := by
  rw [extended]
  split
  · rfl
  · rw [DiskFile.byteAt, if_pos (by omega)]

theorem sectorStart_add (sector n : ℕ) :
    sectorStart (sector + n) = sectorStart sector + n * blockSize := by
  rw [sectorStart, sectorStart, ← add_assoc, Nat.add_mul]

theorem sectorStart_mono {sector sector' : ℕ} (h : sector ≤ sector') :
    sectorStart sector ≤ sectorStart sector' :=
  Nat.mul_le_mul_right _ (Nat.add_le_add_left h _)

theorem formatted_writes {prev file : DiskFile} (hlength : sectorStart 4096 ≤ file.length)
    (hkept : ∀ a, a < sectorStart 4096 → file.bytes a = prev.byteAt a) :
    Formatted prev
      ((((((((((file.seek (sectorStart 2)).writeAll newSuperblock.bytes).seek
        (sectorStart 11)).writeAll newBitmap).seek (sectorStart 12)).writeAll newBitmap).seek
        (sectorStart 3)).writeAll rootInode.bytes |>.writeAll helloInode.bytes).seek
        (sectorStart 13)).writeAll dirBlock |>.seek (sectorStart (13 + 1))
        |>.writeAll fileBlock) := by
  have hsb := newSuperblock.length_bytes
  have hroot : rootInode.bytes.length = 64 := rootInode.length_bytes
  have hhello : helloInode.bytes.length = 64 := helloInode.length_bytes
  have hbitmap : newBitmap.length = 512 := length_newBitmap
  have hdir : dirBlock.length = 512 := length_dirBlock
  have hfile : fileBlock.length = 512 := length_fileBlock
  have hinode : sizeOfInode = 64 := rfl
  -- every sector is at a fixed distance from the start of the partition
  have hstart : ∀ sector, sectorStart sector = sectorStart 0 + sector * 512 := by
    intro sector
    rw [← Nat.zero_add sector, sectorStart_add, Nat.zero_add]
    rfl
  rw [hstart] at hlength
  constructor
  -- no write makes the file shorter
  · simp only [DiskFile.seek, DiskFile.writeAll, hstart 4096, le_max_iff, hlength, true_or]
  all_goals
    simp only [DiskFile.seek, DiskFile.writeAll, hstart 2, hstart 3, hstart 11, hstart 12,
      hstart 13, hstart 14, hroot, hinode]
  · refine BytesAt.writeBytes (.writeBytes (.writeBytes (.writeBytes (.writeBytes (.writeBytes
      (bytesAt_writeBytes _ _ _) ?_) ?_) ?_) ?_) ?_) ?_ <;> omega
  · refine BytesAt.writeBytes (.writeBytes (.writeBytes (bytesAt_writeBytes _ _ _) ?_) ?_) ?_ <;>
      omega
  · refine BytesAt.writeBytes (.writeBytes (bytesAt_writeBytes _ _ _) ?_) ?_ <;> omega
  · refine BytesAt.writeBytes (.writeBytes (.writeBytes (.writeBytes (.writeBytes
      (bytesAt_writeBytes _ _ _) ?_) ?_) ?_) ?_) ?_ <;> omega
  · refine BytesAt.writeBytes (bytesAt_writeBytes _ _ _) ?_
    omega
  · exact bytesAt_writeBytes _ _ _
  · intro a hlo hhi
    have hlt : a < sectorStart 4096 :=
      lt_of_lt_of_le (hhi.trans_eq (hstart 11).symm) (sectorStart_mono (show 11 ≤ 4096 by omega))
    rw [writeBytes_outside (by omega), writeBytes_outside (by omega),
      writeBytes_outside (by omega), writeBytes_outside (by omega),
      writeBytes_outside (by omega), writeBytes_outside (by omega), writeBytes_outside (by omega)]
    exact hkept a hlt

/-- **Formatting** succeeds and leaves this in the file. -/
theorem format_eq_ok (prev : DiskFile) :
    ∃ f, format relizfsStartSector prev = .ok f ∧ Formatted prev f := by
  have hrequired : newSuperblock.totalBlocks.toNat = 4096 := rfl
  rw [format, hrequired]
  simp only [positionOf_eq (show 4096 ≤ 4096 by omega), positionOf_eq (show 2 ≤ 4096 by omega),
    positionOf_eq (show 11 ≤ 4096 by omega), positionOf_eq (show 12 ≤ 4096 by omega),
    positionOf_eq (show 3 ≤ 4096 by omega), positionOf_eq (show 13 ≤ 4096 by omega),
    positionOf_eq (show 13 + 1 ≤ 4096 by omega), Checked.ok_bind, Checked.pure_eq_ok]
  exact ⟨_, rfl, formatted_writes (length_extended prev) fun a ↦ bytes_extended⟩

end RelizOS.RelizFs
