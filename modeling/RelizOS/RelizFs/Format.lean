import RelizOS.Library.ByteMemory
import RelizOS.Library.Fallible

/-!
# The RelizFS on-disk format

Sectors of 512 bytes: the superblock in sector 2 of the partition, an inode table of 64-byte inodes,
and directory blocks of 16 entries of 32 bytes. All structures are packed and little-endian, and the
kernel reads them in place with `read_unaligned`. A buffer that holds a sector is a memory whose
first 512 bytes are those of the sector.
-/

open ByteMemory

namespace RelizOS.RelizFs

/-- `RELIZFS_MAGIC`. -/
def relizfsMagic : UInt64 := 0x52454C495A4653

/-- `BLOCK_SIZE`. -/
def blockSize : ℕ := 512

/-- `MAX_FILENAME_LEN`. -/
def maxFilenameLen : ℕ := 27

/-- `RELIZFS_START_SECTOR`. -/
def relizfsStartSector : ℕ := 40000

/-- `size_of::<Inode>()`. -/
def sizeOfInode : ℕ := 64

/-- `size_of::<DirectoryEntry>()`. -/
def sizeOfEntry : ℕ := 32

/-- A `u32` at an address. -/
def readU32 (s : Mem) (a : ℕ) : UInt32 := UInt32.ofNat (readLE s a 4)

/-! ## Structures -/

/-- `Superblock`. -/
structure Superblock where
  magic : UInt64
  totalBlocks : UInt32
  inodeCount : UInt32
  inodeTableStart : UInt32
  inodeTableBlocks : UInt32
  inodeBitmapStart : UInt32
  blockBitmapStart : UInt32
  dataBlocksStart : UInt32
  dataBlocksCount : UInt32
  deriving DecidableEq

/-- `read_unaligned` of a superblock. -/
def Superblock.read (s : Mem) : Superblock where
  magic := readU64 s 0
  totalBlocks := readU32 s 8
  inodeCount := readU32 s 12
  inodeTableStart := readU32 s 16
  inodeTableBlocks := readU32 s 20
  inodeBitmapStart := readU32 s 24
  blockBitmapStart := readU32 s 28
  dataBlocksStart := readU32 s 32
  dataBlocksCount := readU32 s 36

/-- `Inode`. -/
structure Inode where
  /-- The length of the file in bytes. -/
  size : UInt64
  /-- 0 is unused, 1 a regular file, 2 a directory. -/
  fileType : UInt8
  reservedFlags : UInt8
  /-- The sectors of the content, 0 where none is allocated. -/
  directBlocks : Vector UInt32 10
  singleIndirect : UInt32
  doubleIndirect : UInt32
  /-- The padding to 64 bytes. -/
  reserved : Vector UInt8 6
  deriving DecidableEq

/-- `read_unaligned` of an inode. -/
def Inode.read (s : Mem) (a : ℕ) : Inode where
  size := readU64 s a
  fileType := s (a + 8)
  reservedFlags := s (a + 9)
  directBlocks := Vector.ofFn fun i ↦ readU32 s (a + 10 + 4 * i)
  singleIndirect := readU32 s (a + 50)
  doubleIndirect := readU32 s (a + 54)
  reserved := Vector.ofFn fun i ↦ s (a + 58 + i)

namespace Inode

/-- `direct_blocks[0]`. -/
def firstBlock (i : Inode) : UInt32 := i.directBlocks[0]

/-- `is_free`. -/
def IsFree (i : Inode) : Prop := i.fileType = 0

/-- `is_directory`. -/
def IsDirectory (i : Inode) : Prop := i.fileType = 2

/-- `is_file`. -/
def IsFile (i : Inode) : Prop := i.fileType = 1

instance (i : Inode) : Decidable i.IsFree := inferInstanceAs (Decidable (_ = _))

instance (i : Inode) : Decidable i.IsDirectory := inferInstanceAs (Decidable (_ = _))

instance (i : Inode) : Decidable i.IsFile := inferInstanceAs (Decidable (_ = _))

end Inode

/-- `DirectoryEntry`. -/
structure DirectoryEntry where
  inodeNum : UInt32
  nameLen : UInt8
  name : Vector UInt8 27
  deriving DecidableEq

/-- `read_unaligned` of a directory entry. -/
def DirectoryEntry.read (s : Mem) (a : ℕ) : DirectoryEntry where
  inodeNum := readU32 s a
  nameLen := s (a + 4)
  name := Vector.ofFn fun i ↦ s (a + 5 + i)

/-- `core::str::from_utf8`. -/
def fromUtf8 (bytes : List UInt8) : Option String := String.fromUTF8? ⟨bytes.toArray⟩

/-- `get_name`. -/
def DirectoryEntry.getName (e : DirectoryEntry) : Option String :=
  fromUtf8 (e.name.toList.take (min e.nameLen.toNat maxFilenameLen))

/-- The entries of a directory block. -/
def entriesOf (s : Mem) : List DirectoryEntry :=
  (List.range (blockSize / sizeOfEntry)).map fun i ↦ .read s (i * sizeOfEntry)

/-- The `n` bytes at an address. -/
def readBytes (m : Mem) (a n : ℕ) : List UInt8 := (List.range n).map fun i ↦ m (a + i)

/-- The first `n` bytes of a sector. -/
def sectorBytes (s : Mem) (n : ℕ) : List UInt8 := (List.range n).map s

/-! ## The drive -/

/-- What the drive answers to a read: the sector, or why it cannot be read. -/
abbrev Drive := ℕ → Except String Mem

/-- `read_sector(0, lba, ..)`, which sends 28 bits of the address to the drive. -/
def readSector (d : Drive) (lba : ℕ) : Except String Mem := d (lba % 2 ^ 28)

/-- Every sector can be read. -/
def Readable (d : Drive) : Prop := ∀ lba, ∃ s, d lba = .ok s

/-- Bytes at some places of a sector that is zero elsewhere. -/
def sectorWith (pieces : List (ℕ × List UInt8)) : Mem :=
  pieces.foldl (fun m p ↦ writeBytes m p.1 p.2) fun _ ↦ 0

end RelizOS.RelizFs
