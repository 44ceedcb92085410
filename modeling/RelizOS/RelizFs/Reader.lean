import RelizOS.RelizFs.Format

/-!
# The kernel's reader

`RelizFsReader` mounts the partition and reads inodes, directories and files. Every function returns
a `Result` whose errors are texts; sector addresses are `u32` sums, which panic on overflow.
-/

open ByteMemory

namespace RelizOS.RelizFs

/-- What a function of the reader returns. -/
abbrev Fs := Fallible String

/-- `read_sector(0, RELIZFS_START_SECTOR + sector, ..)?`. -/
def readPartition (d : Drive) (sector : ℕ) : Fs Mem := do
  let lba ← Checked.add 32 relizfsStartSector sector
  readSector d lba

/-- `out_buf[pos..pos + bytes.len()].copy_from_slice(bytes)`. -/
def copyFromSlice (outBuf : List UInt8) (pos : ℕ) (bytes : List UInt8) : Checked (List UInt8) :=
  if pos + bytes.length ≤ outBuf.length then
    .ok (outBuf.take pos ++ bytes ++ outBuf.drop (pos + bytes.length))
  else .error .bounds

/-- `RelizFsReader`. -/
structure RelizFsReader where
  superblock : Superblock
  deriving DecidableEq

namespace RelizFsReader

/-- `init`: read and check the superblock. -/
def init (d : Drive) : Fs RelizFsReader := do
  let sector ← readPartition d 2
  let superblock := Superblock.read sector
  if superblock.magic ≠ relizfsMagic then
    throw "Invalid RelizFS magic number! Partition not formatted."
  else return ⟨superblock⟩

/-- `read_inode`. -/
def readInode (r : RelizFsReader) (d : Drive) (inodeIdx : UInt32) : Fs Inode :=
  if r.superblock.inodeCount ≤ inodeIdx then throw "Inode index out of bounds"
  else do
    let byteOffset := inodeIdx.toNat * sizeOfInode
    let sectorOffset := byteOffset / blockSize
    let sectorByteIndex := byteOffset % blockSize
    let targetSector ← Checked.add 32 r.superblock.inodeTableStart.toNat sectorOffset
    let sectorBuf ← readPartition d targetSector
    return Inode.read sectorBuf sectorByteIndex

/-! ## Listing a directory -/

/-- A line that `list_directory` prints. -/
structure DirectoryLine where
  typeStr : String
  name : String
  inodeNum : UInt32

/-- The type shown for an entry. -/
def typeStr (r : RelizFsReader) (d : Drive) (name : String) (inodeNum : UInt32) : Checked String :=
  if name = "." ∨ name = ".." then return "<DIR>"
  else do
    match ← (r.readInode d inodeNum).run with
    | .ok targetInode => return if targetInode.IsDirectory then "<DIR>" else "<FILE>"
    | .error _ => return "<ERR>"

/-- The loop over the entries of a block. -/
def listEntries (r : RelizFsReader) (d : Drive) :
    List DirectoryEntry → Checked (List DirectoryLine)
  | [] => return []
  | entry :: entries =>
    if entry.inodeNum ≠ 0 ∨ 0 < entry.nameLen then
      match entry.getName with
      | some name => do
        let typeStr ← r.typeStr d name entry.inodeNum
        let lines ← listEntries r d entries
        return ⟨typeStr, name, entry.inodeNum⟩ :: lines
      | none => listEntries r d entries
    else listEntries r d entries

/-- The loop over the blocks; the lines printed before a block that cannot be read stay printed. -/
def listBlocks (r : RelizFsReader) (d : Drive) :
    List UInt32 → Checked (List DirectoryLine × Except String Unit)
  | [] => return ([], .ok ())
  | blockSector :: blocks =>
    if blockSector = 0 then listBlocks r d blocks
    else do
      match ← (readPartition d blockSector.toNat).run with
      | .error e => return ([], .error e)
      | .ok sectorBuf =>
        let lines ← listEntries r d (entriesOf sectorBuf)
        let (rest, result) ← listBlocks r d blocks
        return (lines ++ rest, result)

/-- `list_directory`: the lines printed and the result. -/
def listDirectory (r : RelizFsReader) (d : Drive) (inode : Inode) :
    Checked (List DirectoryLine × Except String Unit) :=
  if inode.IsDirectory then r.listBlocks d inode.directBlocks.toList
  else return ([], .error "Inode is not a directory")

end RelizFsReader

/-! ## Finding an entry -/

/-- The inode number of an entry that has the name. -/
def matchEntry (nameToFind : String) (entry : DirectoryEntry) : Option UInt32 :=
  if entry.inodeNum ≠ 0 ∨ 0 < entry.nameLen then
    match entry.getName with
    | some name => if name = nameToFind then some entry.inodeNum else none
    | none => none
  else none

/-- The loop over the entries of a block, left at the first that has the name. -/
def findInBlock (nameToFind : String) (entries : List DirectoryEntry) : Option UInt32 :=
  entries.findSome? (matchEntry nameToFind)

/-- The loop over the blocks. -/
def findInBlocks (d : Drive) (nameToFind : String) : List UInt32 → Fs UInt32
  | [] => throw "File not found"
  | blockSector :: blocks =>
    if blockSector = 0 then findInBlocks d nameToFind blocks
    else do
      let sectorBuf ← readPartition d blockSector.toNat
      match findInBlock nameToFind (entriesOf sectorBuf) with
      | some inodeNum => return inodeNum
      | none => findInBlocks d nameToFind blocks

/-- `find_entry`, which uses no field of the reader. -/
def findEntry (d : Drive) (dirInode : Inode) (nameToFind : String) : Fs UInt32 :=
  if dirInode.IsDirectory then findInBlocks d nameToFind dirInode.directBlocks.toList
  else throw "Parent is not a directory"

/-! ## Reading a file -/

/-- The loop over the blocks, left at the first hole or when enough has been read. -/
def readBlocks (d : Drive) (bytesToRead : ℕ) :
    List UInt32 → ℕ → List UInt8 → Fs (ℕ × List UInt8)
  | [], bytesRead, outBuf => return (bytesRead, outBuf)
  | blockSector :: blocks, bytesRead, outBuf =>
    if blockSector = 0 ∨ bytesToRead ≤ bytesRead then return (bytesRead, outBuf)
    else do
      let sectorBuf ← readPartition d blockSector.toNat
      let remaining ← Checked.sub bytesToRead bytesRead
      let chunkSize := min remaining blockSize
      let outBuf ← copyFromSlice outBuf bytesRead (sectorBytes sectorBuf chunkSize)
      readBlocks d bytesToRead blocks (bytesRead + chunkSize) outBuf

/-- `read_file`, which uses no field of the reader: the number of bytes read and the buffer. -/
def readFile (d : Drive) (inode : Inode) (outBuf : List UInt8) : Fs (ℕ × List UInt8) :=
  if inode.IsFile then
    readBlocks d (min inode.size.toNat outBuf.length) inode.directBlocks.toList 0 outBuf
  else throw "Inode is not a regular file"

end RelizOS.RelizFs
