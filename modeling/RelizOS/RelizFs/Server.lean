import RelizOS.Kernel.Syscall
import RelizOS.RelizFs.Format

/-!
# The file system server

`task_fs_server` answers two kinds of requests, for the listing of the root directory
(`MSG_FS_LIST`) and for the first block of a file (`MSG_FS_READ`). It has its own reading of the
format: both begin with the same steps to the first block of the root directory (`rootSector`), and
look inodes up in the same way (`entryInode`), which the source writes out in each of the two.

A sector is read by an exchange with the ATA server; what matters of it here is whether it succeeds
and what it leaves in the buffer. The memory is that of the client, with the file name and the
buffers that the request points to.
-/

open ByteMemory

namespace RelizOS.RelizFs

/-- `fs_read_sector(40000 + sector, ..)`: the sector that the ATA server copies into the buffer, if
it replies with `MSG_ATA_OK`. -/
def fsReadSector (d : Drive) (sector : ℕ) : Checked (Option Mem) := do
  let lba ← Checked.add 32 relizfsStartSector sector
  return (readSector d lba).toOption

/-- The way to the root directory: the superblock, the root inode, and the first direct block of
the root inode. -/
def rootSector (d : Drive) : Checked (Option (Superblock × Mem)) := do
  match ← fsReadSector d 2 with
  | none => return none
  | some sector =>
    let sb := Superblock.read sector
    match ← fsReadSector d sb.inodeTableStart.toNat with
    | none => return none
    | some sectorBuf =>
      let rootInode := Inode.read sectorBuf 0
      match ← fsReadSector d rootInode.firstBlock.toNat with
      | none => return none
      | some dirSector => return some (sb, dirSector)

/-- The inode of an entry. -/
def entryInode (d : Drive) (sb : Superblock) (inodeNum : UInt32) : Checked (Option Inode) := do
  let byteOffset := inodeNum.toNat * sizeOfInode
  let sOffset := byteOffset / blockSize
  let bIndex := byteOffset % blockSize
  let inodeSector ← Checked.add 32 sb.inodeTableStart.toNat sOffset
  match ← fsReadSector d inodeSector with
  | none => return none
  | some inodeBuf => return some (Inode.read inodeBuf bIndex)

/-! ## `MSG_FS_LIST` -/

/-- The size of `list_res`. -/
def listSize : ℕ := 1024

/-- `append`: the text grows as far as it fits into `list_res`. -/
def append (listRes s : List UInt8) : List UInt8 := listRes ++ s.take (listSize - listRes.length)

/-- The loop that writes the digits of `size` into `size_buf`; `sIdx` is the position of the first
digit. -/
def sizeDigits : ℕ → ℕ → List UInt8 → Checked (List UInt8)
  | 0, size, digits => if 0 < size then .error .overflow else .ok digits
  | sIdx + 1, size, digits =>
    if 0 < size then sizeDigits sIdx (size / 10) (UInt8.ofNat (48 + size % 10) :: digits)
    else .ok digits

/-- The decimal text of a size, made in a buffer of 20 bytes. -/
def sizeText (size : UInt64) : Checked (List UInt8) :=
  if size = 0 then .ok [48] else sizeDigits 20 size.toNat []

/-- What an entry adds to the listing. -/
def listEntry (listRes : List UInt8) (name : String) (inode : Inode) : Checked (List UInt8) := do
  let listRes :=
    if inode.IsDirectory then append listRes (bytesOf "[DIR]  ")
    else append listRes (bytesOf "[FILE] ")
  let listRes := append listRes (bytesOf name)
  let listRes ←
    if inode.IsFile then do
      let sizeStr ← sizeText inode.size
      pure (append (append (append listRes (bytesOf " (")) sizeStr) (bytesOf " bytes)"))
    else pure listRes
  return append listRes (bytesOf "\n")

/-- The loop over the entries of the root directory. -/
def listEntries (d : Drive) (sb : Superblock) :
    List DirectoryEntry → List UInt8 → Checked (List UInt8)
  | [], listRes => return listRes
  | entry :: entries, listRes =>
    if entry.inodeNum ≠ 0 ∧ 0 < entry.nameLen then
      match entry.getName with
      | some name => do
        match ← entryInode d sb entry.inodeNum with
        | some inode => listEntries d sb entries (← listEntry listRes name inode)
        | none => listEntries d sb entries listRes
      | none => listEntries d sb entries listRes
    else listEntries d sb entries listRes

/-- The listing in `list_res`, without the terminator. -/
def listing (d : Drive) : Checked (List UInt8) := do
  match ← rootSector d with
  | none => return []
  | some (sb, dirSector) => listEntries d sb (entriesOf dirSector) []

/-- `MSG_FS_LIST`: the listing, terminated if there is room, is copied into the client's buffer. -/
def fsList (d : Drive) (mem : Mem) (clientBuf maxLen : ℕ) : Checked (Message × Mem) := do
  let listRes ← listing d
  let listRes := if listRes.length < listSize then listRes ++ [0] else listRes
  return (⟨2, 0, 0, 0, 0, 0⟩, writeBytes mem clientBuf (listRes.take maxLen))

/-! ## `MSG_FS_READ` -/

/-- The loop that measures the file name: `len` bytes are not NUL, and at most `fuel` more are
looked at. -/
def filenameLen (mem : Mem) (filenamePtr : ℕ) : ℕ → ℕ → ℕ
  | 0, len => len
  | fuel + 1, len =>
    if mem (filenamePtr + len) ≠ 0 ∧ len < 32 then filenameLen mem filenamePtr fuel (len + 1)
    else len

/-- The file name of a request. -/
def targetFilename (mem : Mem) (filenamePtr : ℕ) : String :=
  let len := filenameLen mem filenamePtr 33 0
  (fromUtf8 (readBytes mem filenamePtr len)).getD ""

/-- The file of an entry: the number of bytes copied, if the inode and its first block can be
read. -/
def copyFile (d : Drive) (sb : Superblock) (inodeNum : UInt32) (mem : Mem) (clientBuf maxLen : ℕ) :
    Checked (Option ℕ × Mem) := do
  match ← entryInode d sb inodeNum with
  | none => return (none, mem)
  | some fileInode =>
    let fileBlock := fileInode.firstBlock
    match ← fsReadSector d fileBlock.toNat with
    | none => return (none, mem)
    | some dataSector =>
      let copySize := min fileInode.size.toNat maxLen
      let mem := writeBytes mem clientBuf (sectorBytes dataSector copySize)
      let mem := if copySize < maxLen then writeBytes mem (clientBuf + copySize) [0] else mem
      return (some copySize, mem)

/-- The loop over the entries of the root directory, left at the first that has the name. -/
def readEntries (d : Drive) (sb : Superblock) (target : String) (mem : Mem)
    (clientBuf maxLen : ℕ) : List DirectoryEntry → Checked (Option ℕ × Mem)
  | [] => return (none, mem)
  | entry :: entries =>
    if entry.inodeNum ≠ 0 ∧ 0 < entry.nameLen then
      match entry.getName with
      | some name =>
        if name = target then copyFile d sb entry.inodeNum mem clientBuf maxLen
        else readEntries d sb target mem clientBuf maxLen entries
      | none => readEntries d sb target mem clientBuf maxLen entries
    else readEntries d sb target mem clientBuf maxLen entries

/-- `MSG_FS_READ`: the reply, and the memory of the client. -/
def fsRead (d : Drive) (mem : Mem) (filenamePtr clientBuf maxLen : ℕ) :
    Checked (Message × Mem) := do
  let target := targetFilename mem filenamePtr
  let (copied, mem) ←
    match ← rootSector d with
    | none => pure (none, mem)
    | some (sb, dirSector) =>
      readEntries d sb target mem clientBuf maxLen (entriesOf dirSector)
  match copied with
  | some bytesCopied => return (⟨2, 0, UInt64.ofNat bytesCopied, 0, 0, 0⟩, mem)
  | none => return (⟨2, 999, 0, 0, 0, 0⟩, mem)

end RelizOS.RelizFs
