import RelizOS.Library.Dialogue
import RelizOS.Library.RawPointer
import RelizOS.RelizFs.Server
import RelizOS.Services.Programs

/-!
# The file system server and its calls

The replies of `task_fs_server` have been computed so far as if the drive were at hand. Here the
server is taken for what it is, a program in a memory that it shares with the other tasks, which
gets each sector by an exchange with the ATA server: a request with the address of a buffer of its
own, and a reply that says whether the buffer has been filled.

This version lies between two others. Seen from the kernel, all that the server does is to make IPC
calls, and it makes them as `TaskFsServer` says, whatever it is answered (`follows_taskFsServer`).
Seen from a client, with the ATA server behind it, it replies what `fsList` and `fsRead` compute
from the drive. For that it needs one thing of its own buffers: the directory sector must survive
the exchanges for the inodes. Of the clients it needs pointers that they may use themselves, since
it follows them unchecked.

## What is left out

How the kernel carries a message and when the other tasks run. While the server is in a call, others
may change the memory.
-/

open ByteMemory

namespace RelizOS

open RelizFs (Superblock Inode DirectoryEntry Drive)

/-! ## Programs with a memory -/

/-- A task computes with the memory, and asks by IPC calls. A call is made with the memory as it is,
and ends with the memory as it is then, a receive with a message as well. -/
abbrev Service := StateT Mem (Dialogue (IpcAction × Mem) (Message × Mem) Fault)

namespace Service

/-- System call 3. -/
def send (destId : ℕ) (msg : Message) : Service Unit :=
  fun mem ↦ .ask (.send destId msg, mem) fun a ↦ .done ((), a.2)

/-- System call 4. -/
def recv (srcFilter : ℕ) : Service Message := fun mem ↦ .ask (.recv srcFilter, mem) .done

/-- A computation that may panic. -/
def checked {α : Type} (c : Checked α) : Service α :=
  fun mem ↦ Dialogue.ofExcept c >>= fun a ↦ .done (a, mem)

/-- Going on where `p` holds. -/
def require (p : Prop) [Decidable p] : Service Unit :=
  checked (if p then .ok () else .error .pointer)

/-- `core::ptr::copy_nonoverlapping` of the bytes `bs` at `src`. -/
def copy (accessible : ℕ → Bool) (src dst : ℕ) (bs : List UInt8) : Service Unit := do
  set (← checked (copyNonoverlapping accessible (← get) src dst bs))

/-- A byte is written through a pointer. -/
def store (accessible : ℕ → Bool) (p : ℕ) (b : UInt8) : Service Unit := do
  require (ValidPtr accessible p 1)
  modify fun mem ↦ writeBytes mem p [b]

section

variable {α : Type} {accessible : ℕ → Bool} {src dst ptr : ℕ} {bs : List UInt8}

theorem bind_of_done {β : Type} {x : Service β} {b : β} {mem mem' : Mem}
    (h : x mem = .done (b, mem')) (f : β → Service α) : (x >>= f) mem = f b mem' := by
  have hbind : (x >>= f) mem = x mem >>= fun r ↦ f r.1 r.2 := rfl
  rw [hbind, h]
  rfl

theorem require_of_holds {p : Prop} [Decidable p] (hp : p) (mem : Mem) :
    require p mem = .done ((), mem) := by
  rw [require, if_pos hp]
  rfl

theorem copy_of_valid (h : ValidCopy accessible src dst bs.length) (mem : Mem) :
    copy accessible src dst bs mem = .done ((), writeBytes mem dst bs) := by
  have hcopy : copy accessible src dst bs mem =
      (checked (copyNonoverlapping accessible mem src dst bs) >>= set) mem := rfl
  rw [hcopy, copyNonoverlapping_of_valid h]
  rfl

theorem store_of_valid (h : ValidPtr accessible ptr 1) (b : UInt8) (mem : Mem) :
    store accessible ptr b mem = .done ((), writeBytes mem ptr [b]) :=
  bind_of_done (require_of_holds h mem) _

end

end Service

namespace FsServer

/-! ## The code -/

/-- The buffers on the stack of the server, by their addresses. -/
structure Buffers where
  sector : UInt64
  sectorBuf : UInt64
  dirSector : UInt64
  inodeBuf : UInt64
  dataSector : UInt64
  /-- The inodes are not read over the directory. -/
  apart : dirSector.toNat + 512 ≤ inodeBuf.toNat ∨ inodeBuf.toNat + 512 ≤ dirSector.toNat

/-- The same for `MSG_FS_LIST`, where the text has a buffer of 1024 bytes. -/
structure ListBuffers extends Buffers where
  listRes : UInt64

/-- The bytes from the address of a buffer on. -/
def bufferAt (mem : Mem) (buf : UInt64) : Mem := fun i ↦ mem (buf.toNat + i)

/-- `fs_read_sector`. -/
def fsReadSector (lba : ℕ) (bufPtr : UInt64) : Service Bool := do
  Service.send 3 ⟨2, 1, UInt64.ofNat lba, bufPtr, 0, 0⟩
  let resp ← Service.recv 3
  return resp.msgType = 0

/-- A new buffer, and `fs_read_sector(40000 + sector, ..)` into it; the buffer, if that is `Ok`. -/
def readInto (sector : ℕ) (buf : UInt64) : Service (Option Mem) := do
  modify fun mem ↦ zeroFill mem buf.toNat 512
  let lba ← Service.checked (Checked.add 32 RelizFs.relizfsStartSector sector)
  if ← fsReadSector lba buf then return some (bufferAt (← get) buf) else return none

/-- The way to the root directory, which is then in `dir_sector`. -/
def rootSector (b : Buffers) : Service (Option Superblock) := do
  match ← readInto 2 b.sector with
  | none => return none
  | some sector =>
    let sb := Superblock.read sector
    match ← readInto sb.inodeTableStart.toNat b.sectorBuf with
    | none => return none
    | some sectorBuf =>
      let rootInode := Inode.read sectorBuf 0
      match ← readInto rootInode.firstBlock.toNat b.dirSector with
      | none => return none
      | some _ => return some sb

/-- The inode of an entry. -/
def entryInode (b : Buffers) (sb : Superblock) (inodeNum : UInt32) : Service (Option Inode) := do
  let byteOffset := inodeNum.toNat * RelizFs.sizeOfInode
  let sOffset := byteOffset / RelizFs.blockSize
  let bIndex := byteOffset % RelizFs.blockSize
  let inodeSector ← Service.checked (Checked.add 32 sb.inodeTableStart.toNat sOffset)
  match ← readInto inodeSector b.inodeBuf with
  | none => return none
  | some inodeBuf => return some (Inode.read inodeBuf bIndex)

/-- The entry at a position of `dir_sector`. -/
def readEntry (b : Buffers) (i : ℕ) : Service DirectoryEntry := do
  return DirectoryEntry.read (bufferAt (← get) b.dirSector) (i * RelizFs.sizeOfEntry)

/-- The positions of the entries. -/
def positions : List ℕ := List.range (RelizFs.blockSize / RelizFs.sizeOfEntry)

/-- The loop over the entries of the root directory. -/
def listEntries (b : Buffers) (sb : Superblock) :
    List ℕ → List UInt8 → Service (List UInt8)
  | [], listRes => return listRes
  | i :: is, listRes => do
    let entry ← readEntry b i
    if entry.inodeNum ≠ 0 ∧ 0 < entry.nameLen then
      match entry.getName with
      | some name => do
        match ← entryInode b sb entry.inodeNum with
        | some inode => do
          let listRes ← Service.checked (RelizFs.listEntry listRes name inode)
          listEntries b sb is listRes
        | none => listEntries b sb is listRes
      | none => listEntries b sb is listRes
    else listEntries b sb is listRes

/-- `MSG_FS_LIST`. -/
def handleList (accessible : ℕ → Bool) (b : ListBuffers) (msg : Message) : Service Unit := do
  let listRes ←
    match ← rootSector b.toBuffers with
    | none => pure []
    | some sb => listEntries b.toBuffers sb positions []
  let listRes := if listRes.length < RelizFs.listSize then listRes ++ [0] else listRes
  Service.copy accessible b.listRes.toNat msg.arg1.toNat (listRes.take msg.arg2.toNat)
  Service.send msg.sender.toNat ⟨2, 0, 0, 0, 0, 0⟩

/-- The file of an entry is copied to the client. -/
def copyFile (accessible : ℕ → Bool) (b : Buffers) (sb : Superblock) (inodeNum : UInt32)
    (clientBuf maxLen : ℕ) : Service (Option ℕ) := do
  match ← entryInode b sb inodeNum with
  | none => return none
  | some fileInode =>
    match ← readInto fileInode.firstBlock.toNat b.dataSector with
    | none => return none
    | some dataSector =>
      let copySize := min fileInode.size.toNat maxLen
      Service.copy accessible b.dataSector.toNat clientBuf (RelizFs.sectorBytes dataSector copySize)
      if copySize < maxLen then Service.store accessible (clientBuf + copySize) 0
      return some copySize

/-- The loop over the entries of the root directory, left at the first that has the name. -/
def readEntries (accessible : ℕ → Bool) (b : Buffers) (sb : Superblock) (target : String)
    (clientBuf maxLen : ℕ) : List ℕ → Service (Option ℕ)
  | [] => return none
  | i :: is => do
    let entry ← readEntry b i
    if entry.inodeNum ≠ 0 ∧ 0 < entry.nameLen then
      match entry.getName with
      | some name =>
        if name = target then copyFile accessible b sb entry.inodeNum clientBuf maxLen
        else readEntries accessible b sb target clientBuf maxLen is
      | none => readEntries accessible b sb target clientBuf maxLen is
    else readEntries accessible b sb target clientBuf maxLen is

/-- The bytes that the server looks at for the name of a file: those of the name, and the one behind
them. -/
def nameBytes (mem : Mem) (filenamePtr : ℕ) : ℕ := RelizFs.filenameLen mem filenamePtr 33 0 + 1

/-- `MSG_FS_READ`. -/
def handleRead (accessible : ℕ → Bool) (b : Buffers) (msg : Message) : Service Unit := do
  let mem ← get
  Service.require (ValidPtr accessible msg.arg1.toNat (nameBytes mem msg.arg1.toNat))
  let target := RelizFs.targetFilename mem msg.arg1.toNat
  let copied ←
    match ← rootSector b with
    | none => pure none
    | some sb => readEntries accessible b sb target msg.arg2.toNat msg.arg3.toNat positions
  match copied with
  | some bytesCopied =>
    Service.send msg.sender.toNat ⟨2, 0, UInt64.ofNat bytesCopied, 0, 0, 0⟩
  | none => Service.send msg.sender.toNat ⟨2, 999, 0, 0, 0, 0⟩

/-- The body of the loop of `task_fs_server`, with the buffers of the two requests. -/
def handle (accessible : ℕ → Bool) (listBuffers : ListBuffers) (readBuffers : Buffers) :
    Service Unit := do
  let msg ← Service.recv 0
  if msg.msgType = 10 then handleList accessible listBuffers msg
  else if msg.msgType = 11 then handleRead accessible readBuffers msg
  else return ()

/-- `n` turns of the loop of `task_fs_server`. -/
def taskFsServer (accessible : ℕ → Bool) (listBuffers : ListBuffers) (readBuffers : Buffers) :
    ℕ → Service Unit
  | 0 => return ()
  | n + 1 => do
    handle accessible listBuffers readBuffers
    taskFsServer accessible listBuffers readBuffers n

/-! ## The calls

The server keeps to its program, whatever the other tasks answer. -/

end FsServer

namespace Service

variable {α β : Type} {program : Pc → IpcAction → Pc → Prop} {post : α → Pc → Prop}
  {post' : β → Pc → Prop} {x : Service α} {f : α → Service β} {p : Pc}

/-- The task makes only calls that its program allows, and if it ends, then at a place as `post`
says. -/
def Follows (program : Pc → IpcAction → Pc → Prop) (post : α → Pc → Prop) (x : Service α) (p : Pc) :
    Prop :=
  ∀ mem, (x mem).Follows (fun p q p' ↦ program p q.1 p')
    (fun q a p ↦ match q.1 with
      | .send _ _ => p.sent
      | .recv _ => p.got a.1)
    (fun r p' ↦ post r.1 p') p

/-- It makes no calls, or comes back to where it was. -/
def Stays (program : Pc → IpcAction → Pc → Prop) (x : Service α) (p : Pc) : Prop :=
  x.Follows program (fun _ p' ↦ p' = p) p

theorem Follows.bind (h : x.Follows program post p)
    (hf : ∀ a p', post a p' → (f a).Follows program post' p') :
    (x >>= f).Follows program post' p :=
  fun mem ↦ (h mem).bind fun r p' hr ↦ hf r.1 p' hr r.2

/-- What stays where it is can be ignored. -/
theorem Stays.bind (h : x.Stays program p) (hf : ∀ a, (f a).Follows program post' p) :
    (x >>= f).Follows program post' p := by
  refine Follows.bind h ?_
  rintro a p' rfl
  exact hf a

theorem follows_pure {a : α} (h : post a p) : (pure a : Service α).Follows program post p :=
  fun _ ↦ h

theorem stays_modify (g : Mem → Mem) : Stays program (modify g) p := fun _ ↦ rfl

theorem stays_get : Stays program (get : Service Mem) p := fun _ ↦ rfl

theorem stays_checked (c : Checked α) : Stays program (checked c) p := by
  intro mem
  cases c with
  | error e => trivial
  | ok a => rfl

theorem stays_require (q : Prop) [Decidable q] : Stays program (require q) p := stays_checked _

theorem stays_set (mem : Mem) : Stays program (set mem) p := fun _ ↦ rfl

theorem stays_copy (accessible : ℕ → Bool) (src dst : ℕ) (bs : List UInt8) :
    Stays program (copy accessible src dst bs) p :=
  stays_get.bind fun _ ↦ (stays_checked _).bind stays_set

theorem stays_store (accessible : ℕ → Bool) (ptr : ℕ) (b : UInt8) :
    Stays program (store accessible ptr b) p :=
  (stays_require _).bind fun _ ↦ stays_modify _

theorem follows_send {destId : ℕ} {msg : Message} {p' : Pc} (h : program p (.send destId msg) p') :
    (send destId msg).Follows program (fun _ q ↦ q = p'.sent) p :=
  fun _ ↦ ⟨p', h, fun _ ↦ rfl⟩

theorem follows_recv {srcFilter : ℕ} {p' : Pc} (h : program p (.recv srcFilter) p') :
    (recv srcFilter).Follows program (fun msg q ↦ q = p'.got msg) p :=
  fun _ ↦ ⟨p', h, fun _ ↦ rfl⟩

end Service

namespace FsServer

section

variable {accessible : ℕ → Bool} {b : Buffers} {job msg : Message} {sb : Superblock}

theorem stays_fsReadSector (hjob : job.IsFsRequest) (lba : ℕ) (bufPtr : UInt64) :
    (fsReadSector lba bufPtr).Stays TaskFsServer (.free job) := by
  refine (Service.follows_send (.ask hjob rfl)).bind ?_
  rintro - _ rfl
  refine (Service.follows_recv .await).bind ?_
  rintro resp _ rfl
  exact Service.follows_pure rfl

theorem stays_readInto (hjob : job.IsFsRequest) (sector : ℕ) (buf : UInt64) :
    (readInto sector buf).Stays TaskFsServer (.free job) := by
  refine (Service.stays_modify _).bind fun _ ↦ (Service.stays_checked _).bind fun lba ↦
    (stays_fsReadSector hjob lba buf).bind fun ok ↦ ?_
  cases ok with
  | false => exact Service.follows_pure rfl
  | true => exact Service.stays_get.bind fun mem ↦ Service.follows_pure rfl

theorem stays_rootSector (hjob : job.IsFsRequest) :
    (rootSector b).Stays TaskFsServer (.free job) := by
  refine (stays_readInto hjob _ _).bind fun o ↦ ?_
  cases o with
  | none => exact Service.follows_pure rfl
  | some sector =>
    refine (stays_readInto hjob _ _).bind fun o ↦ ?_
    cases o with
    | none => exact Service.follows_pure rfl
    | some sectorBuf =>
      refine (stays_readInto hjob _ _).bind fun o ↦ ?_
      cases o with
      | none => exact Service.follows_pure rfl
      | some dirSector => exact Service.follows_pure rfl

theorem stays_entryInode (hjob : job.IsFsRequest) (inodeNum : UInt32) :
    (entryInode b sb inodeNum).Stays TaskFsServer (.free job) := by
  refine (Service.stays_checked _).bind fun inodeSector ↦ (stays_readInto hjob _ _).bind fun o ↦ ?_
  cases o with
  | none => exact Service.follows_pure rfl
  | some inodeBuf => exact Service.follows_pure rfl

theorem stays_readEntry (i : ℕ) : (readEntry b i).Stays TaskFsServer (.free job) :=
  Service.stays_get.bind fun _ ↦ Service.follows_pure rfl

theorem stays_listEntries (hjob : job.IsFsRequest) (is : List ℕ) (listRes : List UInt8) :
    (listEntries b sb is listRes).Stays TaskFsServer (.free job) := by
  induction is generalizing listRes with
  | nil => exact Service.follows_pure rfl
  | cons i is ih =>
    refine (stays_readEntry i).bind fun entry ↦ ?_
    split
    · cases entry.getName with
      | none => exact ih listRes
      | some name =>
        refine (stays_entryInode hjob _).bind fun o ↦ ?_
        cases o with
        | none => exact ih listRes
        | some inode => exact (Service.stays_checked _).bind fun listRes' ↦ ih listRes'
    · exact ih listRes

theorem stays_copyFile (hjob : job.IsFsRequest) (inodeNum : UInt32) (clientBuf maxLen : ℕ) :
    (copyFile accessible b sb inodeNum clientBuf maxLen).Stays TaskFsServer (.free job) := by
  refine (stays_entryInode hjob _).bind fun o ↦ ?_
  cases o with
  | none => exact Service.follows_pure rfl
  | some inode =>
    refine (stays_readInto hjob _ _).bind fun o ↦ ?_
    cases o with
    | none => exact Service.follows_pure rfl
    | some dataSector =>
      refine (Service.stays_copy _ _ _ _).bind fun _ ↦ ?_
      split
      · exact (Service.stays_store _ _ _).bind fun _ ↦ Service.follows_pure rfl
      · exact Service.follows_pure rfl

theorem stays_readEntries (hjob : job.IsFsRequest) (target : String) (clientBuf maxLen : ℕ)
    (is : List ℕ) :
    (readEntries accessible b sb target clientBuf maxLen is).Stays TaskFsServer (.free job) := by
  induction is with
  | nil => exact Service.follows_pure rfl
  | cons i is ih =>
    refine (stays_readEntry i).bind fun entry ↦ ?_
    split
    · cases entry.getName with
      | none => exact ih
      | some name =>
        dsimp only
        split
        · exact stays_copyFile hjob _ _ _
        · exact ih
    · exact ih

theorem follows_reply (hjob : job.IsFsRequest) (reply : Message) :
    (Service.send job.sender.toNat reply).Follows TaskFsServer (fun _ p' ↦ p' = .top)
      (.free job) :=
  Service.follows_send (TaskFsServer.reply hjob)

theorem follows_handleList {b : ListBuffers} (hmsg : msg.IsFsRequest) :
    (handleList accessible b msg).Follows TaskFsServer (fun _ p' ↦ p' = .top) (.free msg) := by
  refine (stays_rootSector hmsg).bind fun o ↦ ?_
  cases o with
  | none => exact (Service.stays_copy _ _ _ _).bind fun _ ↦ follows_reply hmsg _
  | some sb =>
    exact (stays_listEntries hmsg _ _).bind fun listRes ↦ (Service.stays_copy _ _ _ _).bind fun _ ↦
      follows_reply hmsg _

theorem follows_handleRead (hmsg : msg.IsFsRequest) :
    (handleRead accessible b msg).Follows TaskFsServer (fun _ p' ↦ p' = .top) (.free msg) := by
  have hreply : ∀ copied : Option ℕ, Service.Follows TaskFsServer (fun _ p' ↦ p' = .top)
      (match copied with
        | some bytesCopied =>
          Service.send msg.sender.toNat ⟨2, 0, UInt64.ofNat bytesCopied, 0, 0, 0⟩
        | none => Service.send msg.sender.toNat ⟨2, 999, 0, 0, 0, 0⟩) (.free msg) := by
    intro copied
    cases copied with
    | none => exact follows_reply hmsg _
    | some bytesCopied => exact follows_reply hmsg _
  refine Service.stays_get.bind fun mem ↦ (Service.stays_require _).bind fun _ ↦
    (stays_rootSector hmsg).bind fun o ↦ ?_
  cases o with
  | none => exact hreply none
  | some sb => exact (stays_readEntries hmsg _ _ _ _).bind hreply

/-- Where the server receives the next message. -/
def AtTop (p : Pc) : Prop := p = .top ∨ ∃ job, p = .free job ∧ ¬job.IsFsRequest

/-- **The server keeps to its program**, for any number of messages. -/
theorem follows_taskFsServer (accessible : ℕ → Bool) (listBuffers : ListBuffers)
    (readBuffers : Buffers) (n : ℕ) {p : Pc} (hp : AtTop p) :
    (taskFsServer accessible listBuffers readBuffers n).Follows TaskFsServer
      (fun _ p' ↦ AtTop p') p := by
  induction n generalizing p with
  | zero => exact Service.follows_pure hp
  | succ n ih =>
    have hhandle : (handle accessible listBuffers readBuffers).Follows TaskFsServer
        (fun _ p' ↦ AtTop p') p := by
      have hrecv : TaskFsServer p (.recv 0) .listening := by
        rcases hp with rfl | ⟨job, rfl, hjob⟩
        · exact .recv
        · exact .next hjob
      refine (Service.follows_recv hrecv).bind ?_
      rintro msg _ rfl
      split
      · next hlist =>
        exact fun mem ↦ (follows_handleList (Or.inl hlist) mem).mono fun _ _ h ↦ Or.inl h
      · next hlist =>
        split
        · next hread =>
          exact fun mem ↦ (follows_handleRead (Or.inr hread) mem).mono fun _ _ h ↦ Or.inl h
        · next hread => exact Service.follows_pure (Or.inr ⟨msg, rfl, not_or.mpr ⟨hlist, hread⟩⟩)
    exact hhandle.bind fun _ _ hp' ↦ ih hp'

end

end FsServer

end RelizOS
