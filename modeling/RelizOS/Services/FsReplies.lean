import RelizOS.Ata.Server
import RelizOS.RelizFs.Agreement
import RelizOS.Services.FsServer

/-!
# The replies of the file system server

Behind the file system server is the ATA server, which reads the sectors into the buffers that the
file system server names; it is taken for a drive that answers at once (`Ata.answer`), as which it
has been proved to act. Together they reply what `fsList` and `fsRead` compute from the drive: each
request is answered once and in order, and a fault of the one is a fault of the other
(`fs_server_correct`).

Nothing of the server's memory outlives a request but its buffers, so what has to be followed
through the exchanges is little: a buffer holds the sector last read into it, and the directory
sector is not written to while the inodes of its entries are read. The client's memory is as
computed apart from those buffers, and apart from what `MSG_FS_READ` copies beyond the end of the
data sector, which no drive decides.
-/

open ByteMemory

namespace RelizOS

open RelizFs (Superblock Inode DirectoryEntry Drive sectorBytes length_sectorBytes)

/-! ## What is read of a sector -/

namespace RelizFs

variable {s s' : Mem} {a : ℕ}

theorem readU32_congr (h : AgreeOn s s' a 4) : readU32 s a = readU32 s' a := by
  rw [readU32, readU32, readLE_congr h]

theorem Superblock.read_congr (h : AgreeOn s s' 0 512) :
    Superblock.read s = Superblock.read s' := by
  have hU32 : ∀ a, a + 4 ≤ 512 → readU32 s a = readU32 s' a :=
    fun a ha ↦ readU32_congr (h.mono (Nat.zero_le a) (by omega))
  rw [Superblock.read, Superblock.read, readU64_congr (h.mono le_rfl (by omega)),
    hU32 8 (by omega), hU32 12 (by omega), hU32 16 (by omega), hU32 20 (by omega),
    hU32 24 (by omega), hU32 28 (by omega), hU32 32 (by omega), hU32 36 (by omega)]

theorem Inode.read_congr (h : AgreeOn s s' 0 512) (ha : a + sizeOfInode ≤ 512) :
    Inode.read s a = Inode.read s' a := by
  rw [sizeOfInode] at ha
  have hU32 : ∀ i, i + 4 ≤ 64 → readU32 s (a + i) = readU32 s' (a + i) :=
    fun i hi ↦ readU32_congr (h.mono (Nat.zero_le _) (by omega))
  have hbyte : ∀ i < 64, s (a + i) = s' (a + i) := fun i hi ↦ h _ (Nat.zero_le _) (by omega)
  have hblocks : (Vector.ofFn fun i : Fin 10 ↦ readU32 s (a + 10 + 4 * i)) =
      Vector.ofFn fun i : Fin 10 ↦ readU32 s' (a + 10 + 4 * i) :=
    congrArg _ (funext fun i ↦ by rw [add_assoc, hU32 _ (by omega)])
  have hreserved : (Vector.ofFn fun i : Fin 6 ↦ s (a + 58 + i)) =
      Vector.ofFn fun i : Fin 6 ↦ s' (a + 58 + i) :=
    congrArg _ (funext fun i ↦ by rw [add_assoc, hbyte _ (by omega)])
  rw [Inode.read, Inode.read, readU64_congr (h.mono (Nat.zero_le a) (by omega)),
    hbyte 8 (by omega), hbyte 9 (by omega), hblocks, hU32 50 (by omega), hU32 54 (by omega),
    hreserved]

theorem DirectoryEntry.read_congr (h : AgreeOn s s' 0 512) (ha : a + sizeOfEntry ≤ 512) :
    DirectoryEntry.read s a = DirectoryEntry.read s' a := by
  rw [sizeOfEntry] at ha
  have hname : (Vector.ofFn fun i : Fin 27 ↦ s (a + 5 + i)) =
      Vector.ofFn fun i : Fin 27 ↦ s' (a + 5 + i) :=
    congrArg _ (funext fun i ↦ h _ (Nat.zero_le _) (by omega))
  rw [DirectoryEntry.read, DirectoryEntry.read,
    readU32_congr (h.mono (Nat.zero_le a) (by omega)), h _ (Nat.zero_le _) (by omega), hname]

/-! ## The text of a listing -/

theorem length_append_le {l : List UInt8} (h : l.length ≤ listSize) (t : List UInt8) :
    (append l t).length ≤ listSize := by
  rw [append, List.length_append, List.length_take]
  omega

theorem length_listEntry_le {l l' : List UInt8} {name : String} {inode : Inode}
    (h : l.length ≤ listSize) (hentry : listEntry l name inode = .ok l') :
    l'.length ≤ listSize := by
  have hname : (append (if inode.IsDirectory then append l (bytesOf "[DIR]  ")
      else append l (bytesOf "[FILE] ")) (bytesOf name)).length ≤ listSize := by
    refine length_append_le ?_ _
    split
    · exact length_append_le h _
    · exact length_append_le h _
  rw [listEntry] at hentry
  dsimp only at hentry
  split at hentry
  · obtain ⟨digits, -, hentry⟩ := Checked.bind_eq_ok.mp hentry
    obtain rfl := Except.ok.inj hentry
    exact length_append_le (length_append_le (length_append_le (length_append_le hname _) _) _) _
  · obtain rfl := Except.ok.inj hentry
    exact length_append_le hname _

end RelizFs

namespace FsServer

/-! ## The world of the server -/

/-- What is around the server: the messages that the clients will send, each with the memory at that
time, the request that the ATA server has, and what the clients have been sent, each with the memory
at that time. -/
structure World where
  inbox : List (Message × Mem)
  request : Option Message
  outbox : List (ℕ × Message × Mem)

namespace World

/-- A receive from the ATA server ends when it has handled a request, any other with the next
message of a client. Only a read request counts as a request to the ATA server, which is `place`d
somewhere and does not survive an invalid one. -/
def answer (d : Drive) (place : Ata.Place) (w : World) :
    IpcAction × Mem → Option ((Message × Mem) × World)
  | (.send destId msg, mem) =>
    if destId = 3 ∧ msg.msgType = 1 then some ((msg, mem), { w with request := some msg })
    else some ((msg, mem), { w with outbox := w.outbox ++ [(destId, msg, mem)] })
  | (.recv srcFilter, mem) =>
    if srcFilter = 3 then
      w.request.bind fun req ↦
        if Ata.ValidRequest place req then
          let answered := Ata.answer d ⟨mem, []⟩ req
          answered.sent.head?.map fun reply ↦
            ((reply.2, answered.mem), { w with request := none })
        else none
    else
      match w.inbox with
      | [] => none
      | next :: inbox => some (next, { w with inbox := inbox })

end World

/-! ## Computing from the drive -/

/-- In the world `w` the server computes what `c` does, as `R` says of the two results and the
memory, and leaves the world as it is. -/
def Computes {α β : Type} (d : Drive) (place : Ata.Place) (w : World) (R : β → α → Mem → Prop)
    (c : Checked β) (x : Service α) (mem : Mem) : Prop :=
  Dialogue.Agrees (World.answer d place) (fun b r w' ↦ R b r.1 r.2 ∧ w' = w) c (x mem) w

namespace Computes

variable {α β γ δ : Type} {d : Drive} {place : Ata.Place} {w : World} {R : β → α → Mem → Prop}
  {R' : δ → γ → Mem → Prop} {c : Checked β} {g : β → Checked δ} {x : Service α} {f : α → Service γ}
  {mem : Mem}

theorem bind (h : Computes d place w R c x mem)
    (hf : ∀ b a mem', R b a mem' → Computes d place w R' (g b) (f a) mem') :
    Computes d place w R' (c >>= g) (x >>= f) mem := by
  refine Dialogue.Agrees.bind h ?_
  rintro b ⟨a, mem'⟩ w' ⟨hR, rfl⟩
  exact hf b a mem' hR

theorem ret {b : β} {a : α} (h : R b a mem) : Computes d place w R (pure b) (pure a) mem :=
  ⟨(a, mem), w, rfl, h, rfl⟩

theorem bind_of_done {c : Checked δ} {a : α} {mem' : Mem} (hx : x mem = .done (a, mem'))
    (h : Computes d place w R' c (f a) mem') : Computes d place w R' c (x >>= f) mem := by
  rw [Computes, Service.bind_of_done hx]
  exact h

theorem modify_bind {c : Checked δ} {g : Mem → Mem} {f : Unit → Service γ}
    (h : Computes d place w R' c (f ()) (g mem)) : Computes d place w R' c (modify g >>= f) mem := h

theorem checked_bind {f : β → Service γ}
    (h : ∀ b, c = .ok b → Computes d place w R' (g b) (f b) mem) :
    Computes d place w R' (c >>= g) (Service.checked c >>= f) mem := by
  cases c with
  | error e => exact (rfl : _ = some (Except.error e))
  | ok b => exact h b rfl

end Computes

/-! ## The sectors -/

/-- The buffers of the server. -/
def Buffers.all (b : Buffers) : List UInt64 :=
  [b.sector, b.sectorBuf, b.dirSector, b.inodeBuf, b.dataSector]

/-- The ATA server can copy sectors into the buffers. -/
def Buffers.Reachable (b : Buffers) (place : Ata.Place) : Prop :=
  ∀ buf ∈ b.all, ValidCopy place.accessible place.buffer buf.toNat 512

/-- An address in a buffer of the server. -/
def Buffers.Own (b : Buffers) (a : ℕ) : Prop :=
  ∃ buf ∈ b.all, buf.toNat ≤ a ∧ a < buf.toNat + 512

/-- The rest of the memory is as it was. -/
def Buffers.Spares (b : Buffers) (mem mem' : Mem) : Prop := ∀ a, ¬b.Own a → mem' a = mem a

/-- Of a sector `o` the server has the `o'` in its buffer, and has written to nothing else. -/
structure Fetched (buf : UInt64) (mem : Mem) (o o' : Option Mem) (mem' : Mem) : Prop where
  kept : ∀ a, a < buf.toNat ∨ buf.toNat + 512 ≤ a → mem' a = mem a
  same : Option.Rel (AgreeOn · · 0 512) o o'
  inBuffer : ∀ s ∈ o', s = bufferAt mem' buf

section

variable {b : Buffers} {buf : UInt64} {d : Drive} {place : Ata.Place} {w : World}
  {mem mem' mem'' : Mem} {o o' : Option Mem} {sb : Superblock}

theorem Buffers.Spares.refl : b.Spares mem mem := fun _ _ ↦ rfl

theorem Buffers.Spares.trans (h : b.Spares mem mem') (h' : b.Spares mem' mem'') :
    b.Spares mem mem'' :=
  fun a ha ↦ (h' a ha).trans (h a ha)

theorem Fetched.spares (h : Fetched buf mem o o' mem') (hbuf : buf ∈ b.all) :
    b.Spares mem mem' := by
  intro a ha
  refine h.kept a ?_
  by_contra hin
  exact ha ⟨buf, hbuf, by omega⟩

theorem agreeOn_bufferAt_writeBytes (s : Mem) :
    AgreeOn s (bufferAt (writeBytes mem buf.toNat (sectorBytes s 512)) buf) 0 512 := by
  intro i _ hi
  rw [bufferAt, writeBytes, if_pos (Nat.le_add_right _ _), Nat.add_sub_cancel_left, sectorBytes,
    List.getElem?_map, List.getElem?_range (by omega)]
  rfl

/-- The exchange with the ATA server. -/
theorem run_fsReadSector (d : Drive) (hbuf : ValidCopy place.accessible place.buffer buf.toNat 512)
    (mem : Mem) {lba : ℕ} (hlba : lba < 2 ^ 32) (hw : w.request = none) :
    (fsReadSector lba buf mem).run (World.answer d place) w =
      some (.ok (match RelizFs.readSector d lba with
        | .ok s => ((true, writeBytes mem buf.toNat (sectorBytes s 512)), w)
        | .error _ => ((false, mem), w))) := by
  obtain ⟨inbox, request, outbox⟩ := w
  obtain rfl : request = none := hw
  have haddress : (UInt64.ofNat lba).toUInt32.toNat = lba := by
    rw [UInt64.toNat_toUInt32, UInt64.toNat_ofNat', Nat.mod_mod_of_dvd _ (by norm_num),
      Nat.mod_eq_of_lt hlba]
  have hrun : (fsReadSector lba buf mem).run (World.answer d place) ⟨inbox, none, outbox⟩ =
      (if Ata.ValidRequest place ⟨2, 1, UInt64.ofNat lba, buf, 0, 0⟩ then
        (Ata.answer d ⟨mem, []⟩ ⟨2, 1, UInt64.ofNat lba, buf, 0, 0⟩).sent.head?.map fun reply ↦
          ((reply.2, (Ata.answer d ⟨mem, []⟩ ⟨2, 1, UInt64.ofNat lba, buf, 0, 0⟩).mem),
            (⟨inbox, none, outbox⟩ : World))
        else none).bind
        fun r ↦ some (.ok ((decide (r.1.1.msgType = 0), r.1.2), r.2)) := rfl
  have hvalid : Ata.ValidRequest place ⟨2, 1, UInt64.ofNat lba, buf, 0, 0⟩ := fun _ ↦ hbuf
  rw [hrun, if_pos hvalid, Ata.answer, if_pos rfl, haddress]
  cases RelizFs.readSector d lba with
  | ok s => rfl
  | error e => rfl

/-- **A sector is read** into a buffer. -/
theorem computes_readInto (hbuf : ValidCopy place.accessible place.buffer buf.toNat 512)
    (hw : w.request = none) (sector : ℕ) (mem : Mem) :
    Computes d place w (Fetched buf mem) (RelizFs.fsReadSector d sector) (readInto sector buf)
      mem := by
  refine Computes.modify_bind (Computes.checked_bind fun lba hadd ↦ ?_)
  obtain ⟨hlba, rfl⟩ := Checked.add_eq_ok.mp hadd
  have hrun := run_fsReadSector d hbuf (zeroFill mem buf.toNat 512) hlba hw
  have hzero : ∀ a, a < buf.toNat ∨ buf.toNat + 512 ≤ a →
      zeroFill mem buf.toNat 512 a = mem a :=
    fun a ha ↦ if_neg (by omega)
  cases hsector : RelizFs.readSector d (RelizFs.relizfsStartSector + sector) with
  | ok s =>
    rw [hsector] at hrun
    refine ⟨_, w, Dialogue.run_bind_of_ok hrun, ⟨fun a ha ↦ ?_, ?_, fun s' hs' ↦ ?_⟩, rfl⟩
    · have hwritten : AgreeOn (writeBytes (zeroFill mem buf.toNat 512) buf.toNat
          (sectorBytes s 512)) (zeroFill mem buf.toNat 512) a 1 :=
        agreeOn_writeBytes (by rw [RelizFs.length_sectorBytes]; omega)
      exact (hwritten a le_rfl (by omega)).trans (hzero a ha)
    · exact .some (agreeOn_bufferAt_writeBytes s)
    · exact (Option.some.inj hs').symm
  | error e =>
    rw [hsector] at hrun
    refine ⟨_, w, Dialogue.run_bind_of_ok hrun, ⟨hzero, .none, ?_⟩, rfl⟩
    rintro s ⟨⟩

/-! ## The way to a file -/

/-- **The root directory is read**, and is in `dir_sector`. -/
theorem computes_rootSector (hb : b.Reachable place) (hw : w.request = none) (mem : Mem) :
    Computes d place w (fun o o' mem' ↦ b.Spares mem mem' ∧
        Option.Rel (fun p sb ↦ sb = p.1 ∧ AgreeOn p.2 (bufferAt mem' b.dirSector) 0 512) o o')
      (RelizFs.rootSector d) (rootSector b) mem := by
  refine (computes_readInto (hb _ (by simp [Buffers.all])) hw 2 mem).bind fun o₁ o₁' mem₁ h₁ ↦ ?_
  have hmem₁ : b.Spares mem mem₁ := h₁.spares (by simp [Buffers.all])
  cases h₁.same with
  | none => exact Computes.ret ⟨hmem₁, .none⟩
  | @some sector sector' hsector =>
    have hsb : Superblock.read sector' = Superblock.read sector :=
      (Superblock.read_congr hsector).symm
    dsimp only
    rw [hsb]
    refine (computes_readInto (hb _ (by simp [Buffers.all])) hw _ mem₁).bind fun o₂ o₂' mem₂ h₂ ↦ ?_
    have hmem₂ : b.Spares mem mem₂ := hmem₁.trans (h₂.spares (by simp [Buffers.all]))
    cases h₂.same with
    | none => exact Computes.ret ⟨hmem₂, .none⟩
    | @some sectorBuf sectorBuf' hsectorBuf =>
      have hinode : Inode.read sectorBuf' 0 = Inode.read sectorBuf 0 :=
        (Inode.read_congr hsectorBuf (by decide)).symm
      dsimp only
      rw [hinode]
      refine (computes_readInto (hb _ (by simp [Buffers.all])) hw _ mem₂).bind
        fun o₃ o₃' mem₃ h₃ ↦ ?_
      have hmem₃ : b.Spares mem mem₃ := hmem₂.trans (h₃.spares (by simp [Buffers.all]))
      cases h₃ with
      | mk _ hsame hbuf =>
        cases hsame with
        | none => exact Computes.ret ⟨hmem₃, .none⟩
        | @some dir dir' hdir =>
          obtain rfl := hbuf dir' rfl
          exact Computes.ret ⟨hmem₃, .some ⟨rfl, hdir⟩⟩

/-- **The inode of an entry is read**, and nothing but the buffer for it is written. -/
theorem computes_entryInode (hb : b.Reachable place) (hw : w.request = none) (inodeNum : UInt32)
    (mem : Mem) :
    Computes d place w (fun o o' mem' ↦ o' = o ∧
        ∀ a, a < b.inodeBuf.toNat ∨ b.inodeBuf.toNat + 512 ≤ a → mem' a = mem a)
      (RelizFs.entryInode d sb inodeNum) (entryInode b sb inodeNum) mem := by
  refine Computes.checked_bind fun inodeSector _ ↦
    (computes_readInto (hb _ (by simp [Buffers.all])) hw inodeSector mem).bind fun o o' mem' h ↦ ?_
  cases h.same with
  | none => exact Computes.ret ⟨rfl, h.kept⟩
  | @some inodeBuf inodeBuf' hinodeBuf =>
    have hindex : inodeNum.toNat * RelizFs.sizeOfInode % RelizFs.blockSize + RelizFs.sizeOfInode ≤
        512 := by
      rw [RelizFs.sizeOfInode, RelizFs.blockSize]
      omega
    exact Computes.ret ⟨congrArg some (Inode.read_congr hinodeBuf hindex).symm, h.kept⟩

/-! ## The directory -/

variable {dir : Mem}

/-- The directory outlasts the reading of an inode. -/
theorem directory_kept (hdir : AgreeOn dir (bufferAt mem b.dirSector) 0 512)
    (hkept : ∀ a, a < b.inodeBuf.toNat ∨ b.inodeBuf.toNat + 512 ≤ a → mem' a = mem a) :
    AgreeOn dir (bufferAt mem' b.dirSector) 0 512 := by
  intro i hi0 hi
  have hapart := b.apart
  exact (hdir i hi0 hi).trans (hkept (b.dirSector.toNat + i) (by omega)).symm

theorem spares_of_kept
    (hkept : ∀ a, a < b.inodeBuf.toNat ∨ b.inodeBuf.toNat + 512 ≤ a → mem' a = mem a) :
    b.Spares mem mem' := by
  intro a ha
  refine hkept a ?_
  by_contra hin
  exact ha ⟨b.inodeBuf, by simp [Buffers.all], by omega⟩

theorem computes_readEntry_bind {α β : Type} {R : β → α → Mem → Prop} {c : Checked β} {i : ℕ}
    {f : DirectoryEntry → Service α} (hdir : AgreeOn dir (bufferAt mem b.dirSector) 0 512)
    (hi : i ∈ positions)
    (h : Computes d place w R c (f (DirectoryEntry.read dir (i * RelizFs.sizeOfEntry))) mem) :
    Computes d place w R c (readEntry b i >>= f) mem := by
  have hi : i * RelizFs.sizeOfEntry + RelizFs.sizeOfEntry ≤ 512 := by
    have hlt : i < 512 / 32 := List.mem_range.mp hi
    rw [RelizFs.sizeOfEntry]
    omega
  rw [RelizFs.DirectoryEntry.read_congr hdir hi] at h
  exact h

/-- **The listing** is that of the directory on the drive. -/
theorem computes_listEntries (hb : b.Reachable place) (hw : w.request = none) {is : List ℕ}
    (his : ∀ i ∈ is, i ∈ positions) {listRes : List UInt8}
    (hlen : listRes.length ≤ RelizFs.listSize) (hmem : b.Spares mem mem')
    (hdir : AgreeOn dir (bufferAt mem' b.dirSector) 0 512) :
    Computes d place w
      (fun l l' mem'' ↦ (l' = l ∧ l.length ≤ RelizFs.listSize) ∧ b.Spares mem mem'')
      (RelizFs.listEntries d sb (is.map fun i ↦ .read dir (i * RelizFs.sizeOfEntry)) listRes)
      (listEntries b sb is listRes) mem' := by
  induction is generalizing listRes mem' with
  | nil => exact Computes.ret ⟨⟨rfl, hlen⟩, hmem⟩
  | cons i is ih =>
    obtain ⟨hi, his⟩ := List.forall_mem_cons.mp his
    refine computes_readEntry_bind hdir hi ?_
    rw [List.map_cons, RelizFs.listEntries]
    split
    · cases (DirectoryEntry.read dir (i * RelizFs.sizeOfEntry)).getName with
      | none => exact ih his hlen hmem hdir
      | some name =>
        refine (computes_entryInode hb hw _ mem').bind ?_
        rintro _ o mem₁ ⟨rfl, hkept⟩
        have hdir₁ := directory_kept hdir hkept
        have hmem₁ : b.Spares mem mem₁ := hmem.trans (spares_of_kept hkept)
        cases o with
        | none => exact ih his hlen hmem₁ hdir₁
        | some inode =>
          exact Computes.checked_bind fun listRes' hentry ↦
            ih his (RelizFs.length_listEntry_le hlen hentry) hmem₁ hdir₁
    · exact ih his hlen hmem hdir

/-! ## The copy of a file -/

/-- The bytes of a client's buffer that a read request does not decide: the bytes from its 512th on,
as far as the request allows. -/
def Beyond (clientBuf maxLen a : ℕ) : Prop := clientBuf + 512 ≤ a ∧ a < clientBuf + maxLen

/-- The memory that a request leaves is as computed, apart from the server's buffers and, for a read
request, the bytes beyond the data sector. -/
def Buffers.SparesRead (b : Buffers) (clientBuf maxLen : ℕ) (mem mem' : Mem) : Prop :=
  ∀ a, ¬b.Own a → ¬Beyond clientBuf maxLen a → mem' a = mem a

theorem writeBytes_sectorBytes (s : Mem) (p n a : ℕ) :
    writeBytes mem p (sectorBytes s n) a = if p ≤ a ∧ a < p + n then s (a - p) else mem a := by
  rw [writeBytes]
  by_cases hp : p ≤ a
  · rw [if_pos hp, sectorBytes, List.getElem?_map]
    by_cases hn : a < p + n
    · rw [List.getElem?_range (by omega), if_pos ⟨hp, hn⟩]
      rfl
    · rw [List.getElem?_eq_none (by rw [List.length_range]; omega), if_neg (by omega)]
      rfl
  · rw [if_neg hp, if_neg (by omega)]

theorem writeBytes_congr {p a : ℕ} {bs : List UInt8} (h : mem' a = mem a) :
    writeBytes mem' p bs a = writeBytes mem p bs a := by
  rw [writeBytes, writeBytes, h]

/-- **The file of an entry** is copied from the drive. -/
theorem computes_copyFile (hb : b.Reachable place) (hw : w.request = none) (inodeNum : UInt32)
    {clientBuf maxLen : ℕ}
    (hclient : ValidCopy place.accessible b.dataSector.toNat clientBuf maxLen)
    (hmem : b.Spares mem mem') :
    Computes d place w (fun p o mem'' ↦ o = p.1 ∧ b.SparesRead clientBuf maxLen p.2 mem'')
      (RelizFs.copyFile d sb inodeNum mem clientBuf maxLen)
      (copyFile place.accessible b sb inodeNum clientBuf maxLen) mem' := by
  refine (computes_entryInode hb hw inodeNum mem').bind ?_
  rintro _ o mem₁ ⟨rfl, hkept⟩
  have hmem₁ : b.Spares mem mem₁ := hmem.trans (spares_of_kept hkept)
  cases o with
  | none => exact Computes.ret ⟨rfl, fun a ha _ ↦ hmem₁ a ha⟩
  | some inode =>
    refine (computes_readInto (hb _ (by simp [Buffers.all])) hw _ mem₁).bind fun o o' mem₂ h ↦ ?_
    have hmem₂ : b.Spares mem mem₂ := hmem₁.trans (h.spares (by simp [Buffers.all]))
    cases h.same with
    | none => exact Computes.ret ⟨rfl, fun a ha _ ↦ hmem₂ a ha⟩
    | @some data data' hdata =>
      have hlen : min inode.size.toNat maxLen ≤ maxLen := min_le_right _ _
      dsimp only
      generalize min inode.size.toNat maxLen = copySize at hlen ⊢
      have hcopy : ∀ a, ¬b.Own a → ¬Beyond clientBuf maxLen a →
          writeBytes mem₂ clientBuf (sectorBytes data' copySize) a =
            writeBytes mem clientBuf (sectorBytes data copySize) a := by
        intro a ha hbeyond
        rw [writeBytes_sectorBytes, writeBytes_sectorBytes, hmem₂ a ha]
        split
        · next hin =>
          have hsector : a < clientBuf + 512 := by
            by_contra hout
            exact hbeyond ⟨by omega, by omega⟩
          exact (hdata _ (Nat.zero_le _) (by omega)).symm
        · rfl
      have hvalid : ValidCopy place.accessible b.dataSector.toNat clientBuf
          (sectorBytes data' copySize).length := by
        rw [length_sectorBytes]
        exact hclient.mono hlen
      refine Computes.bind_of_done (Service.copy_of_valid hvalid mem₂) ?_
      split
      · next hlt =>
        have hstore := Service.store_of_valid (hclient.2.1.add hlt) 0
          (writeBytes mem₂ clientBuf (sectorBytes data' copySize))
        refine Computes.bind_of_done hstore (Computes.ret ⟨rfl, fun a ha hbeyond ↦ ?_⟩)
        exact writeBytes_congr (hcopy a ha hbeyond)
      · exact Computes.ret ⟨rfl, hcopy⟩

/-- **The file with a name** is that of the directory on the drive. -/
theorem computes_readEntries (hb : b.Reachable place) (hw : w.request = none) (target : String)
    {clientBuf maxLen : ℕ}
    (hclient : ValidCopy place.accessible b.dataSector.toNat clientBuf maxLen)
    {is : List ℕ} (his : ∀ i ∈ is, i ∈ positions) (hmem : b.Spares mem mem')
    (hdir : AgreeOn dir (bufferAt mem' b.dirSector) 0 512) :
    Computes d place w (fun p o mem'' ↦ o = p.1 ∧ b.SparesRead clientBuf maxLen p.2 mem'')
      (RelizFs.readEntries d sb target mem clientBuf maxLen
        (is.map fun i ↦ .read dir (i * RelizFs.sizeOfEntry)))
      (readEntries place.accessible b sb target clientBuf maxLen is) mem' := by
  induction is with
  | nil => exact Computes.ret ⟨rfl, fun a ha _ ↦ hmem a ha⟩
  | cons i is ih =>
    obtain ⟨hi, his⟩ := List.forall_mem_cons.mp his
    refine computes_readEntry_bind hdir hi ?_
    rw [List.map_cons, RelizFs.readEntries]
    split
    · cases (DirectoryEntry.read dir (i * RelizFs.sizeOfEntry)).getName with
      | none => exact ih his
      | some name =>
        dsimp only
        split
        · exact computes_copyFile hb hw _ hclient hmem
        · exact ih his
    · exact ih his

end

/-! ## The replies -/

/-- What a message is answered with, and the memory then; a message that is no request is not
answered. -/
def reply (d : Drive) (msg : Message) (mem : Mem) : Checked (Option (Message × Mem)) :=
  if msg.msgType = 10 then do
    return some (← RelizFs.fsList d mem msg.arg1.toNat msg.arg2.toNat)
  else if msg.msgType = 11 then do
    return some (← RelizFs.fsRead d mem msg.arg1.toNat msg.arg2.toNat msg.arg3.toNat)
  else return none

/-- The requests among some messages, each with its reply. -/
def replies (d : Drive) : List (Message × Mem) → Checked (List (Message × Message × Mem))
  | [] => return []
  | (msg, mem) :: requests => do
    let answered ← reply d msg mem
    let later ← replies d requests
    return (answered.map fun r ↦ (msg, r)).toList ++ later

/-- An address in a buffer of the server. -/
def ListBuffers.Own (b : ListBuffers) (a : ℕ) : Prop :=
  b.toBuffers.Own a ∨ b.listRes.toNat ≤ a ∧ a < b.listRes.toNat + RelizFs.listSize

/-- What the server has sent is the reply to a request: it goes to the client, and leaves the memory
as computed, apart from the server's buffers and, for a read request, the bytes beyond the data
sector. -/
structure IsReply (listBuffers : ListBuffers) (readBuffers : Buffers) (r : Message × Message × Mem)
    (s : ℕ × Message × Mem) : Prop where
  client : s.1 = r.1.sender.toNat
  response : s.2.1 = r.2.1
  mem : ∀ a, ¬listBuffers.Own a → ¬readBuffers.Own a →
    (r.1.msgType = 11 → ¬Beyond r.1.arg2.toNat r.1.arg3.toNat a) → s.2.2 a = r.2.2 a

/-- The client has what its request points to: for a listing, a buffer for the text or as much of it
as is asked for; for a file, a name, and a buffer of the length that it gives. A file is copied from
the data sector on, and so as many bytes must be there. -/
structure ValidRequest (accessible : ℕ → Bool) (listBuffers : ListBuffers) (readBuffers : Buffers)
    (r : Message × Mem) : Prop where
  list : r.1.msgType = 10 → ValidCopy accessible listBuffers.listRes.toNat r.1.arg1.toNat
    (min RelizFs.listSize r.1.arg2.toNat)
  name : r.1.msgType = 11 → ValidPtr accessible r.1.arg1.toNat (nameBytes r.2 r.1.arg1.toNat)
  read : r.1.msgType = 11 → ValidCopy accessible readBuffers.dataSector.toNat r.1.arg2.toNat
    r.1.arg3.toNat

section

variable {lb : ListBuffers} {rb : Buffers} {d : Drive} {place : Ata.Place} {w : World}
  {mem mem' : Mem} {msg : Message}

/-- The world after a reply. -/
def Replied (lb : ListBuffers) (rb : Buffers) (msg : Message) (w : World) (r : Message × Mem)
    (w' : World) : Prop :=
  ∃ s, IsReply lb rb (msg, r) s ∧ w' = { w with outbox := w.outbox ++ [s] }

theorem agrees_send {response : Message} (hresponse : response.msgType ≠ 1)
    (hmem : ∀ a, ¬lb.Own a → ¬rb.Own a →
      (msg.msgType = 11 → ¬Beyond msg.arg2.toNat msg.arg3.toNat a) → mem' a = mem a) :
    Dialogue.Agrees (World.answer d place) (fun r _ w' ↦ Replied lb rb msg w r w')
      (pure (response, mem)) (Service.send msg.sender.toNat response mem') w := by
  have hrun : (Service.send msg.sender.toNat response mem').run (World.answer d place) w =
      some (.ok (((), mem'),
        { w with outbox := w.outbox ++ [(msg.sender.toNat, response, mem')] })) := by
    have hanswer : World.answer d place w (.send msg.sender.toNat response, mem') =
        some ((response, mem'),
          { w with outbox := w.outbox ++ [(msg.sender.toNat, response, mem')] }) :=
      if_neg fun h ↦ hresponse h.2
    exact (congrArg (Option.bind · _) hanswer)
  exact ⟨_, _, hrun, _, ⟨rfl, rfl, hmem⟩, rfl⟩

theorem agrees_copy_send {l : List UInt8} (hl : l.length ≤ RelizFs.listSize)
    (hlist : msg.msgType = 10) (hvalid : ValidRequest place.accessible lb rb (msg, mem))
    (hmem : lb.toBuffers.Spares mem mem') :
    Dialogue.Agrees (World.answer d place) (fun r _ w' ↦ Replied lb rb msg w r w')
      (pure (⟨2, 0, 0, 0, 0, 0⟩, writeBytes mem msg.arg1.toNat (l.take msg.arg2.toNat)))
      ((do
        Service.copy place.accessible lb.listRes.toNat msg.arg1.toNat (l.take msg.arg2.toNat)
        Service.send msg.sender.toNat ⟨2, 0, 0, 0, 0, 0⟩ : Service Unit) mem') w := by
  have hcopy : ValidCopy place.accessible lb.listRes.toNat msg.arg1.toNat
      (l.take msg.arg2.toNat).length := by
    have hbuffer := hvalid.list hlist
    dsimp only at hbuffer
    exact hbuffer.mono (by rw [List.length_take]; omega)
  rw [Service.bind_of_done (Service.copy_of_valid hcopy mem')]
  exact agrees_send (by simp) fun a ha _ _ ↦ writeBytes_congr (hmem a fun hown ↦ ha (Or.inl hown))

theorem agrees_handleList (hlb : lb.toBuffers.Reachable place) (hw : w.request = none)
    (hlist : msg.msgType = 10) (hvalid : ValidRequest place.accessible lb rb (msg, mem)) :
    Dialogue.Agrees (World.answer d place) (fun r _ w' ↦ Replied lb rb msg w r w')
      (RelizFs.fsList d mem msg.arg1.toNat msg.arg2.toNat) (handleList place.accessible lb msg mem)
      w := by
  rw [RelizFs.fsList, RelizFs.listing, bind_assoc]
  refine Dialogue.Agrees.bind (computes_rootSector hlb hw mem) ?_
  rintro o ⟨o', mem₁⟩ w' ⟨⟨hmem₁, hroot⟩, rfl⟩
  cases hroot with
  | none => exact agrees_copy_send (by decide) hlist hvalid hmem₁
  | @some p sb h =>
    obtain ⟨sb, dir⟩ := p
    obtain ⟨rfl, hdir⟩ := h
    refine Dialogue.Agrees.bind
      (computes_listEntries hlb hw (fun _ hi ↦ hi) (Nat.zero_le _) hmem₁ hdir) ?_
    rintro l ⟨_, mem₂⟩ w' ⟨⟨⟨rfl, hlen⟩, hmem₂⟩, rfl⟩
    refine agrees_copy_send ?_ hlist hvalid hmem₂
    split
    · next hlt =>
      rw [List.length_append]
      exact hlt
    · exact hlen

theorem agrees_get_bind {α β : Type} {R : β → α × Mem → World → Prop} {c : Checked β}
    {f : Mem → Service α} (h : Dialogue.Agrees (World.answer d place) R c (f mem mem) w) :
    Dialogue.Agrees (World.answer d place) R c ((get >>= f) mem) w := h

theorem agrees_handleRead (hrb : rb.Reachable place) (hw : w.request = none)
    (hmsg : msg.msgType = 11) (hvalid : ValidRequest place.accessible lb rb (msg, mem)) :
    Dialogue.Agrees (World.answer d place) (fun r _ w' ↦ Replied lb rb msg w r w')
      (RelizFs.fsRead d mem msg.arg1.toNat msg.arg2.toNat msg.arg3.toNat)
      (handleRead place.accessible rb msg mem) w := by
  refine agrees_get_bind ?_
  rw [Service.bind_of_done (Service.require_of_holds (hvalid.name hmsg) mem)]
  refine Dialogue.Agrees.bind (computes_rootSector hrb hw mem) ?_
  rintro o ⟨o', mem₁⟩ w' ⟨⟨hmem₁, hroot⟩, rfl⟩
  cases hroot with
  | none => exact agrees_send (by simp) fun a _ ha _ ↦ hmem₁ a ha
  | @some p sb h =>
    obtain ⟨sb, dir⟩ := p
    obtain ⟨rfl, hdir⟩ := h
    refine Dialogue.Agrees.bind
      (computes_readEntries hrb hw _ (hvalid.read hmsg) (fun _ hi ↦ hi) hmem₁ hdir) ?_
    rintro ⟨_, mem'⟩ ⟨copied, mem₂⟩ w' ⟨⟨rfl, hmem₂⟩, rfl⟩
    have hmem : ∀ a, ¬lb.Own a → ¬rb.Own a →
        (msg.msgType = 11 → ¬Beyond msg.arg2.toNat msg.arg3.toNat a) → mem₂ a = mem' a :=
      fun a _ ha hbeyond ↦ hmem₂ a ha (hbeyond hmsg)
    cases copied with
    | none => exact agrees_send (by simp) hmem
    | some bytesCopied => exact agrees_send (by simp) hmem

/-- **A message is handled.** -/
theorem agrees_handle (hlb : lb.toBuffers.Reachable place) (hrb : rb.Reachable place)
    (hvalid : ValidRequest place.accessible lb rb (msg, mem)) (requests : List (Message × Mem))
    (outbox : List (ℕ × Message × Mem)) (mem' : Mem) :
    Dialogue.Agrees (World.answer d place)
      (fun r _ w' ↦ ∃ sent, w' = ⟨requests, none, outbox ++ sent⟩ ∧
        List.Forall₂ (IsReply lb rb) (r.map fun r ↦ (msg, r)).toList sent)
      (reply d msg mem) (handle place.accessible lb rb mem')
      ⟨(msg, mem) :: requests, none, outbox⟩ := by
  have hreplied : ∀ r (_ : Unit × Mem) w', Replied lb rb msg ⟨requests, none, outbox⟩ r w' →
      ∃ sent, w' = ⟨requests, none, outbox ++ sent⟩ ∧
        List.Forall₂ (IsReply lb rb) ((some r).map fun r ↦ (msg, r)).toList sent := by
    rintro r _ _ ⟨s, hs, rfl⟩
    exact ⟨[s], rfl, .cons hs .nil⟩
  change Dialogue.Agrees (World.answer d place) _ (reply d msg mem) ((if msg.msgType = 10 then
    handleList place.accessible lb msg else if msg.msgType = 11 then
      handleRead place.accessible rb msg else pure ()) mem) ⟨requests, none, outbox⟩
  rw [reply]
  split
  · next hlist => exact (agrees_handleList hlb rfl hlist hvalid).map hreplied
  · split
    · next hread => exact (agrees_handleRead hrb rfl hread hvalid).map hreplied
    · exact ⟨((), mem), _, rfl, [], by rw [List.append_nil], .nil⟩

/-- **Messages are handled**, one after another. -/
theorem agrees_taskFsServer (d : Drive) (hlb : lb.toBuffers.Reachable place)
    (hrb : rb.Reachable place) {requests : List (Message × Mem)}
    (hvalid : ∀ r ∈ requests, ValidRequest place.accessible lb rb r)
    (outbox : List (ℕ × Message × Mem)) (mem : Mem) :
    Dialogue.Agrees (World.answer d place)
      (fun rs _ w' ↦ ∃ sent, w' = ⟨[], none, outbox ++ sent⟩ ∧
        List.Forall₂ (IsReply lb rb) rs sent)
      (replies d requests) (taskFsServer place.accessible lb rb requests.length mem)
      ⟨requests, none, outbox⟩ := by
  induction requests generalizing outbox mem with
  | nil => exact ⟨((), mem), _, rfl, [], by rw [List.append_nil], .nil⟩
  | cons request requests ih =>
    obtain ⟨hfirst, hrest⟩ := List.forall_mem_cons.mp hvalid
    obtain ⟨msg, mem₀⟩ := request
    refine Dialogue.Agrees.bind (agrees_handle hlb hrb hfirst requests outbox mem) ?_
    rintro r ⟨-, mem₁⟩ w' ⟨sent, rfl, hsent⟩
    refine (ih hrest (outbox ++ sent) mem₁).map ?_
    rintro rs _ w' ⟨later, rfl, hlater⟩
    exact ⟨sent ++ later, by rw [List.append_assoc], List.rel_append hsent hlater⟩

/-- **The file system server is correct.** Its calls are those of `TaskFsServer`, whatever it is
answered. And with the ATA server behind it, for clients that have what their requests point to, it
handles all messages unless the computation from the drive panics, and then so does the server: each
request is answered once, to its client and in order, with the message and the memory that `fsList`
and `fsRead` compute from the drive. -/
theorem fs_server_correct (d : Drive) (place : Ata.Place) (listBuffers : ListBuffers)
    (readBuffers : Buffers) (hlist : listBuffers.toBuffers.Reachable place)
    (hread : readBuffers.Reachable place) {requests : List (Message × Mem)}
    (hvalid : ∀ r ∈ requests, ValidRequest place.accessible listBuffers readBuffers r) (mem : Mem) :
    (taskFsServer place.accessible listBuffers readBuffers requests.length).Follows TaskFsServer
        (fun _ p ↦ AtTop p) .top ∧
      match replies d requests with
      | .error e =>
        (taskFsServer place.accessible listBuffers readBuffers requests.length mem).run
          (World.answer d place) ⟨requests, none, []⟩ = some (.error e)
      | .ok rs => ∃ mem' sent,
        (taskFsServer place.accessible listBuffers readBuffers requests.length mem).run
            (World.answer d place) ⟨requests, none, []⟩ =
          some (.ok (((), mem'), ⟨[], none, sent⟩)) ∧
          List.Forall₂ (IsReply listBuffers readBuffers) rs sent := by
  refine ⟨follows_taskFsServer place.accessible listBuffers readBuffers requests.length
    (Or.inl rfl), ?_⟩
  have hagrees := agrees_taskFsServer d hlist hread hvalid [] mem
  cases hreplies : replies d requests with
  | error e =>
    rw [hreplies] at hagrees
    exact hagrees
  | ok rs =>
    rw [hreplies] at hagrees
    obtain ⟨⟨_, mem'⟩, w', hrun, sent, rfl, hsent⟩ := hagrees
    exact ⟨mem', sent, hrun, hsent⟩

end

/-- Buffers for a listing. -/
def testListBuffers : ListBuffers :=
  { sector := 0x20000, sectorBuf := 0x20200, dirSector := 0x20400, inodeBuf := 0x20600
    dataSector := 0x20800, listRes := 0x20A00, apart := Or.inl (by decide) }

/-- Buffers for a file. -/
def testReadBuffers : Buffers :=
  { sector := 0x30000, sectorBuf := 0x30200, dirSector := 0x30400, inodeBuf := 0x30600
    dataSector := 0x30800, apart := Or.inl (by decide) }

/-- A request for the listing, and one for the file `f`. -/
def testRequests : List (Message × Mem) :=
  [(⟨1, 10, 0x5000, 1024, 0, 0⟩, fun _ ↦ 0),
    (⟨1, 11, 0x6000, 0x7000, 16, 0⟩, Function.update (fun _ ↦ 0) 0x6000 102)]

theorem valid_testRequests : ∀ r ∈ testRequests,
    ValidRequest Ata.testPlace.accessible testListBuffers testReadBuffers r := by
  intro r hr
  simp only [testRequests, List.mem_cons, List.not_mem_nil, or_false] at hr
  rcases hr with rfl | rfl
  · exact ⟨fun _ ↦ Ata.validCopy_testPlace (by decide) (by decide) (by decide),
      fun h ↦ absurd h (by decide), fun h ↦ absurd h (by decide)⟩
  · exact ⟨fun h ↦ absurd h (by decide), fun _ ↦ Ata.validPtr_testPlace (by decide),
      fun _ ↦ Ata.validCopy_testPlace (by decide) (by decide) (by decide)⟩

theorem reachable_testBuffers : testListBuffers.toBuffers.Reachable Ata.testPlace ∧
    testReadBuffers.Reachable Ata.testPlace := by
  constructor
  · intro buf hbuf
    simp only [Buffers.all, testListBuffers, List.mem_cons, List.not_mem_nil, or_false] at hbuf
    rcases hbuf with rfl | rfl | rfl | rfl | rfl <;>
      exact Ata.validCopy_testPlace (by decide) (by decide) (by decide)
  · intro buf hbuf
    simp only [Buffers.all, testReadBuffers, List.mem_cons, List.not_mem_nil, or_false] at hbuf
    rcases hbuf with rfl | rfl | rfl | rfl | rfl <;>
      exact Ata.validCopy_testPlace (by decide) (by decide) (by decide)

theorem fs_server_correct_smallImage : ∃ rs mem' sent,
    replies RelizFs.smallImage testRequests = .ok rs ∧
    rs.map (fun r ↦ r.2.1) = [⟨2, 0, 0, 0, 0, 0⟩, ⟨2, 0, 3, 0, 0, 0⟩] ∧
    (taskFsServer Ata.testPlace.accessible testListBuffers testReadBuffers 2 fun _ ↦ 0).run
        (World.answer RelizFs.smallImage Ata.testPlace) ⟨testRequests, none, []⟩ =
      some (.ok (((), mem'), ⟨[], none, sent⟩)) ∧
    List.Forall₂ (IsReply testListBuffers testReadBuffers) rs sent := by
  have hmessages : (replies RelizFs.smallImage testRequests).toOption.map
      (List.map fun r ↦ r.2.1) = some [⟨2, 0, 0, 0, 0, 0⟩, ⟨2, 0, 3, 0, 0, 0⟩] := by
    decide +kernel
  obtain ⟨-, hrun⟩ := fs_server_correct RelizFs.smallImage Ata.testPlace testListBuffers
    testReadBuffers reachable_testBuffers.1 reachable_testBuffers.2 valid_testRequests fun _ ↦ 0
  cases hreplies : replies RelizFs.smallImage testRequests with
  | error e =>
    rw [hreplies] at hmessages
    cases hmessages
  | ok rs =>
    rw [hreplies] at hmessages hrun
    obtain ⟨mem', sent, hrun, hsent⟩ := hrun
    exact ⟨rs, mem', sent, rfl, Option.some.inj hmessages, hrun, hsent⟩

end FsServer

end RelizOS
