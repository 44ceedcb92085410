import RelizOS.Kernel.Texts
import RelizOS.RelizFs.Reader
import RelizOS.RelizFs.Server

/-!
# What an image says

On a drive on which every sector can be read, the functions of the reader and of the server compute
parts of the image: the superblock, the inode with a given index, the entries of a directory block,
the bytes of a file up to its first hole. Here these parts are defined without the functions, and
every function that returns is shown to return them.
-/

open ByteMemory

namespace RelizOS.RelizFs

/-! ## Texts -/

theorem fromUtf8_eq_some {bytes : List UInt8} {text : String} :
    fromUtf8 bytes = some text ↔ bytesOf text = bytes := by
  rw [fromUtf8, String.fromUTF8?, bytesOf_eq]
  constructor
  · intro h
    split at h
    · obtain rfl := Option.some.inj h
      rfl
    · cases h
  · rintro rfl
    exact dif_pos text.isValidUTF8

theorem DirectoryEntry.length_getName {e : DirectoryEntry} {name : String}
    (h : e.getName = some name) : (bytesOf name).length = min e.nameLen.toNat 27 := by
  rw [fromUtf8_eq_some.mp h, List.length_take, Vector.length_toList, maxFilenameLen]
  exact min_eq_left (min_le_right _ _)

/-! ## Parts of an image -/

section

variable (d : Drive)

/-- The sector at an address. -/
def content (lba : ℕ) : Mem :=
  match readSector d lba with
  | .ok s => s
  | .error _ => fun _ ↦ 0

/-- The sector of the partition that a block number names. -/
def block (b : UInt32) : Mem := content d (relizfsStartSector + b.toNat)

/-- The superblock. -/
def superblockOf : Superblock := Superblock.read (content d (relizfsStartSector + 2))

/-- The sector of the partition with a given inode, for a given start of the inode table. -/
def inodeSector (start inodeIdx : UInt32) : ℕ :=
  start.toNat + inodeIdx.toNat * sizeOfInode / blockSize

/-- The inode with a given index. -/
def inodeAt (inodeIdx : UInt32) : Inode :=
  Inode.read
    (content d (relizfsStartSector + inodeSector (superblockOf d).inodeTableStart inodeIdx))
    (inodeIdx.toNat * sizeOfInode % blockSize)

/-- The entries in the allocated ones among some blocks. -/
def entriesIn (blocks : List UInt32) : List DirectoryEntry :=
  (blocks.filter (· ≠ 0)).flatMap fun b ↦ entriesOf (block d b)

/-- The bytes in some blocks, up to the first that is not allocated. -/
def dataIn (blocks : List UInt32) : List UInt8 :=
  (blocks.takeWhile (· ≠ 0)).flatMap fun b ↦ sectorBytes (block d b) blockSize

end

variable {d : Drive}

theorem Readable.readSector_eq (h : Readable d) (lba : ℕ) :
    readSector d lba = .ok (content d lba) := by
  obtain ⟨s, hs⟩ := h (lba % 2 ^ 28)
  have hs : readSector d lba = .ok s := hs
  rw [content, hs]

theorem readBytes_congr {m m' : Mem} {a n : ℕ} (h : AgreeOn m m' a n) :
    readBytes m a n = readBytes m' a n := by
  rw [readBytes, readBytes]
  apply List.map_congr_left
  intro i hi
  rw [List.mem_range] at hi
  exact h _ (by omega) (by omega)

theorem readBytes_eq {m : Mem} {a : ℕ} {bs : List UInt8}
    (h : ∀ i (hi : i < bs.length), m (a + i) = bs[i]) : readBytes m a bs.length = bs := by
  apply List.ext_getElem
  · simp [readBytes]
  · intro i hi hi'
    simp [readBytes, h i hi']

theorem readBytes_writeBytes (m : Mem) (a : ℕ) (bs : List UInt8) :
    readBytes (writeBytes m a bs) a bs.length = bs := by
  apply readBytes_eq
  intro i hi
  simp [writeBytes, hi]

@[simp] theorem length_sectorBytes (s : Mem) (n : ℕ) : (sectorBytes s n).length = n := by
  simp [sectorBytes]

theorem take_sectorBytes (s : Mem) (n k : ℕ) :
    (sectorBytes s n).take k = sectorBytes s (min k n) := by
  rw [sectorBytes, sectorBytes, ← List.map_take, List.take_range]

section

variable {b : UInt32} (blocks : List UInt32)

theorem entriesIn_zero_cons : entriesIn d (0 :: blocks) = entriesIn d blocks := by
  rw [entriesIn, List.filter_cons_of_neg (by simp), entriesIn]

theorem entriesIn_cons_of_ne (hb : b ≠ 0) :
    entriesIn d (b :: blocks) = entriesOf (block d b) ++ entriesIn d blocks := by
  rw [entriesIn, List.filter_cons_of_pos (by simpa using hb), List.flatMap_cons, entriesIn]

theorem dataIn_zero_cons : dataIn d (0 :: blocks) = [] := by
  rw [dataIn, List.takeWhile_cons_of_neg (by simp), List.flatMap_nil]

theorem dataIn_cons_of_ne (hb : b ≠ 0) :
    dataIn d (b :: blocks) = sectorBytes (block d b) blockSize ++ dataIn d blocks := by
  rw [dataIn, List.takeWhile_cons_of_pos (by simpa using hb), List.flatMap_cons, dataIn]

end

/-! ## The reader -/

theorem run_readPartition (d : Drive) (b : ℕ) :
    (readPartition d b).run =
      if relizfsStartSector + b < 2 ^ 32 then .ok (readSector d (relizfsStartSector + b))
      else .error .overflow := by
  rw [readPartition, Checked.add]
  by_cases h : relizfsStartSector + b < 2 ^ 32
  · rw [if_pos h, if_pos h]
    rfl
  · rw [if_neg h, if_neg h]
    rfl

theorem readPartition_eq_ok {b : ℕ} {q : Except String Mem} :
    (readPartition d b).run = .ok q ↔
      relizfsStartSector + b < 2 ^ 32 ∧ q = readSector d (relizfsStartSector + b) := by
  rw [run_readPartition]
  by_cases h : relizfsStartSector + b < 2 ^ 32
  · rw [if_pos h, Except.ok.injEq, eq_comm]
    exact (and_iff_right h).symm
  · rw [if_neg h]
    exact ⟨fun hq ↦ (nomatch hq), fun hq ↦ absurd hq.1 h⟩

theorem run_readPartition_bind (hd : Readable d) {α : Type} {b : ℕ} {f : Mem → Fs α}
    {q : Except String α} (h : (readPartition d b >>= f).run = .ok q) :
    (f (content d (relizfsStartSector + b))).run = .ok q := by
  rw [Fallible.run_bind, Checked.bind_eq_ok] at h
  obtain ⟨p, hp, h⟩ := h
  obtain ⟨-, rfl⟩ := readPartition_eq_ok.mp hp
  rw [hd.readSector_eq] at h
  exact h

/-- **Mounting** reads the superblock. -/
theorem init_eq_ok (hd : Readable d) {r : RelizFsReader}
    (h : (RelizFsReader.init d).run = .ok (.ok r)) :
    r = ⟨superblockOf d⟩ ∧ (superblockOf d).magic = relizfsMagic := by
  have h := run_readPartition_bind hd h
  dsimp only at h
  by_cases hmagic : (superblockOf d).magic = relizfsMagic
  · rw [superblockOf] at hmagic
    rw [if_neg (not_not.mpr hmagic)] at h
    exact ⟨(Except.ok.inj (Except.ok.inj h)).symm, hmagic⟩
  · rw [superblockOf] at hmagic
    rw [if_pos hmagic] at h
    cases h

/-- **Reading an inode** of a mounted image. -/
theorem readInode_run (hd : Readable d) {inodeIdx : UInt32} {q : Except String Inode}
    (h : (RelizFsReader.readInode ⟨superblockOf d⟩ d inodeIdx).run = .ok q) :
    q = if (superblockOf d).inodeCount ≤ inodeIdx then .error "Inode index out of bounds"
      else .ok (inodeAt d inodeIdx) := by
  rw [RelizFsReader.readInode] at h
  by_cases hidx : (superblockOf d).inodeCount ≤ inodeIdx
  · rw [if_pos hidx] at h ⊢
    exact (Except.ok.inj h).symm
  · rw [if_neg hidx] at h ⊢
    rw [Fallible.run_bind, Checked.bind_eq_ok] at h
    obtain ⟨p, hp, h⟩ := h
    cases p with
    | error e =>
      cases hadd : Checked.add 32 (superblockOf d).inodeTableStart.toNat
        (inodeIdx.toNat * sizeOfInode / blockSize) <;> rw [hadd] at hp <;> cases hp
    | ok targetSector =>
      obtain ⟨-, rfl⟩ := Checked.add_eq_ok.mp (Fallible.run_checked.mp hp)
      exact (Except.ok.inj (run_readPartition_bind hd h)).symm

theorem DirectoryEntry.nameLen_pos {e : DirectoryEntry} {name : String} (hname : name ≠ "")
    (h : e.getName = some name) : 0 < e.nameLen := by
  by_contra hlen
  have hzero : e.nameLen.toNat = 0 := by
    rw [UInt8.not_lt, UInt8.le_iff_toNat_le] at hlen
    exact Nat.le_zero.mp hlen
  rw [getName, hzero, Nat.zero_min, List.take_zero] at h
  exact hname (Option.some.inj (h.symm.trans (by with_unfolding_all decide)))

theorem matchEntry_eq {name : String} (hname : name ≠ "") (e : DirectoryEntry) :
    matchEntry name e = if e.getName = some name then some e.inodeNum else none := by
  rw [matchEntry]
  by_cases he : e.getName = some name
  · rw [if_pos he, if_pos (Or.inr (e.nameLen_pos hname he)), he]
    exact if_pos rfl
  · rw [if_neg he]
    cases hget : e.getName with
    | none => exact ite_self _
    | some name' =>
      rw [hget, Option.some_inj] at he
      dsimp only
      rw [if_neg he, ite_self]

theorem findInBlock_eq {name : String} (hname : name ≠ "") (entries : List DirectoryEntry) :
    findInBlock name entries =
      (entries.find? fun e ↦ e.getName = some name).map DirectoryEntry.inodeNum := by
  rw [findInBlock]
  induction entries with
  | nil => rfl
  | cons e entries ih =>
    rw [List.findSome?_cons, List.find?_cons, matchEntry_eq hname, ih]
    by_cases he : e.getName = some name <;> simp [he]

/-- **Finding an entry** in the blocks of a directory. -/
theorem findInBlocks_run (hd : Readable d) {name : String} (hname : name ≠ "")
    {blocks : List UInt32} {q : Except String UInt32}
    (h : (findInBlocks d name blocks).run = .ok q) :
    q = match (entriesIn d blocks).find? fun e ↦ e.getName = some name with
      | some e => .ok e.inodeNum
      | none => .error "File not found" := by
  induction blocks with
  | nil => exact (Except.ok.inj h).symm
  | cons b blocks ih =>
    rw [findInBlocks] at h
    by_cases hb : b = 0
    · rw [if_pos hb] at h
      rw [ih h, hb, entriesIn_zero_cons]
    · rw [if_neg hb] at h
      have h := run_readPartition_bind hd h
      rw [findInBlock_eq hname] at h
      rw [entriesIn_cons_of_ne blocks hb, List.find?_append, block]
      cases hfind : (entriesOf (content d (relizfsStartSector + b.toNat))).find?
          fun e ↦ e.getName = some name with
      | some e =>
        rw [hfind] at h
        exact (Except.ok.inj h).symm
      | none =>
        rw [hfind] at h
        exact ih h

theorem copyFromSlice_of_fits {outBuf bytes : List UInt8} {pos : ℕ}
    (h : pos + bytes.length ≤ outBuf.length) : copyFromSlice outBuf pos bytes =
      .ok (outBuf.take pos ++ bytes ++ outBuf.drop (pos + bytes.length)) := if_pos h

/-- **Reading a file** copies its bytes up to the first hole, as far as they fit, and leaves the
rest of the buffer as it was. -/
theorem readBlocks_eq (hd : Readable d) {total : ℕ} {blocks : List UInt32} {pos : ℕ}
    {outBuf : List UInt8} {q : Except String (ℕ × List UInt8)} (hpos : pos ≤ total)
    (hlen : total ≤ outBuf.length) (h : (readBlocks d total blocks pos outBuf).run = .ok q) :
    q = .ok (min total (pos + (dataIn d blocks).length),
      outBuf.take pos ++ (dataIn d blocks).take (total - pos) ++
        outBuf.drop (min total (pos + (dataIn d blocks).length))) := by
  induction blocks generalizing pos outBuf with
  | nil =>
    rw [← Except.ok.inj h]
    simp [dataIn, hpos]
  | cons b blocks ih =>
    rw [readBlocks] at h
    by_cases hb : b = 0
    · rw [if_pos (Or.inl hb)] at h
      rw [← Except.ok.inj h, hb, dataIn_zero_cons]
      simp [hpos]
    by_cases hdone : total ≤ pos
    · rw [if_pos (Or.inr hdone)] at h
      obtain rfl : pos = total := le_antisymm hpos hdone
      rw [← Except.ok.inj h]
      simp
    rw [if_neg (not_or.mpr ⟨hb, hdone⟩)] at h
    have h := run_readPartition_bind hd h
    rw [Checked.sub_of_le hpos, Fallible.checked_ok_bind] at h
    -- the chunk, and the buffer with the chunk in it
    generalize hchunk : min (total - pos) blockSize = chunk at h
    have hfits : pos + chunk ≤ outBuf.length := by omega
    dsimp only at h
    rw [copyFromSlice_of_fits (by rwa [length_sectorBytes]), Fallible.checked_ok_bind,
      length_sectorBytes, ← block] at h
    have hdata : dataIn d (b :: blocks) = _ := dataIn_cons_of_ne blocks hb
    have hlength : (dataIn d (b :: blocks)).length = blockSize + (dataIn d blocks).length := by
      rw [hdata, List.length_append, length_sectorBytes]
    -- a chunk that is not a whole block is the last
    have hend : min total (pos + chunk + (dataIn d blocks).length) =
        min total (pos + (dataIn d (b :: blocks)).length) := by omega
    have hsame : (outBuf.take pos ++ sectorBytes (block d b) chunk).length = pos + chunk := by
      rw [List.length_append, List.length_take, length_sectorBytes]
      omega
    have hrest : ∀ n, pos + chunk ≤ n → (outBuf.take pos ++ sectorBytes (block d b) chunk ++
        outBuf.drop (pos + chunk)).drop n = outBuf.drop n := by
      intro n hn
      obtain ⟨k, rfl⟩ := Nat.exists_eq_add_of_le hn
      rw [← List.drop_drop, List.drop_left' hsame, List.drop_drop]
    rw [ih (by omega) (by simp; omega) h, hend, List.take_left' hsame, hrest _ (by omega), hdata,
      List.take_append, length_sectorBytes, take_sectorBytes, hchunk, ← List.append_assoc,
      show total - (pos + chunk) = total - pos - blockSize by omega]

/-! ## The server -/

/-- Reading a sector through the ATA server panics exactly when its address overflows. -/
theorem fsReadSector_eq_ok {b : ℕ} {o : Option Mem} :
    fsReadSector d b = .ok o ↔
      relizfsStartSector + b < 2 ^ 32 ∧ o = (readSector d (relizfsStartSector + b)).toOption := by
  rw [fsReadSector, Checked.bind_eq_ok]
  constructor
  · rintro ⟨lba, hadd, h⟩
    obtain ⟨hlt, rfl⟩ := Checked.add_eq_ok.mp hadd
    exact ⟨hlt, (Except.ok.inj h).symm⟩
  · rintro ⟨hlt, rfl⟩
    exact ⟨_, Checked.add_of_lt hlt, rfl⟩

theorem Readable.fsReadSector (hd : Readable d) {b : ℕ} {o : Option Mem}
    (h : fsReadSector d b = .ok o) : o = some (content d (relizfsStartSector + b)) := by
  obtain ⟨-, rfl⟩ := fsReadSector_eq_ok.mp h
  rw [hd.readSector_eq]
  rfl

theorem rootSector_eq_ok (hd : Readable d) {o : Option (Superblock × Mem)}
    (h : rootSector d = .ok o) :
    o = some (superblockOf d, block d (inodeAt d 0).firstBlock) := by
  obtain ⟨o₁, h₁, h⟩ := Checked.bind_eq_ok.mp h
  obtain rfl := hd.fsReadSector h₁
  obtain ⟨o₂, h₂, h⟩ := Checked.bind_eq_ok.mp h
  obtain rfl := hd.fsReadSector h₂
  obtain ⟨o₃, h₃, h⟩ := Checked.bind_eq_ok.mp h
  obtain rfl := hd.fsReadSector h₃
  exact (Except.ok.inj h).symm

theorem entryInode_eq_ok (hd : Readable d) {inodeNum : UInt32} {o : Option Inode}
    (h : entryInode d (superblockOf d) inodeNum = .ok o) : o = some (inodeAt d inodeNum) := by
  obtain ⟨sector, hadd, h⟩ := Checked.bind_eq_ok.mp h
  obtain ⟨-, rfl⟩ := Checked.add_eq_ok.mp hadd
  obtain ⟨o, ho, h⟩ := Checked.bind_eq_ok.mp h
  obtain rfl := hd.fsReadSector ho
  exact (Except.ok.inj h).symm

/-- The client's memory after a file was copied: the bytes, and a NUL behind them if there is
room. -/
def copied (mem : Mem) (clientBuf maxLen : ℕ) (bytes : List UInt8) : Mem :=
  if bytes.length < maxLen then
    writeBytes (writeBytes mem clientBuf bytes) (clientBuf + bytes.length) [0]
  else writeBytes mem clientBuf bytes

theorem readBytes_copied (mem : Mem) (clientBuf maxLen : ℕ) (bytes : List UInt8) :
    readBytes (copied mem clientBuf maxLen bytes) clientBuf bytes.length = bytes := by
  rw [copied]
  split
  · rw [readBytes_congr (agreeOn_writeBytes (Or.inl le_rfl)), readBytes_writeBytes]
  · exact readBytes_writeBytes _ _ _

/-- **The server copies** what the buffer with the first block of a file holds, as many bytes as the
file has and the client takes. -/
theorem copyFile_run (hd : Readable d) {inodeNum : UInt32} {mem : Mem} {clientBuf maxLen : ℕ}
    {q : Option ℕ × Mem}
    (h : copyFile d (superblockOf d) inodeNum mem clientBuf maxLen = .ok q) :
    q = (some (min (inodeAt d inodeNum).size.toNat maxLen), copied mem clientBuf maxLen
      (sectorBytes (block d (inodeAt d inodeNum).firstBlock)
        (min (inodeAt d inodeNum).size.toNat maxLen))) := by
  obtain ⟨o₁, h₁, h⟩ := Checked.bind_eq_ok.mp h
  obtain rfl := entryInode_eq_ok hd h₁
  obtain ⟨o₂, h₂, h⟩ := Checked.bind_eq_ok.mp h
  obtain rfl := hd.fsReadSector h₂
  rw [← Except.ok.inj h, copied, length_sectorBytes]
  rfl

/-- **The server's search** for a name in a directory block. -/
theorem readEntries_eq (sb : Superblock) (name : String) (mem : Mem) (clientBuf maxLen : ℕ)
    (entries : List DirectoryEntry) :
    readEntries d sb name mem clientBuf maxLen entries =
      match entries.find? fun e ↦ (e.inodeNum ≠ 0 ∧ 0 < e.nameLen) ∧ e.getName = some name with
      | none => .ok (none, mem)
      | some e => copyFile d sb e.inodeNum mem clientBuf maxLen := by
  induction entries with
  | nil => rfl
  | cons e entries ih =>
    rw [readEntries]
    by_cases hfound : (e.inodeNum ≠ 0 ∧ 0 < e.nameLen) ∧ e.getName = some name
    · rw [if_pos hfound.1, hfound.2, List.find?_cons_of_pos (by simpa using hfound)]
      exact if_pos rfl
    · rw [List.find?_cons_of_neg (by simpa using hfound), ← ih]
      by_cases hvalid : e.inodeNum ≠ 0 ∧ 0 < e.nameLen
      · rw [if_pos hvalid]
        cases hname : e.getName with
        | none => rfl
        | some name' =>
          have hne : name' ≠ name := fun heq ↦ hfound ⟨hvalid, by rw [hname, heq]⟩
          exact if_neg hne
      · exact if_neg hvalid

/-- An entry that has a name need not be asked for the length of it. -/
theorem find?_getName {name : String} (hname : name ≠ "") (entries : List DirectoryEntry) :
    (entries.find? fun e ↦ (e.inodeNum ≠ 0 ∧ 0 < e.nameLen) ∧ e.getName = some name) =
      entries.find? fun e ↦ e.inodeNum ≠ 0 ∧ e.getName = some name := by
  congr 1
  funext e
  rw [decide_eq_decide, and_assoc]
  exact and_congr_right fun _ ↦ and_iff_right_of_imp (e.nameLen_pos hname)

/-- **What the server replies**, and what it leaves in the client's memory. -/
theorem fsRead_run (hd : Readable d) {mem : Mem} {ptr clientBuf maxLen : ℕ} {q : Message × Mem}
    (h : fsRead d mem ptr clientBuf maxLen = .ok q) :
    q = match (entriesOf (block d (inodeAt d 0).firstBlock)).find? fun e ↦
        (e.inodeNum ≠ 0 ∧ 0 < e.nameLen) ∧ e.getName = some (targetFilename mem ptr) with
      | none => (⟨2, 999, 0, 0, 0, 0⟩, mem)
      | some e => (⟨2, 0, UInt64.ofNat (min (inodeAt d e.inodeNum).size.toNat maxLen), 0, 0, 0⟩,
          copied mem clientBuf maxLen (sectorBytes (block d (inodeAt d e.inodeNum).firstBlock)
            (min (inodeAt d e.inodeNum).size.toNat maxLen))) := by
  rw [fsRead] at h
  obtain ⟨o, ho, h⟩ := Checked.bind_eq_ok.mp h
  obtain rfl := rootSector_eq_ok hd ho
  obtain ⟨r, hread, h⟩ := Checked.bind_eq_ok.mp h
  rw [readEntries_eq] at hread
  split
  · next hnone =>
    rw [hnone] at hread
    obtain rfl := Except.ok.inj hread
    exact (Except.ok.inj h).symm
  · next e hsome =>
    rw [hsome] at hread
    obtain rfl := copyFile_run hd hread
    exact (Except.ok.inj h).symm

/-! ### The file name -/

/-- The memory holds a text at an address, with a NUL behind it. -/
def HoldsName (mem : Mem) (ptr : ℕ) (name : String) : Prop :=
  readBytes mem ptr (bytesOf name).length = bytesOf name ∧ mem (ptr + (bytesOf name).length) = 0

theorem filenameLen_eq {mem : Mem} {ptr n fuel len : ℕ} (hn : n ≤ 32) (hlen : len ≤ n)
    (hfuel : n < fuel + len) (hbytes : ∀ i < n, mem (ptr + i) ≠ 0)
    (hend : n = 32 ∨ mem (ptr + n) = 0) :
    filenameLen mem ptr fuel len = n := by
  induction fuel generalizing len with
  | zero => omega
  | succ fuel ih =>
    rw [filenameLen]
    by_cases hdone : len = n
    · rw [if_neg, hdone]
      rintro ⟨hne, hlt⟩
      rcases hend with h32 | hzero
      · omega
      · exact hne (hdone ▸ hzero)
    · rw [if_pos ⟨hbytes len (by omega), by omega⟩]
      exact ih (by omega) (by omega)

/-- **The server reads the name** of a request. -/
theorem targetFilename_eq {mem : Mem} {ptr : ℕ} {name : String} (h : HoldsName mem ptr name)
    (hnul : 0 ∉ bytesOf name) (hlen : (bytesOf name).length ≤ 31) :
    targetFilename mem ptr = name := by
  obtain ⟨hread, hend⟩ := h
  have hbytes : ∀ i < (bytesOf name).length, mem (ptr + i) ≠ 0 := by
    intro i hi hzero
    refine hnul ?_
    rw [← hread, readBytes, List.mem_map]
    exact ⟨i, List.mem_range.mpr hi, hzero⟩
  rw [targetFilename, filenameLen_eq (by omega) (Nat.zero_le _) (by omega) hbytes (Or.inr hend),
    hread, fromUtf8_eq_some.mpr rfl]
  rfl

end RelizOS.RelizFs
