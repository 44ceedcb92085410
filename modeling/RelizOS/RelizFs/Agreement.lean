import RelizOS.RelizFs.Image

/-!
# Two implementations of one lookup

To read a file by its name, the kernel calls `find_entry`, `read_inode` and `read_file`; the server
has its own code for `MSG_FS_READ`. They differ in four ways: which entries they look at (all
allocated direct blocks, or the first block whether allocated or not), whether an entry with inode
number 0 counts, whether the inode must be a regular file below `inode_count`, and what an
unallocated first block means (an empty file, or sector 0 of the partition).

`ServedAlike` says of an image and a name that none of this matters; `agree_iff` shows that the two
agree exactly then. They do not agree on a directory (`not_agree`).
-/

open ByteMemory

namespace RelizOS.RelizFs

/-- The three calls of the kernel, with a buffer of 512 bytes. -/
def kernelRead (reader : RelizFsReader) (d : Drive) (root : Inode) (name : String) :
    Fs (ℕ × List UInt8) := do
  let inodeNum ← findEntry d root name
  let inode ← reader.readInode d inodeNum
  readFile d inode (List.replicate 512 0)

/-- The server replies with success exactly when the kernel's calls return `Ok`, and then it reports
the same length and has delivered the same bytes. -/
def Agree (kernel : Except String (ℕ × List UInt8)) (server : Message × Mem) (clientBuf : ℕ) :
    Prop :=
  (server.1.msgType = 0 ↔ ∃ r, kernel = .ok r) ∧
    ∀ n buf, kernel = .ok (n, buf) →
      server.1.arg1 = UInt64.ofNat n ∧ readBytes server.2 clientBuf n = buf.take n

section

variable (d : Drive) (name : String)

/-- The entry the kernel finds: the first with the name in the allocated blocks of the root
directory. -/
def kernelEntry : Option DirectoryEntry :=
  (entriesIn d (inodeAt d 0).directBlocks.toList).find? fun e ↦ e.getName = some name

/-- The entry the server finds: the first with the name and an inode number other than 0, in the
sector that the first direct block of the root directory names. -/
def serverEntry : Option DirectoryEntry :=
  (entriesOf (block d (inodeAt d 0).firstBlock)).find? fun e ↦
    e.inodeNum ≠ 0 ∧ e.getName = some name

/-- The entry names a regular file in the inode table. -/
def NamesFile (e : DirectoryEntry) : Prop :=
  e.inodeNum < (superblockOf d).inodeCount ∧ (inodeAt d e.inodeNum).IsFile

/-- The first 512 bytes of a file, in the sector that its first direct block names. -/
def fileStart (i : Inode) : List UInt8 :=
  sectorBytes (block d i.firstBlock) (min i.size.toNat 512)

/-- The same for the kernel, to which a file without a first block is empty. -/
def kernelStart (i : Inode) : List UInt8 := if i.firstBlock = 0 then [] else fileStart d i

/-- The entries that kernel and server find, if any, make no difference: either the server finds
none, and the kernel none that names a regular file; or the server finds one, and the kernel one
that names a regular file, and the two begin alike. -/
def ServedAlike : Prop :=
  match serverEntry d name with
  | none => ∀ k, kernelEntry d name = some k → ¬NamesFile d k
  | some s => ∃ k, kernelEntry d name = some k ∧ NamesFile d k ∧
      kernelStart d (inodeAt d k.inodeNum) = fileStart d (inodeAt d s.inodeNum)

end

/-! ## The kernel -/

variable {d : Drive} {name : String}

theorem toList_eq_cons {α : Type} {n : ℕ} (v : Vector α (n + 1)) :
    v.toList = v[0] :: v.toList.tail := by
  cases h : v.toList with
  | nil => simpa using congrArg List.length h
  | cons a l =>
    have hget : v[0] = a := by
      rw [← Vector.getElem_toList (by simp)]
      simp only [h, List.getElem_cons_zero]
    rw [hget, List.tail_cons]

theorem take_dataIn (i : Inode) :
    (dataIn d i.directBlocks.toList).take (min i.size.toNat 512) = kernelStart d i := by
  rw [dataIn, toList_eq_cons, ← Inode.firstBlock, kernelStart]
  by_cases hzero : i.firstBlock = 0
  · simp [hzero]
  · rw [if_neg hzero, List.takeWhile_cons_of_pos (by simpa using hzero), List.flatMap_cons,
      List.take_append_of_le_length (by rw [length_sectorBytes, blockSize]; omega),
      take_sectorBytes, fileStart, blockSize]
    congr 1
    omega

theorem readFile_run (hd : Readable d) {inode : Inode} {q : Except String (ℕ × List UInt8)}
    (h : (readFile d inode (List.replicate 512 0)).run = .ok q) :
    if inode.IsFile then ∃ n buf, q = .ok (n, buf) ∧ n = (buf.take n).length ∧
      buf.take n = kernelStart d inode
    else ∃ e, q = .error e := by
  rw [readFile] at h
  by_cases hfile : inode.IsFile
  · rw [if_pos hfile] at h ⊢
    obtain rfl := readBlocks_eq hd (Nat.zero_le _) (min_le_right _ _) h
    rw [List.length_replicate, List.take_zero, List.nil_append, Nat.sub_zero, Nat.zero_add,
      take_dataIn]
    have hlen : (kernelStart d inode).length =
        min (min inode.size.toNat 512) (dataIn d inode.directBlocks.toList).length := by
      rw [← take_dataIn, List.length_take]
    refine ⟨_, _, rfl, ?_, List.take_left' hlen⟩
    rw [List.take_left' hlen, hlen]
  · rw [if_neg hfile] at h ⊢
    exact ⟨_, (Except.ok.inj h).symm⟩

/-- **What the kernel returns**, in terms of the image. -/
theorem kernelRead_run (hd : Readable d) (hroot : (inodeAt d 0).IsDirectory) (hname : name ≠ "")
    {q : Except String (ℕ × List UInt8)}
    (h : (kernelRead ⟨superblockOf d⟩ d (inodeAt d 0) name).run = .ok q) :
    (kernelEntry d name = none → ∃ e, q = .error e) ∧
      ∀ k, kernelEntry d name = some k →
        (NamesFile d k → ∃ n buf, q = .ok (n, buf) ∧ n = (buf.take n).length ∧
          buf.take n = kernelStart d (inodeAt d k.inodeNum)) ∧
        (¬NamesFile d k → ∃ e, q = .error e) := by
  rw [kernelRead, Fallible.run_bind, Checked.bind_eq_ok] at h
  obtain ⟨p, hp, h⟩ := h
  rw [findEntry, if_pos hroot] at hp
  have hfound := findInBlocks_run hd hname hp
  rw [← kernelEntry] at hfound
  constructor
  · intro hnone
    rw [hnone] at hfound
    subst hfound
    exact ⟨_, (Except.ok.inj h).symm⟩
  · intro k hk
    rw [hk] at hfound
    subst hfound
    dsimp only at h
    rw [Fallible.run_bind, Checked.bind_eq_ok] at h
    obtain ⟨p, hp, h⟩ := h
    have hinode := readInode_run hd hp
    -- `read_inode` checks the number of the entry against the superblock, which the search does not
    by_cases hidx : (superblockOf d).inodeCount ≤ k.inodeNum
    · rw [if_pos hidx] at hinode
      subst hinode
      have hnot : ¬NamesFile d k := fun hfile ↦ UInt32.not_lt.mpr hidx hfile.1
      exact ⟨fun hfile ↦ absurd hfile hnot, fun _ ↦ ⟨_, (Except.ok.inj h).symm⟩⟩
    · rw [if_neg hidx] at hinode
      subst hinode
      have hread := readFile_run hd h
      constructor
      · intro hfile
        rwa [if_pos hfile.2] at hread
      · intro hnot
        rwa [if_neg fun hfile ↦ hnot ⟨UInt32.not_le.mp hidx, hfile⟩] at hread

/-! ## The server -/

/-- **What the server replies**, in terms of the image. -/
theorem fsRead_eq_ok (hd : Readable d) (hname : name ≠ "") {mem : Mem} {ptr clientBuf : ℕ}
    (htarget : targetFilename mem ptr = name) {q : Message × Mem}
    (h : fsRead d mem ptr clientBuf 512 = .ok q) :
    (serverEntry d name = none → q.1.msgType = 999) ∧
      ∀ s, serverEntry d name = some s → q.1.msgType = 0 ∧
        q.1.arg1 = UInt64.ofNat (fileStart d (inodeAt d s.inodeNum)).length ∧
        readBytes q.2 clientBuf (fileStart d (inodeAt d s.inodeNum)).length =
          fileStart d (inodeAt d s.inodeNum) := by
  have hrun := fsRead_run hd h
  rw [htarget, find?_getName hname, ← serverEntry] at hrun
  constructor
  · intro hnone
    rw [hrun, hnone]
  · intro s hs
    rw [hs] at hrun
    dsimp only at hrun
    rw [← fileStart] at hrun
    rw [hrun]
    dsimp only
    refine ⟨rfl, ?_, readBytes_copied _ _ _ _⟩
    rw [fileStart, length_sectorBytes]

/-! ## Agreement -/

section

variable {server : Message × Mem} {clientBuf n : ℕ} {buf bytes : List UInt8}

theorem agree_error {e : String} : Agree (.error e) server clientBuf ↔ server.1.msgType ≠ 0 := by
  constructor
  · rintro ⟨hiff, -⟩ hzero
    obtain ⟨r, hr⟩ := hiff.mp hzero
    cases hr
  · intro hne
    refine ⟨⟨fun hzero ↦ absurd hzero hne, ?_⟩, fun n buf h ↦ (nomatch h)⟩
    rintro ⟨r, hr⟩
    cases hr

theorem agree_ok (hn : n = (buf.take n).length) (hle : n ≤ 512) (hle' : bytes.length ≤ 512)
    (hzero : server.1.msgType = 0) (harg : server.1.arg1 = UInt64.ofNat bytes.length)
    (hbytes : readBytes server.2 clientBuf bytes.length = bytes) :
    Agree (.ok (n, buf)) server clientBuf ↔ buf.take n = bytes := by
  constructor
  · rintro ⟨-, hok⟩
    obtain ⟨harg', hread⟩ := hok n buf rfl
    have hlength : bytes.length = n := by
      have hsize : 512 < UInt64.size := by decide
      have := congrArg UInt64.toNat (harg.symm.trans harg')
      rwa [UInt64.toNat_ofNat_of_lt' (by omega), UInt64.toNat_ofNat_of_lt' (by omega)] at this
    rw [← hread, ← hlength, hbytes]
  · rintro rfl
    refine ⟨iff_of_true hzero ⟨_, rfl⟩, fun n' buf' h ↦ ?_⟩
    obtain ⟨rfl, rfl⟩ := Prod.mk.inj (Except.ok.inj h)
    rw [← hn] at harg hbytes
    exact ⟨harg, hbytes⟩

end

theorem length_fileStart_le (i : Inode) : (fileStart d i).length ≤ 512 := by
  rw [fileStart, length_sectorBytes]
  exact min_le_right _ _

theorem length_kernelStart_le (i : Inode) : (kernelStart d i).length ≤ 512 := by
  rw [kernelStart]
  split
  · exact Nat.zero_le _
  · exact length_fileStart_le i

/-- **Kernel and server agree** exactly on the images on which their differences do not matter. -/
theorem agree_iff (hd : Readable d) {reader : RelizFsReader}
    (hmount : (RelizFsReader.init d).run = .ok (.ok reader)) (hroot : (inodeAt d 0).IsDirectory)
    {mem : Mem} {ptr clientBuf : ℕ} (hmem : HoldsName mem ptr name) (hnul : 0 ∉ bytesOf name)
    (hpos : 1 ≤ (bytesOf name).length) (hlen : (bytesOf name).length ≤ 31)
    {kernel : Except String (ℕ × List UInt8)}
    (hkernel : (kernelRead reader d (inodeAt d 0) name).run = .ok kernel) {server : Message × Mem}
    (hserver : fsRead d mem ptr clientBuf 512 = .ok server) :
    Agree kernel server clientBuf ↔ ServedAlike d name := by
  obtain ⟨rfl, -⟩ := init_eq_ok hd hmount
  have hname : name ≠ "" := by
    rintro rfl
    exact absurd hpos (by with_unfolding_all decide)
  obtain ⟨hkNone, hkSome⟩ := kernelRead_run hd hroot hname hkernel
  obtain ⟨hsNone, hsSome⟩ := fsRead_eq_ok hd hname (targetFilename_eq hmem hnul hlen) hserver
  -- the server looks first, for it says whether there is an answer to agree with
  rw [ServedAlike]
  cases hsEntry : serverEntry d name with
  | none =>
    have hne : server.1.msgType ≠ 0 := by
      rw [hsNone hsEntry]
      decide
    dsimp only
    cases hkEntry : kernelEntry d name with
    | none =>
      obtain ⟨e, rfl⟩ := hkNone hkEntry
      exact iff_of_true (agree_error.mpr hne) fun k hk ↦ (nomatch hk)
    | some k =>
      have hk := hkSome k hkEntry
      by_cases hfile : NamesFile d k
      · obtain ⟨n, buf, rfl, -⟩ := hk.1 hfile
        refine iff_of_false ?_ fun hall ↦ hall k rfl hfile
        rintro ⟨hiff, -⟩
        exact hne (hiff.mpr ⟨_, rfl⟩)
      · obtain ⟨e, rfl⟩ := hk.2 hfile
        refine iff_of_true (agree_error.mpr hne) ?_
        rintro k' ⟨⟩
        exact hfile
  | some s =>
    obtain ⟨hzero, harg, hbytes⟩ := hsSome s hsEntry
    dsimp only
    cases hkEntry : kernelEntry d name with
    | none =>
      obtain ⟨e, rfl⟩ := hkNone hkEntry
      refine iff_of_false (fun h ↦ agree_error.mp h hzero) ?_
      rintro ⟨k, hk, -⟩
      cases hk
    | some k =>
      have hk := hkSome k hkEntry
      by_cases hfile : NamesFile d k
      · obtain ⟨n, buf, rfl, hn, hbuf⟩ := hk.1 hfile
        rw [agree_ok hn (by rw [hn, hbuf]; exact length_kernelStart_le _) (length_fileStart_le _)
          hzero harg hbytes, hbuf]
        constructor
        · intro h
          exact ⟨k, rfl, hfile, h⟩
        · rintro ⟨_, ⟨⟩, -, h⟩
          exact h
      · obtain ⟨e, rfl⟩ := hk.2 hfile
        refine iff_of_false (fun h ↦ agree_error.mp h hzero) ?_
        rintro ⟨k', ⟨⟩, hfile', -⟩
        exact hfile hfile'

/-! ### A small image

The root directory has a file `f` of three bytes and a directory `d`. -/

def smallImage : Drive := fun lba ↦ .ok <| sectorWith <|
  match lba with
  | 40002 => [(0, [0x53, 0x46, 0x5A, 0x49, 0x4C, 0x45, 0x52]), (12, [3]), (16, [3])]
  | 40003 => [(8, [2, 0, 13]), (64, [3]), (72, [1, 0, 14]), (128, [3]), (136, [2, 0, 14])]
  | 40013 => [(0, [1, 0, 0, 0, 1, 102]), (32, [2, 0, 0, 0, 1, 100])]
  | 40014 => [(0, [1, 2, 3])]
  | _ => []

theorem smallImage_readable : Readable smallImage := fun _ ↦ ⟨_, rfl⟩

/-- The kernel's reader on the image. -/
def smallReader : RelizFsReader := ⟨superblockOf smallImage⟩

theorem smallImage_mount : (RelizFsReader.init smallImage).run = .ok (.ok smallReader) := by
  decide +kernel

/-- A client's memory with a name of one byte. -/
def smallMem (c : UInt8) : Mem := sectorWith [(0, [c])]

theorem agree_iff_smallImage : ∃ kernel server,
    (kernelRead smallReader smallImage (inodeAt smallImage 0) "f").run = .ok kernel ∧
    fsRead smallImage (smallMem 102) 0 64 512 = .ok server ∧ Agree kernel server 64 := by
  have hentry : kernelEntry smallImage "f" = serverEntry smallImage "f" := by decide +kernel
  have hserved : ServedAlike smallImage "f" := by
    rw [ServedAlike, hentry]
    cases hs : serverEntry smallImage "f" with
    | none => exact absurd hs (by decide +kernel)
    | some s =>
      have hnum : s.inodeNum = 1 := by
        have hmap : (serverEntry smallImage "f").map DirectoryEntry.inodeNum = some 1 := by
          decide +kernel
        rw [hs] at hmap
        exact Option.some.inj hmap
      refine ⟨s, rfl, ?_, ?_⟩
      · rw [NamesFile, hnum]
        decide +kernel
      · rw [hnum]
        decide +kernel
  have hkernel := Checked.eq_ok_result
    (kernelRead smallReader smallImage (inodeAt smallImage 0) "f").run (by decide +kernel)
  have hserver := Checked.eq_ok_result (fsRead smallImage (smallMem 102) 0 64 512)
    (by decide +kernel)
  exact ⟨_, _, hkernel, hserver, (agree_iff smallImage_readable smallImage_mount (by decide +kernel)
    ⟨by decide +kernel, by decide +kernel⟩ (by decide +kernel) (by decide +kernel)
    (by decide +kernel) hkernel hserver).mpr hserved⟩

/-- **They do not agree** on a name of a directory: the server sends its first block, as if it were
a file. -/
theorem not_agree :
    ¬∀ (d : Drive) (reader : RelizFsReader) (name : String) (mem : Mem) (ptr clientBuf : ℕ)
      (kernel : Except String (ℕ × List UInt8)) (server : Message × Mem),
      Readable d → (RelizFsReader.init d).run = .ok (.ok reader) → (inodeAt d 0).IsDirectory →
      HoldsName mem ptr name → 0 ∉ bytesOf name → 1 ≤ (bytesOf name).length →
      (bytesOf name).length ≤ 31 →
      (kernelRead reader d (inodeAt d 0) name).run = .ok kernel →
      fsRead d mem ptr clientBuf 512 = .ok server → Agree kernel server clientBuf := by
  intro hgeneral
  have hkernel : (kernelRead smallReader smallImage (inodeAt smallImage 0) "d").run =
      .ok (.error "Inode is not a regular file") := by decide +kernel
  have hserver := Checked.eq_ok_result (fsRead smallImage (smallMem 100) 0 64 512)
    (by decide +kernel)
  have hzero : ((fsRead smallImage (smallMem 100) 0 64 512).result (by decide +kernel)).1.msgType =
      0 := by decide +kernel
  have hagree := hgeneral smallImage smallReader "d" (smallMem 100) 0 64 _ _ smallImage_readable
    smallImage_mount (by decide +kernel) ⟨by decide +kernel, by decide +kernel⟩ (by decide +kernel)
    (by decide +kernel) (by decide +kernel) hkernel hserver
  exact agree_error.mp hagree hzero

end RelizOS.RelizFs
