import RelizOS.Library.ByteStrings
import RelizOS.Library.Trim
import RelizOS.RelizFs.Image

/-!
# Showing a file

The shell's `cat` takes the rest of the command line for a file name, without the white space around
it, and sends it to the file system server in a buffer of 32 bytes, cut after 31 bytes and with a
NUL at its end. The server measures the name, decodes it, or takes the empty name instead, and opens
the first slot of the root directory whose entry has the name.

A name that has been cut has more than 27 bytes and so does not fit in an entry; neither what is
left of it nor the empty name is the name of one. So the slot that is opened is the first with the
full name, without the white space (`opensSlot_iff`), and the server does not look behind the
buffer. A name with white space around it is not found, or another file in its place
(`not_opensSlot_iff`).
-/

open ByteMemory

namespace RelizOS

open RelizFs

/-! ## The command -/

/-- `char::is_whitespace`. -/
def isWhitespace (c : Char) : Bool :=
  (0x9 ≤ c.toNat ∧ c.toNat ≤ 0xD) ∨ (0x2000 ≤ c.toNat ∧ c.toNat ≤ 0x200A) ∨
    c.toNat ∈ [0x20, 0x85, 0xA0, 0x1680, 0x2028, 0x2029, 0x202F, 0x205F, 0x3000]

/-- `str::trim`. -/
def trim (s : String) : String := String.ofList (s.toList.trimWhile isWhitespace)

/-- `filename`, if the command is `cat` and names a file. -/
def catFilename (cmdStr : String) : Option String :=
  let trimmed := trim cmdStr
  match "cat ".toList.isPrefixOf? trimmed.toList with
  | none => none
  | some rest =>
    let filename := trim (String.ofList rest)
    if filename = "" then none else some filename

/-- `f_buf`. -/
def fileNameBuf (filename : String) : Checked (List UInt8) := do
  let fBytes := bytesOf filename
  let copyLen := min fBytes.length 31
  let fBuf ← copyFromSlice (List.replicate 32 0) 0 (fBytes.take copyLen)
  if copyLen < fBuf.length then return fBuf.set copyLen 0 else throw .bounds

/-- The request of the command `cat`, and the memory when it is sent, with `f_buf` and
`file_content` at two addresses. -/
def catRequest (mem : Mem) (fBufPtr contentPtr : UInt64) (cmdStr : String) :
    Checked (Option (Message × Mem)) :=
  match catFilename cmdStr with
  | none => return none
  | some filename => do
    let mem := writeBytes mem fBufPtr.toNat (← fileNameBuf filename)
    let mem := writeBytes mem contentPtr.toNat (List.replicate 512 0)
    return some (⟨1, 11, fBufPtr, contentPtr, 512, 0⟩, mem)

/-- The command `cat`: the reply of the server, and the memory. -/
def cat (d : Drive) (mem : Mem) (fBufPtr contentPtr : UInt64) (cmdStr : String) :
    Checked (Option (Message × Mem)) := do
  match ← catRequest mem fBufPtr contentPtr cmdStr with
  | none => return none
  | some (req, mem) => return some (← fsRead d mem req.arg1.toNat req.arg2.toNat req.arg3.toNat)

/-! ## What the server does with the name -/

/-- The bytes that the loop of `filenameLen` looks at, as offsets from the address of the name. -/
def scannedOffsets (mem : Mem) (filenamePtr : ℕ) : ℕ → ℕ → List ℕ
  | 0, _ => []
  | fuel + 1, len =>
    len :: if mem (filenamePtr + len) ≠ 0 ∧ len < 32 then
      scannedOffsets mem filenamePtr fuel (len + 1) else []

/-- The bytes that `targetFilename` reads: it measures the name and then decodes it. -/
def readOffsets (mem : Mem) (filenamePtr : ℕ) : List ℕ :=
  scannedOffsets mem filenamePtr 33 0 ++ List.range (filenameLen mem filenamePtr 33 0)

/-- The slot at which `readEntries` is left to copy a file. -/
def openedSlot (target : String) : List DirectoryEntry → Option ℕ
  | [] => none
  | entry :: entries =>
    if entry.inodeNum ≠ 0 ∧ 0 < entry.nameLen then
      match entry.getName with
      | some name => if name = target then some 0 else (openedSlot target entries).map (· + 1)
      | none => (openedSlot target entries).map (· + 1)
    else (openedSlot target entries).map (· + 1)

/-- A request opens a slot of a directory. -/
def OpensSlot (req : Option (Message × Mem)) (dirSector : Mem) (slot : ℕ) : Prop :=
  ∃ m mem, req = some (m, mem) ∧
    openedSlot (targetFilename mem m.arg1.toNat) (entriesOf dirSector) = some slot

/-- An entry is in use and has the name. -/
def Answers (name : String) (e : DirectoryEntry) : Prop :=
  (e.inodeNum ≠ 0 ∧ 0 < e.nameLen) ∧ e.getName = some name

instance (name : String) (e : DirectoryEntry) : Decidable (Answers name e) :=
  inferInstanceAs (Decidable (_ ∧ _))

/-- A slot is the first whose entry has the name. -/
structure FirstSlot (entries : List DirectoryEntry) (name : String) (slot : ℕ) : Prop where
  answers : ∃ e, entries[slot]? = some e ∧ Answers name e
  first : ∀ i < slot, ∀ e, entries[i]? = some e → ¬Answers name e

/-! ## The slot -/

theorem openedSlot_eq (target : String) (entries : List DirectoryEntry) :
    openedSlot target entries = entries.findIdx? fun e ↦ Answers target e := by
  induction entries with
  | nil => rfl
  | cons e entries ih =>
    rw [openedSlot, List.findIdx?_cons, ih]
    by_cases huse : e.inodeNum ≠ 0 ∧ 0 < e.nameLen
    · rw [if_pos huse]
      cases hname : e.getName with
      | none =>
        have hnot : ¬Answers target e := fun h ↦ by
          rw [h.2] at hname
          cases hname
        rw [decide_eq_false hnot]
        rfl
      | some name =>
        have hiff : Answers target e ↔ name = target := by
          rw [Answers, hname, Option.some_inj]
          exact and_iff_right huse
        by_cases heq : name = target
        · rw [decide_eq_true (hiff.mpr heq)]
          exact if_pos heq
        · rw [decide_eq_false fun h ↦ heq (hiff.mp h)]
          exact if_neg heq
    · rw [if_neg huse, decide_eq_false fun h ↦ huse h.1]
      rfl

/-- **The server copies the file** of the slot that is opened. -/
theorem readEntries_openedSlot (d : Drive) (sb : Superblock) (target : String) (mem : Mem)
    (clientBuf maxLen : ℕ) (entries : List DirectoryEntry) :
    readEntries d sb target mem clientBuf maxLen entries =
      match (openedSlot target entries).bind (entries[·]?) with
      | none => .ok (none, mem)
      | some e => copyFile d sb e.inodeNum mem clientBuf maxLen := by
  rw [readEntries_eq, openedSlot_eq, ← List.find?_eq_bind_findIdx?_getElem?]
  rfl

/-- **The slot that is opened** is the first whose entry has the name. -/
theorem openedSlot_eq_some {target : String} {entries : List DirectoryEntry} {slot : ℕ} :
    openedSlot target entries = some slot ↔ FirstSlot entries target slot := by
  rw [openedSlot_eq, List.findIdx?_eq_some_iff_getElem]
  constructor
  · rintro ⟨hlt, hanswers, hfirst⟩
    refine ⟨⟨_, List.getElem?_eq_getElem hlt, of_decide_eq_true hanswers⟩, fun i hi e he h ↦ ?_⟩
    obtain ⟨hlt', rfl⟩ := List.getElem?_eq_some_iff.mp he
    exact hfirst i hi (decide_eq_true h)
  · rintro ⟨⟨e, he, hanswers⟩, hfirst⟩
    obtain ⟨hlt, rfl⟩ := List.getElem?_eq_some_iff.mp he
    refine ⟨hlt, decide_eq_true hanswers, fun i hi h ↦ ?_⟩
    exact hfirst i hi _ (List.getElem?_eq_getElem _) (of_decide_eq_true h)

/-! ## The name -/

section

variable {name target : String} {mem : Mem} {ptr : ℕ}

theorem fileNameBuf_eq (filename : String) :
    fileNameBuf filename = .ok ((bytesOf filename).take 31 ++
      List.replicate (32 - min (bytesOf filename).length 31) 0) := by
  have hlen : ((bytesOf filename).take (min (bytesOf filename).length 31)).length =
      min (bytesOf filename).length 31 := by
    rw [List.length_take]
    omega
  rw [fileNameBuf, copyFromSlice_of_fits (by rw [hlen, List.length_replicate]; omega),
    Checked.ok_bind, List.take_zero, List.nil_append, Nat.zero_add, hlen, List.drop_replicate,
    if_pos (by simp), List.set_append_right _ _ hlen.le, List.set_replicate_self, min_comm,
    ← List.take_eq_take_min]
  rfl

theorem Answers.length_pos {e : DirectoryEntry} (h : Answers name e) :
    0 < (bytesOf name).length ∧ (bytesOf name).length ≤ 27 := by
  have hlen := DirectoryEntry.length_getName h.2
  have hpos : 0 < e.nameLen.toNat := UInt8.lt_iff_toNat_lt.mp h.1.2
  omega

/-- The memory holds the buffer with the name. -/
def HoldsBuf (mem : Mem) (ptr : ℕ) (name : String) : Prop :=
  BytesAt mem ptr ((bytesOf name).take 31 ++
    List.replicate (32 - min (bytesOf name).length 31) 0)

theorem HoldsBuf.filenameLen (h : HoldsBuf mem ptr name) (hnul : 0 ∉ bytesOf name) :
    filenameLen mem ptr 33 0 = min (bytesOf name).length 31 := by
  obtain ⟨hname, hend⟩ := bytesAt_append.mp h
  rw [List.length_take, min_comm] at hend
  refine filenameLen_eq (by omega) (Nat.zero_le _) (by omega) (fun i hi hzero ↦ hnul ?_)
    (Or.inr ?_)
  · have hbyte := hname i (by rw [List.length_take]; omega)
    rw [hzero, List.getElem_take] at hbyte
    exact hbyte ▸ List.getElem_mem _
  · exact (hend 0 (by rw [List.length_replicate]; omega)).trans (List.getElem_replicate _)

theorem le_filenameLen (mem : Mem) (ptr fuel len : ℕ) :
    len ≤ RelizFs.filenameLen mem ptr fuel len := by
  induction fuel generalizing len with
  | zero => exact le_rfl
  | succ fuel ih =>
    rw [RelizFs.filenameLen]
    split
    · exact (Nat.le_succ len).trans (ih (len + 1))
    · exact le_rfl

theorem le_of_mem_scannedOffsets {fuel len o : ℕ} (h : o ∈ scannedOffsets mem ptr fuel len) :
    o ≤ RelizFs.filenameLen mem ptr fuel len := by
  induction fuel generalizing len with
  | zero => cases h
  | succ fuel ih =>
    rw [scannedOffsets, List.mem_cons] at h
    rcases h with rfl | h
    · exact le_filenameLen mem ptr _ _
    · rw [RelizFs.filenameLen]
      split at h
      · next hgo =>
        rw [if_pos hgo]
        exact ih h
      · cases h

/-- **No byte behind the buffer is read.** -/
theorem HoldsBuf.readOffsets_lt (h : HoldsBuf mem ptr name) (hnul : 0 ∉ bytesOf name) {o : ℕ}
    (ho : o ∈ readOffsets mem ptr) : o < 32 := by
  have hlen := h.filenameLen hnul
  rw [readOffsets, List.mem_append, List.mem_range] at ho
  rcases ho with hscan | hdecode
  · have := le_of_mem_scannedOffsets hscan
    omega
  · omega

/-- **The server takes an entry for the one that is meant** exactly when it has the full name,
although the name may have been cut. -/
theorem HoldsBuf.answers_iff (h : HoldsBuf mem ptr name) (hnul : 0 ∉ bytesOf name)
    (e : DirectoryEntry) : Answers (targetFilename mem ptr) e ↔ Answers name e := by
  have hlen := h.filenameLen hnul
  by_cases hfits : (bytesOf name).length ≤ 31
  · obtain ⟨hname, -⟩ := bytesAt_append.mp h
    rw [List.take_of_length_le hfits] at hname
    rw [targetFilename, hlen, min_eq_left hfits, readBytes_eq hname, fromUtf8_eq_some.mpr rfl]
    rfl
  -- neither a name of 31 bytes nor the empty name is in an entry
  · refine iff_of_false (fun hanswers ↦ ?_) fun hanswers ↦ ?_
    · obtain ⟨hpos, hle⟩ := hanswers.length_pos
      rw [targetFilename, hlen, min_eq_right (by omega)] at hpos hle
      cases htext : fromUtf8 (readBytes mem ptr 31) with
      | none =>
        rw [htext] at hpos
        exact absurd hpos (by with_unfolding_all decide)
      | some text =>
        rw [htext, Option.getD_some, fromUtf8_eq_some.mp htext, readBytes, List.length_map,
          List.length_range] at hle
        omega
    · have := hanswers.length_pos.2
      omega

end

/-! ## The command line -/

/-- **The argument of a command** is what is left of the rest of the line without the white space
around it, if anything is. -/
theorem argument_eq {command : String} {word : List Char}
    (hcommand : command.toList = word ++ [' ']) (hne : word ≠ [])
    (hleft : word.dropWhile isWhitespace = word)
    (hright : word.rdropWhile isWhitespace = word) (arg : String) :
    (command.toList.isPrefixOf? (trim (command ++ arg)).toList).map
        (fun rest ↦ trim (String.ofList rest)) =
      if trim arg = "" then none else some (trim arg) := by
  have hline : (trim (command ++ arg)).toList =
      if arg.toList.rdropWhile isWhitespace = [] then word
      else command.toList ++ arg.toList.rdropWhile isWhitespace := by
    rw [trim, String.toList_ofList, String.toList_append, hcommand, List.append_assoc,
      List.append_assoc]
    exact List.trimWhile_line hne hleft hright (by decide) _
  have hblank : trim arg = "" ↔ arg.toList.rdropWhile isWhitespace = [] := by
    rw [← List.trimWhile_eq_nil_iff, trim, ← String.toList_inj, String.toList_ofList]
    rfl
  by_cases hempty : arg.toList.rdropWhile isWhitespace = []
  · rw [if_pos (hblank.mpr hempty), hline, if_pos hempty, hcommand]
    cases hstart : (word ++ [' ']).isPrefixOf? word with
    | none => rfl
    | some rest =>
      -- the command is longer than its word
      have hlen := congrArg List.length (List.isPrefixOf?_eq_some_iff_append_eq.mp hstart)
      rw [List.length_append, List.length_append, List.length_singleton] at hlen
      omega
  · rw [if_neg (fun h ↦ hempty (hblank.mp h)), hline, if_neg hempty,
      List.isPrefixOf?_eq_some_iff_append_eq.mpr rfl, Option.map_some]
    rw [trim, trim, String.toList_ofList, List.trimWhile_rdropWhile]

theorem catFilename_eq (name : String) :
    catFilename ("cat " ++ name) = if trim name = "" then none else some (trim name) := by
  have harg := argument_eq (show "cat ".toList = "cat".toList ++ [' '] from rfl) (by decide)
    (by decide) (by decide) name
  rw [catFilename]
  dsimp only
  cases hstart : "cat ".toList.isPrefixOf? (trim ("cat " ++ name)).toList with
  | none =>
    rw [hstart, Option.map_none] at harg
    exact harg
  | some rest =>
    rw [hstart, Option.map_some] at harg
    by_cases hempty : trim name = ""
    · rw [if_pos hempty] at harg
      cases harg
    · rw [if_neg hempty, Option.some_inj] at harg
      dsimp only
      rw [harg]

/-- The white space around a name is no part of the request. -/
theorem zero_not_mem_trim {name : String} (hnul : 0 ∉ bytesOf name) : 0 ∉ bytesOf (trim name) := by
  intro hmem
  refine hnul ?_
  rw [trim, bytesOf_ofList, List.mem_flatMap] at hmem
  obtain ⟨c, hc, hbyte⟩ := hmem
  rw [← String.ofList_toList (s := name), bytesOf_ofList, List.mem_flatMap]
  exact ⟨c, List.mem_of_mem_trimWhile hc, hbyte⟩

section

variable {mem : Mem} {fBufPtr contentPtr : UInt64} {name : String}

/-- Two buffers on the shell's stack do not overlap. -/
def BufsDisjoint (fBufPtr contentPtr : UInt64) : Prop :=
  fBufPtr.toNat + 32 ≤ contentPtr.toNat ∨ contentPtr.toNat + 512 ≤ fBufPtr.toNat

/-- **The request**: none if there is no name, and else the name in its buffer. -/
theorem catRequest_eq (hdisj : BufsDisjoint fBufPtr contentPtr) (mem : Mem) (name : String) :
    (trim name = "" ∧ catRequest mem fBufPtr contentPtr ("cat " ++ name) = .ok none) ∨
      ∃ mem', catRequest mem fBufPtr contentPtr ("cat " ++ name) =
          .ok (some (⟨1, 11, fBufPtr, contentPtr, 512, 0⟩, mem')) ∧
        HoldsBuf mem' fBufPtr.toNat (trim name) := by
  rw [catRequest, catFilename_eq]
  by_cases hempty : trim name = ""
  · rw [if_pos hempty]
    exact Or.inl ⟨hempty, rfl⟩
  · rw [if_neg hempty]
    dsimp only
    rw [fileNameBuf_eq, Checked.ok_bind]
    refine Or.inr ⟨_, rfl, (bytesAt_writeBytes mem _ _).writeBytes ?_⟩
    rw [List.length_append, List.length_take, List.length_replicate, List.length_replicate]
    rw [BufsDisjoint] at hdisj
    omega

/-- With the name in the buffer, the first slot is opened whose entry has the full name. -/
theorem HoldsBuf.opens_iff (h : HoldsBuf mem fBufPtr.toNat name) (hnul : 0 ∉ bytesOf name)
    {dirSector : Mem} {slot : ℕ} :
    OpensSlot (some (⟨1, 11, fBufPtr, contentPtr, 512, 0⟩, mem)) dirSector slot ↔
      FirstSlot (entriesOf dirSector) name slot := by
  have hopened : openedSlot (targetFilename mem fBufPtr.toNat) (entriesOf dirSector) =
      openedSlot name (entriesOf dirSector) := by
    simp only [openedSlot_eq, h.answers_iff hnul]
  rw [← openedSlot_eq_some, ← hopened]
  constructor
  · rintro ⟨m, mem', hreq, hslot⟩
    obtain ⟨rfl, rfl⟩ := Prod.mk.inj (Option.some.inj hreq)
    exact hslot
  · intro hslot
    exact ⟨_, _, rfl, hslot⟩

/-- **The slot that `cat` opens** is the first of the root directory whose entry has the name
without the white space around it, whatever its length, and the server reads no byte behind the
buffer with the name. -/
theorem opensSlot_iff (hdisj : BufsDisjoint fBufPtr contentPtr) (hnul : 0 ∉ bytesOf name)
    (mem : Mem) :
    ∃ req, catRequest mem fBufPtr contentPtr ("cat " ++ name) = .ok req ∧
      (∀ dirSector slot,
        OpensSlot req dirSector slot ↔ FirstSlot (entriesOf dirSector) (trim name) slot) ∧
      ∀ m mem', req = some (m, mem') → ∀ o ∈ readOffsets mem' m.arg1.toNat, o < 32 := by
  have hnul := zero_not_mem_trim hnul
  rcases catRequest_eq hdisj mem name with ⟨hempty, hreq⟩ | ⟨mem', hreq, hheld⟩
  · refine ⟨none, hreq, fun dirSector slot ↦ iff_of_false ?_ ?_, fun m mem' h ↦ nomatch h⟩
    · rintro ⟨m, mem', h, -⟩
      cases h
    · rintro ⟨⟨e, -, hanswers⟩, -⟩
      have hpos := hanswers.length_pos.1
      rw [hempty] at hpos
      exact absurd hpos (by with_unfolding_all decide)
  · refine ⟨_, hreq, fun dirSector slot ↦ hheld.opens_iff hnul, ?_⟩
    rintro m mem'' h o ho
    obtain ⟨rfl, rfl⟩ := Prod.mk.inj (Option.some.inj h)
    exact hheld.readOffsets_lt hnul ho

end

/-- A root directory with a file `a` in its first slot. -/
def sectorWithA : Mem := sectorWith [(0, [1, 0, 0, 0, 1, 97])]

theorem opensSlot_sectorWithA : ∃ req, catRequest (fun _ ↦ 0) 0 32 ("cat " ++ "a") = .ok req ∧
    OpensSlot req sectorWithA 0 := by
  have hdisj : BufsDisjoint 0 32 := Or.inl le_rfl
  have hnul : 0 ∉ bytesOf "a" := by decide +kernel
  obtain ⟨req, hreq, hslot, -⟩ := opensSlot_iff hdisj hnul fun _ ↦ 0
  have hfirst : openedSlot "a" (entriesOf sectorWithA) = some 0 := by decide +kernel
  rw [openedSlot_eq_some, show "a" = trim "a" by decide +kernel] at hfirst
  exact ⟨req, hreq, (hslot sectorWithA 0).mpr hfirst⟩

/-- **White space is not part of the name**: the file `a` is shown for `a` and a blank. -/
theorem not_opensSlot_iff :
    ¬∀ (mem : Mem) (fBufPtr contentPtr : UInt64) (name : String) (dirSector : Mem) (slot : ℕ)
      (req : Option (Message × Mem)), BufsDisjoint fBufPtr contentPtr → 0 ∉ bytesOf name →
      (bytesOf ("cat " ++ name)).length ≤ 64 →
      catRequest mem fBufPtr contentPtr ("cat " ++ name) = .ok req →
      (OpensSlot req dirSector slot ↔ FirstSlot (entriesOf dirSector) name slot) := by
  intro hgeneral
  have hdisj : BufsDisjoint 0 32 := Or.inl le_rfl
  rcases catRequest_eq hdisj (fun _ ↦ 0) "a " with ⟨hempty, -⟩ | ⟨mem', hreq, hheld⟩
  · revert hempty
    decide +kernel
  · have hiff := hgeneral _ 0 32 "a " sectorWithA 0 _ hdisj (by decide +kernel)
      (by decide +kernel) hreq
    rw [hheld.opens_iff (by decide +kernel), ← openedSlot_eq_some, ← openedSlot_eq_some] at hiff
    revert hiff
    decide +kernel

end RelizOS
