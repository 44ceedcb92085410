import RelizOS.RelizFs.Lookup
import RelizOS.RelizFs.Mounting
import RelizOS.Services.Commands

/-!
# The commands on a new volume

The host tool formats a disk image, and the machine is started with it. What the formatter promises
is a list of files, of which there is one. The commands that read the disk show this list, whatever
the image held before, and whatever there is in the memory of the shell: `ls` lists the files, `cat`
prints the file with the name it is given, and `diskinfo` knows the size of the volume
(`newVolume_commands`).

The servers read the volume by themselves, without the reader of the kernel, so what is known of
that one (`AsFormatted`) says nothing here. They skip the entries for the directory and its parent,
whose inode number is 0, and these are not listed.
-/

open ByteMemory

namespace RelizOS

open RelizFs

/-! ## The files -/

/-- A file of a volume. -/
structure VolumeFile where
  name : String
  content : String

namespace VolumeFile

/-- How a file is listed. -/
def line (file : VolumeFile) : String :=
  "[FILE] " ++ file.name ++ (" (" ++ toString (bytesOf file.content).length ++ " bytes)") ++ "\n"

end VolumeFile

/-- The files of a new volume. -/
def newFiles : List VolumeFile := [⟨"hello.txt", testFileContent⟩]

/-- What is shown of the file with a name. -/
def shownFile (files : List VolumeFile) (name : String) : List Output :=
  match files.find? (·.name = name) with
  | some file => [.text file.content, .text "\n"]
  | none => [.text "File not found!\n"]

/-! ## The image -/

namespace RelizFs

section

variable {d : Drive} {prev f : DiskFile}

theorem Holds.content_eq {sector : ℕ} {s : Mem} (h : Holds d sector s) :
    content d (relizfsStartSector + sector) = s := by
  rw [Holds] at h
  rw [content, h]

theorem Formatted.superblockOf_eq (h : Formatted prev f) (hd : Attached d f) :
    superblockOf d = newSuperblock := by
  obtain ⟨s, hs, hbytes⟩ := h.holds hd 2 (by omega)
  rw [superblockOf, hs.content_eq]
  exact Superblock.read_bytes (bytesAt_of_sector hbytes h.superblock
    (by rw [Superblock.length_bytes]; decide))

/-- An inode that the kernel reads is where the server looks for it. -/
theorem Formatted.inodeAt_eq (h : Formatted prev f) (hd : Attached d f) {idx : UInt32}
    {inode : Inode}
    (hread : (RelizFsReader.readInode ⟨newSuperblock⟩ d idx).run = .ok (.ok inode)) :
    inodeAt d idx = inode := by
  obtain ⟨-, -, s, hs, rfl⟩ := readInode_eq_ok.mp hread
  rw [inodeAt, h.superblockOf_eq hd, hs.content_eq, inodeIn]

theorem Formatted.inodeAt_hello (h : Formatted prev f) (hd : Attached d f) :
    inodeAt d (DirectoryEntry.new 1 "hello.txt").inodeNum = helloInode :=
  h.inodeAt_eq hd (h.readHello hd)

theorem Formatted.rootEntries_eq (h : Formatted prev f) (hd : Attached d f) :
    rootEntries d = newEntries ++ List.replicate 13 emptyEntry := by
  obtain ⟨s, hs, hentries⟩ := h.rootSector hd
  rw [rootEntries, h.inodeAt_eq hd (h.readRoot hd)]
  exact (congrArg entriesOf (Holds.block_eq hs)).trans hentries

theorem size_helloInode : helloInode.size.toNat = (bytesOf testFileContent).length := by
  with_unfolding_all decide

theorem listed_unused {e : DirectoryEntry} (he : e.inodeNum = 0) : listed d e = none :=
  if_neg fun hused ↦ hused.1 he

/-- **The listing** has the line of the file. -/
theorem Formatted.completeListing_eq (h : Formatted prev f) (hd : Attached d f) :
    completeListing d = String.join (newFiles.map VolumeFile.line) := by
  have hempty : (List.replicate 13 emptyEntry).filterMap (listed d) = [] :=
    List.filterMap_eq_nil_iff.mpr fun e he ↦
      listed_unused (congrArg DirectoryEntry.inodeNum (List.eq_of_mem_replicate he))
  have hhello : listed d (.new 1 "hello.txt") = some (lineOf "hello.txt" helloInode) := by
    rw [listed, if_pos (by with_unfolding_all decide), getName_hello, Option.map_some,
      h.inodeAt_hello hd]
  have hline : lineOf "hello.txt" helloInode =
      VolumeFile.line ⟨"hello.txt", testFileContent⟩ := by
    rw [lineOf, if_neg (by with_unfolding_all decide), if_pos (by with_unfolding_all decide),
      size_helloInode]
    rfl
  rw [completeListing, h.rootEntries_eq hd, List.filterMap_append, hempty, List.append_nil,
    newEntries, List.filterMap_cons_none (listed_unused rfl),
    List.filterMap_cons_none (listed_unused rfl), List.filterMap_cons_some hhello, hline]
  rfl

/-- **The requested file** is found if it has the name. -/
theorem Formatted.requestedEntry_eq (h : Formatted prev f) (hd : Attached d f) (name : String) :
    requestedEntry d name = if name = "hello.txt" then some (.new 1 "hello.txt") else none := by
  have hunused : ∀ e : DirectoryEntry, e.inodeNum = 0 →
      ¬decide ((e.inodeNum ≠ 0 ∧ 0 < e.nameLen) ∧ e.getName = some name) = true :=
    fun e he hfound ↦ (of_decide_eq_true hfound).1.1 he
  have hempty : (List.replicate 13 emptyEntry).find?
      (fun e ↦ (e.inodeNum ≠ 0 ∧ 0 < e.nameLen) ∧ e.getName = some name) = none :=
    List.find?_eq_none.mpr fun e he ↦
      hunused e (congrArg DirectoryEntry.inodeNum (List.eq_of_mem_replicate he))
  have hused : (DirectoryEntry.new 1 "hello.txt").inodeNum ≠ 0 ∧
      0 < (DirectoryEntry.new 1 "hello.txt").nameLen := by with_unfolding_all decide
  have hentry : [DirectoryEntry.new 1 "hello.txt"].find?
      (fun e ↦ (e.inodeNum ≠ 0 ∧ 0 < e.nameLen) ∧ e.getName = some name) =
        if name = "hello.txt" then some (.new 1 "hello.txt") else none := by
    by_cases hname : name = "hello.txt"
    · rw [if_pos hname, List.find?_cons_of_pos]
      exact decide_eq_true ⟨hused, getName_hello.trans (congrArg some hname.symm)⟩
    · rw [if_neg hname, List.find?_cons_of_neg]
      · rfl
      · intro hfound
        have hsome := (of_decide_eq_true hfound).2
        rw [getName_hello] at hsome
        exact hname (Option.some.inj hsome).symm
  rw [requestedEntry, h.rootEntries_eq hd, List.find?_append, hempty, Option.or_none, newEntries,
    List.find?_cons_of_neg, List.find?_cons_of_neg, hentry]
  · exact hunused _ rfl
  · exact hunused _ rfl

/-- **The file** is in its block, from the first byte on. -/
theorem Formatted.fileText_eq (h : Formatted prev f) (hd : Attached d f) :
    Command.fileText d helloInode = some testFileContent := by
  have hfits : (bytesOf testFileContent).length ≤ blockSize := by with_unfolding_all decide
  obtain ⟨s, hs, hbytes⟩ := h.holds hd 14 (by omega)
  have hblock := bytesAt_of_sector (a := 0) hbytes h.fileBlock
    (by rw [length_fileBlock, Nat.zero_add])
  obtain ⟨hcontent, -⟩ := bytesAt_append.mp hblock
  have hmin : min helloInode.size.toNat 512 = (bytesOf testFileContent).length := by
    rw [size_helloInode]
    exact min_eq_left hfits
  have hfirst : block d helloInode.firstBlock = s := Holds.block_eq hs
  rw [Command.fileText, hmin, hfirst, fromUtf8_eq_some]
  apply List.ext_getElem
  · rw [length_sectorBytes]
  · intro i hi hi'
    have hbyte := hcontent i hi
    rw [Nat.zero_add] at hbyte
    simp only [sectorBytes, List.getElem_map, List.getElem_range, hbyte]

end

end RelizFs

/-! ## The commands -/

section

variable {d : Drive} {prev f : DiskFile} {w : World} {cmdStr : String}

theorem listFits_newVolume (h : Formatted prev f) (hd : Attached d f) :
    Command.ListFits d := by
  rw [Command.ListFits, h.superblockOf_eq hd, h.inodeAt_eq hd (h.readRoot hd),
    h.rootEntries_eq hd]
  refine ⟨by decide, by decide, fun e he hused _ _ ↦ ?_⟩
  obtain he | he := List.mem_append.mp he
  · rw [newEntries] at he
    simp only [List.mem_cons, List.not_mem_nil, or_false] at he
    obtain rfl | rfl | rfl := he
    · exact absurd rfl hused
    · exact absurd rfl hused
    · decide
  · exact absurd (congrArg DirectoryEntry.inodeNum (List.eq_of_mem_replicate he)) hused

theorem readFits_newVolume (h : Formatted prev f) (hd : Attached d f) (name : String) :
    ReadFits d name := by
  rw [ReadFits, h.superblockOf_eq hd, h.inodeAt_eq hd (h.readRoot hd), h.requestedEntry_eq hd]
  refine ⟨by decide, by decide, fun e he ↦ ?_⟩
  split at he
  · obtain rfl := Option.some.inj he
    rw [h.inodeAt_hello hd]
    exact ⟨by decide, by decide⟩
  · cases he

theorem not_fillsBuffer_newVolume (h : Formatted prev f) (hd : Attached d f) :
    ¬FillsBuffer d := by
  intro hfull
  have hempty : emptyEntry ∈ rootEntries d := by
    rw [h.rootEntries_eq hd]
    exact List.mem_append_right _ (List.mem_replicate.mpr ⟨by decide, rfl⟩)
  obtain ⟨name, ⟨⟨hused, -⟩, -⟩, -⟩ := hfull emptyEntry hempty
  exact hused rfl

theorem untilNul_newFiles : Command.untilNul (String.join (newFiles.map VolumeFile.line)) =
    String.join (newFiles.map VolumeFile.line) := by
  decide +kernel

/-- What `diskinfo` shows of a new volume, for the first entry of the partition table. -/
def newDiskinfo (start sectors : ℕ) : List Output :=
  ["Primary Disk Storage Info:\n", "  ATA Drive Channel: Primary Master (0)\n",
    "  Partition 1 LBA:   ", toString start, "\n  Partition Sectors: ", toString sectors,
    "\n\nMount volume: RelizFS File System\n", "  Superblock Magic:  0x", "0052454C495A4653",
    "\n  Total FS Blocks:   ", "4096", "\n  Total FS Inodes:   ", "64", "\n"].map .text

/-- **A new volume is seen as it was formatted**, whatever the image held before: `ls` lists the
files, `cat` prints the one with the given name or reports that there is none, and `diskinfo` shows
the partition table of the image and the size of the volume. None of them halts the system. -/
theorem newVolume_commands (hf : format relizfsStartSector prev = .ok f) (hd : Attached d f)
    (hread : Readable d) (hw : w.disk = d) (hnul : '\x00' ∉ cmdStr.toList) :
    Command.ls.run w cmdStr = .ok [.text (String.join (newFiles.map VolumeFile.line))] ∧
    Command.cat.run w cmdStr =
      .ok ((catFilename cmdStr).elim [] (shownFile newFiles)) ∧
    Command.diskinfo.run w cmdStr =
      .ok (newDiskinfo (readU32 f.bytes 454).toNat (readU32 f.bytes 458).toNat) := by
  subst hw
  obtain ⟨f', hf', h⟩ := format_eq_ok prev
  obtain rfl : f = f' := Except.ok.inj (hf.symm.trans hf')
  have hls : ¬Command.ls.Halts 0 w cmdStr :=
    not_or.mpr ⟨not_not.mpr (listFits_newVolume h hd), not_fillsBuffer_newVolume h hd⟩
  have hcat : ¬Command.cat.Halts 0 w cmdStr := fun ⟨name, _, hfits⟩ ↦
    hfits (readFits_newVolume h hd name)
  have hdiskinfo : ¬Command.diskinfo.Halts 0 w cmdStr := not_false
  refine ⟨(Command.run_eq hread hnul hls).trans (congrArg Except.ok ?_),
    (Command.run_eq hread hnul hcat).trans (congrArg Except.ok ?_),
    (Command.run_eq hread hnul hdiskinfo).trans (congrArg Except.ok ?_)⟩
  · rw [Command.response, h.completeListing_eq hd, untilNul_newFiles]
  · rw [Command.response]
    cases catFilename cmdStr with
    | none => rfl
    | some name =>
      dsimp only [Option.elim_some]
      rw [h.requestedEntry_eq hd]
      by_cases hname : name = "hello.txt"
      · rw [if_pos hname, hname]
        dsimp only
        rw [h.inodeAt_hello hd, h.fileText_eq hd]
        rfl
      · rw [if_neg hname, shownFile, newFiles, List.find?_cons_of_neg]
        · rfl
        · exact fun hfound ↦ hname (of_decide_eq_true hfound).symm
  · have hlen := (sectorStart_mono (show 0 ≤ 4096 by omega)).trans h.length
    obtain ⟨mbr, hmbr, hbytes⟩ := hd 0
      ((show (0 + 1) * blockSize ≤ sectorStart 0 by decide).trans hlen)
    obtain ⟨s, hs, -⟩ := h.holds hd 2 (by omega)
    have hfirst : readSector w.disk 0 = .ok mbr := hmbr
    have hsecond : readSector w.disk 40002 = .ok s := hs
    have hsuper : Superblock.read s = newSuperblock := by
      rw [← h.superblockOf_eq hd, superblockOf, hs.content_eq]
    have hagree : ∀ a < 509, readU32 mbr a = readU32 f.bytes a := by
      intro a ha
      rw [readU32, readU32, readLE_congr fun b _ hb ↦ ?_]
      rw [hbytes b (show b < 512 by omega), Nat.zero_mul, Nat.zero_add]
    rw [Command.response, hfirst, hsecond]
    dsimp only
    rw [hsuper, hagree 454 (by decide), hagree 458 (by decide)]
    rfl

theorem newVolume_commands_newFile : ∃ f, format relizfsStartSector newFile = .ok f ∧
    Command.ls.run { freshWorld with disk := driveOf f } "cat hello.txt" =
      .ok [.text (String.join (newFiles.map VolumeFile.line))] ∧
    Command.cat.run { freshWorld with disk := driveOf f } "cat hello.txt" =
      .ok ((catFilename "cat hello.txt").elim [] (shownFile newFiles)) ∧
    Command.diskinfo.run { freshWorld with disk := driveOf f } "cat hello.txt" =
      .ok (newDiskinfo (readU32 f.bytes 454).toNat (readU32 f.bytes 458).toNat) := by
  obtain ⟨f, hf, -⟩ := format_eq_ok newFile
  exact ⟨f, hf, newVolume_commands hf (attached_driveOf f) (fun _ ↦ ⟨_, rfl⟩) rfl
    (by decide +kernel)⟩

end

end RelizOS
