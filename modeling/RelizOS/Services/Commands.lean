import RelizOS.Gui.Demo
import RelizOS.Kernel.TaskInfo
import RelizOS.RelizFs.ReadReply
import RelizOS.Services.HexDump
import RelizOS.Services.LineEdit
import RelizOS.Services.Numbers

/-!
# The commands of the shell

A line that is entered is one of fourteen commands, or unknown. `Command.run` is what the shell does
for it, with the buffers, loops and checks of the source, and the requests it sends to the servers
and to the kernel. `Command.response` says what there is to be seen: texts, which do not come out of
buffers, and for one command the demo.

The two agree (`run_eq`) unless the command halts the system, and `Halts` lists how that can happen
(`run_ne_ok`): a server does not survive the disk, a buffer is filled to its end, the heap has more
in use than the total, a number is too large, the screen is too narrow for the demo, or the system
is shut down.

## What is left out

The value of the system calls that is not used. A command leaves its mark on the screen only: the
port write of `reboot` does not return on a real machine.
-/

open ByteMemory Numerals

namespace RelizOS

open RelizFs Gui

/-! ## What a command finds and does -/

/-- What is there when a command is executed. The shell's memory holds the buffers of the commands,
of which two are in use at the same time. -/
structure World where
  sched : Scheduler
  heap : HeapAllocator
  timerTicks : UInt64
  gopInfo : Option GopInfo
  disk : Drive
  mem : Mem
  fsBuf : UInt64
  fBuf : UInt64
  fileContent : UInt64
  taskBuf : UInt64
  sectorBuf : UInt64
  disjoint : BufsDisjoint fBuf fileContent

/-- A system on which nothing has happened. -/
def freshWorld : World where
  sched := .new
  heap := .new fun _ ↦ 0
  timerTicks := 0
  gopInfo := none
  disk := fun _ ↦ .ok fun _ ↦ 0
  mem := fun _ ↦ 0
  fsBuf := 0
  fBuf := 0
  fileContent := 32
  taskBuf := 0
  sectorBuf := 0
  disjoint := .inl (Nat.le_refl 32)

/-- What a command does to the screen. -/
inductive Output where
  /-- Bytes are printed: nothing is to be seen of them if they are not valid UTF-8. -/
  | print (text : Option String)
  | gfxDemo

namespace Output

/-- `print_str`. -/
def text (s : String) : Output := .print (some s)

/-- System calls 1 and 11. -/
def display (font : Font) (screen : TextWriter) : Output → Checked TextWriter
  | .print (some text) => screen.writeStr font text.toList
  | .print none => return screen
  | .gfxDemo => screen.runNyanCatDemo

end Output

/-! ## The code -/

/-- `help_menu`. -/
def helpMenu : String :=
  "Available commands:\n" ++
    "help           - Show this help menu\n" ++
    "ls             - List directory files\n" ++
    "cat <filename> - Print file contents\n" ++
    "clear          - Clear the screen\n" ++
    "free           - Show heap allocator memory stats\n" ++
    "sysinfo        - Display active system tasks and info\n" ++
    "dump <lba>     - Hex/ASCII dump of specified disk sector\n" ++
    "echo <text>    - Print back the entered text\n" ++
    "uptime         - Show system uptime in seconds\n" ++
    "gopinfo        - Display graphics parameters\n" ++
    "gfxdemo        - Launch Nyan Cat space graphics demo!\n" ++
    "diskinfo       - Show disk partition and RelizFS info\n" ++
    "reboot         - Reboot the machine\n" ++
    "shutdown       - Shutdown the machine\n"

/-- `sys_meta`. -/
def sysMeta : String :=
  "System Information:\n" ++
    "  OS:           RelizOS-Rust v0.1.0\n" ++
    "  Architecture: x86_64 UEFI\n" ++
    "  Heap Limit:   1024 KiB\n" ++
    "\nActive Tasks:\n"

/-- `PIT_HZ`. -/
def pitHz : ℕ := 200

/-- The command that a line stands for. -/
inductive Command where
  | help | ls | cat | clear | free | sysinfo | dump | echo | uptime | gopinfo | gfxdemo
  | diskinfo | reboot | shutdown | unknown
  deriving DecidableEq

/-- `str::strip_prefix`. -/
def stripFront (s word : String) : Option String :=
  (word.toList.isPrefixOf? s.toList).map String.ofList

/-- A number in a buffer of 20 bytes, as a text. -/
def numberText (val : ℕ) : Checked String := do return (fromUtf8 (← formatNum val)).getD ""

/-- `magic_str`, which the loop fills from the highest byte on. -/
def magicStr (magic : UInt64) : Checked (List UInt8) := do
  let bytes ← (List.range 8).mapM fun i ↦ do
    let b := ((magic >>> UInt64.ofNat (56 - i * 8)) &&& 0xFF).toUInt8
    return [← hexChar (b >>> 4).toNat, ← hexChar (b &&& 0xF).toNat]
  return bytes.flatten

namespace Command

/-- The tests for the commands, one after another. -/
def of (cmdStr : String) : Command :=
  let trimmed := trim cmdStr
  if trimmed = "help" then help
  else if trimmed = "ls" then ls
  else if (stripFront trimmed "cat ").isSome then cat
  else if trimmed = "clear" then clear
  else if trimmed = "free" then free
  else if trimmed = "sysinfo" then sysinfo
  else if (stripFront trimmed "dump ").isSome then dump
  else if (stripFront trimmed "echo ").isSome then echo
  else if trimmed = "uptime" then uptime
  else if trimmed = "gopinfo" then gopinfo
  else if trimmed = "gfxdemo" then gfxdemo
  else if trimmed = "diskinfo" then diskinfo
  else if trimmed = "reboot" then reboot
  else if trimmed = "shutdown" then shutdown
  else unknown

/-- `cat`. -/
def runCat (w : World) (cmdStr : String) : Checked (List Output) := do
  match ← RelizOS.cat w.disk w.mem w.fBuf w.fileContent cmdStr with
  | none => return []
  | some (resp, mem) =>
    if resp.msgType = 0 then
      return [.print (printString mem w.fileContent.toNat resp.arg1.toNat), .text "\n"]
    else return [.text "File not found!\n"]

/-- `sysinfo`. -/
def runSysinfo (w : World) : Checked (List Output) := do
  let (written, copiedBytes) ← w.sched.infoReply 512
  let mem := writeBytes w.mem w.taskBuf.toNat (List.replicate 512 0)
  let mem := writeBytes mem w.taskBuf.toNat written
  return [.text sysMeta, .print (printString mem w.taskBuf.toNat copiedBytes)]

/-- `dump`: the server replies with the sector, or reports an error and leaves the buffer alone. -/
def runDump (w : World) (cmdStr : String) : Checked (List Output) := do
  match ← dumpRequest w.sectorBuf cmdStr with
  | none => return []
  | some req =>
    match readSector w.disk req.arg1.toUInt32.toNat with
    | .ok sector => return (← dumpReply ⟨3, 0, 0, 0, 0, 0⟩ ⟨sector, 512⟩).map .print
    | .error _ => return (← dumpReply ⟨3, 999, 0, 0, 0, 0⟩ ⟨fun _ ↦ 0, 512⟩).map .print

/-- `uptime`. -/
def runUptime (w : World) : Checked (List Output) := do
  let ticks := w.timerTicks.toNat
  let secText ← numberText (ticks / pitHz)
  let ticksText ← numberText ticks
  return ["System Uptime: ", secText, " seconds (", ticksText, " raw ticks)\n"].map .text

/-- `gopinfo`. -/
def runGopinfo (w : World) : Checked (List Output) :=
  match w.gopInfo with
  | some info => do
    let width ← numberText info.width.toNat
    let height ← numberText info.height.toNat
    let stride ← numberText info.stride.toNat
    let bytesPerPixel ← numberText info.bytesPerPixel.toNat
    return ["Graphics GOP Settings:\n  Resolution:      ", width, "x", height,
      "\n  Scanline Stride: ", stride, " pixels\n  Bytes per Pixel: ", bytesPerPixel,
      "\n"].map .text
  | none => return [.text "Failed to query GOP graphics info!\n"]

/-- `diskinfo`: the first entry of the partition table, and the superblock. -/
def runDiskinfo (w : World) : Checked (List Output) :=
  match readSector w.disk 0, readSector w.disk 40002 with
  | .ok mbrSector, .ok sbSector => do
    let sb := Superblock.read sbSector
    let start ← numberText (readU32 mbrSector (446 + 8)).toNat
    let sectors ← numberText (readU32 mbrSector (446 + 12)).toNat
    let blocks ← numberText sb.totalBlocks.toNat
    let inodes ← numberText sb.inodeCount.toNat
    let magic ← magicStr sb.magic
    return ["Primary Disk Storage Info:\n", "  ATA Drive Channel: Primary Master (0)\n",
      "  Partition 1 LBA:   ", start, "\n  Partition Sectors: ", sectors,
      "\n\nMount volume: RelizFS File System\n", "  Superblock Magic:  0x",
      (fromUtf8 magic).getD "", "\n  Total FS Blocks:   ", blocks, "\n  Total FS Inodes:   ",
      inodes, "\n"].map .text
  | _, _ => return [.text "Failed to query drive parameters via ATA Server IPC!\n"]

/-- What the shell does for a command. The shutdown call does not return; like all output of a call
that does not, "Shutting down RelizOS-Rust..." is not recorded. -/
def run (w : World) (cmdStr : String) : Command → Checked (List Output)
  | help => return [.text helpMenu]
  | ls => do return [.print (← shellLs w.disk w.mem w.fsBuf.toNat)]
  | cat => runCat w cmdStr
  | clear => return [.text "\x0C"]
  | free => do return [.print (fromUtf8 (← shellFree w.heap))]
  | sysinfo => runSysinfo w
  | dump => runDump w cmdStr
  | echo => return [.text ((stripFront (trim cmdStr) "echo ").getD ""), .text "\n"]
  | uptime => runUptime w
  | gopinfo => runGopinfo w
  | gfxdemo => return [.text "Launching Nyan Cat Graphics Demo... (Enjoy!)\n", .gfxDemo]
  | diskinfo => runDiskinfo w
  | reboot => return [.text "Rebooting system...\n"]
  | shutdown => .error .diverges
  | unknown => return [.text "Unknown command. Type 'help' for options.\n"]

/-! ## What there is to be seen -/

/-- The part of a text in front of its first NUL. -/
def untilNul (s : String) : String := String.ofList (s.toList.takeWhile (· ≠ '\x00'))

/-- What is seen of a file: the beginning of its first block. -/
def fileText (d : Drive) (inode : Inode) : Option String :=
  fromUtf8 (sectorBytes (block d inode.firstBlock) (min inode.size.toNat 512))

/-- The statistics of the memory. -/
def freeText (total used : ℕ) : String :=
  "Heap Memory Stats:\n  Total size: " ++ toString total ++ " bytes\n  Used size:  " ++
    toString used ++ " bytes\n  Free size:  " ++ toString (total - used) ++ " bytes\n"

/-- The sector that is dumped. -/
def dumpLba (lbaStr : String) : ℕ := decimalValue (leadingDigits (bytesOf lbaStr))

/-- What a command shows. -/
def response (w : World) (cmdStr : String) : Command → List Output
  | help => [.text helpMenu]
  | ls => [.text (untilNul (completeListing w.disk))]
  | cat =>
    match catFilename cmdStr with
    | none => []
    | some name =>
      match requestedEntry w.disk name with
      | none => [.text "File not found!\n"]
      | some e => [.print (fileText w.disk (inodeAt w.disk e.inodeNum)), .text "\n"]
  | clear => [.text "\x0C"]
  | free => [.text (freeText shellTotal w.heap.usedMemory)]
  | sysinfo => [.text sysMeta, .text (w.sched.infoLines peerText)]
  | dump =>
    match dumpLbaStr cmdStr with
    | none => []
    | some lbaStr =>
      match readSector w.disk (dumpLba lbaStr) with
      | .ok sector => (List.range 32).map fun n ↦ .text (asciiText (lineText sector n))
      | .error _ => [.text "Error reading sector from disk!\n"]
  | echo => [.text ((stripFront (trim cmdStr) "echo ").getD ""), .text "\n"]
  | uptime =>
    ["System Uptime: ", toString (w.timerTicks.toNat / 200), " seconds (",
      toString w.timerTicks.toNat, " raw ticks)\n"].map .text
  | gopinfo =>
    match w.gopInfo with
    | some info =>
      ["Graphics GOP Settings:\n  Resolution:      ", toString info.width.toNat, "x",
        toString info.height.toNat, "\n  Scanline Stride: ", toString info.stride.toNat,
        " pixels\n  Bytes per Pixel: ", toString info.bytesPerPixel.toNat, "\n"].map .text
    | none => [.text "Failed to query GOP graphics info!\n"]
  | gfxdemo => [.text "Launching Nyan Cat Graphics Demo... (Enjoy!)\n", .gfxDemo]
  | diskinfo =>
    match readSector w.disk 0, readSector w.disk 40002 with
    | .ok mbr, .ok s =>
      ["Primary Disk Storage Info:\n", "  ATA Drive Channel: Primary Master (0)\n",
        "  Partition 1 LBA:   ", toString (readU32 mbr 454).toNat,
        "\n  Partition Sectors: ", toString (readU32 mbr 458).toNat,
        "\n\nMount volume: RelizFS File System\n", "  Superblock Magic:  0x",
        asciiText (hexText 16 (Superblock.read s).magic.toNat), "\n  Total FS Blocks:   ",
        toString (Superblock.read s).totalBlocks.toNat, "\n  Total FS Inodes:   ",
        toString (Superblock.read s).inodeCount.toNat, "\n"].map .text
    | _, _ => [.text "Failed to query drive parameters via ATA Server IPC!\n"]
  | reboot => [.text "Rebooting system...\n"]
  | shutdown => []
  | unknown => [.text "Unknown command. Type 'help' for options.\n"]

/-- The addresses fit on the way to the entries of the root directory, so that the server
replies. -/
def ListFits (d : Drive) : Prop :=
  AddressFits (superblockOf d).inodeTableStart.toNat ∧ AddressFits (inodeAt d 0).firstBlock.toNat ∧
    ∀ e ∈ rootEntries d, e.inodeNum ≠ 0 → 0 < e.nameLen → e.getName ≠ none →
      AddressFits (inodeSector (superblockOf d).inodeTableStart e.inodeNum)

/-- The system does not go on behind the command, on a screen with so many columns. -/
def Halts (width : ℕ) (w : World) (cmdStr : String) : Command → Prop
  | ls => ¬ListFits w.disk ∨ FillsBuffer w.disk
  | cat => ∃ name, catFilename cmdStr = some name ∧ ¬ReadFits w.disk name
  | free => shellTotal < w.heap.usedMemory
  | sysinfo => ¬w.sched.ShortIds
  | dump => ∃ lbaStr, dumpLbaStr cmdStr = some lbaStr ∧ 2 ^ 32 ≤ dumpLba lbaStr
  | gfxdemo => width ≤ 200
  | shutdown => True
  | _ => False

/-! ## Texts -/

theorem numberText_eq {val : ℕ} (h : val < 2 ^ 64) : numberText val = .ok (toString val) := by
  rw [numberText, formatNum_eq h, Checked.ok_bind, fromUtf8_eq_some.mpr rfl]
  rfl

theorem zero_mem_utf8EncodeChar {c : Char} : 0 ∈ String.utf8EncodeChar c ↔ c = '\x00' := by
  have hzero : ∀ n, (0 : UInt8) = UInt8.ofNat n ↔ n % 256 = 0 := by
    intro n
    rw [← UInt8.toNat_inj, UInt8.toNat_ofNat', eq_comm]
    rfl
  have hchar : c = '\x00' ↔ c.val.toNat = 0 := by
    rw [Char.ext_iff, ← UInt32.toNat_inj]
    rfl
  have hlt : c.val.toNat < 1114112 := c.valid.elim (fun h ↦ by omega) fun h ↦ h.2
  rw [String.utf8EncodeChar, hchar]
  split_ifs
  all_goals
    simp only [List.mem_cons, List.not_mem_nil, or_false, hzero]
    omega

theorem zero_mem_bytesOf {s : String} : 0 ∈ bytesOf s ↔ '\x00' ∈ s.toList := by
  rw [← String.ofList_toList (s := s), bytesOf_ofList, List.mem_flatMap, String.toList_ofList]
  simp only [zero_mem_utf8EncodeChar, exists_eq_right]

theorem bytesOf_untilNul (s : String) : bytesOf (untilNul s) = (bytesOf s).takeWhile (· ≠ 0) := by
  rw [untilNul, bytesOf_ofList]
  conv_rhs => rw [← String.ofList_toList (s := s), bytesOf_ofList]
  induction s.toList with
  | nil => rfl
  | cons c l ih =>
    rw [List.flatMap_cons]
    by_cases hc : c = '\x00'
    · subst hc
      rfl
    · have hbytes : ∀ b ∈ String.utf8EncodeChar c, decide (b ≠ 0) = true := fun b hb ↦
        decide_eq_true fun hzero ↦ hc (zero_mem_utf8EncodeChar.mp (hzero ▸ hb))
      rw [List.takeWhile_cons, if_pos (decide_eq_true hc), List.flatMap_cons, ih,
        List.takeWhile_append_of_pos hbytes]

theorem zero_not_mem_catFilename {cmdStr name : String} (hnul : '\x00' ∉ cmdStr.toList)
    (h : catFilename cmdStr = some name) : 0 ∉ bytesOf name := by
  rw [zero_mem_bytesOf]
  rw [catFilename] at h
  split at h
  · cases h
  · next rest hrest =>
    dsimp only at h
    split_ifs at h
    obtain rfl := Option.some.inj h
    intro hmem
    have hrest' : '\x00' ∈ rest := by
      rw [trim, String.toList_ofList, String.toList_ofList] at hmem
      exact List.mem_of_mem_trimWhile hmem
    have hline : '\x00' ∈ (trim cmdStr).toList := by
      rw [← List.isPrefixOf?_eq_some_iff_append_eq.mp hrest]
      exact List.mem_append_right _ hrest'
    rw [trim, String.toList_ofList] at hline
    exact hnul (List.mem_of_mem_trimWhile hline)

variable {w : World} {cmdStr name : String}

/-! ## Files -/

theorem returns_listing_iff {d : Drive} (hd : Readable d) : (listing d).Returns ↔ ListFits d := by
  have hlisting : (fsList d (fun _ ↦ 0) 0 0).Returns ↔ (listing d).Returns := by
    rw [fsList]
    exact Checked.returns_bind_iff fun _ ↦ ⟨_, rfl⟩
  rw [← hlisting, returns_fsList]
  simp only [hd.holds, forall_eq']
  rfl

/-- Behind the bytes in front of the first NUL there is a NUL, or nothing. -/
theorem getD_length_takeWhile (l : List UInt8) :
    (l[(l.takeWhile (· ≠ 0)).length]?).getD 0 = 0 := by
  induction l with
  | nil => rfl
  | cons b l ih =>
    rw [List.takeWhile_cons]
    split_ifs with hb
    · exact ih
    · exact not_not.mp fun h ↦ hb (decide_eq_true h)

theorem shellLs_eq {d : Drive} (hd : Readable d) (hfits : ListFits d) (hroom : ¬FillsBuffer d)
    (mem : Mem) (fsBuf : ℕ) :
    shellLs d mem fsBuf = .ok (some (untilNul (completeListing d))) := by
  obtain ⟨mem', hmem, hbytes⟩ := fsList_eq hd ((returns_listing_iff hd).mpr hfits) mem fsBuf
  have hle := length_completeListing_le d
  have htext : fromUtf8 ((bytesOf (completeListing d)).takeWhile (· ≠ 0)) =
      some (untilNul (completeListing d)) :=
    fromUtf8_eq_some.mpr (bytesOf_untilNul _)
  obtain ⟨i, hi, hzero⟩ := exists_zero_iff.mpr hroom
  rw [shellLs, hmem, Checked.ok_bind]
  dsimp only
  generalize bytesOf (completeListing d) = l at hbytes hle htext hzero
  -- the scan stops where the text has its first NUL, or behind it
  have hfront : ∀ k (hk : k < (l.takeWhile (· ≠ 0)).length),
      mem' (fsBuf + k) = (l.takeWhile (· ≠ 0))[k] := by
    intro k hk
    have hlt : k < l.length := hk.trans_le (List.takeWhile_prefix _).length_le
    rw [hbytes k (by omega), List.getElem?_eq_getElem hlt, Option.getD_some,
      List.IsPrefix.getElem (List.takeWhile_prefix _) hk]
  have hnonzero : ∀ k < (l.takeWhile (· ≠ 0)).length, mem' (fsBuf + k) ≠ 0 := by
    intro k hk
    rw [hfront k hk]
    have hmem := List.mem_takeWhile_imp (List.getElem_mem hk)
    exact of_decide_eq_true hmem
  have hshort : (l.takeWhile (· ≠ 0)).length < listSize := by
    by_contra hlong
    have hall : l.takeWhile (· ≠ 0) = l :=
      (List.takeWhile_prefix _).eq_of_length_le (by omega)
    have hne := hnonzero i (by omega)
    rw [hbytes i hi] at hne
    exact hne hzero
  have hend : mem' (fsBuf + (l.takeWhile (· ≠ 0)).length) = 0 := by
    rw [hbytes _ hshort]
    exact getD_length_takeWhile l
  rw [if_pos rfl, scan_eq_ok hshort hend hnonzero (Nat.zero_le _) (by omega), Checked.ok_bind,
    printString, readBytes_eq hfront, htext]
  rfl

theorem catRequest_of_some (hname : catFilename cmdStr = some name) :
    ∃ mem', catRequest w.mem w.fBuf w.fileContent cmdStr =
        .ok (some (⟨1, 11, w.fBuf, w.fileContent, 512, 0⟩, mem')) ∧
      HoldsBuf mem' w.fBuf.toNat name := by
  rw [catRequest, hname]
  dsimp only
  rw [fileNameBuf_eq, Checked.ok_bind]
  refine ⟨_, rfl, (bytesAt_writeBytes w.mem _ _).writeBytes ?_⟩
  have hdisj := w.disjoint
  rw [BufsDisjoint] at hdisj
  rw [List.length_append, List.length_take, List.length_replicate, List.length_replicate]
  omega

/-- A name that has been cut finds what the whole name would find. -/
theorem requestedEntry_targetFilename {d : Drive} {mem : Mem} {ptr : ℕ}
    (h : HoldsBuf mem ptr name) (hnul : 0 ∉ bytesOf name) :
    requestedEntry d (targetFilename mem ptr) = requestedEntry d name := by
  rw [requestedEntry, requestedEntry]
  congr 1
  funext e
  exact decide_eq_decide.mpr (h.answers_iff hnul e)

theorem readFits_targetFilename {d : Drive} {mem : Mem} {ptr : ℕ}
    (h : HoldsBuf mem ptr name) (hnul : 0 ∉ bytesOf name) :
    ReadFits d (targetFilename mem ptr) ↔ ReadFits d name := by
  rw [ReadFits, ReadFits, requestedEntry_targetFilename h hnul]

theorem runCat_eq (hd : Readable w.disk) (hnul : '\x00' ∉ cmdStr.toList)
    (hok : ¬cat.Halts 0 w cmdStr) : runCat w cmdStr = .ok (cat.response w cmdStr) := by
  rw [runCat, RelizOS.cat, response]
  cases hname : catFilename cmdStr with
  | none =>
    rw [catRequest, hname]
    rfl
  | some name =>
    obtain ⟨mem', hreq, hheld⟩ := catRequest_of_some (w := w) hname
    have hnul := zero_not_mem_catFilename hnul hname
    have hfits : ReadFits w.disk name := by
      by_contra hfits
      exact hok ⟨name, hname, hfits⟩
    obtain ⟨⟨resp, mem⟩, hresp⟩ :
        (fsRead w.disk mem' w.fBuf.toNat w.fileContent.toNat 512).Returns :=
      (returns_fsRead_iff hd).mpr ((readFits_targetFilename hheld hnul).mpr hfits)
    have hcases := fsRead_cases hd hresp
    rw [requestedEntry_targetFilename hheld hnul] at hcases
    rw [hreq, Checked.ok_bind]
    dsimp only
    rw [show (512 : UInt64).toNat = 512 from rfl, hresp, Checked.ok_bind]
    dsimp only [Checked.pure_eq_ok]
    rcases hcases with ⟨hnone, hrefused, -⟩ | ⟨e, he, hserved, hlen, rfl⟩
    · rw [hnone, Checked.ok_bind]
      exact if_neg hrefused
    · rw [he, Checked.ok_bind]
      dsimp only
      have hread := readBytes_copied mem' w.fileContent.toNat 512
        (sectorBytes (block w.disk (inodeAt w.disk e.inodeNum).firstBlock) resp.arg1.toNat)
      rw [length_sectorBytes] at hread
      rw [if_pos hserved, printString, hread, hlen]
      rfl

/-- The server does not reply when an address does not fit on the way to the file. -/
theorem runCat_ne_ok {out : List Output} (hd : Readable w.disk) (hnul : '\x00' ∉ cmdStr.toList)
    (h : cat.Halts 0 w cmdStr) : runCat w cmdStr ≠ .ok out := by
  obtain ⟨name, hname, hfits⟩ := h
  obtain ⟨mem', hreq, hheld⟩ := catRequest_of_some (w := w) hname
  have hnul := zero_not_mem_catFilename hnul hname
  intro hcall
  rw [runCat, RelizOS.cat, hreq, Checked.ok_bind, bind_assoc] at hcall
  obtain ⟨resp, hresp, -⟩ := Checked.bind_eq_ok.mp hcall
  exact hfits ((readFits_targetFilename hheld hnul).mp ((returns_fsRead_iff hd).mp ⟨resp, hresp⟩))

/-! ## Sectors -/

theorem runDump_eq (hok : ¬dump.Halts 0 w cmdStr) :
    runDump w cmdStr = .ok (dump.response w cmdStr) := by
  rw [runDump, dumpRequest, response]
  cases hname : dumpLbaStr cmdStr with
  | none => rfl
  | some lbaStr =>
    have hlt : dumpLba lbaStr < 2 ^ 32 := by
      by_contra hlarge
      exact hok ⟨lbaStr, hname, not_lt.mp hlarge⟩
    have hlba : (UInt64.ofNat (dumpLba lbaStr)).toUInt32.toNat = dumpLba lbaStr := by
      rw [UInt64.toNat_toUInt32, UInt64.toNat_ofNat_of_lt' (hlt.trans (by decide)),
        Nat.mod_eq_of_lt hlt]
    dsimp only
    rw [parseLba_eq (by norm_num), ← decimalValue, ← dumpLba, if_pos hlt]
    dsimp only [Checked.ok_bind, Checked.pure_eq_ok]
    rw [hlba]
    cases readSector w.disk (dumpLba lbaStr) with
    | ok sector =>
      dsimp only
      rw [dumpReply, if_pos rfl, dumpOutput_eq, Checked.ok_bind, List.map_map]
      rfl
    | error e => rfl

theorem runDump_ne_ok {out : List Output} (h : dump.Halts 0 w cmdStr) :
    runDump w cmdStr ≠ .ok out := by
  obtain ⟨lbaStr, hname, hlarge⟩ := h
  intro hcall
  rw [runDump, dumpRequest, hname] at hcall
  dsimp only at hcall
  rw [parseLba_eq (by norm_num), ← decimalValue, ← dumpLba, if_neg (by omega)] at hcall
  cases hcall

theorem toNat_byte (v : UInt64) {k : ℕ} (hk : k < 8) :
    ((v >>> UInt64.ofNat (8 * k)) &&& 0xFF).toUInt8.toNat = v.toNat / 256 ^ k % 256 := by
  have hshift : (UInt64.ofNat (8 * k)).toNat = 8 * k :=
    UInt64.toNat_ofNat_of_lt' (by rw [UInt64.size]; omega)
  have hmask : (v >>> UInt64.ofNat (8 * k)).toNat &&& (0xFF : UInt64).toNat =
      (v >>> UInt64.ofNat (8 * k)).toNat % 256 := Nat.and_two_pow_sub_one_eq_mod _ 8
  rw [UInt64.toNat_toUInt8, UInt64.toNat_and, hmask, Nat.mod_mod, UInt64.toNat_shiftRight, hshift,
    Nat.mod_eq_of_lt (show 8 * k < 64 by omega), Nat.shiftRight_eq_div_pow, pow_mul]
  rfl

theorem hexText_two_mul (n v : ℕ) :
    hexText (2 * n) v = (List.range n).flatMap fun i ↦ hexText 2 (v / 256 ^ (n - 1 - i) % 256) := by
  induction n generalizing v with
  | zero => rfl
  | succ n ih =>
    have hlast : hexText 2 (v % 256) = [hexDigit (v / 16 % 16), hexDigit (v % 16)] := by
      rw [hexText, hexText, hexText, show v % 256 / 16 % 16 = v / 16 % 16 by omega,
        show v % 256 % 16 = v % 16 by omega]
      rfl
    have hfront : ∀ i ∈ List.range n,
        hexText 2 (v / 16 / 16 / 256 ^ (n - 1 - i) % 256) =
          hexText 2 (v / 256 ^ (n + 1 - 1 - i) % 256) := by
      intro i hi
      have hi := List.mem_range.mp hi
      have hdiv : v / 16 / 16 = v / 256 := Nat.div_div_eq_div_mul v 16 16
      rw [hdiv, Nat.div_div_eq_div_mul, ← pow_succ', show n - 1 - i + 1 = n + 1 - 1 - i by omega]
    rw [Nat.mul_succ, hexText, hexText, ih, List.range_succ, List.flatMap_append,
      List.flatMap_congr hfront, List.append_assoc, List.flatMap_singleton,
      show n + 1 - 1 - n = 0 by omega, pow_zero, Nat.div_one, hlast]
    rfl

/-- The loop over the bytes of the magic number makes its hexadecimal text. -/
theorem magicStr_eq (magic : UInt64) : magicStr magic = .ok (hexText 16 magic.toNat) := by
  have hloop : ∀ i ∈ List.range 8, (do
      let b := ((magic >>> UInt64.ofNat (56 - i * 8)) &&& 0xFF).toUInt8
      return [← hexChar (b >>> 4).toNat, ← hexChar (b &&& 0xF).toNat] : Checked (List UInt8)) =
      .ok (hexText 2 (magic.toNat / 256 ^ (8 - 1 - i) % 256)) := by
    intro i hi
    have hi := List.mem_range.mp hi
    dsimp only
    rw [show 56 - i * 8 = 8 * (8 - 1 - i) by omega]
    obtain ⟨hhigh, hlow⟩ :=
      toNat_halves ((magic >>> UInt64.ofNat (8 * (8 - 1 - i))) &&& 0xFF).toUInt8
    rw [hhigh, hlow, hexChar_eq (Nat.mod_lt _ (by omega)), Checked.ok_bind,
      hexChar_eq (Nat.mod_lt _ (by omega)), Checked.ok_bind, toNat_byte magic (by omega)]
    rfl
  rw [magicStr, List.mapM_eq_map hloop, pure_bind, Checked.pure_eq_ok, show 16 = 2 * 8 from rfl,
    hexText_two_mul, List.flatMap_def]

theorem runDiskinfo_eq : runDiskinfo w = .ok (diskinfo.response w cmdStr) := by
  rw [runDiskinfo, response]
  cases readSector w.disk 0 with
  | error e => rfl
  | ok mbr =>
    cases readSector w.disk 40002 with
    | error e => rfl
    | ok s =>
      have hnumber : ∀ n : UInt32, numberText n.toNat = .ok (toString n.toNat) := fun n ↦
        numberText_eq (n.toNat_lt.trans (by norm_num))
      have hmagic : fromUtf8 (hexText 16 (Superblock.read s).magic.toNat) =
          some (asciiText (hexText 16 (Superblock.read s).magic.toNat)) :=
        fromUtf8_eq_some.mpr (bytesOf_asciiText hexText_ascii)
      dsimp only
      rw [hnumber, Checked.ok_bind, hnumber, Checked.ok_bind, hnumber, Checked.ok_bind, hnumber,
        Checked.ok_bind, magicStr_eq, Checked.ok_bind, hmagic]
      rfl

/-! ## Numbers -/

theorem runUptime_eq : runUptime w = .ok (uptime.response w cmdStr) := by
  have hticks := w.timerTicks.toNat_lt
  rw [runUptime, numberText_eq (lt_of_le_of_lt (Nat.div_le_self _ _) hticks), Checked.ok_bind,
    numberText_eq hticks, Checked.ok_bind]
  rfl

theorem runGopinfo_eq : runGopinfo w = .ok (gopinfo.response w cmdStr) := by
  rw [runGopinfo, response]
  cases w.gopInfo with
  | none => rfl
  | some info =>
    have hnumber : ∀ n : UInt64, numberText n.toNat = .ok (toString n.toNat) := fun n ↦
      numberText_eq n.toNat_lt
    dsimp only
    rw [hnumber, Checked.ok_bind, hnumber, Checked.ok_bind, hnumber, Checked.ok_bind, hnumber,
      Checked.ok_bind]
    rfl

theorem runSysinfo_eq (hshort : w.sched.ShortIds) :
    runSysinfo w = .ok (sysinfo.response w cmdStr) := by
  have hlen := Scheduler.length_infoLines_le hshort
  rw [runSysinfo, Scheduler.infoReply_of_short hshort, Checked.ok_bind]
  dsimp only
  rw [List.take_of_length_le (by omega), printString, readBytes_writeBytes,
    fromUtf8_eq_some.mpr rfl]
  rfl

theorem appendOut_of_fits {out bytes : List UInt8} (h : out.length + bytes.length ≤ 128) :
    appendOut out bytes = out ++ bytes := by
  rw [appendOut, List.take_of_length_le (by omega)]

theorem length_freeText_le {total used : ℕ} (htotal : total < 10 ^ 7) (hle : used ≤ total) :
    (bytesOf (freeText total used)).length ≤ 128 := by
  have hnumber : ∀ n ≤ total, (bytesOf (toString n)).length ≤ 7 := fun n hn ↦
    length_toString_le (by omega) (lt_of_le_of_lt hn htotal)
  have h₁ := hnumber _ le_rfl
  have h₂ := hnumber _ hle
  have h₃ := hnumber _ (Nat.sub_le total used)
  have hfirst : (bytesOf "Heap Memory Stats:\n  Total size: ").length = 33 := by
    with_unfolding_all decide
  have hused : (bytesOf " bytes\n  Used size:  ").length = 21 := by with_unfolding_all decide
  have hfree : (bytesOf " bytes\n  Free size:  ").length = 21 := by with_unfolding_all decide
  have hlast : (bytesOf " bytes\n").length = 7 := by with_unfolding_all decide
  unfold freeText
  simp only [bytesOf_append, List.length_append]
  omega

theorem shellFree_eq {h : HeapAllocator} (hle : h.usedMemory ≤ shellTotal) :
    shellFree h = .ok (bytesOf (freeText shellTotal h.usedMemory)) := by
  have hsmall : shellTotal < 10 ^ 7 := by decide
  have hfits := length_freeText_le hsmall hle
  rw [shellFree, getUsedMemory]
  -- the total is not evaluated
  generalize shellTotal = total at *
  have htotal : total < 2 ^ 64 := hsmall.trans (by decide)
  unfold freeText at hfits ⊢
  simp only [bytesOf_append, List.length_append] at hfits ⊢
  simp only [Checked.sub_of_le hle, Checked.ok_bind, formatNum_eq htotal,
    formatNum_eq (lt_of_le_of_lt hle htotal),
    formatNum_eq (lt_of_le_of_lt (Nat.sub_le total h.usedMemory) htotal), Checked.pure_eq_ok]
  simp (disch := (try simp only [List.length_append, List.length_nil]); omega) only
    [appendOut_of_fits, List.nil_append]

/-! ## The commands -/

variable {width : ℕ} {c : Command}

/-- **A command shows what it should**, unless the system does not survive it. -/
theorem run_eq (hd : Readable w.disk) (hnul : '\x00' ∉ cmdStr.toList)
    (hok : ¬c.Halts width w cmdStr) : c.run w cmdStr = .ok (c.response w cmdStr) := by
  cases c with
  | ls =>
    obtain ⟨hfits, hroom⟩ := not_or.mp hok
    rw [run, shellLs_eq hd (not_not.mp hfits) hroom]
    rfl
  | cat => exact runCat_eq hd hnul hok
  | free =>
    rw [run, shellFree_eq (not_lt.mp hok), Checked.ok_bind, fromUtf8_eq_some.mpr rfl]
    rfl
  | sysinfo => exact runSysinfo_eq (not_not.mp hok)
  | dump => exact runDump_eq hok
  | uptime => exact runUptime_eq
  | gopinfo => exact runGopinfo_eq
  | diskinfo => exact runDiskinfo_eq
  | shutdown => exact absurd trivial hok
  | help | clear | echo | gfxdemo | reboot | unknown => rfl

/-- **A command that halts the system** does not come back to the shell. The demo does so only when
it is shown. -/
theorem run_ne_ok {out : List Output} (hd : Readable w.disk) (hnul : '\x00' ∉ cmdStr.toList)
    (hhalts : c.Halts width w cmdStr) (hdemo : c ≠ gfxdemo) : c.run w cmdStr ≠ .ok out := by
  intro hcall
  cases c with
  | ls =>
    obtain ⟨text, hls, -⟩ := Checked.bind_eq_ok.mp hcall
    have hlist : (listing w.disk).Returns := by
      obtain ⟨_, hserved, -⟩ := Checked.bind_eq_ok.mp hls
      obtain ⟨l, hl, -⟩ := Checked.bind_eq_ok.mp hserved
      exact ⟨l, hl⟩
    rcases hhalts with hfits | hfull
    · exact hfits ((returns_listing_iff hd).mp hlist)
    · rw [shellLs_of_fillsBuffer hd hlist hfull] at hls
      cases hls
  | cat => exact runCat_ne_ok hd hnul hhalts hcall
  | free =>
    obtain ⟨bytes, hfree, -⟩ := Checked.bind_eq_ok.mp hcall
    obtain ⟨_, hsub, -⟩ := Checked.bind_eq_ok.mp hfree
    exact absurd (Checked.sub_eq_ok.mp hsub).1 (not_le.mpr hhalts)
  | sysinfo =>
    obtain ⟨_, hreply, -⟩ := Checked.bind_eq_ok.mp hcall
    obtain ⟨info, hinfo, -⟩ := Checked.bind_eq_ok.mp hreply
    exact hhalts (Scheduler.infoText_returns_iff.mp ⟨info, hinfo⟩)
  | dump => exact runDump_ne_ok hhalts hcall
  | gfxdemo => exact hdemo rfl
  | shutdown => cases hcall
  | help | clear | echo | uptime | gopinfo | diskinfo | reboot | unknown => exact hhalts

theorem eq_gfxdemo_of_mem (h : .gfxDemo ∈ c.response w cmdStr) : c = gfxdemo := by
  have htexts : ∀ l : List String, Output.gfxDemo ∉ l.map .text := by
    intro l hmem
    obtain ⟨s, -, hs⟩ := List.mem_map.mp hmem
    cases hs
  cases c with
  | gfxdemo => rfl
  | cat =>
    rw [response] at h
    split at h
    · exact absurd h List.not_mem_nil
    · split at h
      · exact absurd h (htexts ["File not found!\n"])
      · obtain h | h := List.mem_cons.mp h
        · cases h
        · exact absurd h (htexts ["\n"])
  | dump =>
    rw [response] at h
    split at h
    · exact absurd h List.not_mem_nil
    · split at h
      · obtain ⟨n, -, hn⟩ := List.mem_map.mp h
        cases hn
      · exact absurd h (htexts ["Error reading sector from disk!\n"])
  | gopinfo | diskinfo =>
    rw [response] at h
    split at h
    · exact absurd h (htexts _)
    · exact absurd h (htexts [_])
  | help | ls | clear | free | reboot | unknown => exact absurd h (htexts [_])
  | sysinfo | echo => exact absurd h (htexts [_, _])
  | uptime => exact absurd h (htexts _)
  | shutdown => exact absurd h List.not_mem_nil

/-! ## Line feeds -/

/-- The number of line feeds that are printed. -/
def lines (out : List Output) : ℕ :=
  (out.map fun
    | .print (some text) => text.toList.count '\n'
    | _ => 0).sum

theorem lines_append (out out' : List Output) : lines (out ++ out') = lines out + lines out' := by
  rw [lines, List.map_append, List.sum_append]
  rfl

theorem count_le_length_bytesOf (s : String) (c : Char) :
    s.toList.count c ≤ (bytesOf s).length := by
  refine List.count_le_length.trans ?_
  conv_rhs => rw [← String.ofList_toList (s := s), bytesOf_ofList]
  induction s.toList with
  | nil => exact le_rfl
  | cons c l ih =>
    have hpos : 0 < (String.utf8EncodeChar c).length := by
      rw [String.length_utf8EncodeChar]
      exact Char.utf8Size_pos c
    rw [List.length_cons, List.flatMap_cons, List.length_append]
    omega

theorem lines_le_of_forall {out : List Output} {k : ℕ}
    (h : ∀ o ∈ out, ∀ s, o = .print (some s) → (bytesOf s).length ≤ k) :
    lines out ≤ k * out.length := by
  induction out with
  | nil => exact Nat.zero_le _
  | cons o out ih =>
    have hrest := ih fun o' ho' ↦ h o' (List.mem_cons_of_mem o ho')
    have hfirst : lines [o] ≤ k := by
      cases o with
      | gfxDemo => exact Nat.zero_le _
      | print text =>
        cases text with
        | none => exact Nat.zero_le _
        | some s => exact (count_le_length_bytesOf s '\n').trans (h _ List.mem_cons_self s rfl)
    rw [← List.singleton_append, lines_append, List.length_append, Nat.mul_add]
    exact Nat.add_le_add (by simpa using hfirst) hrest

theorem lines_texts_le {l : List String} {k : ℕ} (h : ∀ s ∈ l, (bytesOf s).length ≤ k) :
    lines (l.map .text) ≤ k * l.length := by
  rw [← List.length_map (f := Output.text)]
  refine lines_le_of_forall fun o ho s hs ↦ ?_
  obtain ⟨t, ht, rfl⟩ := List.mem_map.mp ho
  obtain rfl : t = s := Option.some.inj (Output.print.inj hs)
  exact h t ht

theorem length_number_le {n : ℕ} (h : n < 2 ^ 64) : (bytesOf (toString n)).length ≤ 1024 :=
  (length_toString_le (show 0 < 20 by omega) (h.trans (by norm_num))).trans (by omega)

theorem length_fileText_le {d : Drive} {inode : Inode} {s : String}
    (h : fileText d inode = some s) : (bytesOf s).length ≤ 512 := by
  rw [fromUtf8_eq_some.mp h, length_sectorBytes]
  exact min_le_right _ _

theorem sublist_of_stripFront {s word rest : String} (h : stripFront s word = some rest) :
    rest.toList.Sublist s.toList := by
  obtain ⟨l, hl, rfl⟩ := Option.map_eq_some_iff.mp h
  rw [← List.isPrefixOf?_eq_some_iff_append_eq.mp hl, String.toList_ofList]
  exact List.sublist_append_right _ _

theorem sublist_trim (s : String) : (trim s).toList.Sublist s.toList := by
  rw [trim, String.toList_ofList]
  exact (List.rdropWhile_prefix isWhitespace _).sublist.trans
    (List.dropWhile_suffix isWhitespace).sublist

/-- **No command prints many lines.** -/
theorem lines_response_le (hok : ¬c.Halts width w cmdStr) (hlen : cmdStr.toList.length ≤ 64) :
    lines (c.response w cmdStr) ≤ 2 ^ 14 := by
  have hfixed : ∀ s : String, (bytesOf s).length ≤ 1024 → lines [.text s] ≤ 2 ^ 14 := by
    intro s hs
    exact (lines_texts_le (l := [s]) (by simpa using hs)).trans (Nat.le_of_ble_eq_true rfl)
  cases c with
  | help => exact hfixed _ (by decide +kernel)
  | ls =>
    refine hfixed _ ?_
    rw [bytesOf_untilNul]
    exact (List.takeWhile_prefix _).length_le.trans (length_completeListing_le w.disk)
  | cat =>
    rw [response]
    split
    · exact Nat.zero_le _
    · split
      · exact hfixed _ (by decide +kernel)
      · refine (lines_le_of_forall (k := 1024) fun o ho s hs ↦ ?_).trans (by simp)
        rcases List.mem_cons.mp ho with rfl | ho
        · exact (length_fileText_le (Output.print.inj hs)).trans (by omega)
        · obtain rfl := List.mem_singleton.mp ho
          obtain rfl : "\n" = s := Option.some.inj (Output.print.inj hs)
          decide +kernel
  | clear => exact hfixed _ (by decide +kernel)
  | free =>
    exact hfixed _ ((length_freeText_le (by decide) (not_lt.mp hok)).trans (by omega))
  | sysinfo =>
    have hinfo := Scheduler.length_infoLines_le (not_not.mp hok)
    refine (lines_texts_le (l := [sysMeta, _]) (k := 1024) ?_).trans (by simp)
    simp only [List.forall_mem_cons, List.not_mem_nil, IsEmpty.forall_iff, implies_true, and_true]
    exact ⟨by decide +kernel, by omega⟩
  | dump =>
    rw [response]
    split
    · exact Nat.zero_le _
    · split
      · refine (lines_le_of_forall (k := 74) fun o ho s hs ↦ ?_).trans (by simp)
        obtain ⟨n, -, rfl⟩ := List.mem_map.mp ho
        obtain rfl := Option.some.inj (Output.print.inj hs)
        rw [bytesOf_asciiText (lineText_ascii _ _), length_lineText]
      · exact hfixed _ (by decide +kernel)
  | echo =>
    rw [response, ← List.singleton_append, lines_append]
    have htext : lines [.text ((stripFront (trim cmdStr) "echo ").getD "")] ≤ 64 := by
      cases hrest : stripFront (trim cmdStr) "echo " with
      | none => exact Nat.zero_le _
      | some rest =>
        have hsub := (sublist_of_stripFront hrest).trans (sublist_trim cmdStr)
        exact List.count_le_length.trans (hsub.length_le.trans hlen)
    exact (Nat.add_le_add htext (show lines [.text "\n"] ≤ 1 by decide)).trans (by omega)
  | uptime =>
    refine (lines_texts_le (k := 1024) ?_).trans (by simp)
    have hticks := w.timerTicks.toNat_lt
    simp only [List.forall_mem_cons, List.not_mem_nil, IsEmpty.forall_iff, implies_true, and_true]
    exact ⟨by decide +kernel, length_number_le (by omega),
      by decide +kernel, length_number_le hticks, by decide +kernel⟩
  | gopinfo =>
    rw [response]
    split
    · next info _ =>
      refine (lines_texts_le (k := 1024) ?_).trans (by simp)
      simp only [List.forall_mem_cons, List.not_mem_nil, IsEmpty.forall_iff, implies_true,
        and_true]
      exact ⟨by decide +kernel, length_number_le info.width.toNat_lt,
        by decide +kernel, length_number_le info.height.toNat_lt,
        by decide +kernel, length_number_le info.stride.toNat_lt,
        by decide +kernel, length_number_le info.bytesPerPixel.toNat_lt,
        by decide +kernel⟩
    · exact hfixed _ (by decide +kernel)
  | gfxdemo =>
    show lines [.text "Launching Nyan Cat Graphics Demo... (Enjoy!)\n", .gfxDemo] ≤ 2 ^ 14
    decide +kernel
  | diskinfo =>
    have hnumber : ∀ n : UInt32, (bytesOf (toString n.toNat)).length ≤ 1024 := fun n ↦
      length_number_le (n.toNat_lt.trans (by norm_num))
    rw [response]
    split
    · next mbr s _ _ =>
      refine (lines_texts_le (k := 1024) ?_).trans (by simp)
      simp only [List.forall_mem_cons, List.not_mem_nil, IsEmpty.forall_iff, implies_true,
        and_true]
      refine ⟨by decide +kernel, by decide +kernel, by decide +kernel, hnumber _, by decide +kernel,
        hnumber _, by decide +kernel, by decide +kernel, ?_, by decide +kernel, hnumber _,
        by decide +kernel, hnumber _, by decide +kernel⟩
      rw [bytesOf_asciiText hexText_ascii, length_hexText]
      omega
    · exact hfixed _ (by decide +kernel)
  | reboot => exact hfixed _ (by decide +kernel)
  | shutdown => exact absurd trivial hok
  | unknown => exact hfixed _ (by decide +kernel)

end Command

end RelizOS
