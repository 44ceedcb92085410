import Mathlib.Data.Bool.AllAny
import RelizOS.Gui.TextRow
import RelizOS.Interrupts.Keyboard
import RelizOS.RelizFs.Image

/-!
# Typing a command

The shell keeps the command in a buffer of 64 bytes and shows it by printing each character as it is
typed, and a backspace when the last one is removed. The buffer and the screen are updated one after
the other and never compared. They agree all the same: the line on the screen is the prompt and the
command, and the command is what an editor of one line makes of the keys (`typeKeys_eq`).

The prompt and 64 characters end at column 594, so on a wider screen the line is never broken; and
the row that the prompt stands in is kept, because the screen is not cleared in between.

## What is left out

What the commands do beside printing, and the value that the system call returns.
-/

namespace RelizOS

open RelizFs Gui

/-! ## The code -/

/-- System call 1, on the bytes of a string. -/
def print (font : Font) (bytes : List UInt8) (screen : TextWriter) : Checked TextWriter :=
  match fromUtf8 bytes with
  | some text => screen.writeStr font text.toList
  | none => return screen

/-- `print_str`. -/
def printStr (font : Font) (s : String) (screen : TextWriter) : Checked TextWriter :=
  print font (bytesOf s) screen

/-- `welcome`. -/
def welcome : String :=
  "\n==========================================================\n" ++
    "Welcome to RelizOS Interactive Shell!                     \n" ++
    "==========================================================\n" ++
    "Type 'help' to see list of available commands.\n" ++ "\n"

/-- `prompt`. -/
def prompt : String := "relizos> "

/-- The shell, with the screen. -/
structure Shell where
  cmdBuf : Slice UInt8
  cmdLen : ℕ
  screen : TextWriter

namespace Shell

/-- `&cmd_buf[..cmd_len]`. -/
def command (s : Shell) : List UInt8 := s.cmdBuf.segment 0 s.cmdLen

/-- The command is executed, if there is one: `execute` is what the commands do to the screen. -/
def process (execute : String → TextWriter → Checked TextWriter) (s : Shell)
    (screen : TextWriter) : Checked TextWriter :=
  if s.cmdLen > 0 then
    if s.cmdLen ≤ s.cmdBuf.len then
      match fromUtf8 s.command with
      | some cmdStr => execute cmdStr screen
      | none => return screen
    else throw .bounds
  else return screen

/-- The body of the loop of `task_shell`, with what the commands do. -/
def key (font : Font) (execute : String → TextWriter → Checked TextWriter) (s : Shell)
    (msg : Message) : Checked Shell :=
  if msg.msgType = 20 then
    let c := Char.ofNat msg.arg1.toUInt8.toNat
    if c = '\n' then do
      let screen ← printStr font "\n" s.screen
      let screen ← s.process execute screen
      let screen ← printStr font prompt screen
      return { s with cmdLen := 0, screen := screen }
    else if c = '\x08' then
      if s.cmdLen > 0 then do
        let cmdLen ← Checked.sub s.cmdLen 1
        let screen ← printStr font "\x08" s.screen
        return { s with cmdLen := cmdLen, screen := screen }
      else return s
    else if s.cmdLen < s.cmdBuf.len then do
      let cmdBuf ← s.cmdBuf.write s.cmdLen msg.arg1.toUInt8
      let cmdLen ← Checked.add 64 s.cmdLen 1
      let screen ← print font [msg.arg1.toUInt8] s.screen
      return ⟨cmdBuf, cmdLen, screen⟩
    else return s
  else return s

/-- The prompt is printed, and keys are typed. -/
def typeKeys (font : Font) (execute : String → TextWriter → Checked TextWriter)
    (cmdBuf : Slice UInt8) (screen : TextWriter) (keys : List Char) : Checked Shell := do
  let screen ← printStr font prompt screen
  (keys.map keyMessage).foldlM (key font execute) ⟨cmdBuf, 0, screen⟩

end Shell

/-! ## The editor -/

/-- A key changes a line: a backspace removes the last character, others are appended up to 64. -/
def editLine (line : List Char) (c : Char) : List Char :=
  if c = '\x08' then line.dropLast
  else if line.length < 64 then line ++ [c]
  else line

/-- The line after some keys. -/
def lineOf (keys : List Char) : List Char := keys.foldl editLine []

/-- A key that stands for a character other than a line feed. -/
def Typed (c : Char) : Prop := c ≠ '\n' ∧ ∃ scancode, scancodeToAscii scancode = some c

/-! ## Characters -/

theorem scancodeToAscii_cases {scancode : UInt8} {c : Char}
    (h : scancodeToAscii scancode = some c) :
    c = '\n' ∨ c = '\x08' ∨ (TextWriter.Printable c ∧ c.toNat < 128) := by
  unfold scancodeToAscii at h
  split at h
  all_goals first
    | (obtain rfl := Option.some.inj h; decide)
    | cases h

section

variable {font : Font} {execute : String → TextWriter → Checked TextWriter} {screen : TextWriter}
  {c : Char}

theorem toUInt8_keyMessage (c : Char) : (keyMessage c).arg1.toUInt8 = UInt8.ofNat c.toNat :=
  UInt64.toUInt8_ofNat' c.toNat

theorem ofNat_toUInt8 (hc : c.toNat < 128) : Char.ofNat (UInt8.ofNat c.toNat).toNat = c := by
  rw [UInt8.toNat_ofNat_of_lt' (by rw [UInt8.size]; omega), Char.ofNat_toNat]

theorem asciiText_map {line : List Char} (h : ∀ c ∈ line, c.toNat < 128) :
    asciiText (line.map fun c ↦ UInt8.ofNat c.toNat) = String.ofList line := by
  rw [asciiText, List.map_map]
  congr 1
  exact (List.map_congr_left fun c hc ↦ ofNat_toUInt8 (h c hc)).trans (List.map_id line)

theorem bytesOf_ascii {line : List Char} (h : ∀ c ∈ line, c.toNat < 128) :
    bytesOf (String.ofList line) = line.map fun c ↦ UInt8.ofNat c.toNat := by
  rw [← asciiText_map h]
  refine bytesOf_asciiText fun b hb ↦ ?_
  obtain ⟨c, hc, rfl⟩ := List.mem_map.mp hb
  have hlt := h c hc
  rw [UInt8.lt_iff_toNat_lt, UInt8.toNat_ofNat_of_lt' (by rw [UInt8.size]; omega)]
  exact hlt

theorem printStr_eq (s : String) : printStr font s screen = screen.writeStr font s.toList := by
  rw [printStr, print, fromUtf8_eq_some.mpr rfl]

theorem print_singleton (hc : c.toNat < 128) :
    print font [UInt8.ofNat c.toNat] screen = screen.writeChar font c := by
  have hbytes : bytesOf (String.ofList [c]) = [UInt8.ofNat c.toNat] :=
    bytesOf_ascii fun d hd ↦ List.mem_singleton.mp hd ▸ hc
  rw [print, fromUtf8_eq_some.mpr hbytes]
  dsimp only
  rw [String.toList_ofList, TextWriter.writeStr_singleton]

end

/-! ## One key -/

namespace Shell

/-- A line is being edited: the buffer holds it, and the screen shows it after the prompt. -/
structure Editing (font : Font) (info : FrameBufferInfo) (s : Shell) (line : List Char) :
    Prop where
  len : s.cmdBuf.len = 64
  cmdLen : s.cmdLen = line.length
  length_le : line.length ≤ 64
  ascii : ∀ c ∈ line, c.toNat < 128
  command : s.command = line.map fun c ↦ UInt8.ofNat c.toNat
  info_eq : s.screen.info = info
  shown : s.screen.Line font (prompt.toList ++ line)

section

variable {font : Font} {execute : String → TextWriter → Checked TextWriter}
  {info : FrameBufferInfo} {s : Shell} {line : List Char} {c : Char}

theorem Editing.text (h : Editing font info s line) :
    fromUtf8 s.command = some (String.ofList line) :=
  fromUtf8_eq_some.mpr ((bytesOf_ascii h.ascii).trans h.command.symm)

theorem key_printable (hc : TextWriter.Printable c) (hascii : c.toNat < 128) :
    s.key font execute (keyMessage c) =
      if s.cmdLen < s.cmdBuf.len then do
        let cmdBuf ← s.cmdBuf.write s.cmdLen (UInt8.ofNat c.toNat)
        let cmdLen ← Checked.add 64 s.cmdLen 1
        let screen ← s.screen.writeChar font c
        return ⟨cmdBuf, cmdLen, screen⟩
      else return s := by
  rw [key, if_pos (show (keyMessage c).msgType = 20 from rfl)]
  simp only [toUInt8_keyMessage, ofNat_toUInt8 hascii, print_singleton hascii]
  rw [if_neg hc.1, if_neg hc.2.2.1]

theorem key_backspace :
    s.key font execute (keyMessage '\x08') =
      if s.cmdLen > 0 then do
        let cmdLen ← Checked.sub s.cmdLen 1
        let screen ← s.screen.writeChar font '\x08'
        return { s with cmdLen := cmdLen, screen := screen }
      else return s := by
  have htext : ("\x08" : String).toList = ['\x08'] := rfl
  rw [key, if_pos (show (keyMessage '\x08').msgType = 20 from rfl)]
  simp only [toUInt8_keyMessage, ofNat_toUInt8 (show '\x08'.toNat < 128 by decide), printStr_eq,
    htext, TextWriter.writeStr_singleton]
  rw [if_neg (by decide), if_pos trivial]

/-- **A character** that has room is appended. -/
theorem Editing.append (h : Editing font info s line) (hwide : 594 < info.width)
    (hroom : line.length < 64) (hc : TextWriter.Printable c) (hascii : c.toNat < 128) :
    ∃ s', s.key font execute (keyMessage c) = .ok s' ∧ Editing font info s' (line ++ [c]) := by
  have hlen := h.cmdLen
  have hbuf := h.len
  rw [← h.info_eq] at hwide
  have hcolumn := h.shown.column
  rw [List.length_append, show prompt.toList.length = 9 from rfl] at hcolumn
  obtain ⟨buffer', hok, hline⟩ := h.shown.writeChar (by omega) hc
  refine ⟨⟨{ s.cmdBuf with
    get := Function.update s.cmdBuf.get s.cmdLen (UInt8.ofNat c.toNat) }, s.cmdLen + 1,
    { s.screen with buffer := buffer', xPos := s.screen.xPos + 8 }⟩, ?_, ⟨hbuf, ?_, ?_, ?_, ?_,
    h.info_eq, (List.append_assoc _ _ _) ▸ hline⟩⟩
  · rw [key_printable hc hascii, if_pos (by omega), Slice.write_of_lt (by omega), Checked.ok_bind,
      Checked.add_of_lt (by omega), Checked.ok_bind, hok]
    rfl
  · rw [List.length_append, List.length_singleton]
    exact congrArg (· + 1) hlen
  · rw [List.length_append, List.length_singleton]
    exact hroom
  · intro d hd
    obtain hold | hnew := List.mem_append.mp hd
    · exact h.ascii d hold
    · exact List.mem_singleton.mp hnew ▸ hascii
  · rw [Shell.command, Slice.segment_succ, Slice.segment_congr fun k hk ↦ ?_, List.map_append,
      ← h.command]
    · dsimp only
      rw [Nat.zero_add, Function.update_self]
      rfl
    · exact Function.update_of_ne (by omega) _ _

/-- **A backspace** removes the last character. -/
theorem Editing.backspace (h : Editing font info s (line ++ [c])) :
    ∃ s', s.key font execute (keyMessage '\x08') = .ok s' ∧ Editing font info s' line := by
  have hlen := h.cmdLen
  have hle := h.length_le
  have hcommand := h.command
  rw [List.length_append, List.length_singleton] at hlen hle
  rw [Shell.command, hlen, Slice.segment_succ, List.map_append] at hcommand
  have hshown := h.shown
  rw [← List.append_assoc] at hshown
  obtain ⟨buffer', hok, hline⟩ := hshown.erase
  refine ⟨⟨s.cmdBuf, line.length,
    { s.screen with buffer := buffer', xPos := s.screen.xPos - 8 }⟩, ?_, ⟨h.len, rfl, by omega,
    fun d hd ↦ h.ascii d (List.mem_append_left _ hd), ?_, h.info_eq, hline⟩⟩
  · rw [key_backspace, if_pos (by omega), Checked.sub_of_le (by omega), Checked.ok_bind, hok, hlen]
    rfl
  · exact (List.append_inj' hcommand rfl).1

/-- **One key.** -/
theorem Editing.key (h : Editing font info s line) (hwide : 594 < info.width) (hc : Typed c) :
    ∃ s', s.key font execute (keyMessage c) = .ok s' ∧ Editing font info s' (editLine line c) := by
  obtain ⟨hnewline, scancode, hscancode⟩ := hc
  obtain hline | rfl | ⟨hc, hascii⟩ := scancodeToAscii_cases hscancode
  · exact absurd hline hnewline
  · rw [editLine, if_pos rfl]
    obtain rfl | ⟨line, d, rfl⟩ := List.eq_nil_or_concat line
    · refine ⟨s, ?_, h⟩
      rw [key_backspace, if_neg (by rw [h.cmdLen]; exact lt_irrefl 0)]
      rfl
    · rw [List.concat_eq_append] at h ⊢
      rw [List.dropLast_concat]
      exact h.backspace
  · rw [editLine, if_neg hc.2.2.1]
    by_cases hroom : line.length < 64
    · rw [if_pos hroom]
      exact h.append hwide hroom hc hascii
    · rw [if_neg hroom]
      refine ⟨s, ?_, h⟩
      rw [key_printable hc hascii, if_neg (by rw [h.cmdLen, h.len]; exact hroom)]
      rfl

/-- What the return key executes is the line. -/
theorem Editing.process_eq (h : Editing font info s line) (screen : TextWriter) :
    s.process execute screen =
      if line = [] then .ok screen else execute (String.ofList line) screen := by
  have hlen := h.cmdLen
  by_cases hline : line = []
  · rw [hline, List.length_nil] at hlen
    rw [process, if_neg (by omega), if_pos hline]
    rfl
  · have hpos := List.length_pos_of_ne_nil hline
    have hle := h.length_le
    have hbuf := h.len
    rw [process, if_pos (by omega), if_pos (by omega), h.text, if_neg hline]

/-! ## A sequence of keys -/

/-- **The buffer and the screen agree**, whatever is typed. -/
theorem Editing.keys (h : Editing font info s line) (hwide : 594 < info.width)
    {keys : List Char} (hkeys : ∀ c ∈ keys, Typed c) :
    ∃ s', (keys.map keyMessage).foldlM (Shell.key font execute) s = .ok s' ∧
      Editing font info s' (keys.foldl editLine line) := by
  induction keys generalizing s line with
  | nil => exact ⟨s, rfl, h⟩
  | cons c keys ih =>
    obtain ⟨s₁, hok₁, h₁⟩ : ∃ s', s.key font execute (keyMessage c) = .ok s' ∧
      Editing font info s' (editLine line c) := h.key hwide (hkeys c List.mem_cons_self)
    obtain ⟨s₂, hok₂, h₂⟩ := ih h₁ fun d hd ↦ hkeys d (List.mem_cons_of_mem c hd)
    refine ⟨s₂, ?_, h₂⟩
    rw [List.map_cons, List.foldlM_cons, hok₁]
    exact hok₂

/-- The first prompt is printed in a blank line, whatever was printed before the shell started. -/
theorem blankLine_welcome {screen : TextWriter} {buffer : Slice UInt8} {s : List Char}
    (hscreen : TextScreen info buffer.len) (hlines : (s ++ welcome.toList).count '\n' < 2 ^ 59)
    (hok : TextWriter.writeFresh font buffer info (s ++ welcome.toList) = .ok screen) :
    screen.BlankLine font := by
  obtain ⟨pre, hend⟩ : ∃ pre, welcome.toList = pre ++ ['\n'] := ⟨_, String.toList_append⟩
  rw [hend, ← List.append_assoc] at hlines hok
  exact TextWriter.writeFresh_blankLine hscreen hlines hok

theorem editing_prompt {screen : TextWriter} {cmdBuf : Slice UInt8} (hbuf : cmdBuf.len = 64)
    (hblank : screen.BlankLine font) (hwide : 594 < screen.info.width) :
    ∃ screen', printStr font prompt screen = .ok screen' ∧
      Editing font screen.info ⟨cmdBuf, 0, screen'⟩ [] := by
  have hprompt : prompt.toList = 'r' :: "elizos> ".toList := rfl
  have hrest : ∀ c ∈ "elizos> ".toList, TextWriter.Printable c :=
    List.all_iff_forall_prop.mp (by decide)
  obtain ⟨buffer₁, y, hok₁, h₁⟩ := hblank.writeChar (show TextWriter.Printable 'r' by decide)
  obtain ⟨buffer₂, hok₂, h₂⟩ := h₁.writeStr hrest (by
    dsimp only
    exact (show 10 + 8 * ([_].length + "elizos> ".toList.length) ≤ 594 by decide).trans_lt hwide)
  refine ⟨{ screen with buffer := buffer₂, xPos := 82, yPos := y }, ?_,
    ⟨hbuf, rfl, by decide, fun c hc ↦ absurd hc List.not_mem_nil, rfl, rfl, h₂⟩⟩
  rw [printStr_eq, hprompt, TextWriter.writeStr, List.foldlM_cons, hok₁]
  exact hok₂

theorem editing_typeKeys {cmdBuf : Slice UInt8} {screen : TextWriter} {keys : List Char}
    (hbuf : cmdBuf.len = 64) (hblank : screen.BlankLine font)
    (hwide : 594 < screen.info.width) (hkeys : ∀ c ∈ keys, Typed c) :
    ∃ s, typeKeys font execute cmdBuf screen keys = .ok s ∧
      Editing font screen.info s (lineOf keys) := by
  obtain ⟨screen', hprompt, h₀⟩ := editing_prompt hbuf hblank hwide
  obtain ⟨s, hok, h⟩ : ∃ s, (keys.map keyMessage).foldlM (key font execute) ⟨cmdBuf, 0, screen'⟩ =
      .ok s ∧ Editing font screen.info s (lineOf keys) :=
    h₀.keys hwide hkeys
  refine ⟨s, ?_, h⟩
  rw [typeKeys, hprompt]
  exact hok

/-- **What is shown is what is executed.** The prompt is printed in a blank line of a screen that is
wide enough, and keys are typed: the command is the line that they make, of at most 64 characters,
and the cells of the cursor's line show it after the prompt, and nothing else. -/
theorem typeKeys_eq (font : Font) (execute : String → TextWriter → Checked TextWriter)
    (cmdBuf : Slice UInt8) (screen : TextWriter) (keys : List Char) (hbuf : cmdBuf.len = 64)
    (hblank : screen.BlankLine font) (hwide : 594 < screen.info.width)
    (hkeys : ∀ c ∈ keys, Typed c) :
    ∃ s, typeKeys font execute cmdBuf screen keys = .ok s ∧ s.cmdLen ≤ 64 ∧
      fromUtf8 s.command = some (String.ofList (lineOf keys)) ∧ s.screen.info = screen.info ∧
      s.screen.ShowsLine font (prompt.toList ++ lineOf keys) := by
  obtain ⟨s, hok, h⟩ : ∃ s, typeKeys font execute cmdBuf screen keys = .ok s ∧
      Editing font screen.info s (lineOf keys) := editing_typeKeys hbuf hblank hwide hkeys
  exact ⟨s, hok, h.cmdLen ▸ h.length_le, h.text, h.info_eq, h.shown.shows⟩

theorem typeKeys_eq_ls :
    ∃ s, typeKeys (fun _ ↦ none) (fun _ ↦ .ok) ⟨fun _ ↦ 0, 64⟩
        ⟨⟨⟨fun _ ↦ 0, 1228800⟩, ⟨640, 480, 640, 4, .bgr⟩⟩, 10, 34, (255, 255, 255), (0, 0, 0)⟩
        ['l', 'd', '\x08', 's'] = .ok s ∧ s.cmdLen ≤ 64 ∧
      fromUtf8 s.command = some "ls" ∧ s.screen.info = ⟨640, 480, 640, 4, .bgr⟩ ∧
      s.screen.ShowsLine (fun _ ↦ none) "relizos> ls".toList := by
  have hblack : encode .bgr (pack (0, 0, 0)) = [0, 0, 0] := by decide
  have hkeys : ∀ c ∈ ['l', 'd', '\x08', 's'], Typed c := by
    intro c hc
    simp only [List.mem_cons, List.not_mem_nil, or_false] at hc
    obtain rfl | rfl | rfl | rfl := hc
    · exact ⟨by decide, 0x26, rfl⟩
    · exact ⟨by decide, 0x20, rfl⟩
    · exact ⟨by decide, 0x0E, rfl⟩
    · exact ⟨by decide, 0x1F, rfl⟩
  exact typeKeys_eq _ _ ⟨fun _ ↦ 0, 64⟩ _ _ rfl
    ⟨⟨by decide, by decide, by decide, by decide⟩, rfl, by decide, fun _ _ _ _ _ _ _ ↦ hblack.symm,
      by decide⟩ (by decide) hkeys

/-- **The first command line** is shown as it is typed, whatever was printed before the shell
started. -/
theorem typeKeys_welcome {buffer cmdBuf : Slice UInt8} {screen : TextWriter}
    {before keys : List Char}
    (hscreen : TextScreen info buffer.len)
    (hlines : (before ++ welcome.toList).count '\n' < 2 ^ 59)
    (hok : TextWriter.writeFresh font buffer info (before ++ welcome.toList) = .ok screen)
    (hbuf : cmdBuf.len = 64) (hwide : 594 < screen.info.width) (hkeys : ∀ c ∈ keys, Typed c) :
    ∃ s, typeKeys font execute cmdBuf screen keys = .ok s ∧
      fromUtf8 s.command = some (String.ofList (lineOf keys)) ∧
      s.screen.ShowsLine font (prompt.toList ++ lineOf keys) := by
  obtain ⟨s, hok', h⟩ : ∃ s, typeKeys font execute cmdBuf screen keys = .ok s ∧
      Editing font screen.info s (lineOf keys) :=
    editing_typeKeys hbuf (blankLine_welcome hscreen hlines hok) hwide hkeys
  exact ⟨s, hok', h.text, h.shown.shows⟩

end

end Shell

end RelizOS
