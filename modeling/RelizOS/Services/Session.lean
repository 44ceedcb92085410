import RelizOS.Services.Commands

/-!
# A session of the shell

The shell is started and keys are typed, any number of them. It is compared with a terminal that has
no buffers: a line that is edited, the commands that are entered, and the transcript of all that is
to be seen, from the welcome to the last key.

The shell shows this transcript, on every screen that has room for a character, and holds the line
in its buffer. It goes on for ever, unless a command is entered that halts the system; and every
such command does (`taskShell_correct`). Between two commands the heap, the scheduler, the clock and
the disk may change in any way.
-/

namespace RelizOS

open RelizFs Gui

namespace Shell

/-! ## The code -/

/-- A command is executed, and what it does is shown. -/
def execute (font : Font) (w : World) (cmdStr : String) (screen : TextWriter) :
    Checked TextWriter := do
  let out ← (Command.of cmdStr).run w cmdStr
  out.foldlM (Output.display font) screen

/-- Keys are typed. With each key is given what a command would find. -/
def typeAll (font : Font) (keys : List (Char × World)) (s : Shell) : Checked Shell :=
  keys.foldlM (fun s p ↦ s.key font (execute font p.2) (keyMessage p.1)) s

/-- `task_shell`. -/
def taskShell (font : Font) (cmdBuf : Slice UInt8) (screen : TextWriter)
    (keys : List (Char × World)) : Checked Shell := do
  let screen ← printStr font welcome screen
  let screen ← printStr font prompt screen
  typeAll font keys ⟨cmdBuf, 0, screen⟩

/-! ## The terminal -/

/-- A key changes the line. -/
def enterKey (line : List Char) (c : Char) : List Char :=
  if c = '\n' then [] else editLine line c

/-- The commands that are entered, when a line has been typed before. -/
def entered : List Char → List (Char × World) → List (String × World)
  | _, [] => []
  | line, (c, w) :: keys =>
    (if c = '\n' ∧ line ≠ [] then [(String.ofList line, w)] else []) ++
      entered (enterKey line c) keys

/-- What a key shows. -/
def shown (line : List Char) (c : Char) (w : World) : List Output :=
  if c = '\n' then
    .text "\n" :: (if line = [] then [] else
      (Command.of (String.ofList line)).response w (String.ofList line)) ++ [.text prompt]
  else if c = '\x08' then if line = [] then [] else [.text "\x08"]
  else if line.length < 64 then [.text (String.ofList [c])]
  else []

/-- What all keys show. -/
def transcript : List Char → List (Char × World) → List Output
  | _, [] => []
  | line, (c, w) :: keys => shown line c w ++ transcript (enterKey line c) keys

/-- Keys of the keyboard, on a disk that can be read. -/
def Keyed (keys : List (Char × World)) : Prop :=
  ∀ p ∈ keys, (∃ scancode, scancodeToAscii scancode = some p.1) ∧ Readable p.2.disk

/-- No command that is entered halts the system. -/
def GoesOn (width : ℕ) (line : List Char) (keys : List (Char × World)) : Prop :=
  ∀ p ∈ entered line keys, ¬(Command.of p.1).Halts width p.2 p.1

/-! ## The screen -/

section

variable (font : Font) {screen : TextWriter} {lines : ℕ} {out : List Output}

/-- **What is shown** leaves the screen in order. -/
theorem writing_display (out : List Output) (h : screen.Writing lines)
    (hdemo : .gfxDemo ∈ out → 200 < screen.info.width)
    (hlines : lines + Command.lines out < 2 ^ 59) :
    ∃ screen', out.foldlM (Output.display font) screen = .ok screen' ∧
      screen'.Writing (lines + Command.lines out) ∧ screen'.info = screen.info := by
  induction out generalizing screen lines with
  | nil => exact ⟨screen, rfl, h, rfl⟩
  | cons o out ih =>
    rw [← List.singleton_append, Command.lines_append, ← Nat.add_assoc] at hlines ⊢
    have hdemo' : .gfxDemo ∈ out → 200 < screen.info.width := fun hmem ↦
      hdemo (List.mem_cons_of_mem o hmem)
    obtain ⟨screen₁, hfirst, h₁, hinfo⟩ : ∃ screen', Output.display font screen o = .ok screen' ∧
        screen'.Writing (lines + Command.lines [o]) ∧ screen'.info = screen.info := by
      cases o with
      | gfxDemo =>
        have htall := h.screen.tall
        have hwide := h.screen.wide
        obtain ⟨buffer', hcall, hpixels⟩ := runNyanCatDemo_eq h.screen.toCovered
          (by omega) (hdemo List.mem_cons_self)
        refine ⟨_, hcall, ⟨hpixels.len ▸ h.screen, ⟨0, rfl⟩, ?_, ?_⟩, rfl⟩
        · exact (show 10 < 18 by decide).trans hwide
        · exact (show 10 ≤ 26 by decide).trans (htall.le.trans (Nat.le_add_right _ _))
      | print text =>
        cases text with
        | none => exact ⟨screen, rfl, h, rfl⟩
        | some text =>
          have hcount : Command.lines [.print (some text)] = text.toList.count '\n' :=
            Nat.add_zero _
          rw [hcount] at hlines ⊢
          obtain ⟨buffer', x, y, hwrite, h'⟩ :=
            h.writeStr font (s := text.toList) (by omega)
          exact ⟨_, hwrite, h', rfl⟩
    obtain ⟨screen₂, hrest, h₂, hinfo'⟩ := ih h₁ (hinfo ▸ hdemo') hlines
    refine ⟨screen₂, ?_, h₂, hinfo'.trans hinfo⟩
    rw [List.singleton_append, List.foldlM_cons, hfirst]
    exact hrest

/-- Behind a character that is drawn, the cursor is on the screen, whatever was printed before. -/
theorem writing_printable {c : Char} (h : screen.Writing lines) (hlines : lines < 2 ^ 59)
    (hc : TextWriter.Printable c) :
    ∃ screen', screen.writeChar font c = .ok screen' ∧ screen'.Writing 0 ∧
      screen'.info = screen.info := by
  obtain ⟨hx, hy⟩ := h.bounds hlines
  obtain ⟨⟨k, hk⟩, hright, hbelow⟩ := h.place_lt
  obtain ⟨buffer', hok, hpixels⟩ := TextWriter.writeChar_printable font h.screen.toCovered hx
    (by omega) hc
  refine ⟨_, hok, ⟨hpixels.len ▸ h.screen, ⟨k + 1, ?_⟩, hright, ?_⟩, rfl⟩
  · dsimp only
    omega
  · dsimp only
    omega

/-- **The prompt** leaves the cursor on the screen. -/
theorem writing_prompt (h : screen.Writing lines) (hlines : lines < 2 ^ 59) :
    ∃ screen', Output.display font screen (.text prompt) = .ok screen' ∧ screen'.Writing 0 ∧
      screen'.info = screen.info := by
  have hprompt : prompt.toList = "relizos>".toList ++ [' '] := rfl
  have hfront : "relizos>".toList.count '\n' = 0 := rfl
  obtain ⟨buffer₁, x, y, hok₁, h₁⟩ := h.writeStr font (s := "relizos>".toList) (by omega)
  obtain ⟨screen₂, hok₂, h₂, hinfo⟩ := writing_printable font h₁ (by omega)
    (show TextWriter.Printable ' ' by decide)
  refine ⟨screen₂, ?_, h₂, hinfo⟩
  rw [Output.text, Output.display, hprompt, TextWriter.writeStr, List.foldlM_append]
  rw [TextWriter.writeStr] at hok₁
  rw [hok₁, Checked.ok_bind, List.foldlM_cons, hok₂]
  rfl

end

/-! ## One key -/

/-- The shell waits for a key. Its buffer holds the line, and the cursor is on the screen. -/
structure Waiting (info : FrameBufferInfo) (s : Shell) (line : List Char) : Prop where
  len : s.cmdBuf.len = 64
  cmdLen : s.cmdLen = line.length
  length_le : line.length ≤ 64
  ascii : ∀ c ∈ line, c.toNat < 128
  no_nul : '\x00' ∉ line
  command : s.command = line.map fun c ↦ UInt8.ofNat c.toNat
  info_eq : s.screen.info = info
  writing : s.screen.Writing 0

section

variable (font : Font) {info : FrameBufferInfo} {s : Shell} {line : List Char} {c : Char}
  {w : World}

theorem foldlM_singleton {screen : TextWriter} {o : Output} :
    [o].foldlM (Output.display font) screen = Output.display font screen o := by
  rw [List.foldlM_cons]
  exact bind_pure _

theorem key_newline :
    s.key font (execute font w) (keyMessage '\n') = do
      let screen ← Output.display font s.screen (.text "\n")
      let screen ← s.process (execute font w) screen
      let screen ← Output.display font screen (.text prompt)
      return ⟨s.cmdBuf, 0, screen⟩ := by
  rw [key, if_pos (show (keyMessage '\n').msgType = 20 from rfl)]
  simp only [toUInt8_keyMessage, ofNat_toUInt8 (show '\n'.toNat < 128 by decide), printStr_eq]
  rw [if_pos trivial]
  rfl

/-- What the return key executes is the line. -/
theorem Waiting.process_eq (h : Waiting info s line) (screen : TextWriter) :
    s.process (execute font w) screen =
      if line = [] then .ok screen else execute font w (String.ofList line) screen := by
  have hlen := h.cmdLen
  by_cases hline : line = []
  · rw [hline, List.length_nil] at hlen
    rw [process, if_neg (by omega), if_pos hline]
    rfl
  · have hpos := List.length_pos_of_ne_nil hline
    have hle := h.length_le
    have hbuf := h.len
    have htext : fromUtf8 s.command = some (String.ofList line) :=
      fromUtf8_eq_some.mpr ((bytesOf_ascii h.ascii).trans h.command.symm)
    rw [process, if_pos (by omega), if_pos (by omega), htext, if_neg hline]

theorem display_singleton (screen : TextWriter) (c : Char) :
    Output.display font screen (.text (String.ofList [c])) = screen.writeChar font c := by
  rw [Output.text, Output.display, String.toList_ofList, TextWriter.writeStr_singleton]

/-- **A character** that has room is appended, and printed. -/
theorem Waiting.append (h : Waiting info s line) (hroom : line.length < 64)
    (hc : TextWriter.Printable c) (hascii : c.toNat < 128) (hnul : c ≠ '\x00') :
    ∃ s', s.key font (execute font w) (keyMessage c) = .ok s' ∧ Waiting info s' (line ++ [c]) ∧
      Output.display font s.screen (.text (String.ofList [c])) = .ok s'.screen := by
  have hlen := h.cmdLen
  have hbuf := h.len
  obtain ⟨screen', hok, hwriting, hinfo⟩ := writing_printable font h.writing
    (by omega) hc
  have hlength : (line ++ [c]).length = s.cmdLen + 1 := by
    rw [List.length_append, List.length_singleton, hlen]
  refine ⟨⟨{ s.cmdBuf with
    get := Function.update s.cmdBuf.get s.cmdLen (UInt8.ofNat c.toNat) }, s.cmdLen + 1, screen'⟩,
    ?_, ⟨hbuf, hlength.symm, by omega, ?_, ?_, ?_, hinfo.trans h.info_eq, hwriting⟩,
    (display_singleton font _ _).trans hok⟩
  · rw [key_printable hc hascii, if_pos (by omega), Slice.write_of_lt (by omega), Checked.ok_bind,
      Checked.add_of_lt (by omega), Checked.ok_bind, hok]
    rfl
  · intro d hd
    obtain hold | hnew := List.mem_append.mp hd
    · exact h.ascii d hold
    · exact List.mem_singleton.mp hnew ▸ hascii
  · intro hmem
    obtain hold | hnew := List.mem_append.mp hmem
    · exact h.no_nul hold
    · exact hnul (List.mem_singleton.mp hnew).symm
  · rw [Shell.command, Slice.segment_succ, Slice.segment_congr fun k hk ↦ ?_, List.map_append,
      ← h.command]
    · dsimp only
      rw [Nat.zero_add, Function.update_self]
      rfl
    · exact Function.update_of_ne (by omega) _ _

/-- **A backspace** removes the last character. -/
theorem Waiting.backspace (h : Waiting info s (line ++ [c])) :
    ∃ s', s.key font (execute font w) (keyMessage '\x08') = .ok s' ∧ Waiting info s' line ∧
      Output.display font s.screen (.text "\x08") = .ok s'.screen := by
  have hlen := h.cmdLen
  have hle := h.length_le
  have hcommand := h.command
  rw [List.length_append, List.length_singleton] at hlen hle
  rw [Shell.command, hlen, Slice.segment_succ, List.map_append] at hcommand
  obtain ⟨screen', hok, hwriting, hinfo⟩ : ∃ screen', s.screen.writeChar font '\x08' = .ok screen' ∧
      screen'.Writing 0 ∧ screen'.info = s.screen.info := by
    obtain ⟨_, hok, -, hwriting⟩ := h.writing.writeChar font (by omega) '\x08'
    exact ⟨_, hok, hwriting, rfl⟩
  refine ⟨⟨s.cmdBuf, line.length, screen'⟩, ?_, ⟨h.len, rfl, by omega, ?_, ?_, ?_,
    hinfo.trans h.info_eq, hwriting⟩, (display_singleton font _ _).trans hok⟩
  · rw [key_backspace, if_pos (by omega), Checked.sub_of_le (by omega), Checked.ok_bind, hok, hlen]
    rfl
  · exact fun d hd ↦ h.ascii d (List.mem_append_left _ hd)
  · exact fun hmem ↦ h.no_nul (List.mem_append_left _ hmem)
  · exact (List.append_inj' hcommand rfl).1

/-- **The return key** shows what the line responds, and the line is empty again. -/
theorem Waiting.newline (h : Waiting info s line) (hd : Readable w.disk)
    (hok : line ≠ [] →
      ¬(Command.of (String.ofList line)).Halts info.width w (String.ofList line)) :
    ∃ s', s.key font (execute font w) (keyMessage '\n') = .ok s' ∧ Waiting info s' [] ∧
      (shown line '\n' w).foldlM (Output.display font) s.screen = .ok s'.screen := by
  obtain ⟨out, hout, hlines, hdemo, hprocess⟩ : ∃ out : List Output,
      shown line '\n' w = .text "\n" :: out ++ [.text prompt] ∧ Command.lines out ≤ 2 ^ 14 ∧
      (.gfxDemo ∈ out → 200 < info.width) ∧ ∀ screen, s.process (execute font w) screen =
        out.foldlM (Output.display font) screen := by
    by_cases hline : line = []
    · refine ⟨[], by rw [shown, if_pos rfl, if_pos hline], Nat.zero_le _,
        fun hmem ↦ absurd hmem List.not_mem_nil, fun screen ↦ ?_⟩
      rw [h.process_eq, if_pos hline]
      rfl
    · have hhalts := hok hline
      refine ⟨_, by rw [shown, if_pos rfl, if_neg hline], ?_, fun hmem ↦ ?_, fun screen ↦ ?_⟩
      · refine Command.lines_response_le hhalts ?_
        rw [String.toList_ofList]
        exact h.length_le
      · rw [Command.eq_gfxdemo_of_mem hmem] at hhalts
        exact not_le.mp hhalts
      · have hnul : '\x00' ∉ (String.ofList line).toList := by
          rw [String.toList_ofList]
          exact h.no_nul
        rw [h.process_eq, if_neg hline, execute, Command.run_eq hd hnul hhalts, Checked.ok_bind]
  obtain ⟨screen₁, hok₁, h₁, hinfo₁⟩ := writing_display font [.text "\n"] h.writing
    (by simp [Output.text]) (by decide)
  have hfeed : Command.lines [.text "\n"] = 1 := by decide
  rw [foldlM_singleton] at hok₁
  obtain ⟨screen₂, hok₂, h₂, hinfo₂⟩ := writing_display font out h₁
    (by rw [hinfo₁, h.info_eq]; exact hdemo) (by omega)
  obtain ⟨screen₃, hok₃, h₃, hinfo₃⟩ := writing_prompt font h₂ (by omega)
  refine ⟨⟨s.cmdBuf, 0, screen₃⟩, ?_, ⟨h.len, rfl, Nat.zero_le _, ?_, List.not_mem_nil, rfl,
    hinfo₃.trans (hinfo₂.trans (hinfo₁.trans h.info_eq)), h₃⟩, ?_⟩
  · rw [key_newline, hok₁, Checked.ok_bind, hprocess, hok₂, Checked.ok_bind, hok₃]
    rfl
  · exact fun d hd ↦ absurd hd List.not_mem_nil
  · rw [hout, List.cons_append, List.foldlM_cons, hok₁, Checked.ok_bind, List.foldlM_append, hok₂,
      Checked.ok_bind, foldlM_singleton, hok₃]

/-- A command that halts the system is the last thing the shell does. -/
theorem Waiting.newline_ne_ok {s' : Shell} (h : Waiting info s line) (hd : Readable w.disk)
    (hline : line ≠ [])
    (hhalts : (Command.of (String.ofList line)).Halts info.width w (String.ofList line)) :
    s.key font (execute font w) (keyMessage '\n') ≠ .ok s' := by
  intro hcall
  rw [key_newline] at hcall
  obtain ⟨screen₁, hfeed, hcall⟩ := Checked.bind_eq_ok.mp hcall
  obtain ⟨screen₂, hprocess, -⟩ := Checked.bind_eq_ok.mp hcall
  rw [h.process_eq, if_neg hline] at hprocess
  obtain ⟨out, hrun, hshown⟩ := Checked.bind_eq_ok.mp hprocess
  have hnul : '\x00' ∉ (String.ofList line).toList := by
    rw [String.toList_ofList]
    exact h.no_nul
  by_cases hdemo : Command.of (String.ofList line) = .gfxdemo
  · -- the first text of the demo is printed, and then the screen is too narrow
    rw [hdemo] at hhalts hrun
    obtain rfl := Except.ok.inj hrun
    rw [List.foldlM_cons] at hshown
    obtain ⟨screen₃, hlaunch, hshown⟩ := Checked.bind_eq_ok.mp hshown
    rw [foldlM_singleton] at hshown
    have hnarrow : screen₃.info.width ≤ 200 := by
      obtain ⟨_, hok₁, h₁, hinfo₁⟩ := writing_display font [.text "\n"]
        h.writing (by simp [Output.text]) (by decide)
      rw [foldlM_singleton, hfeed] at hok₁
      obtain rfl := Except.ok.inj hok₁
      obtain ⟨_, hok₃, -, hinfo₃⟩ := writing_display font
        [.text "Launching Nyan Cat Graphics Demo... (Enjoy!)\n"] h₁ (by simp [Output.text])
        (by decide +kernel)
      rw [foldlM_singleton, hlaunch] at hok₃
      obtain rfl := Except.ok.inj hok₃
      rw [hinfo₃, hinfo₁, h.info_eq]
      exact hhalts
    exact runNyanCatDemo_ne_ok hnarrow hshown
  · exact Command.run_ne_ok hd hnul hhalts hdemo hrun

theorem ne_nul_of_scancode {scancode : UInt8} (h : scancodeToAscii scancode = some c) :
    c ≠ '\x00' := by
  unfold scancodeToAscii at h
  split at h
  all_goals first
    | (obtain rfl := Option.some.inj h; decide)
    | cases h

/-- **One key.** -/
theorem Waiting.key (h : Waiting info s line)
    (hc : ∃ scancode, scancodeToAscii scancode = some c) (hd : Readable w.disk)
    (hok : c = '\n' → line ≠ [] →
      ¬(Command.of (String.ofList line)).Halts info.width w (String.ofList line)) :
    ∃ s', s.key font (execute font w) (keyMessage c) = .ok s' ∧ Waiting info s' (enterKey line c) ∧
      (shown line c w).foldlM (Output.display font) s.screen = .ok s'.screen := by
  obtain ⟨scancode, hscancode⟩ := hc
  obtain rfl | rfl | ⟨hc, hascii⟩ := scancodeToAscii_cases hscancode
  · exact h.newline font hd (hok rfl)
  · rw [enterKey, if_neg (by decide), editLine, if_pos rfl, shown, if_neg (by decide), if_pos rfl]
    obtain rfl | ⟨line, d, rfl⟩ := List.eq_nil_or_concat line
    · refine ⟨s, ?_, h, rfl⟩
      rw [key_backspace, if_neg (by rw [h.cmdLen]; exact lt_irrefl 0)]
      rfl
    · rw [List.concat_eq_append] at h ⊢
      obtain ⟨s', hcall, h', hshown⟩ := h.backspace font
      rw [List.dropLast_concat, if_neg (List.append_ne_nil_of_right_ne_nil line (by simp)),
        foldlM_singleton]
      exact ⟨s', hcall, h', hshown⟩
  · rw [enterKey, if_neg hc.1, editLine, if_neg hc.2.2.1, shown, if_neg hc.1, if_neg hc.2.2.1]
    by_cases hroom : line.length < 64
    · rw [if_pos hroom, if_pos hroom, foldlM_singleton]
      exact h.append font hroom hc hascii (ne_nul_of_scancode hscancode)
    · rw [if_neg hroom, if_neg hroom]
      refine ⟨s, ?_, h, rfl⟩
      rw [key_printable hc hascii, if_neg (by rw [h.cmdLen, h.len]; exact hroom)]
      rfl

end

/-! ## A sequence of keys -/

section

variable (font : Font) {info : FrameBufferInfo} {s : Shell} {line : List Char}
  {keys : List (Char × World)}

theorem goesOn_cons {width : ℕ} {c : Char} {w : World} :
    GoesOn width line ((c, w) :: keys) ↔
      (c = '\n' → line ≠ [] →
        ¬(Command.of (String.ofList line)).Halts width w (String.ofList line)) ∧
      GoesOn width (enterKey line c) keys := by
  rw [GoesOn, entered, List.forall_mem_append]
  refine and_congr_left' ?_
  split
  · next hentered =>
    rw [List.forall_mem_singleton]
    exact ⟨fun h _ _ ↦ h, fun h ↦ h hentered.1 hentered.2⟩
  · next hentered =>
    exact iff_of_true (fun p hp ↦ absurd hp List.not_mem_nil) fun hc hline ↦
      absurd ⟨hc, hline⟩ hentered

/-- **The transcript is shown**, and the buffer holds the line. -/
theorem Waiting.typeAll_eq (h : Waiting info s line) (hkeys : Keyed keys)
    (hok : GoesOn info.width line keys) :
    ∃ s', typeAll font keys s = .ok s' ∧
      Waiting info s' ((keys.map Prod.fst).foldl enterKey line) ∧
      (transcript line keys).foldlM (Output.display font) s.screen = .ok s'.screen := by
  induction keys generalizing s line with
  | nil => exact ⟨s, rfl, h, rfl⟩
  | cons p keys ih =>
    obtain ⟨c, w⟩ := p
    obtain ⟨⟨hc, hd⟩, hkeys⟩ := List.forall_mem_cons.mp hkeys
    dsimp only at hc hd
    obtain ⟨hfirst, hrest⟩ := goesOn_cons.mp hok
    obtain ⟨s₁, hcall₁, h₁, hshown₁⟩ := h.key font hc hd hfirst
    obtain ⟨s₂, hcall₂, h₂, hshown₂⟩ := ih h₁ hkeys hrest
    refine ⟨s₂, ?_, h₂, ?_⟩
    · rw [typeAll, List.foldlM_cons, hcall₁]
      exact hcall₂
    · rw [transcript, List.foldlM_append, hshown₁]
      exact hshown₂

/-- **If the shell goes on**, no command that was entered halts the system. -/
theorem Waiting.goesOn {s' : Shell} (h : Waiting info s line) (hkeys : Keyed keys)
    (hcall : typeAll font keys s = .ok s') : GoesOn info.width line keys := by
  induction keys generalizing s line with
  | nil => exact fun p hp ↦ absurd hp List.not_mem_nil
  | cons p keys ih =>
    obtain ⟨c, w⟩ := p
    obtain ⟨⟨hc, hd⟩, hkeys⟩ := List.forall_mem_cons.mp hkeys
    dsimp only at hc hd
    rw [typeAll, List.foldlM_cons] at hcall
    obtain ⟨s₁, hfirst, hrest⟩ := Checked.bind_eq_ok.mp hcall
    have hok : c = '\n' → line ≠ [] →
        ¬(Command.of (String.ofList line)).Halts info.width w (String.ofList line) := by
      rintro rfl hline hhalts
      exact h.newline_ne_ok font hd hline hhalts hfirst
    obtain ⟨s₁', hfirst', h₁, -⟩ := h.key font hc hd hok
    rw [hfirst] at hfirst'
    obtain rfl := Except.ok.inj hfirst'
    exact goesOn_cons.mpr ⟨hok, ih h₁ hkeys hrest⟩

theorem waiting_start (keys : List (Char × World)) {cmdBuf : Slice UInt8} {screen : TextWriter}
    {lines : ℕ} (hbuf : cmdBuf.len = 64) (hscreen : screen.Writing lines)
    (hlines : lines < 2 ^ 58) :
    ∃ screen', (taskShell font cmdBuf screen keys = typeAll font keys ⟨cmdBuf, 0, screen'⟩) ∧
      Waiting screen.info ⟨cmdBuf, 0, screen'⟩ [] ∧
      [Output.text welcome, .text prompt].foldlM (Output.display font) screen = .ok screen' := by
  have hwelcome : Command.lines [.text welcome] ≤ 512 := by
    refine (Command.lines_texts_le (l := [welcome]) (k := 512) ?_).trans (Nat.mul_one _).le
    rw [List.forall_mem_singleton]
    decide +kernel
  obtain ⟨screen₁, hok₁, h₁, hinfo₁⟩ := writing_display font [.text welcome] hscreen
    (by simp [Output.text]) (by omega)
  rw [foldlM_singleton] at hok₁
  obtain ⟨screen₂, hok₂, h₂, hinfo₂⟩ := writing_prompt font h₁ (by omega)
  refine ⟨screen₂, ?_, ⟨hbuf, rfl, Nat.zero_le _, fun c hc ↦ absurd hc List.not_mem_nil,
    List.not_mem_nil, rfl, hinfo₂.trans hinfo₁, h₂⟩, ?_⟩
  · rw [taskShell, printStr_eq]
    rw [Output.text, Output.display] at hok₁ hok₂
    rw [hok₁, Checked.ok_bind, printStr_eq, hok₂, Checked.ok_bind]
  · rw [List.foldlM_cons, hok₁, Checked.ok_bind, foldlM_singleton, hok₂]

/-- **The shell is the terminal.** It is started on any screen with room for a character, and any
keys are typed. It waits for the next key if and only if no command was entered that halts the
system; and then the screen has received the transcript, and the buffer holds the line. -/
theorem taskShell_correct (cmdBuf : Slice UInt8) {screen : TextWriter} {lines : ℕ}
    (hbuf : cmdBuf.len = 64) (hscreen : screen.Writing lines) (hlines : lines < 2 ^ 58)
    (hkeys : Keyed keys) :
    ((∃ s, taskShell font cmdBuf screen keys = .ok s) ↔ GoesOn screen.info.width [] keys) ∧
    ∀ s, taskShell font cmdBuf screen keys = .ok s →
      s.cmdLen ≤ 64 ∧
      fromUtf8 s.command = some (String.ofList ((keys.map Prod.fst).foldl enterKey [])) ∧
      (Output.text welcome :: .text prompt :: transcript [] keys).foldlM (Output.display font)
        screen = .ok s.screen := by
  obtain ⟨screen', hstart, h, hshown⟩ := waiting_start font keys hbuf hscreen hlines
  rw [hstart]
  refine ⟨⟨fun ⟨s, hs⟩ ↦ h.goesOn font hkeys hs, fun hok ↦ ?_⟩, fun s hs ↦ ?_⟩
  · obtain ⟨s, hs, -, -⟩ := h.typeAll_eq font hkeys hok
    exact ⟨s, hs⟩
  · obtain ⟨s', hs', h', htranscript⟩ := h.typeAll_eq font hkeys (h.goesOn font hkeys hs)
    rw [hs] at hs'
    obtain rfl := Except.ok.inj hs'
    refine ⟨h'.cmdLen ▸ h'.length_le,
      fromUtf8_eq_some.mpr ((bytesOf_ascii h'.ascii).trans h'.command.symm), ?_⟩
    change ([Output.text welcome, .text prompt] ++ transcript [] keys).foldlM _ _ = _
    rw [List.foldlM_append, hshown]
    exact htranscript

/-- What is typed: a command, and the beginning of another one. -/
def echoKeys : List (Char × World) :=
  ['e', 'c', 'h', 'o', ' ', 'a', '\n', 'l'].map fun c ↦ (c, freshWorld)

theorem keyed_echoKeys : Keyed echoKeys := by
  intro p hp
  obtain ⟨c, hc, rfl⟩ := List.mem_map.mp hp
  refine ⟨?_, fun _ ↦ ⟨_, rfl⟩⟩
  simp only [List.mem_cons, List.not_mem_nil, or_false] at hc
  obtain rfl | rfl | rfl | rfl | rfl | rfl | rfl | rfl := hc
  · exact ⟨0x12, rfl⟩
  · exact ⟨0x2E, rfl⟩
  · exact ⟨0x23, rfl⟩
  · exact ⟨0x18, rfl⟩
  · exact ⟨0x39, rfl⟩
  · exact ⟨0x1E, rfl⟩
  · exact ⟨0x1C, rfl⟩
  · exact ⟨0x26, rfl⟩

theorem goesOn_echoKeys : GoesOn 1024 [] echoKeys := by
  have hentered : entered [] echoKeys = [("echo a", freshWorld)] := rfl
  have htrim : trim "echo a" = "echo a" := by decide +kernel
  have hecho : Command.of "echo a" = .echo := by
    rw [Command.of, htrim]
    decide +kernel
  intro p hp
  rw [hentered] at hp
  obtain rfl := List.mem_singleton.mp hp
  dsimp only
  rw [hecho]
  exact not_false

theorem taskShell_correct_echo :
    ∃ s, taskShell (fun _ ↦ none) ⟨fun _ ↦ 0, 64⟩ wideScreen echoKeys = .ok s ∧ s.cmdLen ≤ 64 ∧
      fromUtf8 s.command = some "l" ∧
      (Output.text welcome :: .text prompt :: transcript [] echoKeys).foldlM
        (Output.display fun _ ↦ none) wideScreen = .ok s.screen := by
  have hscreen : wideScreen.Writing 0 :=
    ⟨⟨covered_wideScreen, by decide, by decide⟩, ⟨0, rfl⟩, by decide, by decide⟩
  obtain ⟨hreturns, hafter⟩ := taskShell_correct (fun _ ↦ none) ⟨fun _ ↦ 0, 64⟩ rfl
    hscreen (by decide) keyed_echoKeys
  obtain ⟨s, hs⟩ := hreturns.mpr goesOn_echoKeys
  exact ⟨s, hs, hafter s hs⟩

end

end Shell

end RelizOS
