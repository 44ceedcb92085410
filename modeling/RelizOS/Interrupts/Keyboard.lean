import Mathlib.Data.List.Chain
import Mathlib.Data.Set.Insert
import RelizOS.Kernel.Task
import RelizOS.Library.LabelledRun

/-!
# Key events

The keyboard sends a byte when a key is pressed, the same byte again and again while the key that
was pressed last is held, and the byte with bit 7 set when a key is released. The input server
forwards a key event for the first of these, and tells it from the others by the last byte that it
has read. The release of any key makes it forget this byte. So if one key is held and another is
released, the next repetition of the first is taken for a new press: the events are the presses of
mapped keys exactly when no repetition of a mapped key follows a release directly
(`keyMessages_iff`).
-/

open LabelledRun

namespace RelizOS

/-! ## The decoder of the input server -/

/-- `scancode_to_ascii`. -/
def scancodeToAscii (scancode : UInt8) : Option Char :=
  match scancode with
  | 0x1E => some 'a' | 0x30 => some 'b' | 0x2E => some 'c' | 0x20 => some 'd'
  | 0x12 => some 'e' | 0x21 => some 'f' | 0x22 => some 'g' | 0x23 => some 'h'
  | 0x17 => some 'i' | 0x24 => some 'j' | 0x25 => some 'k' | 0x26 => some 'l'
  | 0x32 => some 'm' | 0x31 => some 'n' | 0x18 => some 'o' | 0x19 => some 'p'
  | 0x10 => some 'q' | 0x13 => some 'r' | 0x1F => some 's' | 0x14 => some 't'
  | 0x16 => some 'u' | 0x2F => some 'v' | 0x11 => some 'w' | 0x2D => some 'x'
  | 0x15 => some 'y' | 0x2C => some 'z'
  | 0x02 => some '1' | 0x03 => some '2' | 0x04 => some '3' | 0x05 => some '4'
  | 0x06 => some '5' | 0x07 => some '6' | 0x08 => some '7' | 0x09 => some '8'
  | 0x0A => some '9' | 0x0B => some '0'
  | 0x1C => some '\n'
  | 0x39 => some ' '
  | 0x0E => some '\x08'
  | 0x34 => some '.'
  | 0x0C => some '-'
  | 0x35 => some '/'
  | _ => none

/-- `MSG_KEY_EVENT` for a character. -/
def keyMessage (c : Char) : Message := ⟨4, 20, UInt64.ofNat c.toNat, 0, 0, 0⟩

/-- The loop over the bytes of the queue: `last_scancode` after a byte, and the message for it. -/
def feedKey (lastScancode scancode : UInt8) : UInt8 × Option Message :=
  if scancode &&& 0x80 = 0 ∧ scancode ≠ lastScancode then
    (scancode, (scancodeToAscii scancode).map keyMessage)
  else if scancode &&& 0x80 ≠ 0 then (0, none)
  else (lastScancode, none)

/-- The input server, as far as the keyboard is concerned: `last_scancode`, and the messages sent.
-/
structure KeyServer where
  lastScancode : UInt8
  sent : List Message

namespace KeyServer

/-- Nothing read, nothing sent. -/
def init : KeyServer := ⟨0, []⟩

/-- The server reads a byte. -/
def feed (r : KeyServer) (scancode : UInt8) : KeyServer :=
  let (lastScancode, message) := feedKey r.lastScancode scancode
  ⟨lastScancode, r.sent ++ message.toList⟩

end KeyServer

/-! ## The keyboard -/

/-- A key that is not extended, by the byte that is sent when it is pressed. -/
@[ext] structure Key where
  code : UInt8
  make : code &&& 0x80 = 0

/-- What the keyboard reports. -/
inductive Transition where
  | press (k : Key)
  | release (k : Key)
  /-- The key is still held. -/
  | typematic (k : Key)

namespace Transition

/-- The byte that is sent. -/
def byte : Transition → UInt8
  | press k => k.code
  | release k => k.code ||| 0x80
  | typematic k => k.code

/-- The key event of a transition, if it is the press of a mapped key. -/
def event : Transition → Option Message
  | press k => (scancodeToAscii k.code).map keyMessage
  | release _ => none
  | typematic _ => none

end Transition

/-- The keys that are held, and the one that was pressed last. -/
structure Keyboard where
  held : Set Key
  recent : Option Key

/-- No key is held. -/
def Keyboard.init : Keyboard := ⟨∅, none⟩

/-- A transition of the keyboard: only the key that was pressed last is repeated, while it is
held. -/
inductive KeyStep : Keyboard → Transition → Keyboard → Prop
  | press {kb : Keyboard} {k : Key} (h : k ∉ kb.held) :
      KeyStep kb (.press k) ⟨insert k kb.held, some k⟩
  | release {kb : Keyboard} {k : Key} (h : k ∈ kb.held) :
      KeyStep kb (.release k) ⟨kb.held \ {k}, kb.recent⟩
  | typematic {kb : Keyboard} {k : Key} (hrecent : kb.recent = some k) (h : k ∈ kb.held) :
      KeyStep kb (.typematic k) kb

/-- The server after the bytes of some transitions. -/
def serverAfter (ts : List Transition) : KeyServer :=
  ts.foldl (fun r t ↦ r.feed t.byte) KeyServer.init

/-- Two transitions in a row are not a release and a repetition of a mapped key. -/
def Guarded (s t : Transition) : Prop :=
  ∀ j k, s = .release j → t = .typematic k → scancodeToAscii k.code = none

/-! ## One byte -/

section

variable {last : UInt8} {k : Key}

theorem feedKey_code (h : last = k.code → k.code = 0) :
    feedKey last k.code = (k.code, (scancodeToAscii k.code).map keyMessage) := by
  rw [feedKey]
  by_cases heq : k.code = last
  · have hzero := h heq.symm
    rw [if_neg fun hnew ↦ hnew.2 heq, if_neg fun hbreak ↦ hbreak k.make, ← heq, hzero]
    rfl
  · rw [if_pos ⟨k.make, heq⟩]

theorem feedKey_same (k : Key) : feedKey k.code k.code = (k.code, none) := by
  rw [feedKey, if_neg fun hnew ↦ hnew.2 rfl, if_neg fun hbreak ↦ hbreak k.make]

/-- Bit 7 is set in the byte of a release. -/
theorem or_land_self (b m : UInt8) : (b ||| m) &&& m = m := by
  refine UInt8.eq_of_toBitVec_eq (BitVec.eq_of_getElem_eq fun i hi ↦ ?_)
  rw [UInt8.toBitVec_and, UInt8.toBitVec_or, BitVec.getElem_and, BitVec.getElem_or]
  cases m.toBitVec[i] <;> simp

theorem feedKey_release (last : UInt8) (k : Key) :
    feedKey last (Transition.release k).byte = (0, none) := by
  have hbit : (Transition.release k).byte &&& 0x80 ≠ 0 := by
    rw [Transition.byte, or_land_self]
    decide
  rw [feedKey, if_neg fun hnew ↦ hbit hnew.1, if_pos hbit]

end

/-! ## Runs -/

/-- What the guard remembers of a transition. -/
def remembered : Option Transition → UInt8
  | some (.press k) => k.code
  | some (.typematic k) => k.code
  | _ => 0

/-- What is known of the keyboard from the last transition. -/
structure After (prev : Option Transition) (kb : Keyboard) : Prop where
  start : prev = none → kb.recent = none
  press : ∀ k, prev = some (.press k) → kb.recent = some k ∧ k ∈ kb.held
  typematic : ∀ k, prev = some (.typematic k) → kb.recent = some k ∧ k ∈ kb.held

theorem After.init : After none Keyboard.init := ⟨fun _ ↦ rfl, by simp, by simp⟩

theorem After.step {kb kb' : Keyboard} {t : Transition} (h : KeyStep kb t kb') :
    After (some t) kb' := by
  cases h with
  | @press k h => exact ⟨by simp, by simp, by simp⟩
  | @release k h => exact ⟨by simp, by simp, by simp⟩
  | @typematic k hrecent h =>
    refine ⟨by simp, by simp, fun j hj ↦ ?_⟩
    obtain rfl : k = j := by simpa using hj
    exact ⟨hrecent, h⟩

/-- What the guard remembers is the key that was pressed last, and held. -/
theorem After.mem_held {prev : Option Transition} {kb : Keyboard} (h : After prev kb) {k : Key}
    (hk : remembered prev = k.code) (hne : k.code ≠ 0) : kb.recent = some k ∧ k ∈ kb.held := by
  match prev with
  | none => exact absurd hk.symm hne
  | some (.press j) =>
    obtain rfl : j = k := Key.ext hk
    exact h.press j rfl
  | some (.release j) => exact absurd hk.symm hne
  | some (.typematic j) =>
    obtain rfl : j = k := Key.ext hk
    exact h.typematic j rfl

/-- A repetition of a key is guarded unless it follows a release. -/
theorem guarded_typematic {s : Transition} {k : Key} :
    Guarded s (.typematic k) ↔ (∃ j, s = .release j) → scancodeToAscii k.code = none := by
  constructor
  · rintro h ⟨j, hj⟩
    exact h j k hj rfl
  · rintro h j i hj ⟨⟩
    exact h ⟨j, hj⟩

/-- **One transition**: the guard remembers it, and the message is that of the transition, unless a
mapped key is repeated after a release. -/
theorem After.feedKey {prev : Option Transition} {kb kb' : Keyboard} {t : Transition}
    (hafter : After prev kb) (h : KeyStep kb t kb') :
    ∃ m, feedKey (remembered prev) t.byte = (remembered (some t), m) ∧
      (m = t.event ∨ t.event = none) ∧ (m = t.event ↔ ∀ s ∈ prev, Guarded s t) := by
  cases h with
  | @press k hk =>
    have hnew : remembered prev = k.code → k.code = 0 := by
      intro heq
      by_contra hne
      exact hk (hafter.mem_held heq hne).2
    refine ⟨_, feedKey_code hnew, Or.inl rfl, iff_of_true rfl fun s _ j i _ ht ↦ ?_⟩
    cases ht
  | @release k hk =>
    refine ⟨_, feedKey_release _ k, Or.inl rfl, iff_of_true rfl fun s _ j i _ ht ↦ ?_⟩
    cases ht
  | @typematic k hrecent hk =>
    -- the key is the one that was pressed last
    have hsame : ∀ j, kb.recent = some j → remembered prev = j.code →
        RelizOS.feedKey (remembered prev) k.code = (k.code, none) := by
      intro j hj hprev
      obtain rfl : j = k := Option.some.inj (hj.symm.trans hrecent)
      rw [hprev]
      exact feedKey_same j
    match prev with
    | none => cases (hafter.start rfl).symm.trans hrecent
    | some (.press j) =>
      refine ⟨none, hsame j (hafter.press j rfl).1 rfl, Or.inl rfl, iff_of_true rfl ?_⟩
      rintro s ⟨⟩
      exact guarded_typematic.mpr fun ⟨i, hi⟩ ↦ by cases hi
    | some (.release j) =>
      refine ⟨_, feedKey_code Eq.symm, Or.inr rfl, ?_⟩
      simp [guarded_typematic, Transition.event]
    | some (.typematic j) =>
      refine ⟨none, hsame j (hafter.typematic j rfl).1 rfl, Or.inl rfl, iff_of_true rfl ?_⟩
      rintro s ⟨⟩
      exact guarded_typematic.mpr fun ⟨i, hi⟩ ↦ by cases hi

section

variable {kb : Keyboard} {ts : List Transition}

theorem serverAfter_append (ts : List Transition) (t : Transition) :
    serverAfter (ts ++ [t]) = (serverAfter ts).feed t.byte := by
  rw [serverAfter, List.foldl_append]
  rfl

theorem After.of_run (h : Run KeyStep Keyboard.init ts kb) : After ts.getLast? kb := by
  cases h with
  | nil => exact After.init
  | snoc _ hstep =>
    rw [List.getLast?_concat]
    exact After.step hstep

theorem lastScancode_serverAfter (h : Run KeyStep Keyboard.init ts kb) :
    (serverAfter ts).lastScancode = remembered ts.getLast? := by
  induction h with
  | nil => rfl
  | @snoc ts kb kb' t hrun hstep ih =>
    obtain ⟨m, hfeed, -⟩ := (After.of_run hrun).feedKey hstep
    rw [serverAfter_append, KeyServer.feed, ih, hfeed, List.getLast?_concat]

/-- There are at least as many messages as presses, and more after a repetition of a mapped key
that follows a release. -/
theorem length_sent_le (h : Run KeyStep Keyboard.init ts kb) :
    (ts.filterMap Transition.event).length ≤ (serverAfter ts).sent.length ∧
      ((serverAfter ts).sent = ts.filterMap Transition.event ↔ ts.IsChain Guarded) := by
  induction h with
  | nil => exact ⟨le_rfl, iff_of_true rfl List.IsChain.nil⟩
  | @snoc ts kb kb' t hrun hstep ih =>
    obtain ⟨hle, hiff⟩ := ih
    obtain ⟨m, hfeed, hcases, hguarded⟩ := (After.of_run hrun).feedKey hstep
    have hsent : (serverAfter (ts ++ [t])).sent = (serverAfter ts).sent ++ m.toList := by
      rw [serverAfter_append, KeyServer.feed, lastScancode_serverAfter hrun, hfeed]
    have hevents : (ts ++ [t]).filterMap Transition.event =
        ts.filterMap Transition.event ++ t.event.toList := by
      rw [List.filterMap_append, List.filterMap_cons]
      cases t.event <;> rfl
    have hchain : (ts ++ [t]).IsChain Guarded ↔ ts.IsChain Guarded ∧ m = t.event := by
      rw [List.isChain_append, hguarded]
      simp
    rw [hsent, hevents, hchain]
    by_cases hm : m = t.event
    · rw [hm, List.length_append, List.length_append, List.append_left_inj]
      exact ⟨by omega, hiff.trans (and_iff_left rfl).symm⟩
    · -- a message without a press
      have hevent : t.event = none := hcases.resolve_left hm
      obtain ⟨x, rfl⟩ := Option.ne_none_iff_exists'.mp fun hnone ↦ hm (hnone.trans hevent.symm)
      rw [hevent, Option.toList_none, List.append_nil, Option.toList_some, List.length_append]
      refine ⟨by omega, iff_of_false (fun heq ↦ ?_) fun hall ↦ ?_⟩
      · have hlen := congrArg List.length heq
        rw [List.length_append, List.length_singleton] at hlen
        omega
      · cases hall.2

/-- **When the key events are the presses**: exactly when no repetition of a mapped key follows a
release directly. -/
theorem keyMessages_iff (h : Run KeyStep Keyboard.init ts kb) :
    (serverAfter ts).sent = ts.filterMap Transition.event ↔ ts.IsChain Guarded :=
  (length_sent_le h).2

end

/-- The key of the letter a. -/
def keyA : Key := ⟨0x1E, by decide⟩

/-- The key of the letter b. -/
def keyB : Key := ⟨0x30, by decide⟩

theorem run_together : ∃ kb,
    Run KeyStep Keyboard.init [.press keyA, .press keyB, .typematic keyB, .release keyA] kb ∧
      kb.recent = some keyB ∧ keyB ∈ kb.held := by
  have hne : keyB ≠ keyA := by
    intro h
    exact absurd (congrArg Key.code h) (by decide)
  have hpressed : Run KeyStep Keyboard.init [.press keyA, .press keyB] _ :=
    (Run.nil.snoc (.press (k := keyA) (by simp [Keyboard.init]))).snoc
      (.press (k := keyB) (by simp [Keyboard.init, hne]))
  exact ⟨_, (hpressed.snoc (.typematic (k := keyB) rfl (by simp))).snoc
    (.release (k := keyA) (by simp)), rfl, by simp [hne]⟩

theorem keyMessages_together :
    (serverAfter [.press keyA, .press keyB, .typematic keyB, .release keyA]).sent =
      [keyMessage 'a', keyMessage 'b'] := by
  obtain ⟨kb, hrun, -⟩ := run_together
  refine (keyMessages_iff hrun).mpr ?_
  simp [Guarded]

/-- **A repetition taken for a press**: while one key is held, another is released. -/
theorem not_keyMessages :
    ¬∀ (ts : List Transition) (kb : Keyboard), Run KeyStep Keyboard.init ts kb →
      (serverAfter ts).sent = ts.filterMap Transition.event := by
  intro hgeneral
  obtain ⟨kb, hrun, hrecent, hheld⟩ := run_together
  exact absurd (hgeneral _ kb (hrun.snoc (.typematic hrecent hheld))) (by decide)

end RelizOS
