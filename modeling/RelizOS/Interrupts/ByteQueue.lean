import RelizOS.Library.RingBuffer

/-!
# The byte queue between an interrupt handler and a task

`ByteQueue` is the 256-slot ring the keyboard and mouse handlers fill and the input server drains.
`push` runs with interrupts off, so it is atomic. `pop` runs in a task and an interrupt may arrive
between any two of its memory accesses; it is split into the four it makes: load `read_pos`, load
`write_pos` and compare, read the slot, store `read_pos`.

A run is any sequence of complete pushes and single steps of `pop`. The state carries two histories,
the bytes accepted and the bytes returned, which the code does not have; they are recorded from what
a step visibly did, a push that moved `write_pos` and a pop that returned a byte.
-/

namespace RelizOS

/-- `ByteQueue`, with its slots indexed by position. -/
structure ByteQueue where
  /-- The slots. -/
  buffer : ℕ → UInt8
  /-- The position the next byte is written to. -/
  writePos : ℕ
  /-- The position the next byte is read from. -/
  readPos : ℕ

namespace ByteQueue

/-- The empty queue. -/
def new : ByteQueue := ⟨fun _ ↦ 0, 0, 0⟩

/-- Push one byte; when the queue is full the byte is dropped. -/
def push (q : ByteQueue) (byte : UInt8) : ByteQueue :=
  let w := q.writePos
  let nextW := (w + 1) &&& 0xFF
  if nextW ≠ q.readPos then
    { q with buffer := Function.update q.buffer w byte, writePos := nextW }
  else q

/-- Pop one byte, without interruption. -/
def pop (q : ByteQueue) : Option UInt8 × ByteQueue :=
  let r := q.readPos
  if r = q.writePos then (none, q)
  else (some (q.buffer r), { q with readPos := (r + 1) &&& 0xFF })

end ByteQueue

/-! ## The steps of `pop` -/

/-- How far a call of `pop` has come. -/
inductive PopState where
  /-- No call is in progress. -/
  | idle
  /-- `read_pos` has been loaded. -/
  | loaded (r : ℕ)
  /-- `write_pos` has been loaded and differs. -/
  | compared (r : ℕ)
  /-- The slot has been read. -/
  | fetched (r : ℕ) (byte : UInt8)
  deriving DecidableEq, Repr

/-- One step of `pop`, with the result of the call when the step ends it. -/
def popStep (q : ByteQueue) : PopState → ByteQueue × PopState × Option (Option UInt8)
  | .idle => (q, .loaded q.readPos, none)
  | .loaded r => if r = q.writePos then (q, .idle, some none) else (q, .compared r, none)
  | .compared r => (q, .fetched r (q.buffer r), none)
  | .fetched r byte => ({ q with readPos := (r + 1) &&& 0xFF }, .idle, some (some byte))

/-- Without interruption the steps are `pop`: two when the queue is empty, four otherwise. -/
theorem pop_eq_popSteps (q : ByteQueue) :
    (popStep q (.loaded q.readPos) = (q, .idle, some none) ∧ q.pop = (none, q)) ∨
      ∃ byte, popStep q (.loaded q.readPos) = (q, .compared q.readPos, none) ∧
        popStep q (.compared q.readPos) = (q, .fetched q.readPos byte, none) ∧
        popStep q (.fetched q.readPos byte) = (q.pop.2, .idle, some (some byte)) ∧
        q.pop.1 = some byte := by
  by_cases h : q.readPos = q.writePos
  · exact Or.inl ⟨by rw [popStep, if_pos h], by rw [ByteQueue.pop]; exact if_pos h⟩
  · have hpop :
        q.pop = (some (q.buffer q.readPos), { q with readPos := (q.readPos + 1) &&& 0xFF }) :=
      if_neg h
    exact Or.inr ⟨q.buffer q.readPos, by rw [popStep, if_neg h], rfl, by rw [hpop, popStep],
      by rw [hpop]⟩

/-! ## Runs -/

/-- The queue, the call of `pop` in progress, and the two histories. -/
structure QueueRun where
  /-- The queue. -/
  queue : ByteQueue
  /-- The consumer's call in progress. -/
  pop : PopState
  /-- The bytes `push` has accepted, in order. -/
  accepted : List UInt8
  /-- The bytes `pop` has returned, in order. -/
  returned : List UInt8

/-- What can happen next. -/
inductive QueueEvent where
  /-- The handler pushes a byte. -/
  | push (byte : UInt8)
  /-- The consumer takes one step. -/
  | popStep

namespace QueueRun

/-- Nothing pushed, nothing popped. -/
def init : QueueRun := ⟨ByteQueue.new, .idle, [], []⟩

/-- `push` refuses the byte: the write position stays where it is. -/
def Refuses (s : QueueRun) (byte : UInt8) : Prop :=
  (s.queue.push byte).writePos = s.queue.writePos

instance (s : QueueRun) (byte : UInt8) : Decidable (s.Refuses byte) :=
  inferInstanceAs (Decidable (_ = _))

/-- One event. -/
def step (s : QueueRun) : QueueEvent → QueueRun
  | .push byte =>
    { s with
      queue := s.queue.push byte
      accepted := if s.Refuses byte then s.accepted else s.accepted ++ [byte] }
  | .popStep =>
    let (queue, pop, result) := popStep s.queue s.pop
    { s with
      queue := queue
      pop := pop
      returned := s.returned ++ (result.join.toList) }

/-- A sequence of events from the empty queue. -/
def run (es : List QueueEvent) : QueueRun := es.foldl step init

end QueueRun

/-! ## The invariant -/

/-- What the call in progress knows about the queue. -/
def PopOk (s : QueueRun) : PopState → Prop
  | .idle => True
  | .loaded r => r = s.queue.readPos
  | .compared r => r = s.queue.readPos ∧ s.returned.length < s.accepted.length
  | .fetched r byte => r = s.queue.readPos ∧ s.accepted[s.returned.length]? = some byte

/-- **The queue invariant**: the bytes accepted and not yet returned are what the ring holds. -/
structure QueueInv (s : QueueRun) : Prop where
  /-- The returned bytes are the first accepted ones. -/
  returned : s.returned = s.accepted.take s.returned.length
  /-- The read position counts the completed pops. -/
  readPos : s.queue.readPos = s.returned.length % 256
  /-- The ring holds the others. -/
  ring : RingHolds 256 s.queue.buffer s.queue.writePos s.queue.readPos
    (s.accepted.drop s.returned.length)
  /-- The call in progress. -/
  pop : PopOk s s.pop

private theorem land_mask (n : ℕ) : n &&& 0xFF = n % 256 := Nat.and_two_pow_sub_one_eq_mod n 8

namespace QueueInv

variable {s : QueueRun}

theorem length_le (hinv : QueueInv s) : s.returned.length ≤ s.accepted.length := by
  have hlen := congrArg List.length hinv.returned
  rw [List.length_take] at hlen
  omega

/-- **What a push does.** With 255 bytes unreleased nothing; otherwise the byte goes to the write
position, which moves on. -/
theorem push_eq (hinv : QueueInv s) (byte : UInt8) :
    s.queue.push byte = if s.accepted.length = s.returned.length + 255 then s.queue
      else { s.queue with
        buffer := Function.update s.queue.buffer s.queue.writePos byte
        writePos := (s.queue.writePos + 1) % 256 } := by
  have hle := hinv.length_le
  have hfull := hinv.ring.succ_write_eq_read_iff
  rw [List.length_drop] at hfull
  rw [ByteQueue.push, land_mask]
  by_cases hlen : s.accepted.length = s.returned.length + 255
  · rw [if_pos hlen, if_neg (not_not.mpr (hfull.mpr (by omega)))]
  · rw [if_neg hlen, if_pos (fun heq ↦ hlen (by have := hfull.mp heq; omega))]

theorem refuses_iff (hinv : QueueInv s) (byte : UInt8) :
    s.Refuses byte ↔ s.accepted.length = s.returned.length + 255 := by
  rw [QueueRun.Refuses, hinv.push_eq]
  by_cases hlen : s.accepted.length = s.returned.length + 255
  · simp [hlen]
  · have hw := hinv.ring.write_lt
    rw [if_neg hlen]
    dsimp only
    omega

theorem push (hinv : QueueInv s) (byte : UInt8) : QueueInv (s.step (.push byte)) := by
  have hle := hinv.length_le
  have hrefuse := hinv.refuses_iff byte
  have hpush := hinv.push_eq byte
  by_cases hlen : s.accepted.length = s.returned.length + 255
  · have hsame : s.step (.push byte) = s := by
      rw [QueueRun.step, if_pos (hrefuse.mpr hlen), hpush, if_pos hlen]
    rw [hsame]
    exact hinv
  · have hroom : (s.accepted.drop s.returned.length).length + 1 < 256 := by
      have hlt := hinv.ring.length_lt
      rw [List.length_drop] at hlt ⊢
      omega
    rw [if_neg hlen] at hpush
    rw [QueueRun.step, if_neg (fun hr ↦ hlen (hrefuse.mp hr)), hpush]
    refine ⟨?_, hinv.readPos, ?_, ?_⟩
    · dsimp only
      rw [List.take_append_of_le_length hle]
      exact hinv.returned
    · dsimp only
      rw [List.drop_append_of_le_length hle]
      exact hinv.ring.push hroom byte
    · have hpop := hinv.pop
      dsimp only
      cases hs : s.pop with
      | idle => trivial
      | loaded r =>
        rw [hs] at hpop
        exact hpop
      | compared r =>
        rw [hs] at hpop
        refine ⟨hpop.1, ?_⟩
        rw [List.length_append]
        exact Nat.lt_add_right _ hpop.2
      | fetched r b =>
        rw [hs] at hpop
        refine ⟨hpop.1, ?_⟩
        obtain ⟨hlt, -⟩ := List.getElem?_eq_some_iff.mp hpop.2
        rw [List.getElem?_append_left hlt]
        exact hpop.2

theorem readPos_eq_writePos_iff (hinv : QueueInv s) :
    s.queue.readPos = s.queue.writePos ↔ s.accepted.length = s.returned.length := by
  have hle := hinv.length_le
  rw [hinv.ring.read_eq_write_iff, List.drop_eq_nil_iff]
  omega

theorem next_byte (hinv : QueueInv s) (hlt : s.returned.length < s.accepted.length) :
    s.accepted[s.returned.length]? = some (s.queue.buffer s.queue.readPos) := by
  have hring := hinv.ring
  rw [List.drop_eq_getElem_cons hlt] at hring
  rw [List.getElem?_eq_getElem hlt, hring.head]

theorem popStep (hinv : QueueInv s) : QueueInv (s.step .popStep) := by
  have hpop := hinv.pop
  cases hs : s.pop with
  | idle =>
    rw [QueueRun.step, hs]
    exact ⟨by simpa [RelizOS.popStep] using hinv.returned,
      by simpa [RelizOS.popStep] using hinv.readPos,
      by simpa [RelizOS.popStep] using hinv.ring, rfl⟩
  | loaded r =>
    rw [hs] at hpop
    obtain rfl : r = s.queue.readPos := hpop
    have hiff := hinv.readPos_eq_writePos_iff
    have hle := hinv.length_le
    rw [QueueRun.step, hs, RelizOS.popStep]
    by_cases heq : s.queue.readPos = s.queue.writePos
    · rw [if_pos heq]
      exact ⟨by simpa using hinv.returned, by simpa using hinv.readPos,
        by simpa using hinv.ring, trivial⟩
    · rw [if_neg heq]
      exact ⟨by simpa using hinv.returned, by simpa using hinv.readPos,
        by simpa using hinv.ring, rfl, by
          dsimp only
          rw [Option.join_none, Option.toList_none, List.append_nil]
          omega⟩
  | compared r =>
    rw [hs] at hpop
    obtain ⟨rfl, hlt⟩ := hpop
    have hnext := hinv.next_byte hlt
    rw [QueueRun.step, hs, RelizOS.popStep]
    exact ⟨by simpa using hinv.returned, by simpa using hinv.readPos,
      by simpa using hinv.ring, rfl, by simpa using hnext⟩
  | fetched r byte =>
    rw [hs] at hpop
    obtain ⟨rfl, hnext⟩ := hpop
    obtain ⟨hlt, -⟩ := List.getElem?_eq_some_iff.mp hnext
    have hring := hinv.ring
    rw [List.drop_eq_getElem_cons hlt] at hring
    have hstep : s.step .popStep = { s with
        queue := { s.queue with readPos := (s.queue.readPos + 1) % 256 }
        pop := .idle
        returned := s.returned ++ [byte] } := by
      rw [QueueRun.step, hs, RelizOS.popStep, land_mask]
      rfl
    rw [hstep]
    refine ⟨?_, ?_, ?_, trivial⟩
    · dsimp only
      rw [List.length_append, List.length_singleton, List.take_add_one, hnext,
        ← hinv.returned, Option.toList_some]
    · dsimp only
      rw [List.length_append, List.length_singleton, hinv.readPos, Nat.mod_add_mod]
    · dsimp only
      rw [List.length_append, List.length_singleton]
      exact hring.pop

/-- **Every event preserves the invariant.** -/
theorem step (hinv : QueueInv s) (e : QueueEvent) : QueueInv (s.step e) := by
  cases e with
  | push byte => exact hinv.push byte
  | popStep => exact hinv.popStep

theorem init : QueueInv QueueRun.init :=
  ⟨rfl, rfl, RingHolds.nil (by decide), trivial⟩

theorem foldl (hinv : QueueInv s) (es : List QueueEvent) :
    QueueInv (es.foldl QueueRun.step s) := by
  induction es generalizing s with
  | nil => exact hinv
  | cons e es ih => exact ih (hinv.step e)

theorem run (es : List QueueEvent) : QueueInv (QueueRun.run es) := init.foldl es

theorem unread (hinv : QueueInv s) {i : ℕ} {byte : UInt8} (hi : s.returned.length ≤ i)
    (hbyte : s.accepted[i]? = some byte) : s.queue.buffer (i % 256) = byte := by
  have hslot := hinv.ring.slot (i - s.returned.length) byte
    (by rw [List.getElem?_drop, Nat.add_sub_cancel' hi]; exact hbyte)
  rwa [hinv.readPos, Nat.mod_add_mod, Nat.add_sub_cancel' hi] at hslot

end QueueInv

/-! ## Progress -/

namespace QueueRun

variable {s : QueueRun} {r : ℕ}

/-- The handler pushes some bytes. -/
def pushAll (s : QueueRun) (bytes : List UInt8) : QueueRun :=
  (bytes.map QueueEvent.push).foldl step s

theorem pushAll_cons (s : QueueRun) (byte : UInt8) (bytes : List UInt8) :
    s.pushAll (byte :: bytes) = (s.step (.push byte)).pushAll bytes := rfl

theorem pop_pushAll (s : QueueRun) (bytes : List UInt8) : (s.pushAll bytes).pop = s.pop := by
  induction bytes generalizing s with
  | nil => rfl
  | cons byte bytes ih => rw [pushAll_cons, ih, step]

theorem returned_pushAll (s : QueueRun) (bytes : List UInt8) :
    (s.pushAll bytes).returned = s.returned := by
  induction bytes generalizing s with
  | nil => rfl
  | cons byte bytes ih => rw [pushAll_cons, ih, step]

theorem step_compared (hpop : s.pop = .compared r) :
    (s.step .popStep).pop = .fetched r (s.queue.buffer r) ∧
      (s.step .popStep).returned = s.returned := by
  rw [step, hpop]
  exact ⟨rfl, List.append_nil _⟩

/-- **A `pop` that has found the positions different** returns a byte in its two remaining steps,
whatever is pushed between them. -/
theorem pop_progress (hpop : s.pop = .compared r) (bytes bytes' : List UInt8) :
    let s' := (((s.pushAll bytes).step .popStep).pushAll bytes').step .popStep
    s'.pop = .idle ∧ s'.returned.length = s.returned.length + 1 := by
  obtain ⟨hfetched, hreturned⟩ := step_compared ((pop_pushAll s bytes).trans hpop)
  rw [returned_pushAll] at hreturned
  rw [step, (pop_pushAll _ bytes').trans hfetched, RelizOS.popStep, returned_pushAll, hreturned]
  exact ⟨rfl, List.length_append⟩

end QueueRun

/-- Without interruption a call of `pop` on a queue that is not empty returns a byte in four
steps. -/
theorem QueueInv.pop_returns {s : QueueRun} (hinv : QueueInv s) (hidle : s.pop = .idle)
    (hlt : s.returned.length < s.accepted.length) :
    let s' := (((s.step .popStep).step .popStep).step .popStep).step .popStep
    s'.pop = .idle ∧ s'.returned.length = s.returned.length + 1 := by
  have hne : s.queue.readPos ≠ s.queue.writePos := by
    rw [Ne, hinv.readPos_eq_writePos_iff]
    omega
  have h1 : s.step .popStep = { s with pop := .loaded s.queue.readPos } := by
    rw [QueueRun.step, hidle, RelizOS.popStep]
    dsimp only
    rw [Option.join_none, Option.toList_none, List.append_nil]
  have h2 : ({ s with pop := .loaded s.queue.readPos } : QueueRun).step .popStep =
      { s with pop := .compared s.queue.readPos } := by
    rw [QueueRun.step, RelizOS.popStep, if_neg hne]
    dsimp only
    rw [Option.join_none, Option.toList_none, List.append_nil]
  rw [h1, h2]
  exact QueueRun.pop_progress (s := { s with pop := .compared s.queue.readPos }) rfl [] []

/-! ## The queue is a lossless FIFO -/

/-- `pop` is about to answer `None`: it has loaded `read_pos`, and `write_pos` is the same. -/
def QueueRun.AnswersNone (s : QueueRun) : Prop :=
  (popStep s.queue s.pop).2.2 = some none

/-- **The byte queue is a lossless FIFO.** After any interleaving of pushes with the steps of `pop`:
the returned bytes are the first accepted ones; every accepted byte not yet returned is in its slot;
a push is refused exactly when 255 bytes have been accepted and not released, and never more are
held; `pop` answers `None` only when no accepted byte is pending; and once it has found the
positions different it returns a byte, whatever is pushed between its two remaining steps. -/
theorem byteQueue_fifo (es : List QueueEvent) :
    let s := QueueRun.run es
    s.returned <+: s.accepted ∧
      (∀ i byte, s.returned.length ≤ i → s.accepted[i]? = some byte →
        s.queue.buffer (i % 256) = byte) ∧
      (∀ byte, s.Refuses byte ↔ s.accepted.length = s.returned.length + 255) ∧
      s.accepted.length ≤ s.returned.length + 255 ∧
      (s.AnswersNone → s.returned = s.accepted) ∧
      ∀ r, s.pop = .compared r → ∀ bytes bytes' : List UInt8,
        ((((s.pushAll bytes).step .popStep).pushAll bytes').step .popStep).returned.length =
          s.returned.length + 1 := by
  intro s
  have hinv : QueueInv s := QueueInv.run es
  have hreturned : s.returned <+: s.accepted := by
    rw [hinv.returned]
    exact List.take_prefix _ _
  refine ⟨hreturned, fun i byte ↦ hinv.unread, hinv.refuses_iff, ?_, ?_,
    fun r hr bytes bytes' ↦ (QueueRun.pop_progress hr bytes bytes').2⟩
  · have hlt := hinv.ring.length_lt
    rw [List.length_drop] at hlt
    omega
  · intro hnone
    have hpop := hinv.pop
    rw [QueueRun.AnswersNone] at hnone
    -- only a pop that has just loaded the read position can find the queue empty
    cases hs : s.pop with
    | idle => simp [hs, popStep] at hnone
    | compared r => simp [hs, popStep] at hnone
    | fetched r byte => simp [hs, popStep] at hnone
    | loaded r =>
      rw [hs] at hpop
      obtain rfl : r = s.queue.readPos := hpop
      by_cases heq : s.queue.readPos = s.queue.writePos
      · exact hreturned.eq_of_length (hinv.readPos_eq_writePos_iff.mp heq).symm
      · simp [hs, popStep, if_neg heq] at hnone

end RelizOS
