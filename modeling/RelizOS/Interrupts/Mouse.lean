import Mathlib.Data.List.Induction
import RelizOS.Interrupts.ByteQueue
import RelizOS.Kernel.Task

/-!
# Mouse packets

The mouse sends packets of three bytes, and bit 3 of the first byte is set. The handler of its
interrupt pushes each byte into a byte queue; the input server pops them and sends one message to
the GUI server for every three bytes. It looks for the first byte of a packet only when it expects
one.

A full queue drops bytes, not packets. As long as it drops whole packets, every message is the
decoding of one packet of the mouse, and they are in the order of the packets
(`framed_of_dropsWhole`). If it drops a part of a packet, the server takes bytes of two packets for
one (`not_framed`).

The bytes that the mouse sends are numbered. Which of them the queue has accepted, which the server
holds and which a message is made from is recorded beside the state of the code: the `k`-th byte
that `pop` returns is the `k`-th that `push` has accepted (`byteQueue_fifo`).

## What is left out

The keyboard half of the server, which has a queue and variables of its own, is modelled by itself.
While the server waits in a system call it takes no step of `pop`.
-/

namespace RelizOS

/-! ## The decoder of the input server -/

/-- `mouse_packet` and `mouse_cycle`. The array has three elements, and the index stays below three
(`cycle_readAll_lt`). -/
structure MouseDecoder where
  packet : ℕ → UInt8
  cycle : ℕ

namespace MouseDecoder

/-- No byte has been read. -/
def init : MouseDecoder := ⟨fun _ ↦ 0, 0⟩

/-- A movement: a byte, and a bit of the flags for its sign. -/
def movement (flags sign byte : UInt8) : UInt64 :=
  let d := byte.toUInt32.toInt32
  let d := if flags &&& sign ≠ 0 then d ||| ~~~0xFF else d
  d.toInt64.toUInt64

/-- `mouse_msg`, for a packet of three bytes. -/
def message (packet : ℕ → UInt8) : Message :=
  let flags := packet 0
  { sender := 4
    msgType := 30
    arg1 := movement flags 0x10 (packet 1)
    arg2 := movement flags 0x20 (packet 2)
    arg3 := if flags &&& 0x01 ≠ 0 then 1 else 0
    arg4 := if flags &&& 0x02 ≠ 0 then 1 else 0 }

/-- The loop over the bytes of the queue: one byte, and the message when it completes a packet. -/
def feed (d : MouseDecoder) (byte : UInt8) : MouseDecoder × Option Message :=
  if d.cycle = 0 ∧ byte &&& 0x08 = 0 then (d, none)
  else
    let packet := Function.update d.packet d.cycle byte
    let cycle := d.cycle + 1
    if cycle = 3 then (⟨packet, 0⟩, some (message packet)) else (⟨packet, cycle⟩, none)

/-- The next byte has a place in `mouse_packet`. -/
theorem cycle_feed_lt {d : MouseDecoder} (h : d.cycle < 3) (byte : UInt8) :
    (d.feed byte).1.cycle < 3 := by
  rw [feed]
  split
  · exact h
  · dsimp only
    split
    · exact Nat.succ_pos 2
    · show d.cycle + 1 < 3
      omega

end MouseDecoder

/-! ## The mouse, the queue and the server -/

/-- A packet of the mouse. -/
structure Packet where
  flags : UInt8
  x : UInt8
  y : UInt8
  /-- The first byte can be told. -/
  sync : flags &&& 0x08 ≠ 0

namespace Packet

/-- The bytes of a packet. -/
def byte (p : Packet) : ℕ → UInt8
  | 0 => p.flags
  | 1 => p.x
  | _ => p.y

/-- The decoding of a packet. -/
def message (p : Packet) : Message := MouseDecoder.message p.byte

end Packet

/-- The bytes of a sequence of packets. -/
def mouseStream (ps : ℕ → Packet) (n : ℕ) : UInt8 := (ps (n / 3)).byte (n % 3)

/-- A message of the server, and the numbers of the bytes it is made from. -/
structure MouseEvent where
  message : Message
  bytes : List ℕ

/-- The input server, as far as the mouse is concerned. -/
structure InputServer where
  decoder : MouseDecoder
  /-- The numbers of the bytes in `mouse_packet`. -/
  held : List ℕ
  /-- The messages sent. -/
  events : List MouseEvent

namespace InputServer

/-- Nothing read, nothing sent. -/
def init : InputServer := ⟨MouseDecoder.init, [], []⟩

/-- The server reads the byte with the given number. -/
def feed (r : InputServer) (byte : UInt8) (n : ℕ) : InputServer :=
  match r.decoder.feed byte with
  | (decoder, some message) => ⟨decoder, [], r.events ++ [⟨message, r.held ++ [n]⟩]⟩
  | (decoder, none) =>
    ⟨decoder, if decoder.cycle = r.decoder.cycle then r.held else r.held ++ [n], r.events⟩

end InputServer

/-- The queue, the mouse and the server. -/
structure MouseRun where
  /-- `MOUSE_QUEUE`, with its histories. -/
  queue : QueueRun
  /-- How many bytes the mouse has sent. -/
  sent : ℕ
  /-- The numbers of the bytes that `push` has accepted. -/
  accepted : List ℕ
  server : InputServer

/-- What happens next. -/
inductive MouseAction where
  /-- The mouse sends a byte, and the handler pushes it. -/
  | interrupt
  /-- The server takes one step of `pop`, and reads the byte when the step returns one. -/
  | popStep

namespace MouseRun

/-- Nothing has happened. -/
def init : MouseRun := ⟨QueueRun.init, 0, [], InputServer.init⟩

/-- One action. -/
def step (ps : ℕ → Packet) (s : MouseRun) : MouseAction → MouseRun
  | .interrupt =>
    { s with
      queue := s.queue.step (.push (mouseStream ps s.sent))
      sent := s.sent + 1
      accepted :=
        if s.queue.Refuses (mouseStream ps s.sent) then s.accepted else s.accepted ++ [s.sent] }
  | .popStep =>
    { s with
      queue := s.queue.step .popStep
      server := match (RelizOS.popStep s.queue.queue s.queue.pop).2.2 with
        | some (some byte) => s.server.feed byte (s.accepted.getD s.queue.returned.length 0)
        | _ => s.server }

/-- A sequence of actions from the start. -/
def run (ps : ℕ → Packet) (as : List MouseAction) : MouseRun := as.foldl (step ps) init

end MouseRun

/-- Every message is the decoding of one packet, from the bytes of that packet, and the messages are
in the order of the packets. -/
def Framed (ps : ℕ → Packet) (events : List MouseEvent) : Prop :=
  ∃ is : List ℕ, is.Pairwise (· < ·) ∧
    events = is.map fun i ↦ ⟨(ps i).message, [3 * i, 3 * i + 1, 3 * i + 2]⟩

/-- The queue is full. -/
def ByteQueue.Full (q : ByteQueue) : Prop := (q.writePos + 1) &&& 0xFF = q.readPos

/-- The packets are dropped whole: a later byte of a packet finds a full queue exactly when the
first byte did. -/
def MouseRun.DropsWhole (s : MouseRun) : MouseAction → Prop
  | .interrupt => s.sent % 3 ≠ 0 → (s.queue.queue.Full ↔ 3 * (s.sent / 3) ∉ s.accepted)
  | .popStep => True

/-! ## Reading whole packets -/

/-- The numbers of the bytes of a packet. -/
def packetBytes (i : ℕ) : List ℕ := [3 * i, 3 * i + 1, 3 * i + 2]

namespace InputServer

variable {ps : ℕ → Packet} {r : InputServer}

/-- The server reads the bytes with the given numbers. -/
def readAll (ps : ℕ → Packet) (r : InputServer) (numbers : List ℕ) : InputServer :=
  numbers.foldl (fun r n ↦ r.feed (mouseStream ps n) n) r

theorem readAll_append (numbers numbers' : List ℕ) :
    r.readAll ps (numbers ++ numbers') = (r.readAll ps numbers).readAll ps numbers' :=
  List.foldl_append

theorem events_feed (byte : UInt8) (n : ℕ) : r.events <+: (r.feed byte n).events := by
  rw [feed]
  split
  · exact List.prefix_append _ _
  · exact List.prefix_refl _

theorem cycle_readAll_lt (hr : r.decoder.cycle < 3) (ps : ℕ → Packet) (numbers : List ℕ) :
    (r.readAll ps numbers).decoder.cycle < 3 := by
  induction numbers generalizing r with
  | nil => exact hr
  | cons n numbers ih =>
    have hfeed := MouseDecoder.cycle_feed_lt hr (mouseStream ps n)
    refine ih ?_
    show (r.feed (mouseStream ps n) n).decoder.cycle < 3
    rw [feed]
    split
    · rename_i heq
      rwa [heq] at hfeed
    · rename_i heq
      rwa [heq] at hfeed

theorem events_readAll (ps : ℕ → Packet) (numbers : List ℕ) :
    r.events <+: (r.readAll ps numbers).events := by
  induction numbers generalizing r with
  | nil => exact List.prefix_refl _
  | cons n numbers ih => exact (events_feed _ _).trans ih

theorem feed_held {byte : UInt8} {n c : ℕ} {packet : ℕ → UInt8} {held : List ℕ}
    {events : List MouseEvent} (hc : c < 2) (hbyte : c = 0 → byte &&& 0x08 ≠ 0) :
    feed ⟨⟨packet, c⟩, held, events⟩ byte n =
      ⟨⟨Function.update packet c byte, c + 1⟩, held ++ [n], events⟩ := by
  have hfeed : (MouseDecoder.mk packet c).feed byte =
      (⟨Function.update packet c byte, c + 1⟩, none) := by
    rw [MouseDecoder.feed, if_neg fun h ↦ hbyte h.1 h.2]
    exact if_neg (by dsimp only; omega)
  rw [feed, hfeed]
  dsimp only
  rw [if_neg (Nat.succ_ne_self c)]

theorem feed_completes {byte : UInt8} {n : ℕ} {packet : ℕ → UInt8} {held : List ℕ}
    {events : List MouseEvent} :
    feed ⟨⟨packet, 2⟩, held, events⟩ byte n =
      ⟨⟨Function.update packet 2 byte, 0⟩, [],
        events ++ [⟨MouseDecoder.message (Function.update packet 2 byte), held ++ [n]⟩]⟩ := rfl

/-- Between two packets. -/
def AtStart (r : InputServer) : Prop := r.decoder.cycle = 0 ∧ r.held = []

/-- Three bytes read between two packets, the first one of them a first byte, make one message. -/
theorem feed_three (hr : r.AtStart) (p : ℕ → UInt8) (hsync : p 0 &&& 0x08 ≠ 0) (n₀ n₁ n₂ : ℕ) :
    (((r.feed (p 0) n₀).feed (p 1) n₁).feed (p 2) n₂).AtStart ∧
      (((r.feed (p 0) n₀).feed (p 1) n₁).feed (p 2) n₂).events =
        r.events ++ [⟨MouseDecoder.message p, [n₀, n₁, n₂]⟩] := by
  obtain ⟨⟨packet, cycle⟩, held, events⟩ := r
  obtain ⟨rfl, rfl⟩ : cycle = 0 ∧ held = [] := hr
  have hfirst : feed ⟨⟨packet, 0⟩, [], events⟩ (p 0) n₀ =
      ⟨⟨Function.update packet 0 (p 0), 1⟩, [n₀], events⟩ :=
    feed_held (by decide) fun _ ↦ hsync
  have hsecond (packet : ℕ → UInt8) : feed ⟨⟨packet, 1⟩, [n₀], events⟩ (p 1) n₁ =
      ⟨⟨Function.update packet 1 (p 1), 2⟩, [n₀, n₁], events⟩ :=
    feed_held (by decide) fun h ↦ absurd h Nat.one_ne_zero
  rw [hfirst, hsecond, feed_completes]
  exact ⟨⟨rfl, rfl⟩, rfl⟩

/-- **A whole packet makes one message**, and after it the server expects the next packet. -/
theorem readAll_packetBytes (hr : r.AtStart) (ps : ℕ → Packet) (i : ℕ) :
    (r.readAll ps (packetBytes i)).AtStart ∧
      (r.readAll ps (packetBytes i)).events = r.events ++ [⟨(ps i).message, packetBytes i⟩] := by
  have hbyte : ∀ j < 3, mouseStream ps (3 * i + j) = (ps i).byte j := by
    intro j hj
    rw [mouseStream, Nat.mul_add_div (by decide), Nat.div_eq_of_lt hj, Nat.mul_add_mod,
      Nat.mod_eq_of_lt hj, Nat.add_zero]
  have h0 : mouseStream ps (3 * i) = (ps i).byte 0 := hbyte 0 (by decide)
  rw [readAll, packetBytes, List.foldl_cons, List.foldl_cons, List.foldl_cons, List.foldl_nil, h0,
    hbyte 1 (by decide), hbyte 2 (by decide)]
  exact feed_three hr (ps i).byte (ps i).sync _ _ _

theorem readAll_flatMap (hr : r.AtStart) (ps : ℕ → Packet) (is : List ℕ) :
    (r.readAll ps (is.flatMap packetBytes)).AtStart ∧
      (r.readAll ps (is.flatMap packetBytes)).events =
        r.events ++ is.map fun i ↦ ⟨(ps i).message, packetBytes i⟩ := by
  induction is generalizing r with
  | nil => exact ⟨hr, (List.append_nil _).symm⟩
  | cons i is ih =>
    obtain ⟨hstart, hevents⟩ := readAll_packetBytes hr ps i
    rw [List.flatMap_cons, readAll_append, List.map_cons, List.append_cons, ← hevents]
    exact ih hstart

end InputServer

/-- What is made from a part of some whole packets. -/
theorem framed_of_prefix {ps : ℕ → Packet} {is numbers : List ℕ} (his : is.Pairwise (· < ·))
    (hpart : numbers <+: is.flatMap packetBytes) :
    Framed ps (InputServer.init.readAll ps numbers).events := by
  obtain ⟨rest, hrest⟩ := hpart
  obtain ⟨-, hevents⟩ := InputServer.readAll_flatMap (r := InputServer.init) ⟨rfl, rfl⟩ ps is
  have hle : (InputServer.init.readAll ps numbers).events <+:
      is.map fun i ↦ ⟨(ps i).message, packetBytes i⟩ := by
    have hsent := InputServer.events_readAll (r := InputServer.init.readAll ps numbers) ps
      rest
    rwa [← InputServer.readAll_append, hrest, hevents] at hsent
  refine ⟨is.take (InputServer.init.readAll ps numbers).events.length,
    his.sublist (List.take_sublist _ _), ?_⟩
  rw [List.map_take]
  exact List.prefix_iff_eq_take.mp hle

/-! ## Dropping whole packets -/

/-- Of the packets sent so far each has been accepted whole or not at all; of the packet being sent
the queue has all bytes so far or none. -/
inductive Whole : List ℕ → ℕ → Prop
  /-- The queue has none of the bytes of the packet being sent. -/
  | out {is : List ℕ} {sent : ℕ} (his : is.Pairwise (· < ·)) (hlt : ∀ i ∈ is, 3 * i + 3 ≤ sent) :
      Whole (is.flatMap packetBytes) sent
  /-- It has them all so far. -/
  | part {is : List ℕ} {i j : ℕ} (his : is.Pairwise (· < ·)) (hlt : ∀ i' ∈ is, i' < i)
      (hj : 1 ≤ j ∧ j < 3) : Whole (is.flatMap packetBytes ++ (packetBytes i).take j) (3 * i + j)

namespace Whole

variable {accepted : List ℕ} {sent : ℕ}

theorem pairwise_snoc {is : List ℕ} {i : ℕ} (his : is.Pairwise (· < ·)) (hlt : ∀ i' ∈ is, i' < i) :
    (is ++ [i]).Pairwise (· < ·) := by
  rw [List.pairwise_append]
  refine ⟨his, List.pairwise_singleton _ _, fun i' hi' j hj ↦ ?_⟩
  rw [List.mem_singleton.mp hj]
  exact hlt i' hi'

theorem prefix_flatMap (h : Whole accepted sent) :
    ∃ is : List ℕ, is.Pairwise (· < ·) ∧ accepted <+: is.flatMap packetBytes := by
  cases h with
  | @out is _ his hlt => exact ⟨is, his, List.prefix_refl _⟩
  | @part is i j his hlt hj =>
    refine ⟨is ++ [i], pairwise_snoc his hlt, ?_⟩
    rw [List.flatMap_append, List.flatMap_singleton]
    exact (List.prefix_append_right_inj _).mpr (List.take_prefix _ _)

/-- A byte is accepted: the first of its packet, or one whose packet has been accepted so far. -/
theorem accept (h : Whole accepted sent)
    (hpart : sent % 3 ≠ 0 → 3 * (sent / 3) ∈ accepted) :
    Whole (accepted ++ [sent]) (sent + 1) := by
  cases h with
  | @out is _ his hlt =>
    obtain ⟨i, rfl⟩ : ∃ i, sent = 3 * i := by
      refine ⟨sent / 3, ?_⟩
      by_contra hne
      obtain ⟨i, hi, hmem⟩ := List.mem_flatMap.mp (hpart (by omega))
      have hle := hlt i hi
      rw [packetBytes, List.mem_cons, List.mem_cons, List.mem_singleton] at hmem
      omega
    exact .part (i := i) (j := 1) his (fun i' hi' ↦ by have := hlt i' hi'; omega) (by decide)
  | @part is i j his hlt hj =>
    rw [List.append_assoc]
    obtain rfl | rfl : j = 1 ∨ j = 2 := by omega
    · exact .part (i := i) (j := 2) his hlt (by decide)
    · have hwhole : (is ++ [i]).flatMap packetBytes = is.flatMap packetBytes ++ packetBytes i := by
        rw [List.flatMap_append, List.flatMap_singleton]
      refine hwhole ▸ .out (pairwise_snoc his hlt) fun i' hi' ↦ ?_
      rcases List.mem_append.mp hi' with hi' | hi'
      · have := hlt i' hi'
        omega
      · rw [List.mem_singleton.mp hi']

/-- A byte is dropped: the first of its packet, or one whose packet has been dropped so far. -/
theorem drop (h : Whole accepted sent)
    (hpart : sent % 3 ≠ 0 → 3 * (sent / 3) ∉ accepted) : Whole accepted (sent + 1) := by
  cases h with
  | out his hlt => exact .out his fun i hi ↦ Nat.le_succ_of_le (hlt i hi)
  | @part is i j his hlt hj =>
    refine absurd ?_ (hpart (by omega))
    rw [List.mem_append, Nat.mul_add_div (by decide), Nat.div_eq_of_lt hj.2, Nat.add_zero]
    right
    obtain rfl | rfl : j = 1 ∨ j = 2 := by omega
    · exact List.mem_cons_self
    · exact List.mem_cons_self

end Whole

/-! ## Runs -/

/-- What the histories say about the queue and the server. -/
structure MouseInv (ps : ℕ → Packet) (s : MouseRun) : Prop where
  queue : QueueInv s.queue
  /-- The accepted bytes are those with the recorded numbers. -/
  accepted : s.queue.accepted = s.accepted.map (mouseStream ps)
  /-- The server has read the bytes that `pop` has returned. -/
  server : s.server = InputServer.init.readAll ps (s.accepted.take s.queue.returned.length)

theorem QueueInv.full_iff {s : QueueRun} (hinv : QueueInv s) (byte : UInt8) :
    s.queue.Full ↔ s.Refuses byte := by
  have hfull := hinv.ring.succ_write_eq_read_iff
  have hle := hinv.length_le
  rw [List.length_drop] at hfull
  rw [hinv.refuses_iff, ByteQueue.Full, Nat.and_two_pow_sub_one_eq_mod _ 8]
  refine hfull.trans ?_
  omega

/-- What a step of `pop` returns: nothing, or the next accepted byte. -/
theorem QueueInv.popStep_result {s : QueueRun} (hinv : QueueInv s) :
    match (RelizOS.popStep s.queue s.pop).2.2 with
    | some (some byte) => s.accepted[s.returned.length]? = some byte ∧
        (s.step .popStep).returned = s.returned ++ [byte]
    | _ => (s.step .popStep).returned = s.returned := by
  have hpop := hinv.pop
  rw [QueueRun.step]
  cases hs : s.pop with
  | idle => exact List.append_nil _
  | loaded r =>
    rw [RelizOS.popStep]
    by_cases heq : r = s.queue.writePos
    · rw [if_pos heq]
      exact List.append_nil _
    · rw [if_neg heq]
      exact List.append_nil _
  | compared r => exact List.append_nil _
  | fetched r byte =>
    rw [hs] at hpop
    exact ⟨hpop.2, rfl⟩

namespace MouseInv

variable {ps : ℕ → Packet} {s : MouseRun}

theorem init : MouseInv ps MouseRun.init := ⟨QueueInv.init, rfl, rfl⟩

theorem length_eq (h : MouseInv ps s) : s.queue.accepted.length = s.accepted.length := by
  rw [h.accepted, List.length_map]

theorem interrupt (h : MouseInv ps s) : MouseInv ps (s.step ps .interrupt) := by
  have hle := h.queue.length_le
  rw [h.length_eq] at hle
  refine ⟨h.queue.push _, ?_, ?_⟩
  · rw [MouseRun.step, QueueRun.step]
    dsimp only
    split
    · exact h.accepted
    · rw [List.map_append, h.accepted]
      rfl
  · rw [MouseRun.step, QueueRun.step]
    dsimp only
    split
    · exact h.server
    · rw [List.take_append_of_le_length hle]
      exact h.server

theorem popStep (h : MouseInv ps s) : MouseInv ps (s.step ps .popStep) := by
  refine ⟨h.queue.popStep, h.accepted, ?_⟩
  have hresult := h.queue.popStep_result
  rw [MouseRun.step]
  dsimp only
  generalize (RelizOS.popStep s.queue.queue s.queue.pop).2.2 = result at hresult
  match result, hresult with
  | none, hreturned => rw [hreturned, h.server]
  | some none, hreturned => rw [hreturned, h.server]
  | some (some byte), ⟨hnext, hreturned⟩ =>
    rw [h.accepted, List.getElem?_map, Option.map_eq_some_iff] at hnext
    obtain ⟨n, hn, rfl⟩ := hnext
    dsimp only
    rw [hreturned, List.length_append, List.length_singleton, List.take_add_one, hn,
      InputServer.readAll_append, ← h.server, List.getD_eq_getElem?_getD, hn]
    rfl

/-- **Every action preserves the invariant.** -/
theorem step (h : MouseInv ps s) (a : MouseAction) : MouseInv ps (s.step ps a) := by
  cases a with
  | interrupt => exact h.interrupt
  | popStep => exact h.popStep

theorem whole (h : MouseInv ps s) (hwhole : Whole s.accepted s.sent) {a : MouseAction}
    (hdrops : s.DropsWhole a) : Whole (s.step ps a).accepted (s.step ps a).sent := by
  cases a with
  | popStep => exact hwhole
  | interrupt =>
    have hfull := h.queue.full_iff (mouseStream ps s.sent)
    rw [MouseRun.step]
    dsimp only
    split
    · rename_i hrefuses
      exact hwhole.drop fun hpart ↦ (hdrops hpart).mp (hfull.mpr hrefuses)
    · rename_i haccepts
      exact hwhole.accept fun hpart ↦ of_not_not fun hfirst ↦
        haccepts (hfull.mp ((hdrops hpart).mpr hfirst))

theorem run (ps : ℕ → Packet) (as : List MouseAction) : MouseInv ps (MouseRun.run ps as) := by
  induction as using List.reverseRecOn with
  | nil => exact init
  | append_singleton as a ih =>
    rw [MouseRun.run, List.foldl_append]
    exact ih.step a

end MouseInv

/-- In a run that drops no packet in part, the accepted packets are whole. -/
theorem whole_of_run {ps : ℕ → Packet} {as : List MouseAction}
    (hdrops : ∀ k (hk : k < as.length), (MouseRun.run ps (as.take k)).DropsWhole as[k]) :
    Whole (MouseRun.run ps as).accepted (MouseRun.run ps as).sent := by
  induction as using List.reverseRecOn with
  | nil => exact .out .nil fun i hi ↦ absurd hi List.not_mem_nil
  | append_singleton as a ih =>
    have hlen : (as ++ [a]).length = as.length + 1 := by
      rw [List.length_append, List.length_singleton]
    have hwhole := ih fun k hk ↦ by
      have hdrop := hdrops k (by omega)
      rwa [List.take_append_of_le_length hk.le, List.getElem_append_left hk] at hdrop
    have hlast := hdrops as.length (by omega)
    rw [List.take_left, List.getElem_concat_length rfl] at hlast
    rw [MouseRun.run, List.foldl_append]
    exact (MouseInv.run ps as).whole hwhole hlast

/-- **Every message is the decoding of one packet**, in the order of the packets, in every state of
a run that drops no packet in part. -/
theorem framed_of_dropsWhole (ps : ℕ → Packet) (as : List MouseAction)
    (hdrops : ∀ k (hk : k < as.length), (MouseRun.run ps (as.take k)).DropsWhole as[k]) :
    Framed ps (MouseRun.run ps as).server.events := by
  obtain ⟨is, his, hpart⟩ := (whole_of_run hdrops).prefix_flatMap
  rw [(MouseInv.run ps as).server]
  exact framed_of_prefix his ((List.take_prefix _ _).trans hpart)

/-! ### A packet dropped whole

The condition is checked along the run, from the state before each action. -/

namespace MouseRun

/-- From this state on the actions drop no packet in part. -/
def AllWhole (ps : ℕ → Packet) : MouseRun → List MouseAction → Prop
  | _, [] => True
  | s, a :: as => s.DropsWhole a ∧ AllWhole ps (s.step ps a) as

theorem AllWhole.dropsWhole {ps : ℕ → Packet} {s : MouseRun} {as : List MouseAction}
    (h : s.AllWhole ps as) (k : ℕ) (hk : k < as.length) :
    ((as.take k).foldl (step ps) s).DropsWhole as[k] := by
  induction as generalizing s k with
  | nil => exact absurd hk (Nat.not_lt_zero k)
  | cons a as ih =>
    cases k with
    | zero => exact h.1
    | succ k => exact ih h.2 k (Nat.lt_of_succ_lt_succ hk)

instance (s : MouseRun) : (a : MouseAction) → Decidable (s.DropsWhole a)
  | .interrupt => inferInstanceAs
      (Decidable (s.sent % 3 ≠ 0 → (_ = s.queue.queue.readPos ↔ 3 * (s.sent / 3) ∉ s.accepted)))
  | .popStep => inferInstanceAs (Decidable True)

instance decidableAllWhole (ps : ℕ → Packet) : (s : MouseRun) → (as : List MouseAction) →
    Decidable (s.AllWhole ps as)
  | _, [] => inferInstanceAs (Decidable True)
  | s, a :: as =>
    have := decidableAllWhole ps (s.step ps a) as
    inferInstanceAs (Decidable (s.DropsWhole a ∧ AllWhole ps (s.step ps a) as))

end MouseRun

/-- The mouse sends bytes. -/
def interrupts (n : ℕ) : List MouseAction := List.replicate n .interrupt

/-- The server makes calls of `pop` that are not interrupted and find a byte. -/
def pops (n : ℕ) : List MouseAction := List.replicate (4 * n) .popStep

/-- Packets that move the mouse by the same distance in both directions. -/
def diagonal (i : ℕ) : Packet := ⟨0x08, UInt8.ofNat i, UInt8.ofNat i, by decide⟩

/-- A run in which the queue is full after 85 packets. The next one is dropped; the first packet is
read, one more is sent and finds room, and two more are read. -/
def overflowRun : List MouseAction := interrupts 258 ++ pops 3 ++ interrupts 3 ++ pops 6

/-- The theorem at this run: packet 85 is missing among the accepted ones, and three messages have
been sent. -/
theorem framed_overflowRun :
    (MouseRun.run diagonal overflowRun).accepted = (List.range 85 ++ [86]).flatMap packetBytes ∧
      (MouseRun.run diagonal overflowRun).server.events.map MouseEvent.bytes =
        (List.range 3).map packetBytes ∧
      Framed diagonal (MouseRun.run diagonal overflowRun).server.events :=
  ⟨by decide +kernel, by decide +kernel,
    framed_of_dropsWhole _ _ (MouseRun.AllWhole.dropsWhole (by decide +kernel))⟩

/-! ## A packet dropped in part -/

namespace MouseRun

variable {ps : ℕ → Packet} {s : MouseRun} {accepted : List ℕ} {sent returned : ℕ}

/-- Between two calls of `pop`, with these histories. -/
structure At (ps : ℕ → Packet) (s : MouseRun) (accepted : List ℕ) (sent returned : ℕ) : Prop where
  inv : MouseInv ps s
  accepted : s.accepted = accepted
  sent : s.sent = sent
  returned : s.queue.returned.length = returned
  idle : s.queue.pop = .idle

namespace At

theorem refuses_iff (h : At ps s accepted sent returned) (byte : UInt8) :
    s.queue.Refuses byte ↔ accepted.length = returned + 255 := by
  rw [h.inv.queue.refuses_iff, h.inv.length_eq, h.accepted, h.returned]

theorem send (h : At ps s accepted sent returned) {n : ℕ}
    (hroom : accepted.length + n ≤ returned + 255) :
    At ps ((interrupts n).foldl (step ps) s) (accepted ++ List.range' sent n)
      (sent + n) returned := by
  induction n generalizing s accepted sent with
  | zero =>
    rw [List.range'_zero, List.append_nil]
    exact h
  | succ n ih =>
    have haccepts : ¬s.queue.Refuses (mouseStream ps s.sent) := by
      rw [h.refuses_iff]
      omega
    have hstep : At ps (s.step ps .interrupt) (accepted ++ [sent]) (sent + 1) returned := by
      refine ⟨h.inv.interrupt, ?_, congrArg (· + 1) h.sent, h.returned, h.idle⟩
      rw [step]
      dsimp only
      rw [if_neg haccepts, h.accepted, h.sent]
    have hrest := ih hstep (by rw [List.length_append, List.length_singleton]; omega)
    rw [List.append_assoc, List.singleton_append, ← List.range'_succ] at hrest
    rwa [interrupts, List.replicate_succ, List.foldl_cons,
      show sent + (n + 1) = sent + 1 + n by omega]

theorem refused (h : At ps s accepted sent returned) (hfull : accepted.length = returned + 255)
    (n : ℕ) :
    At ps ((interrupts n).foldl (step ps) s) accepted (sent + n) returned := by
  induction n generalizing s sent with
  | zero => exact h
  | succ n ih =>
    have hstep : At ps (s.step ps .interrupt) accepted (sent + 1) returned := by
      refine ⟨h.inv.interrupt, ?_, congrArg (· + 1) h.sent, h.returned, h.idle⟩
      rw [step]
      dsimp only
      rw [if_pos ((h.refuses_iff _).mpr hfull), h.accepted]
    rw [interrupts, List.replicate_succ, List.foldl_cons, Nat.add_comm n, ← Nat.add_assoc]
    exact ih hstep

theorem pop (h : At ps s accepted sent returned) {n : ℕ} (hle : returned + n ≤ accepted.length) :
    At ps ((pops n).foldl (step ps) s) accepted sent (returned + n) := by
  induction n generalizing s returned with
  | zero => exact h
  | succ n ih =>
    obtain ⟨hidle, hreturned⟩ := h.inv.queue.pop_returns h.idle (by
      rw [h.inv.length_eq, h.accepted, h.returned]
      omega)
    have hstep : At ps ((((s.step ps .popStep).step ps .popStep).step ps .popStep).step ps .popStep)
        accepted sent (returned + 1) :=
      ⟨h.inv.popStep.popStep.popStep.popStep, h.accepted, h.sent, h.returned ▸ hreturned, hidle⟩
    rw [pops, Nat.mul_succ, List.replicate_succ, List.replicate_succ, List.replicate_succ,
      List.replicate_succ, List.foldl_cons, List.foldl_cons, List.foldl_cons, List.foldl_cons,
      Nat.add_comm n, ← Nat.add_assoc]
    exact ih hstep (by omega)

end At

end MouseRun

theorem diagonal_message (i : ℕ) : (diagonal i).message.arg1 = (diagonal i).message.arg2 := by
  have hmovement (sign byte : UInt8) (hsign : 0x08 &&& sign = 0) :
      MouseDecoder.movement 0x08 sign byte = byte.toUInt32.toInt32.toInt64.toUInt64 := by
    rw [MouseDecoder.movement, if_neg (not_not.mpr hsign)]
  exact (hmovement 0x10 _ (by decide)).trans (hmovement 0x20 _ (by decide)).symm

/-- A run in which the queue has room for the first byte of a packet only: 85 packets fill the
queue, one byte is popped and the next packet sent, two more are popped and two bytes of a further
packet sent, and the rest is popped. -/
def tornRun : List MouseAction :=
  interrupts 255 ++ pops 1 ++ interrupts 1 ++ interrupts 2 ++ pops 2 ++ interrupts 2 ++ pops 255

theorem tornRun_at : MouseRun.At diagonal (MouseRun.run diagonal tornRun)
    (List.range' 0 255 ++ List.range' 255 1 ++ List.range' 258 2) 260 258 := by
  have hinit : MouseRun.At diagonal MouseRun.init [] 0 0 := ⟨MouseInv.init, rfl, rfl, rfl, rfl⟩
  have hfull := hinit.send (n := 255) (by simp)
  have hpop := hfull.pop (n := 1) (by simp)
  have hfirst := hpop.send (n := 1) (by simp)
  have hdropped := hfirst.refused (by simp) 2
  have hpops := hdropped.pop (n := 2) (by simp)
  have hnext := hpops.send (n := 2) (by simp)
  have hrest := hnext.pop (n := 255) (by simp)
  rw [MouseRun.run, tornRun, List.foldl_append, List.foldl_append, List.foldl_append,
    List.foldl_append, List.foldl_append, List.foldl_append]
  exact hrest

theorem flatMap_range (n : ℕ) : (List.range n).flatMap packetBytes = List.range' 0 (3 * n) := by
  induction n with
  | zero => rfl
  | succ n ih =>
    rw [List.range_succ, List.flatMap_append, ih, List.flatMap_singleton, Nat.mul_succ,
      ← List.range'_append_1, Nat.zero_add]
    rfl

/-- What the server takes for a packet at the end of the run: the first byte of packet 85 and the
first two of packet 86. -/
def tornPacket : ℕ → UInt8
  | 0 => 0x08
  | 1 => 0x08
  | _ => 86

/-- **A packet dropped in part tears the packets**: the last message of the run is made from bytes
of two packets, and it is the decoding of no packet. -/
theorem not_framed :
    (∃ e ∈ (MouseRun.run diagonal tornRun).server.events, e.bytes = [255, 258, 259] ∧
        ∀ i, e.message ≠ (diagonal i).message) ∧
      ¬Framed diagonal (MouseRun.run diagonal tornRun).server.events := by
  have hmem : ⟨MouseDecoder.message tornPacket, [255, 258, 259]⟩ ∈
      (MouseRun.run diagonal tornRun).server.events := by
    obtain ⟨hstart, -⟩ := InputServer.readAll_flatMap (r := InputServer.init) ⟨rfl, rfl⟩ diagonal
      (List.range 85)
    obtain ⟨-, hevents⟩ := InputServer.feed_three hstart tornPacket (by decide) 255 258 259
    have hread := tornRun_at.inv.server
    rw [tornRun_at.accepted, tornRun_at.returned, List.take_of_length_le (by simp),
      List.append_assoc, InputServer.readAll_append, ← flatMap_range 85] at hread
    have hlast (r : InputServer) : r.readAll diagonal (List.range' 255 1 ++ List.range' 258 2) =
        ((r.feed (tornPacket 0) 255).feed (tornPacket 1) 258).feed (tornPacket 2) 259 := rfl
    rw [hread, hlast, hevents]
    exact List.mem_append_right _ (List.mem_singleton_self _)
  have hother : ∀ i, MouseDecoder.message tornPacket ≠ (diagonal i).message := by
    intro i heq
    have hsame := diagonal_message i
    rw [← heq] at hsame
    exact absurd hsame (by decide)
  refine ⟨⟨_, hmem, rfl, hother⟩, ?_⟩
  rintro ⟨is, -, hevents⟩
  rw [hevents, List.mem_map] at hmem
  obtain ⟨i, -, heq⟩ := hmem
  exact hother i (MouseEvent.mk.inj heq).1.symm

end RelizOS
