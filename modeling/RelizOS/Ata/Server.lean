import RelizOS.Ata.Addressing
import RelizOS.Library.RawPointer
import RelizOS.RelizFs.Panics

/-!
# The ATA server

`task_ata_server` receives messages, one after another. For a read request it reads a sector with
the driver, copies it into the buffer of the client, and tells the client how it went; other
messages are ignored.

The other servers take it for a drive that answers at once (`atomicServer`). That is what it is, in
every run in which the controller answers each command with the sector that its registers address,
or is not ready in time where the drive has no sector (`serve_correct`). And whatever the controller
does, no message stops the server, each request is answered once, in order, and issues one command.

For this the clients must name buffers that they have. The server copies to any address that it is
given, and a null or unmapped one ends it.

## What is left out

The system calls by which the messages come and go. A reply goes to the sender of the request, and
that the kernel delivers it is shown elsewhere.
-/

open ByteMemory

namespace RelizOS.Ata

/-! ## The code -/

/-- The server, with the memory of its clients and what it has sent, each message with the task it
is for. -/
structure AtaServer where
  bus : Bus
  buffer : Slice UInt8
  mem : Mem
  sent : List (UInt64 × Message)

/-- What its copies depend on besides the bytes: the addresses that can be accessed, and the place
of its `buffer`. -/
structure Place where
  accessible : ℕ → Bool
  buffer : ℕ

/-- `MSG_ATA_OK`. -/
def msgAtaOk : Message := ⟨3, 0, 0, 0, 0, 0⟩

/-- `MSG_ATA_ERROR`. -/
def msgAtaError : Message := ⟨3, 999, 0, 0, 0, 0⟩

/-- The body of the loop of `task_ata_server`. -/
def handle (c : Controller) (place : Place) (s : AtaServer) (msg : Message) : Checked AtaServer :=
  if msg.msgType = 1 then do
    let (readRes, bus, buffer) ← readSector c 0 msg.arg1.toUInt32 s.bus s.buffer
    match readRes with
    | .ok () =>
      let mem ← copyNonoverlapping place.accessible s.mem place.buffer msg.arg2.toNat
        (buffer.segment 0 512)
      return ⟨bus, buffer, mem, s.sent ++ [(msg.sender, msgAtaOk)]⟩
    | .error _ => return ⟨bus, buffer, s.mem, s.sent ++ [(msg.sender, msgAtaError)]⟩
  else return s

/-- The loop of `task_ata_server`, for some messages. -/
def serve (c : Controller) (place : Place) (s : AtaServer) (msgs : List Message) :
    Checked AtaServer :=
  msgs.foldlM (handle c place) s

/-! ## The drive that answers at once -/

/-- The memory of the clients, and what they have been told. -/
structure Answered where
  mem : Mem
  sent : List (UInt64 × Message)

/-- The client has the buffer that a request names. -/
def ValidRequest (place : Place) (msg : Message) : Prop :=
  msg.msgType = 1 → ValidCopy place.accessible place.buffer msg.arg2.toNat 512

instance (place : Place) (msg : Message) : Decidable (ValidRequest place msg) :=
  inferInstanceAs (Decidable (_ → _))

/-- A request is answered from the drive. -/
def answer (d : RelizFs.Drive) (a : Answered) (msg : Message) : Answered :=
  if msg.msgType = 1 then
    match RelizFs.readSector d msg.arg1.toUInt32.toNat with
    | .ok sector =>
      ⟨writeBytes a.mem msg.arg2.toNat (RelizFs.sectorBytes sector 512),
        a.sent ++ [(msg.sender, msgAtaOk)]⟩
    | .error _ => { a with sent := a.sent ++ [(msg.sender, msgAtaError)] }
  else a

/-- What the controller answers next is a sector, if there is one: it is ready in time, and the
words are those of the sector. -/
def Answers (c : Controller) (bus : Bus) : Except String Mem → Prop
  | .ok sector =>
    (∃ k < 100000, Ready (polledStatus c bus k) ∧ ∀ j < k, Pending (polledStatus c bus j)) ∧
      ∀ i < 256, leBytes 2 (c.data (bus.dataReads + i)).toNat =
        [sector (i * 2), sector (i * 2 + 1)]
  | .error _ =>
    ¬∃ k < 100000, Ready (polledStatus c bus k) ∧ ∀ j < k, Pending (polledStatus c bus j)

/-- In the run of the server, the controller answers each command with the sector that the registers
address. -/
def Obeys (c : Controller) (d : RelizFs.Drive) (place : Place) (s : AtaServer)
    (msgs : List Message) : Prop :=
  ∀ before msg after s', msgs = before ++ msg :: after → msg.msgType = 1 →
    serve c place s before = .ok s' → Answers c s'.bus (d (programmed 0 msg.arg1.toUInt32).lba)

/-- The requests among some messages. -/
def requests (msgs : List Message) : List Message := msgs.filter (·.msgType = 1)

/-! ## One message -/

section

variable {c : Controller} {d : RelizFs.Drive} {place : Place} {s : AtaServer} {msg : Message}
  {msgs : List Message}

/-- Sixteen bits at a time, the buffer is the sector. -/
theorem segment_eq_sectorBytes {buffer : Slice UInt8} {sector : Mem}
    (h : ∀ i < 256, buffer.segment (i * 2) 2 = [sector (i * 2), sector (i * 2 + 1)]) :
    buffer.segment 0 512 = RelizFs.sectorBytes sector 512 := by
  rw [Slice.segment, RelizFs.sectorBytes]
  refine List.map_congr_left fun n hn ↦ ?_
  have hn := List.mem_range.mp hn
  obtain ⟨hlow, hrest⟩ := List.cons.inj (h (n / 2) (by omega))
  obtain ⟨hhigh, -⟩ := List.cons.inj hrest
  rw [Nat.zero_add]
  obtain heven | hodd := Nat.mod_two_eq_zero_or_one n
  · rw [show n / 2 * 2 = n by omega] at hlow
    exact hlow
  · dsimp only at hhigh
    rw [show n / 2 * 2 + 1 = n by omega] at hhigh
    exact hhigh

theorem handle_of_ne (hmsg : msg.msgType ≠ 1) : handle c place s msg = .ok s := if_neg hmsg

theorem handle_request (c : Controller) (hlen : s.buffer.len = 512) (hmsg : msg.msgType = 1)
    (hvalid : ValidRequest place msg) :
    ∃ result bus buffer, Reads c s.bus s.buffer result bus buffer ∧
      bus.commands = s.bus.commands ++ [(0x20, programmed 0 msg.arg1.toUInt32)] ∧
      handle c place s msg = .ok (match result with
        | .ok () => ⟨bus, buffer, writeBytes s.mem msg.arg2.toNat (buffer.segment 0 512),
            s.sent ++ [(msg.sender, msgAtaOk)]⟩
        | .error _ => ⟨bus, buffer, s.mem, s.sent ++ [(msg.sender, msgAtaError)]⟩) := by
  obtain ⟨result, bus, buffer, hcall, hcommands, hreads⟩ :=
    readSector_spec (show (0 : UInt8) ≤ 1 by decide) hlen c msg.arg1.toUInt32 s.bus
  refine ⟨result, bus, buffer, hreads, hcommands, ?_⟩
  rw [handle, if_pos hmsg, hcall, Checked.ok_bind]
  cases result with
  | ok _ =>
    have hcopy : ValidCopy place.accessible place.buffer msg.arg2.toNat
        (buffer.segment 0 512).length := by
      rw [Slice.segment, List.length_map, List.length_range]
      exact hvalid hmsg
    dsimp only
    rw [copyNonoverlapping_of_valid hcopy, Checked.ok_bind, Checked.pure_eq_ok]
  | error _ => rfl

/-- **A message is handled**, whatever the controller answers. -/
theorem handle_eq (c : Controller) (hlen : s.buffer.len = 512) (hvalid : ValidRequest place msg) :
    ∃ s', handle c place s msg = .ok s' ∧ s'.buffer.len = 512 ∧
      s'.bus.commands = s.bus.commands ++
        (requests [msg]).map (fun m ↦ (0x20, programmed 0 m.arg1.toUInt32)) ∧
      s'.sent.map Prod.fst = s.sent.map Prod.fst ++ (requests [msg]).map Message.sender := by
  by_cases hmsg : msg.msgType = 1
  · have hrequests : requests [msg] = [msg] := List.filter_cons_of_pos (decide_eq_true hmsg)
    obtain ⟨result, bus, buffer, hreads, hcommands, hcall⟩ :=
      handle_request c hlen hmsg hvalid
    refine ⟨_, hcall, ?_⟩
    rw [hrequests]
    cases result with
    | ok _ => exact ⟨(hreads.ok rfl).1, hcommands, List.map_append⟩
    | error e => exact ⟨(hreads.error e rfl).1 ▸ hlen, hcommands, List.map_append⟩
  · have hrequests : requests [msg] = [] :=
      List.filter_cons_of_neg fun h ↦ hmsg (of_decide_eq_true h)
    refine ⟨s, handle_of_ne hmsg, hlen, ?_⟩
    rw [hrequests]
    exact ⟨(List.append_nil _).symm, (List.append_nil _).symm⟩

/-- **A request is answered** from the drive, if the controller obeys. -/
theorem handle_answer {s' : AtaServer} (hlen : s.buffer.len = 512)
    (hvalid : ValidRequest place msg)
    (hanswers : msg.msgType = 1 → Answers c s.bus (d (programmed 0 msg.arg1.toUInt32).lba))
    (hcall : handle c place s msg = .ok s') :
    (⟨s'.mem, s'.sent⟩ : Answered) = answer d ⟨s.mem, s.sent⟩ msg := by
  by_cases hmsg : msg.msgType = 1
  · obtain ⟨result, bus, buffer, hreads, -, hcall'⟩ := handle_request c hlen hmsg hvalid
    obtain rfl := Except.ok.inj (hcall.symm.trans hcall')
    have hanswers := hanswers hmsg
    rw [answer, if_pos hmsg, readSector_eq_programmed]
    cases hsector : d (programmed 0 msg.arg1.toUInt32).lba with
    | ok sector =>
      rw [hsector] at hanswers
      obtain rfl := hreads.ok_iff.mpr hanswers.1
      have hbuffer : buffer.segment 0 512 = RelizFs.sectorBytes sector 512 :=
        segment_eq_sectorBytes fun i hi ↦ ((hreads.ok rfl).2.2 i hi).trans (hanswers.2 i hi)
      dsimp only
      rw [hbuffer]
    | error e =>
      rw [hsector] at hanswers
      cases result with
      | ok _ => exact absurd (hreads.ok_iff.mp rfl) hanswers
      | error _ => rfl
  · obtain rfl := Except.ok.inj (hcall.symm.trans (handle_of_ne hmsg))
    rw [answer, if_neg hmsg]

/-! ## A sequence of messages -/

theorem Obeys.head (h : Obeys c d place s (msg :: msgs)) (hmsg : msg.msgType = 1) :
    Answers c s.bus (d (programmed 0 msg.arg1.toUInt32).lba) :=
  h [] msg msgs s rfl hmsg rfl

theorem Obeys.tail {s' : AtaServer} (h : Obeys c d place s (msg :: msgs))
    (hcall : handle c place s msg = .ok s') : Obeys c d place s' msgs := by
  intro before msg' after s'' hmsgs hmsg' hbefore
  refine h (msg :: before) msg' after s'' (by rw [hmsgs, List.cons_append]) hmsg' ?_
  rw [serve, List.foldlM_cons, hcall]
  exact hbefore

/-- **The server is the drive.** Whatever the messages are, if the clients have the buffers that
they name, and whatever the controller answers, the server handles all messages: each request issues
the read command with its address, and is answered once, to its sender and in order. If the
controller obeys, the answers and what is in the buffers of the clients are those of the drive that
answers at once. -/
theorem serve_correct (c : Controller) (hlen : s.buffer.len = 512) {msgs : List Message}
    (hvalid : ∀ msg ∈ msgs, ValidRequest place msg) :
    ∃ s', serve c place s msgs = .ok s' ∧
      s'.bus.commands = s.bus.commands ++
        (requests msgs).map (fun msg ↦ (0x20, programmed 0 msg.arg1.toUInt32)) ∧
      s'.sent.map Prod.fst = s.sent.map Prod.fst ++ (requests msgs).map Message.sender ∧
      ∀ d, Obeys c d place s msgs →
        (⟨s'.mem, s'.sent⟩ : Answered) = msgs.foldl (answer d) ⟨s.mem, s.sent⟩ := by
  induction msgs generalizing s with
  | nil => exact ⟨s, rfl, (List.append_nil _).symm, (List.append_nil _).symm, fun _ _ ↦ rfl⟩
  | cons msg msgs ih =>
    obtain ⟨hfirst, hrest⟩ := List.forall_mem_cons.mp hvalid
    obtain ⟨s₁, hcall₁, hlen₁, hcommands₁, hsent₁⟩ := handle_eq c hlen hfirst
    obtain ⟨s₂, hcall₂, hcommands₂, hsent₂, hanswer₂⟩ := ih hlen₁ hrest
    have hrequests : requests (msg :: msgs) = requests [msg] ++ requests msgs :=
      List.filter_append [msg] msgs
    refine ⟨s₂, ?_, ?_, ?_, fun d hobeys ↦ ?_⟩
    · rw [serve, List.foldlM_cons, hcall₁]
      exact hcall₂
    · rw [hcommands₂, hcommands₁, hrequests, List.map_append, List.append_assoc]
    · rw [hsent₂, hsent₁, hrequests, List.map_append, List.append_assoc]
    · rw [List.foldl_cons, ← handle_answer hlen hfirst hobeys.head hcall₁]
      exact hanswer₂ d (hobeys.tail hcall₁)

/-- A controller of a blank disk. -/
def blankController : Controller := ⟨fun _ ↦ 0x58, fun _ ↦ 0⟩

theorem obeys_blank (place : Place) (s : AtaServer) (msgs : List Message) :
    Obeys blankController (fun _ ↦ .ok fun _ ↦ 0) place s msgs := by
  intro before msg after s' _ _ _
  exact ⟨⟨0, by omega, show Ready 0x58 by decide, fun j hj ↦ absurd hj (Nat.not_lt_zero j)⟩,
    fun i _ ↦ show leBytes 2 (UInt16.toNat 0) = [0, 0] by decide⟩

/-- Everything from the second page on is mapped, and the buffer of the server is far up. -/
def testPlace : Place := ⟨fun a ↦ decide (4096 ≤ a), 0x10000⟩

/-- Two requests, and a message of another kind. -/
def testMessages : List Message :=
  [⟨2, 1, 40002, 4096, 0, 0⟩, ⟨4, 20, 97, 0, 0, 0⟩, ⟨1, 1, 0, 8192, 0, 0⟩]

theorem validPtr_testPlace {p n : ℕ} (hp : 4096 ≤ p) : ValidPtr testPlace.accessible p n :=
  Or.inr ⟨by omega, fun i _ ↦ decide_eq_true (by omega)⟩

theorem validCopy_testPlace {src dst n : ℕ} (hsrc : 4096 ≤ src) (hdst : 4096 ≤ dst)
    (hapart : src + n ≤ dst ∨ dst + n ≤ src) : ValidCopy testPlace.accessible src dst n :=
  ⟨validPtr_testPlace hsrc, validPtr_testPlace hdst, Or.inr hapart⟩

theorem valid_testMessages : ∀ msg ∈ testMessages, ValidRequest testPlace msg := by
  intro msg hmsg
  simp only [testMessages, List.mem_cons, List.not_mem_nil, or_false] at hmsg
  rcases hmsg with rfl | rfl | rfl
  · exact fun _ ↦ validCopy_testPlace (by decide) (by decide) (by decide)
  · exact fun h ↦ absurd h (by decide)
  · exact fun _ ↦ validCopy_testPlace (by decide) (by decide) (by decide)

theorem serve_correct_blank : ∃ s',
    serve blankController testPlace ⟨newBus, ⟨fun _ ↦ 1, 512⟩, fun _ ↦ 2, []⟩ testMessages =
      .ok s' ∧
    s'.bus.commands = [(0x20, programmed 0 40002), (0x20, programmed 0 0)] ∧
    s'.sent = [(2, msgAtaOk), (1, msgAtaOk)] := by
  obtain ⟨s', hcall, hcommands, -, hanswered⟩ :=
    serve_correct (s := ⟨newBus, ⟨fun _ ↦ 1, 512⟩, fun _ ↦ 2, []⟩) blankController rfl
      valid_testMessages
  exact ⟨s', hcall, hcommands, congrArg Answered.sent (hanswered _ (obeys_blank _ _ _))⟩

end

end RelizOS.Ata
