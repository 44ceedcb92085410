import RelizOS.Kernel.Delivery

/-!
# The shell and the servers

The shell, the file system server and the ATA server are programs whose behaviour, as far as the
other tasks can see it, is a sequence of IPC calls. A `Pc` is a place in such a program between or
in two calls, together with the local variables that matter: the message received at the top of the
main loop, and the request of the exchange under way. Each program is a relation that says which
call may be made at a place, and at which place the program is while it is in the call.

A program goes on when its call ends with 0: `Pc.sent` after a send, `Pc.got` after a receive, with
the message then in its buffer. What ends is observed at the machine, as in the ledger.

## The whole system

A state of `Services` is a machine with the places of all tasks. Its steps are those of the machine
in which the running task follows its program; between the calls it may execute any code that spares
the frames of the other tasks, be interrupted by the timer, and make calls that are not IPC. The log
of requests and replies is only written, never read.

## What is left out

What the programs compute between two calls: how many exchanges an `ls` or a `cat` takes, and what
the requests and the replies say apart from their types. All are left open.
-/

open ByteMemory

namespace RelizOS

/-! ## Tasks and messages -/

/-- The slot of `task_shell`. -/
def shell : Fin 8 := ⟨0, by decide⟩

/-- The slot of `task_fs_server`. -/
def fsServer : Fin 8 := ⟨1, by decide⟩

/-- The slot of `task_ata_server`. -/
def ataServer : Fin 8 := ⟨2, by decide⟩

/-- `MSG_FS_LIST` or `MSG_FS_READ`. -/
def Message.IsFsRequest (msg : Message) : Prop := msg.msgType = 10 ∨ msg.msgType = 11

/-- `MSG_ATA_READ`. -/
def Message.IsAtaRequest (msg : Message) : Prop := msg.msgType = 1

/-- `MSG_KEY_EVENT`. -/
def Message.IsKeyEvent (msg : Message) : Prop := msg.msgType = 20

/-! ## Places in a program -/

/-- A place in a program. -/
inductive Pc where
  /-- At the top of the main loop. -/
  | top
  /-- In the receive at the top of the main loop. -/
  | listening
  /-- Working on the message received there. -/
  | free (job : Message)
  /-- In the send of a request to a server. -/
  | asking (job : Message) (server : Fin 8) (request : Message)
  /-- Between that send and the receive of the reply. -/
  | asked (job : Message) (server : Fin 8) (request : Message)
  /-- In the receive of the reply. -/
  | awaiting (job : Message) (server : Fin 8) (request : Message)
  /-- In the send of a reply to the job. -/
  | replying (job reply : Message)
  /-- In the send of an event to the shell. -/
  | notifying (event : Message)
  deriving DecidableEq

namespace Pc

/-- After a send has ended. -/
def sent : Pc → Pc
  | .asking job server request => .asked job server request
  | .replying _ _ | .notifying _ => .top
  | .top => .top
  | .listening => .listening
  | .free job => .free job
  | .asked job server request => .asked job server request
  | .awaiting job server request => .awaiting job server request

/-- After a receive has ended with a message. -/
def got (msg : Message) : Pc → Pc
  | .listening => .free msg
  | .awaiting job _ _ => .free job
  | .top => .top
  | .free job => .free job
  | .asking job server request => .asking job server request
  | .asked job server request => .asked job server request
  | .replying job reply => .replying job reply
  | .notifying event => .notifying event

/-- Inside an exchange with a server. -/
def InExchange : Pc → Prop
  | .asking _ _ _ | .asked _ _ _ | .awaiting _ _ _ => True
  | .top | .listening | .free _ | .replying _ _ | .notifying _ => False

end Pc

/-! ## The programs -/

/-- A call of the IPC. The message of a send has the sender the kernel will fill in. -/
inductive IpcAction where
  | send (destId : ℕ) (msg : Message)
  | recv (srcFilter : ℕ)

/-- `task_shell`: receive a key from any task; then, if it is one, any number of exchanges with the
file system server and the ATA server. -/
inductive TaskShell : Pc → IpcAction → Pc → Prop
  | recv : TaskShell .top (.recv 0) .listening
  | next {job : Message} : TaskShell (.free job) (.recv 0) .listening
  | askFs {job request : Message} (hjob : job.IsKeyEvent) (hrequest : request.IsFsRequest) :
      TaskShell (.free job) (.send 2 request) (.asking job fsServer request)
  | awaitFs {job request : Message} :
      TaskShell (.asked job fsServer request) (.recv 2) (.awaiting job fsServer request)
  | askAta {job request : Message} (hjob : job.IsKeyEvent) (hrequest : request.IsAtaRequest) :
      TaskShell (.free job) (.send 3 request) (.asking job ataServer request)
  | awaitAta {job request : Message} :
      TaskShell (.asked job ataServer request) (.recv 3) (.awaiting job ataServer request)

/-- `task_fs_server`: receive a request from any task, make any number of exchanges with the ATA
server (`fs_read_sector`), and reply to the sender. Other messages are not replied to. -/
inductive TaskFsServer : Pc → IpcAction → Pc → Prop
  | recv : TaskFsServer .top (.recv 0) .listening
  | next {job : Message} (hjob : ¬job.IsFsRequest) : TaskFsServer (.free job) (.recv 0) .listening
  | ask {job request : Message} (hjob : job.IsFsRequest) (hrequest : request.IsAtaRequest) :
      TaskFsServer (.free job) (.send 3 request) (.asking job ataServer request)
  | await {job request : Message} :
      TaskFsServer (.asked job ataServer request) (.recv 3) (.awaiting job ataServer request)
  | reply {job reply : Message} (hjob : job.IsFsRequest) :
      TaskFsServer (.free job) (.send job.sender.toNat reply) (.replying job reply)

/-- `task_ata_server`: receive a request from any task and reply to the sender. -/
inductive TaskAtaServer : Pc → IpcAction → Pc → Prop
  | recv : TaskAtaServer .top (.recv 0) .listening
  | next {job : Message} (hjob : ¬job.IsAtaRequest) : TaskAtaServer (.free job) (.recv 0) .listening
  | reply {job reply : Message} (hjob : job.IsAtaRequest) :
      TaskAtaServer (.free job) (.send job.sender.toNat reply) (.replying job reply)

/-- The environment: send key events to the shell. -/
inductive Environment : Pc → IpcAction → Pc → Prop
  | key {event : Message} (hevent : event.IsKeyEvent) :
      Environment .top (.send 1 event) (.notifying event)

/-- The program of each task. -/
def Program (i : Fin 8) : Pc → IpcAction → Pc → Prop :=
  if i = shell then TaskShell
  else if i = fsServer then TaskFsServer
  else if i = ataServer then TaskAtaServer
  else Environment

/-- The running task, at place `pc`, may do what happens; it is then at place `pc'`. -/
def Machine.Follows (m : Machine) (pc : Pc) : Event → Pc → Prop
  | .user _ _, pc' | .tick, pc' => pc' = pc
  | .syscall, pc' =>
    match (m.regs .rax).toNat with
    | 3 => Program m.cur pc (.send (m.regs .rdi).toNat
        ((readMessage m.kernel.mem (m.regs .rsi).toNat).stampedBy m.cur)) pc'
    | 4 => Program m.cur pc (.recv (m.regs .rdi).toNat) pc'
    | 14 => False
    | _ => pc' = pc

/-! ## The log -/

/-- What is logged. -/
inductive ServiceEvent where
  /-- A client sends a request to a server. -/
  | asked (client server : Fin 8) (request : Message)
  /-- A server sends a reply to a request. -/
  | replied (server : Fin 8) (request reply : Message)
  /-- A client, whose latest request to the server is `request`, receives a reply. -/
  | answered (client server : Fin 8) (request reply : Message)

/-- What a task logs when it begins a send. -/
def Pc.begins (i : Fin 8) : Pc → List ServiceEvent
  | .asking _ server request => [.asked i server request]
  | .replying job reply => [.replied i job reply]
  | .top | .listening | .free _ | .asked _ _ _ | .awaiting _ _ _ | .notifying _ => []

/-- What a task logs when a receive ends. -/
def Pc.answers (i : Fin 8) (msg : Message) : Pc → List ServiceEvent
  | .awaiting _ server request => [.answered i server request msg]
  | .top | .listening | .free _ | .asking _ _ _ | .asked _ _ _ | .replying _ _ | .notifying _ => []

/-- The requests of a client to a server. -/
def askedOf (log : List ServiceEvent) (client server : Fin 8) : List Message :=
  log.filterMap fun
    | .asked c s request => if c = client ∧ s = server then some request else none
    | .replied _ _ _ | .answered _ _ _ _ => none

/-- The replies of a server to a client, with the requests they reply to. -/
def repliedOf (log : List ServiceEvent) (server client : Fin 8) : List (Message × Message) :=
  log.filterMap fun
    | .replied s request reply =>
      if s = server ∧ request.sender = UInt64.ofNat (client + 1) then some (request, reply)
      else none
    | .asked _ _ _ | .answered _ _ _ _ => none

/-- The replies a client has received from a server, with its latest requests at that time. -/
def answeredOf (log : List ServiceEvent) (client server : Fin 8) : List (Message × Message) :=
  log.filterMap fun
    | .answered c s request reply =>
      if c = client ∧ s = server then some (request, reply) else none
    | .asked _ _ _ | .replied _ _ _ => none

/-! ## The whole system -/

/-- The programs go on where their calls have ended. -/
def Ledger.advance (g : Ledger) (pc : Fin 8 → Pc) (i : Fin 8) : Pc :=
  if g.completed.any fun c ↦ c.1 = i then (pc i).sent
  else
    match g.received.find? fun r ↦ r.dst = i with
    | some r => (pc i).got r.msg
    | none => pc i

/-- What the programs log when their receives end. -/
def Ledger.answers (g : Ledger) (pc : Fin 8 → Pc) : List ServiceEvent :=
  g.received.flatMap fun r ↦ (pc r.dst).answers r.dst r.msg

/-- A machine that runs the programs in its first slots, and the environment in the others. -/
structure Services where
  machine : Machine
  /-- Where each task is. -/
  pc : Fin 8 → Pc
  /-- The requests and replies so far. -/
  log : List ServiceEvent

/-- A step of the machine that follows the programs. -/
def Services.Step (σ : Services) (e : Event) (σ' : Services) : Prop :=
  σ.machine.Step e σ'.machine ∧ σ.machine.SparesFrames e ∧
  ∃ pc', σ.machine.Follows (σ.pc σ.machine.cur) e pc' ∧
    σ'.pc = (σ.machine.observe e σ'.machine).advance
      (Function.update σ.pc σ.machine.cur pc') ∧
    σ'.log = σ.log ++ pc'.begins σ.machine.cur ++
      (σ.machine.observe e σ'.machine).answers (Function.update σ.pc σ.machine.cur pc')

end RelizOS
