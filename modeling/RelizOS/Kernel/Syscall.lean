import RelizOS.Kernel.Task

/-!
# System calls and the timer interrupt

`handle_syscall` and `handle_timer_interrupt` receive the address of the register frame the assembly
has pushed and return the address of the frame to be popped. Slot 14 of a frame is the saved `rax`;
that is where a system call leaves its result, possibly in the frame of another task.

## What is left out

What the calls show on the screen: `print`, the demo and the blit (1, 11, 12) are modelled by the
result they leave, and the frame buffer is not part of the memory. Port writes of the reboot call
(9) have no effect on the state; the shutdown call (10) does not return.
-/

open ByteMemory

namespace RelizOS

/-- The screen data system call 8 reports. -/
structure GopInfo where
  width : UInt64
  height : UInt64
  stride : UInt64
  bytesPerPixel : UInt64
  deriving DecidableEq, Repr

/-- The state the kernel works on between two instructions of user code. -/
structure Kernel where
  /-- `SCHEDULER`. -/
  sched : Scheduler
  /-- Memory. -/
  mem : Mem
  /-- `CURRENT_KERNEL_STACK`, where a system call switches to. -/
  currentKernelStack : ℕ
  /-- `TSS.rsp0`, where an interrupt switches to. -/
  tssRsp0 : ℕ
  /-- `TIMER_TICKS`. -/
  timerTicks : ℕ
  /-- `USED_MEMORY` of the heap allocator. -/
  usedMemory : UInt64
  /-- The screen, if there is one. -/
  gopInfo : Option GopInfo

/-! ## Task information

The text of system call 6, assembled in a buffer of 512 bytes from pieces, numbers in decimal from a
buffer of ten digits. -/

/-- The loop that writes the digits of `value` in front of those already written; `idx` is the
position of the first digit in the buffer. -/
def digitLoop : ℕ → ℕ → ℕ → List UInt8 → Checked (List UInt8)
  | 0, _, _, _ => .error .diverges
  | fuel + 1, value, idx, digits =>
    if value > 0 then do
      let idx ← Checked.sub idx 1
      digitLoop fuel (value / 10) idx (UInt8.ofNat (48 + value % 10) :: digits)
    else .ok digits

/-- The digits of a 64-bit number in the ten-digit buffer, none for zero. -/
def digits (value : ℕ) : Checked (List UInt8) := digitLoop 21 value 10 []

/-- The bytes of a text. -/
def bytesOf (text : String) : List UInt8 := text.toUTF8.toList

/-- The pieces that describe the state of a task. -/
def TaskState.pieces : TaskState → Checked (List (List UInt8))
  | .ready => .ok [bytesOf "Ready"]
  | .running => .ok [bytesOf "Running"]
  | .sending destId _ => do return [bytesOf "Sending to ", ← digits destId]
  | .receiving (some src) _ => do return [bytesOf "Receiving from ", ← digits src]
  | .receiving none _ => .ok [bytesOf "Receiving from ANY"]

/-- The pieces that describe a task. -/
def Task.pieces (t : Task) : Checked (List (List UInt8)) := do
  let id ← if t.id = 0 then .ok (bytesOf "0") else digits t.id
  let state ← t.state.pieces
  return [bytesOf "Task ", id, bytesOf ": "] ++ state ++ [bytesOf "\n"]

/-- Append a piece to the buffer, as far as it fits. -/
def appendPiece (info piece : List UInt8) : List UInt8 := info ++ piece.take (512 - info.length)

/-- The text that describes the tasks. -/
def Scheduler.infoText (s : Scheduler) : Checked (List UInt8) := do
  let pieces ← ((List.finRange 8).filterMap s.tasks).mapM Task.pieces
  return pieces.flatten.foldl appendPiece []

/-! ## Who may meet whom -/

/-- `if let Receiving`, with the source test: the buffer of a task that is receiving from the
sender or from any. -/
def TaskState.bufferFor (state : TaskState) (senderId : ℕ) : Option ℕ :=
  match state with
  | .receiving srcId bufferPtr =>
    if srcId = none ∨ srcId = some senderId then some bufferPtr else none
  | _ => none

/-- The task is blocked sending to the receiver, and the receiver's filter admits it. -/
def Task.SendsTo (t : Task) (receiverId : ℕ) (srcId : Option ℕ) : Prop :=
  match t.state with
  | .sending destId _ => destId = receiverId ∧ (srcId = none ∨ srcId = some t.id)
  | _ => False

instance (t : Task) (receiverId : ℕ) (srcId : Option ℕ) : Decidable (t.SendsTo receiverId srcId) :=
  match h : t.state with
  | .sending destId _ =>
    decidable_of_iff (destId = receiverId ∧ (srcId = none ∨ srcId = some t.id))
      (by rw [Task.SendsTo, h])
  | .ready | .running | .receiving _ _ => isFalse (by rw [Task.SendsTo, h]; exact id)

/-- The search of `sys_recv`, over the slots with their indices. -/
def Scheduler.recvSearch (s : Scheduler) (receiverId : ℕ) (srcId : Option ℕ) : Option (Fin 8) :=
  ((List.finRange 8).map fun i ↦ (i, s.tasks i)).findSome? fun (idx, slot) ↦
    match slot with
    | some task => if task.SendsTo receiverId srcId then some idx else none
    | none => none

/-- The search of `sys_try_recv`, over the indices. -/
def Scheduler.tryRecvSearch (s : Scheduler) (receiverId : ℕ) (srcId : Option ℕ) :
    Option (Fin 8) :=
  (List.finRange 8).find? fun idx ↦
    match s.tasks idx with
    | some task => decide (task.SendsTo receiverId srcId)
    | none => false

/-- The filter of a receive: 0 admits every source. -/
def srcIdOption (srcFilter : ℕ) : Option ℕ := if srcFilter = 0 then none else some srcFilter

namespace Kernel

/-! ## Switching tasks -/

/-- Write the `rax` slot of the frame at `rsp`. -/
def setRax (k : Kernel) (rsp : ℕ) (value : UInt64) : Kernel :=
  { k with mem := writeU64 k.mem (rsp + 8 * 14) value }

/-- Save the stack pointer of the current task, select the next task, take its stack pointer and
make its kernel stack the current one. -/
def switchTask (k : Kernel) (rsp : ℕ) : Checked (ℕ × Kernel) := do
  let sched ← (k.sched.saveCurrentRsp rsp).selectNextTask
  let newRsp ← sched.getCurrentRsp
  match sched.currentTask with
  | some task =>
    virtAddrNew task.kernelStackTop
    return (newRsp, { k with
      sched := sched
      tssRsp0 := task.kernelStackTop
      currentKernelStack := task.kernelStackTop })
  | none => return (newRsp, { k with sched := sched })

/-- Block the current task in a state and switch to the next one. -/
def block (k : Kernel) (state : TaskState) (currentRsp : ℕ) : Checked (ℕ × Kernel) := do
  let _ ← Checked.unwrap k.sched.currentTask
  switchTask { k with sched := k.sched.setState k.sched.currentTaskIdx state } currentRsp

/-! ## IPC -/

/-- Send a message to a task, and block until it has been received. -/
def sysSend (k : Kernel) (destId msgPtr currentRsp : ℕ) : Checked (ℕ × Kernel) := do
  let senderId := k.sched.currentTaskIdx.val + 1
  let msg := { readMessage k.mem msgPtr with sender := UInt64.ofNat senderId }
  let destIdx ← Checked.sub destId 1
  if h : destIdx < 8 then
    match k.sched.tasks ⟨destIdx, h⟩ with
    | none => return (currentRsp, k.setRax currentRsp (-1))
    | some destTask =>
      match destTask.state.bufferFor senderId with
      | some bufferPtr =>
        let k := { k with mem := writeMessage k.mem bufferPtr msg }
        let k := k.setRax destTask.rsp 0
        let k := { k with sched := k.sched.setState ⟨destIdx, h⟩ .ready }
        return (currentRsp, k.setRax currentRsp 0)
      | none => k.block (.sending destId msg) currentRsp
  else
    return (currentRsp, k.setRax currentRsp (-1))

/-- Take the message of a blocked sender and release it; nothing if the slot is not sending. -/
def takeMessage (k : Kernel) (senderIdx : Fin 8) (msgPtr currentRsp : ℕ) :
    Checked (Option Kernel) := do
  let senderTask ← Checked.unwrap (k.sched.tasks senderIdx)
  match senderTask.state with
  | .sending _ msg =>
    let k := { k with mem := writeMessage k.mem msgPtr msg }
    let k := k.setRax senderTask.rsp 0
    let k := { k with sched := k.sched.setState senderIdx .ready }
    return some (k.setRax currentRsp 0)
  | _ => return none

/-- Receive a message from a source, or from any, and block until there is one. -/
def sysRecv (k : Kernel) (srcFilter msgPtr currentRsp : ℕ) : Checked (ℕ × Kernel) := do
  let currentId := k.sched.currentTaskIdx.val + 1
  let srcId := srcIdOption srcFilter
  match k.sched.recvSearch currentId srcId with
  | some senderIdx =>
    match ← k.takeMessage senderIdx msgPtr currentRsp with
    | some k => return (currentRsp, k)
    | none => k.block (.receiving srcId msgPtr) currentRsp
  | none => k.block (.receiving srcId msgPtr) currentRsp

/-- Receive a message if one is waiting. -/
def sysTryRecv (k : Kernel) (srcFilter msgPtr currentRsp : ℕ) : Checked (ℕ × Kernel) := do
  let currentId := k.sched.currentTaskIdx.val + 1
  let srcId := srcIdOption srcFilter
  match k.sched.tryRecvSearch currentId srcId with
  | some senderIdx =>
    match ← k.takeMessage senderIdx msgPtr currentRsp with
    | some k => return (currentRsp, k)
    | none => return (currentRsp, k.setRax currentRsp (-1))
  | none => return (currentRsp, k.setRax currentRsp (-1))

/-! ## The dispatchers -/

/-- The system calls, by the number in `rax`. -/
def handleSyscall (k : Kernel) (rax rdi rsi : UInt64) (currentRsp : ℕ) : Checked (ℕ × Kernel) :=
  match rax.toNat with
  | 1 => return (currentRsp, k.setRax currentRsp 0)
  | 2 => do
    let (newRsp, k) ← k.switchTask currentRsp
    return (newRsp, k.setRax currentRsp 0)
  | 3 => k.sysSend rdi.toNat rsi.toNat currentRsp
  | 4 => k.sysRecv rdi.toNat rsi.toNat currentRsp
  | 5 => return (currentRsp, k.setRax currentRsp k.usedMemory)
  | 6 => do
    let info ← k.sched.infoText
    let k := { k with mem := writeBytes k.mem rdi.toNat (info.take rsi.toNat) }
    return (currentRsp, k.setRax currentRsp (UInt64.ofNat info.length))
  | 7 => return (currentRsp, k.setRax currentRsp (UInt64.ofNat k.timerTicks))
  | 8 =>
    match k.gopInfo with
    | some info =>
      let k := { k with
        mem := writeWords k.mem rdi.toNat
          [info.width, info.height, info.stride, info.bytesPerPixel] }
      return (currentRsp, k.setRax currentRsp 0)
    | none => return (currentRsp, k.setRax currentRsp (-1))
  | 9 => return (currentRsp, k)
  | 10 => .error .diverges
  | 11 => return (currentRsp, k.setRax currentRsp 0)
  | 12 => return (currentRsp, k.setRax currentRsp 0)
  | 14 => k.sysTryRecv rdi.toNat rsi.toNat currentRsp
  | _ => return (currentRsp, k.setRax currentRsp (-1))

/-- The timer interrupt. -/
def handleTimerInterrupt (k : Kernel) (oldRsp : ℕ) : Checked (ℕ × Kernel) := do
  let timerTicks ← Checked.add 64 k.timerTicks 1
  switchTask { k with timerTicks := timerTicks } oldRsp

end Kernel

end RelizOS
