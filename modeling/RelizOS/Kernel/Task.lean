import RelizOS.Library.Checked
import RelizOS.Library.ByteMemory
import RelizOS.Paging.PageTable

/-!
# Tasks and the round-robin scheduler

A task is an id, a saved stack pointer, the top of its kernel stack and a state. The scheduler has
eight slots and the index of the current one; `select_next_task` moves the index to the next
runnable slot in cyclic order and leaves it where it is when there is none.

`selectNextTask_spec` is the one lemma about that loop: it always ends, and either it has found the
first runnable slot after the current one, or no other slot is runnable.

## What is left out

`Task::new`, for tasks in ring 0, is not used by the kernel. The mutex around the scheduler is never
contended: every use runs with interrupts off and releases it before returning.
-/

open ByteMemory

namespace RelizOS

/-! ## Messages -/

/-- A message of the synchronous IPC, 48 bytes. -/
structure Message where
  /-- The id of the task that sent it. -/
  sender : UInt64
  /-- What it is about. -/
  msgType : UInt64
  arg1 : UInt64
  arg2 : UInt64
  arg3 : UInt64
  arg4 : UInt64
  deriving DecidableEq, Repr

/-- `ptr::read` of a message. -/
def readMessage (m : Mem) (ptr : ℕ) : Message where
  sender := readU64 m ptr
  msgType := readU64 m (ptr + 8)
  arg1 := readU64 m (ptr + 16)
  arg2 := readU64 m (ptr + 24)
  arg3 := readU64 m (ptr + 32)
  arg4 := readU64 m (ptr + 40)

/-- The six words of a message, in memory order. -/
def Message.words (msg : Message) : List UInt64 :=
  [msg.sender, msg.msgType, msg.arg1, msg.arg2, msg.arg3, msg.arg4]

/-- `ptr::write` of a message. -/
def writeMessage (m : Mem) (ptr : ℕ) (msg : Message) : Mem := writeWords m ptr msg.words

theorem readMessage_congr {m m' : Mem} {ptr : ℕ} (h : AgreeOn m m' ptr 48) :
    readMessage m ptr = readMessage m' ptr := by
  have hword : ∀ k, k + 8 ≤ 48 → readU64 m (ptr + k) = readU64 m' (ptr + k) :=
    fun k hk ↦ readU64_congr (h.mono (by omega) (by omega))
  have hsender : readU64 m ptr = readU64 m' ptr := hword 0 (by omega)
  rw [readMessage, readMessage, hsender, hword 8 (by omega), hword 16 (by omega),
    hword 24 (by omega), hword 32 (by omega), hword 40 (by omega)]

theorem agreeOn_writeMessage {m : Mem} {ptr a n : ℕ} {msg : Message}
    (h : a + n ≤ ptr ∨ ptr + 48 ≤ a) : AgreeOn (writeMessage m ptr msg) m a n :=
  agreeOn_writeWords h

@[simp] theorem readMessage_writeMessage (m : Mem) (ptr : ℕ) (msg : Message) :
    readMessage (writeMessage m ptr msg) ptr = msg := by
  have hword : ∀ i w, msg.words[i]? = some w →
      readU64 (writeMessage m ptr msg) (ptr + 8 * i) = w := fun i w hw ↦ readU64_writeWords hw
  have hsender : readU64 (writeMessage m ptr msg) ptr = msg.sender := hword 0 _ rfl
  rw [readMessage, hsender, hword 1 _ rfl, hword 2 _ rfl, hword 3 _ rfl, hword 4 _ rfl,
    hword 5 _ rfl]

/-! ## Tasks -/

/-- The state of a task. -/
inductive TaskState where
  | ready
  | running
  /-- Blocked until the destination receives the message. -/
  | sending (destId : ℕ) (msg : Message)
  /-- Blocked until a message arrives, from the given source or from any. -/
  | receiving (srcId : Option ℕ) (bufferPtr : ℕ)
  deriving DecidableEq, Repr

/-- The thread control block. -/
structure Task where
  /-- The task's id. -/
  id : ℕ
  /-- The saved stack pointer. -/
  rsp : ℕ
  /-- The top of the kernel stack. -/
  kernelStackTop : ℕ
  /-- The state. -/
  state : TaskState
  deriving DecidableEq, Repr

/-- A task in this state may run. -/
def TaskState.IsRunnable (s : TaskState) : Prop := s = .ready ∨ s = .running

instance (s : TaskState) : Decidable s.IsRunnable := inferInstanceAs (Decidable (_ ∨ _))

theorem TaskState.not_isRunnable_sending {destId : ℕ} {msg : Message} :
    ¬(TaskState.sending destId msg).IsRunnable := by
  rintro (h | h) <;> cases h

theorem TaskState.not_isRunnable_receiving {srcId : Option ℕ} {buf : ℕ} :
    ¬(TaskState.receiving srcId buf).IsRunnable := by
  rintro (h | h) <;> cases h

/-- The task may run. -/
def Task.IsRunnable (t : Task) : Prop := t.state.IsRunnable

instance (t : Task) : Decidable t.IsRunnable := inferInstanceAs (Decidable (_ ∨ _))

/-- A stack as `new_user` receives it, a mutable slice of bytes. -/
structure StackSlice where
  /-- The first address. -/
  ptr : ℕ
  /-- The number of bytes. -/
  len : ℕ
  deriving DecidableEq, Repr

/-- The words of an `InitialInterruptStackFrame`: fifteen general-purpose registers, `r15` first,
then `rip`, `cs`, `rflags`, `rsp` and `ss`. -/
def initialInterruptStackFrame (rip cs rflags rsp ss : UInt64) : List UInt64 :=
  List.replicate 15 0 ++ [rip, cs, rflags, rsp, ss]

/-- The top of a stack, aligned to 16 bytes. -/
def alignedTop (stack : StackSlice) : Checked ℕ := do
  return (← Checked.add 64 stack.ptr stack.len) &&& Checked.not64 0xF

/-- `Task::new_user`: write the initial frame for ring 3 at the top of the kernel stack. -/
def Task.newUser (m : Mem) (id : ℕ) (entryPoint : UInt64) (userStack kernelStack : StackSlice)
    (allowIo : Bool) : Checked (Task × Mem) := do
  let userAlignedTop ← alignedTop userStack
  let kernelAlignedTop ← alignedTop kernelStack
  let framePtr ← Checked.sub kernelAlignedTop 160
  let rflags : UInt64 := if allowIo then 0x3202 else 0x202
  return ({ id := id, rsp := framePtr, kernelStackTop := kernelAlignedTop, state := .ready },
    writeWords m framePtr
      (initialInterruptStackFrame entryPoint 0x23 rflags (UInt64.ofNat userAlignedTop) 0x1B))

/-! ## The scheduler -/

/-- The scheduler: eight slots, the current one, and the stack pointer of the boot thread. -/
structure Scheduler where
  /-- The slots. -/
  tasks : Fin 8 → Option Task
  /-- The index of the current slot. -/
  currentTaskIdx : Fin 8
  /-- The saved stack pointer of the boot thread. -/
  mainTaskRsp : ℕ

namespace Scheduler

/-- The slot of the first task. -/
def firstSlot : Fin 8 := 0

/-- No tasks. -/
def new : Scheduler := ⟨fun _ ↦ none, firstSlot, 0⟩

/-- Add a task in the first free slot. -/
def spawn (s : Scheduler) (task : Task) : Except String Scheduler :=
  match (List.finRange 8).find? fun i ↦ (s.tasks i).isNone with
  | some slot => .ok { s with tasks := Function.update s.tasks slot (some task) }
  | none => .error "No free task slots"

/-- The slot holds a runnable task. -/
def RunnableAt (s : Scheduler) (i : Fin 8) : Prop := ∃ t, s.tasks i = some t ∧ t.IsRunnable

instance (s : Scheduler) (i : Fin 8) : Decidable (s.RunnableAt i) :=
  match h : s.tasks i with
  | none => isFalse fun ⟨_, ht, _⟩ ↦ by simp [h] at ht
  | some t => decidable_of_iff t.IsRunnable
      ⟨fun ht ↦ ⟨t, h, ht⟩, fun ⟨_, ht', hr⟩ ↦ by rw [h] at ht'; exact Option.some.inj ht' ▸ hr⟩

/-- Save the stack pointer of the running task. -/
def saveCurrentRsp (s : Scheduler) (rsp : ℕ) : Scheduler :=
  if s.currentTaskIdx = 0 ∧ s.tasks 0 = none then { s with mainTaskRsp := rsp }
  else
    match s.tasks s.currentTaskIdx with
    | some task =>
      { s with tasks := Function.update s.tasks s.currentTaskIdx (some { task with rsp := rsp }) }
    | none => s

/-- The loop of `select_next_task`, with a bound on its iterations. -/
def selectLoop (s : Scheduler) : ℕ → Fin 8 → Checked (Fin 8)
  | 0, _ => .error .diverges
  | fuel + 1, nextIdx =>
    if nextIdx = s.currentTaskIdx then .ok s.currentTaskIdx
    else if s.RunnableAt nextIdx then .ok nextIdx
    else selectLoop s fuel (nextIdx + 1)

/-- Move on to the next runnable task. -/
def selectNextTask (s : Scheduler) : Checked Scheduler := do
  return { s with currentTaskIdx := ← s.selectLoop 8 (s.currentTaskIdx + 1) }

/-- The saved stack pointer of the current task. -/
def getCurrentRsp (s : Scheduler) : Checked ℕ :=
  if s.currentTaskIdx = 0 ∧ s.tasks 0 = none then .ok s.mainTaskRsp
  else do return (← Checked.unwrap (s.tasks s.currentTaskIdx)).rsp

/-- The current task. -/
def currentTask (s : Scheduler) : Option Task := s.tasks s.currentTaskIdx

/-- The scheduler with another state for one task. -/
def setState (s : Scheduler) (i : Fin 8) (state : TaskState) : Scheduler :=
  { s with tasks := Function.update s.tasks i ((s.tasks i).map ({ · with state := state })) }

/-! ## What the scheduler functions do -/

variable {s : Scheduler} {i j : Fin 8} {t : Task}

theorem runnableAt_iff (h : s.tasks i = some t) : s.RunnableAt i ↔ t.IsRunnable :=
  ⟨fun ⟨_, ht, hr⟩ ↦ Option.some.inj (h.symm.trans ht) ▸ hr, fun hr ↦ ⟨t, h, hr⟩⟩

/-- The scheduler with another task in the current slot. -/
def putCurrent (s : Scheduler) (t : Task) : Scheduler :=
  { s with tasks := Function.update s.tasks s.currentTaskIdx (some t) }

@[simp] theorem putCurrent_tasks_self : (s.putCurrent t).tasks s.currentTaskIdx = some t :=
  Function.update_self _ _ _

theorem putCurrent_tasks_of_ne (h : i ≠ s.currentTaskIdx) :
    (s.putCurrent t).tasks i = s.tasks i := Function.update_of_ne h _ _

@[simp] theorem putCurrent_putCurrent {t' : Task} :
    (s.putCurrent t).putCurrent t' = s.putCurrent t' := by
  rw [putCurrent, putCurrent, putCurrent, Function.update_idem]

theorem setState_current (h : s.tasks s.currentTaskIdx = some t) (state : TaskState) :
    s.setState s.currentTaskIdx state = s.putCurrent { t with state := state } := by
  rw [setState, putCurrent, h]
  rfl

theorem saveCurrentRsp_eq (h : s.tasks s.currentTaskIdx = some t) (rsp : ℕ) :
    s.saveCurrentRsp rsp = s.putCurrent { t with rsp := rsp } := by
  have hboot : ¬(s.currentTaskIdx = 0 ∧ s.tasks 0 = none) := by
    rintro ⟨h0, hnone⟩
    rw [h0, hnone] at h
    cases h
  rw [saveCurrentRsp, if_neg hboot, h, putCurrent]

theorem getCurrentRsp_eq (h : s.tasks s.currentTaskIdx = some t) :
    s.getCurrentRsp = .ok t.rsp := by
  have hboot : ¬(s.currentTaskIdx = 0 ∧ s.tasks 0 = none) := by
    rintro ⟨h0, hnone⟩
    rw [h0, hnone] at h
    cases h
  rw [getCurrentRsp, if_neg hboot, h]
  rfl

/-- The slot `k` places after the current one, cyclically. -/
def slotAfter (s : Scheduler) (k : ℕ) : Fin 8 :=
  ⟨(s.currentTaskIdx + k) % 8, Nat.mod_lt _ (by decide)⟩

/-- Where `select_next_task` moves to: the first runnable slot after the current one, or the current
one when no other slot is runnable. -/
def Selects (s : Scheduler) (j : Fin 8) : Prop :=
  (∃ i, 1 ≤ i ∧ i < 8 ∧ j = s.slotAfter i ∧ s.RunnableAt j ∧
    ∀ k, 1 ≤ k → k < i → ¬s.RunnableAt (s.slotAfter k)) ∨
  j = s.currentTaskIdx ∧ ∀ k, 1 ≤ k → k < 8 → ¬s.RunnableAt (s.slotAfter k)

private theorem slotAfter_ne {k : ℕ} (h1 : 1 ≤ k) (h8 : k < 8) :
    s.slotAfter k ≠ s.currentTaskIdx := by
  intro h
  have hval := congrArg Fin.val h
  have hlt := s.currentTaskIdx.isLt
  dsimp only [slotAfter] at hval
  omega

private theorem exists_slotAfter (h : i ≠ s.currentTaskIdx) :
    ∃ k, 1 ≤ k ∧ k < 8 ∧ s.slotAfter k = i := by
  have hi := i.isLt
  have hlt := s.currentTaskIdx.isLt
  have hne : i.val ≠ s.currentTaskIdx.val := fun heq ↦ h (Fin.ext heq)
  refine ⟨(i.val + 8 - s.currentTaskIdx) % 8, by omega, by omega, Fin.ext ?_⟩
  dsimp only [slotAfter]
  omega

/-- From `k` places after the current slot the loop finds the first runnable one, or comes around.
The fuel is what is left of one round. -/
private theorem selectLoop_spec (s : Scheduler) {fuel k : ℕ} (hfuel : k + fuel = 9) (h1 : 1 ≤ k)
    (h8 : k ≤ 8) (hskip : ∀ l, 1 ≤ l → l < k → ¬s.RunnableAt (s.slotAfter l)) :
    ∃ j, s.selectLoop fuel (s.slotAfter k) = .ok j ∧ s.Selects j := by
  induction fuel generalizing k with
  | zero => omega
  | succ fuel ih =>
    rw [selectLoop]
    -- the loop is back where it began only after a whole round, that is after eight places
    by_cases hback : s.slotAfter k = s.currentTaskIdx
    · have hk : k = 8 := by
        by_contra hne
        exact slotAfter_ne h1 (by omega) hback
      rw [if_pos hback]
      exact ⟨_, rfl, Or.inr ⟨rfl, hk ▸ hskip⟩⟩
    · have hk : k < 8 := by
        refine lt_of_le_of_ne h8 fun heq ↦ hback (Fin.ext ?_)
        have hlt := s.currentTaskIdx.isLt
        dsimp only [slotAfter]
        omega
      rw [if_neg hback]
      by_cases hrun : s.RunnableAt (s.slotAfter k)
      · rw [if_pos hrun]
        exact ⟨_, rfl, Or.inl ⟨k, h1, hk, rfl, hrun, hskip⟩⟩
      · have hnext : s.slotAfter k + 1 = s.slotAfter (k + 1) := by
          refine Fin.ext ?_
          rw [Fin.val_add]
          dsimp only [slotAfter, Fin.val_one]
          omega
        rw [if_neg hrun, hnext]
        refine ih (by omega) (by omega) (by omega) fun l hl hlk ↦ ?_
        rcases Nat.lt_or_eq_of_le (Nat.le_of_lt_succ hlk) with hlt | rfl
        · exact hskip l hl hlt
        · exact hrun

/-- **`select_next_task` ends and goes round robin**: it moves to the first runnable slot after the
current one, stays when no other slot is runnable, and changes nothing else. -/
theorem selectNextTask_spec (s : Scheduler) :
    ∃ j, s.selectNextTask = .ok { s with currentTaskIdx := j } ∧ s.Selects j := by
  have hfirst : s.currentTaskIdx + 1 = s.slotAfter 1 := by
    refine Fin.ext ?_
    rw [Fin.val_add]
    rfl
  obtain ⟨j, hloop, hsel⟩ := s.selectLoop_spec (show 1 + 8 = 9 from rfl) le_rfl (by omega)
    fun l hl hl1 ↦ absurd hl (by omega)
  exact ⟨j, by rw [selectNextTask, hfirst, hloop]; rfl, hsel⟩

/-- With another runnable slot the scheduler moves to a runnable one. -/
theorem Selects.runnableAt_of_other (h : s.Selects j) (hi : s.RunnableAt i)
    (hne : i ≠ s.currentTaskIdx) : s.RunnableAt j := by
  rcases h with ⟨-, -, -, -, hrun, -⟩ | ⟨-, hnone⟩
  · exact hrun
  · obtain ⟨k, h1, h8, rfl⟩ := exists_slotAfter hne
    exact absurd hi (hnone k h1 h8)

theorem Selects.runnableAt_of_current (h : s.Selects j) (hcur : s.RunnableAt s.currentTaskIdx) :
    s.RunnableAt j := by
  rcases h with ⟨-, -, -, -, hrun, -⟩ | ⟨rfl, -⟩
  · exact hrun
  · exact hcur

end Scheduler

end RelizOS
