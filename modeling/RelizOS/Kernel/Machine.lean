import RelizOS.Kernel.Outcome

/-!
# The machine: registers and the two assembly stubs

A system call and a timer interrupt enter the kernel through a stub that pushes all registers on the
current task's kernel stack, calls the dispatcher, takes the stack pointer it returns, and pops all
registers. The pushes are lists of words and the pops a list of registers, in the order of the
source; what lines up with what is proved, in `syscall_cases` and `timer_cases`: the frame a stub
leaves has every register in the slot the pops read it from.

Between two entries the current task executes user code, which changes memory and all registers
except the two segment selectors.

## What is left out

The kernel's own use of the stack below the frame, and the exceptions and device interrupts, which
return to the task they interrupted.
-/

open ByteMemory

namespace RelizOS

/-! ## Registers -/

/-- The registers a frame holds. -/
inductive Reg where
  | r15 | r14 | r13 | r12 | rbp | rbx | r11 | r10 | r9 | r8 | rdi | rsi | rdx | rcx | rax
  | rip | cs | rflags | rsp | ss
  deriving DecidableEq, Repr

/-- The contents of the registers. -/
abbrev RegFile := Reg → UInt64

/-- The order in which the stubs and `iretq` pop the registers. -/
def popOrder : List Reg :=
  [.r15, .r14, .r13, .r12, .rbp, .rbx, .r11, .r10, .r9, .r8, .rdi, .rsi, .rdx, .rcx, .rax,
    .rip, .cs, .rflags, .rsp, .ss]

/-- Pop registers one after another. -/
def popRegs (m : Mem) : List Reg → ℕ → RegFile → RegFile
  | [], _, regs => regs
  | r :: rs, sp, regs => popRegs m rs (sp + 8) (Function.update regs r (readU64 m sp))

/-- The slot of a register in a frame. -/
def Reg.slot (r : Reg) : ℕ := popOrder.idxOf r

/-- The value of a register in the frame at `base`. -/
def frameReg (m : Mem) (base : ℕ) (r : Reg) : UInt64 := readU64 m (base + 8 * r.slot)

theorem Reg.slot_lt (r : Reg) : r.slot < 20 := by cases r <;> decide

theorem Reg.slot_inj {r r' : Reg} (h : r.slot = r'.slot) : r = r' :=
  (List.idxOf_inj (by cases r <;> decide)).mp h

private theorem popRegs_apply (m : Mem) (rs : List Reg) (sp : ℕ) (regs : RegFile) {r : Reg}
    (hnodup : rs.Nodup) (hr : r ∈ rs) :
    popRegs m rs sp regs r = readU64 m (sp + 8 * rs.idxOf r) := by
  have hother : ∀ (rs : List Reg) (sp : ℕ) (regs : RegFile), r ∉ rs →
      popRegs m rs sp regs r = regs r := by
    intro rs
    induction rs with
    | nil => exact fun _ _ _ ↦ rfl
    | cons r' rs ih =>
      intro sp regs hmem
      rw [List.mem_cons, not_or] at hmem
      rw [popRegs, ih _ _ hmem.2, Function.update_of_ne hmem.1]
  induction rs generalizing sp regs with
  | nil => simp at hr
  | cons r' rs ih =>
    rw [List.nodup_cons] at hnodup
    rw [popRegs]
    by_cases heq : r' = r
    · subst heq
      rw [hother rs _ _ hnodup.1, Function.update_self, List.idxOf_cons_self, mul_zero, add_zero]
    · have hmem : r ∈ rs := (List.mem_cons.mp hr).resolve_left (Ne.symm heq)
      rw [ih _ _ hnodup.2 hmem, List.idxOf_cons_ne _ heq]
      congr 1
      omega

/-- **The pops load the frame.** -/
theorem popRegs_popOrder (m : Mem) (base : ℕ) (regs : RegFile) :
    popRegs m popOrder base regs = frameReg m base := by
  funext r
  exact popRegs_apply m popOrder base regs (by decide) (by cases r <;> decide)

theorem frameReg_congr {m m' : Mem} {base : ℕ} (h : AgreeOn m m' base 160) (r : Reg) :
    frameReg m base r = frameReg m' base r := by
  have := r.slot_lt
  exact readU64_congr (h.mono (by omega) (by omega))

/-! ## The stubs -/

/-- A machine in user mode. -/
structure Machine where
  /-- The kernel's data and memory. -/
  kernel : Kernel
  /-- The registers. -/
  regs : RegFile

/-- The registers after the `syscall` instruction: the return address and the flags have been saved
in `rcx` and `r11`. -/
def syscallInstruction (regs : RegFile) : RegFile :=
  Function.update (Function.update regs .rcx (regs .rip)) .r11 (regs .rflags)

/-- The words `syscall_handler` pushes. -/
def syscallPushes (regs : RegFile) : List UInt64 :=
  [0x1B, regs .rsp, regs .r11, 0x23, regs .rcx,
    regs .rax, regs .rcx, regs .rdx, regs .rsi, regs .rdi, regs .r8, regs .r9, regs .r10,
    regs .r11, regs .rbx, regs .rbp, regs .r12, regs .r13, regs .r14, regs .r15]

/-- The words the processor and `timer_interrupt_handler` push. -/
def timerPushes (regs : RegFile) : List UInt64 :=
  [regs .ss, regs .rsp, regs .rflags, regs .cs, regs .rip,
    regs .rax, regs .rcx, regs .rdx, regs .rsi, regs .rdi, regs .r8, regs .r9, regs .r10,
    regs .r11, regs .rbx, regs .rbp, regs .r12, regs .r13, regs .r14, regs .r15]

namespace Machine

/-- The running task. -/
abbrev cur (m : Machine) : Fin 8 := m.kernel.sched.currentTaskIdx

/-- A system call, from the `syscall` instruction to `iretq`. -/
def syscall (m : Machine) : Checked Machine := do
  let regs := syscallInstruction m.regs
  let (mem, sp) := pushWords m.kernel.mem m.kernel.currentKernelStack (syscallPushes regs)
  let (newRsp, k) ←
    { m.kernel with mem := mem }.handleSyscall (regs .rax) (regs .rdi) (regs .rsi) sp
  return ⟨k, popRegs k.mem popOrder newRsp regs⟩

/-- A timer interrupt; the processor aligns the stack before it pushes. -/
def timer (m : Machine) : Checked Machine := do
  let (mem, sp) := pushWords m.kernel.mem (m.kernel.tssRsp0 / 16 * 16) (timerPushes m.regs)
  let (newRsp, k) ← { m.kernel with mem := mem }.handleTimerInterrupt sp
  return ⟨k, popRegs k.mem popOrder newRsp m.regs⟩

end Machine

/-- What can happen to a machine in user mode. -/
inductive Event where
  /-- The task has executed user code. -/
  | user (mem : Mem) (regs : RegFile)
  /-- The task makes a system call. -/
  | syscall
  /-- A timer interrupt. -/
  | tick

/-- The steps of a machine. -/
inductive Machine.Step (m : Machine) : Event → Machine → Prop
  | user {mem : Mem} {regs : RegFile} (hcs : regs .cs = m.regs .cs) (hss : regs .ss = m.regs .ss) :
      Machine.Step m (.user mem regs) ⟨{ m.kernel with mem := mem }, regs⟩
  | syscall {m' : Machine} (h : m.syscall = .ok m') : Machine.Step m .syscall m'
  | tick {m' : Machine} (h : m.timer = .ok m') : Machine.Step m .tick m'

/-! ## The frames the stubs leave -/

/-- A frame has been pushed below `top`: the memory has changed from `m` to `m'`, and each register
has the value `saved` in its slot. -/
structure FramePushed (m m' : Mem) (top : ℕ) (saved : RegFile) : Prop where
  frame : ∀ r, frameReg m' (top - 160) r = saved r
  agree : ∀ a n, (a + n ≤ top - 160 ∨ top ≤ a) → AgreeOn m' m a n

/-- Words in the opposite order of the pops push a frame. -/
private theorem framePushed_pushWords (m : Mem) {top : ℕ} (ws : List UInt64) (saved : RegFile)
    (hws : ws = (popOrder.map saved).reverse) (htop : 160 ≤ top) :
    (pushWords m top ws).2 = top - 160 ∧ FramePushed m (pushWords m top ws).1 top saved := by
  have hlen : 8 * ws.length = 160 := by
    rw [hws, List.length_reverse, List.length_map]
    rfl
  have hsp : (pushWords m top ws).2 = top - 160 := by rw [pushWords_snd, hlen]
  refine ⟨hsp, fun r ↦ ?_, fun a n h ↦ agreeOn_pushWords (by omega) (by rwa [hlen])⟩
  have hget : ws.reverse[r.slot]? = some (saved r) := by
    rw [hws, List.reverse_reverse]
    cases r <;> rfl
  rw [frameReg, ← hsp]
  exact readU64_pushWords (by omega) hget

/-- What a system call saves: the registers as the call found them, except that `rcx` and `r11` have
been overwritten by the `syscall` instruction, and the selectors are those of user mode. -/
def syscallSaved (regs : RegFile) : RegFile
  | .cs => 0x23
  | .ss => 0x1B
  | .rcx => regs .rip
  | .r11 => regs .rflags
  | r => regs r

namespace Machine

variable {m m' : Machine}

theorem syscall_outcome (h : m.syscall = .ok m') :
    ∃ mem rsp newRsp, Kernel.SyscallOutcome { m.kernel with mem := mem }
      (m.regs .rax) (m.regs .rdi) (m.regs .rsi) rsp newRsp m'.kernel := by
  obtain ⟨⟨newRsp, k'⟩, hcall, h⟩ := Checked.bind_eq_ok.mp h
  rw [← Except.ok.inj h]
  exact ⟨_, _, newRsp, Kernel.handleSyscall_cases hcall⟩

theorem timer_outcome (h : m.timer = .ok m') :
    ∃ mem ticks rsp newRsp,
      Kernel.switchTask { m.kernel with mem := mem, timerTicks := ticks } rsp =
        .ok (newRsp, m'.kernel) := by
  obtain ⟨⟨newRsp, k'⟩, hcall, h⟩ := Checked.bind_eq_ok.mp h
  obtain ⟨ticks, -, hcall⟩ := Checked.bind_eq_ok.mp hcall
  rw [← Except.ok.inj h]
  exact ⟨_, ticks, _, newRsp, hcall⟩

/-- **A system call, if it returns**: a frame is pushed, the call is dispatched, and a frame is
loaded. -/
theorem syscall_cases (htop : 160 ≤ m.kernel.currentKernelStack) (h : m.syscall = .ok m') :
    ∃ mem newRsp k',
      FramePushed m.kernel.mem mem m.kernel.currentKernelStack (syscallSaved m.regs) ∧
      Kernel.SyscallOutcome { m.kernel with mem := mem } (m.regs .rax) (m.regs .rdi) (m.regs .rsi)
        (m.kernel.currentKernelStack - 160) newRsp k' ∧
      m' = ⟨k', frameReg k'.mem newRsp⟩ := by
  rw [syscall] at h
  obtain ⟨hsp, hframe⟩ := framePushed_pushWords m.kernel.mem
    (syscallPushes (syscallInstruction m.regs)) (syscallSaved m.regs) rfl htop
  dsimp only at h
  generalize pushWords m.kernel.mem m.kernel.currentKernelStack
    (syscallPushes (syscallInstruction m.regs)) = pushed at h hsp hframe
  obtain ⟨mem, sp⟩ := pushed
  obtain ⟨⟨newRsp, k'⟩, hcall, h⟩ := Checked.bind_eq_ok.mp h
  dsimp only at hsp hcall
  rw [hsp] at hcall
  rw [popRegs_popOrder] at h
  exact ⟨_, newRsp, k', hframe, Kernel.handleSyscall_cases hcall, (Except.ok.inj h).symm⟩

/-- **A timer interrupt, if it returns**: a frame is pushed, the task switched, and a frame
loaded. -/
theorem timer_cases (htop : 160 ≤ m.kernel.tssRsp0) (halign : 16 ∣ m.kernel.tssRsp0)
    (h : m.timer = .ok m') :
    ∃ mem ticks newRsp k',
      FramePushed m.kernel.mem mem m.kernel.tssRsp0 m.regs ∧
      Kernel.switchTask { m.kernel with mem := mem, timerTicks := ticks } (m.kernel.tssRsp0 - 160) =
        .ok (newRsp, k') ∧
      m' = ⟨k', frameReg k'.mem newRsp⟩ := by
  rw [timer, Nat.div_mul_cancel halign] at h
  obtain ⟨hsp, hframe⟩ := framePushed_pushWords m.kernel.mem (timerPushes m.regs) m.regs rfl
    htop
  generalize pushWords m.kernel.mem m.kernel.tssRsp0 (timerPushes m.regs) = pushed
    at h hsp hframe
  obtain ⟨mem, sp⟩ := pushed
  obtain ⟨⟨newRsp, k'⟩, hcall, h⟩ := Checked.bind_eq_ok.mp h
  dsimp only at hsp hcall
  rw [hsp] at hcall
  obtain ⟨ticks, -, hcall⟩ := Checked.bind_eq_ok.mp hcall
  dsimp only at h
  rw [popRegs_popOrder] at h
  exact ⟨_, ticks, newRsp, k', hframe, hcall, (Except.ok.inj h).symm⟩

end Machine

/-! ## Starting the tasks -/

/-- The arguments of a `Task::new_user`. -/
structure TaskSpec where
  id : ℕ
  entryPoint : UInt64
  userStack : StackSlice
  kernelStack : StackSlice
  allowIo : Bool

/-- Create a task and spawn it. -/
def Kernel.spawnUser (k : Kernel) (spec : TaskSpec) : Checked Kernel := do
  let (task, mem) ← Task.newUser k.mem spec.id spec.entryPoint spec.userStack spec.kernelStack
    spec.allowIo
  match k.sched.spawn task with
  | .ok sched => return { k with sched := sched, mem := mem }
  | .error _ => .error .unwrap

/-- `start_first_task`: jump into the task in slot 0. -/
def Kernel.startFirstTask (k : Kernel) : Checked Machine := do
  let firstTask ← Checked.unwrap (k.sched.tasks Scheduler.firstSlot)
  virtAddrNew firstTask.kernelStackTop
  let k := { k with
    sched := { k.sched with currentTaskIdx := Scheduler.firstSlot }
    tssRsp0 := firstTask.kernelStackTop
    currentKernelStack := firstTask.kernelStackTop }
  return ⟨k, popRegs k.mem popOrder firstTask.rsp fun _ ↦ 0⟩

/-- The end of `kernel_main`: spawn the tasks and start the first one. -/
def Kernel.start (k : Kernel) (specs : List TaskSpec) : Checked Machine := do
  let k ← specs.foldlM Kernel.spawnUser { k with sched := .new }
  k.startFirstTask

/-! ### Two tasks

A machine on which the results below are tried out. -/

/-- Two tasks, whose four stacks have a page each. -/
def twoTasks : List TaskSpec :=
  [⟨1, 0x1000, ⟨0x10000, 0x1000⟩, ⟨0x20000, 0x1000⟩, false⟩,
    ⟨2, 0x2000, ⟨0x30000, 0x1000⟩, ⟨0x40000, 0x1000⟩, false⟩]

set_option maxRecDepth 10000 in
/-- The two tasks have been started over memory that is zero. -/
def twoStarted : Machine :=
  (Kernel.start ⟨.new, fun _ ↦ 0, 0, 0, 0, 0, none⟩ twoTasks).result (by decide)

/-- The user code of the running task has loaded the registers for a call. -/
def Machine.load (m : Machine) (rax rdi rsi : UInt64) : Machine :=
  { m with
    regs := Function.update (Function.update (Function.update m.regs .rax rax) .rdi rdi) .rsi rsi }

theorem Machine.Step.load (m : Machine) (rax rdi rsi : UInt64) :
    Machine.Step m (.user m.kernel.mem (m.load rax rdi rsi).regs) (m.load rax rdi rsi) :=
  .user rfl rfl

end RelizOS
