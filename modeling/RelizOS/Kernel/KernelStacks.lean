import RelizOS.Kernel.Rendezvous

/-!
# Kernel stacks and register frames

Every task has one frame, the 160 bytes below the top of its kernel stack. Its saved stack pointer
always points there, and the kernel enters there: a stub pushes its words exactly over the frame of
the running task. So the frames of the other tasks change only when the kernel writes to them.

`EntersAtTop` is this layout as an invariant of the kernel. It holds after `kernel_main` has created
the tasks, and the system calls and the timer interrupt keep it, wherever the kernel stacks are.
That the frames are apart too, which takes disjoint kernel stacks, is `StacksOk`; nothing that a
step does can change it, for no frame ever moves (`SameStacks`).
-/

open ByteMemory

namespace RelizOS

/-! ## The layout -/

/-- The frame of a task. -/
def Task.frame (t : Task) : Span := ⟨t.rsp, t.rsp + 160⟩

/-- The frames are at the tops of the kernel stacks and apart. -/
structure Scheduler.StacksOk (s : Scheduler) : Prop where
  top : ∀ i t, s.tasks i = some t → t.rsp + 160 = t.kernelStackTop
  aligned : ∀ i t, s.tasks i = some t → 16 ∣ t.kernelStackTop
  apart : ∀ i j t u, i ≠ j → s.tasks i = some t → s.tasks j = some u → t.frame.Apart u.frame

/-- The frames are at the tops of the kernel stacks. -/
structure Scheduler.AtTop (s : Scheduler) : Prop where
  top : ∀ i t, s.tasks i = some t → t.rsp + 160 = t.kernelStackTop
  aligned : ∀ i t, s.tasks i = some t → 16 ∣ t.kernelStackTop

/-- There is a running task, and the kernel enters at the top of its kernel stack. -/
structure Kernel.EntersAtTop (k : Kernel) : Prop where
  sched : k.sched.AtTop
  current : ∃ t, k.sched.tasks k.cur = some t
  tssRsp0 : ∀ t, k.sched.tasks k.cur = some t → k.tssRsp0 = t.kernelStackTop
  currentKernelStack : ∀ t, k.sched.tasks k.cur = some t → k.currentKernelStack = t.kernelStackTop

/-- The same, with frames that are apart. -/
structure Kernel.StacksOk (k : Kernel) : Prop where
  sched : k.sched.StacksOk
  current : ∃ t, k.sched.tasks k.cur = some t
  tssRsp0 : ∀ t, k.sched.tasks k.cur = some t → k.tssRsp0 = t.kernelStackTop
  currentKernelStack : ∀ t, k.sched.tasks k.cur = some t → k.currentKernelStack = t.kernelStackTop

/-- Where a task's frame is: the two numbers that never change. -/
def Task.stack (t : Task) : ℕ × ℕ := (t.rsp, t.kernelStackTop)

/-- The two schedulers have the same tasks with the same frames. -/
def Scheduler.SameStacks (s s' : Scheduler) : Prop :=
  ∀ i, (s'.tasks i).map Task.stack = (s.tasks i).map Task.stack

namespace Scheduler

variable {s s' : Scheduler} {i : Fin 8} {t t' : Task}

theorem SameStacks.refl (s : Scheduler) : s.SameStacks s := fun _ ↦ rfl

theorem SameStacks.symm (h : s.SameStacks s') : s'.SameStacks s := fun i ↦ (h i).symm

theorem SameStacks.task (h : s.SameStacks s') (ht' : s'.tasks i = some t') :
    ∃ t, s.tasks i = some t ∧ t.rsp = t'.rsp ∧ t.kernelStackTop = t'.kernelStackTop := by
  have hi := h i
  rw [ht', Option.map_some] at hi
  obtain ⟨t, ht, heq⟩ := Option.map_eq_some_iff.mp hi.symm
  exact ⟨t, ht, (Prod.mk.inj heq).1, (Prod.mk.inj heq).2⟩

theorem AtTop.of_same (hs : s.AtTop) (h : s.SameStacks s') : s'.AtTop where
  top i t' ht' := by
    obtain ⟨t, ht, hrsp, htop⟩ := h.task ht'
    rw [← hrsp, ← htop, hs.top i t ht]
  aligned i t' ht' := by
    obtain ⟨t, ht, -, htop⟩ := h.task ht'
    rw [← htop]
    exact hs.aligned i t ht

theorem StacksOk.atTop (hs : s.StacksOk) : s.AtTop := ⟨hs.top, hs.aligned⟩

theorem StacksOk.of_same (hs : s.StacksOk) (h : s.SameStacks s') : s'.StacksOk where
  top := (hs.atTop.of_same h).top
  aligned := (hs.atTop.of_same h).aligned
  apart i j t' u' hij ht' hu' := by
    obtain ⟨t, ht, hrsp, -⟩ := h.task ht'
    obtain ⟨u, hu, hrsp', -⟩ := h.task hu'
    have hapart := hs.apart i j t u hij ht hu
    rwa [Task.frame, Task.frame, hrsp, hrsp'] at hapart

theorem sameStacks_putCurrent (h : s.tasks s.currentTaskIdx = some t) (hrsp : t'.rsp = t.rsp)
    (htop : t'.kernelStackTop = t.kernelStackTop) : s.SameStacks (s.putCurrent t') := by
  intro i
  by_cases hi : i = s.currentTaskIdx
  · subst hi
    rw [putCurrent_tasks_self, h, Option.map_some, Option.map_some, Task.stack, Task.stack, hrsp,
      htop]
  · rw [putCurrent_tasks_of_ne hi]

theorem sameStacks_setState {state : TaskState} : s.SameStacks (s.setState i state) := by
  intro j
  by_cases hj : j = i
  · subst hj
    rw [setState]
    dsimp only
    rw [Function.update_self, Option.map_map]
    rfl
  · rw [setState_tasks_of_ne hj]

end Scheduler

namespace Kernel

variable {k k' : Kernel} {t : Task} {newRsp : ℕ}

theorem StacksOk.entersAtTop (hk : k.StacksOk) : k.EntersAtTop where
  sched := hk.sched.atTop
  current := hk.current
  tssRsp0 := hk.tssRsp0
  currentKernelStack := hk.currentKernelStack

/-- Frames that are apart stay so, where they are the same frames. -/
theorem EntersAtTop.stacksOk (hk' : k'.EntersAtTop) (hk : k.StacksOk)
    (hsame : k.sched.SameStacks k'.sched) : k'.StacksOk where
  sched := hk.sched.of_same hsame
  current := hk'.current
  tssRsp0 := hk'.tssRsp0
  currentKernelStack := hk'.currentKernelStack

theorem EntersAtTop.of_same (hk : k.EntersAtTop) (hsame : k.sched.SameStacks k'.sched)
    (hcur : k'.cur = k.cur) (htss : k'.tssRsp0 = k.tssRsp0)
    (hstack : k'.currentKernelStack = k.currentKernelStack) : k'.EntersAtTop where
  sched := hk.sched.of_same hsame
  current := by
    obtain ⟨t, ht⟩ := hk.current
    obtain ⟨t', ht', -⟩ := hsame.symm.task ht
    exact ⟨t', by rw [hcur, ht']⟩
  tssRsp0 t' ht' := by
    rw [hcur] at ht'
    obtain ⟨t, ht, -, htop⟩ := hsame.task ht'
    rw [htss, hk.tssRsp0 t ht, htop]
  currentKernelStack t' ht' := by
    rw [hcur] at ht'
    obtain ⟨t, ht, -, htop⟩ := hsame.task ht'
    rw [hstack, hk.currentKernelStack t ht, htop]

theorem StacksOk.of_same (hk : k.StacksOk) (hsame : k.sched.SameStacks k'.sched)
    (hcur : k'.cur = k.cur) (htss : k'.tssRsp0 = k.tssRsp0)
    (hstack : k'.currentKernelStack = k.currentKernelStack) : k'.StacksOk :=
  (hk.entersAtTop.of_same hsame hcur htss hstack).stacksOk hk hsame

theorem EntersAtTop.switchedTo {sched : Scheduler} {j : Fin 8} {t' : Task} (hk : k.EntersAtTop)
    (hsame : k.sched.SameStacks sched) (ht' : sched.tasks j = some t') :
    (k.switchedTo sched j t').EntersAtTop := by
  refine ⟨hk.sched.of_same hsame, ⟨t', ht'⟩, fun u hu ↦ ?_, fun u hu ↦ ?_⟩
  · rw [← Option.some.inj (ht'.symm.trans hu)]
    rfl
  · rw [← Option.some.inj (ht'.symm.trans hu)]
    rfl

/-- Saving the stack pointer that is saved already and switching keeps the layout, and the stack
pointer taken is that of the new current task. -/
theorem EntersAtTop.switchTask (hk : k.EntersAtTop) (ht : k.sched.tasks k.cur = some t)
    (h : k.switchTask t.rsp = .ok (newRsp, k')) :
    k'.EntersAtTop ∧ k.sched.SameStacks k'.sched ∧
      ∃ t', k'.sched.tasks k'.cur = some t' ∧ newRsp = t'.rsp := by
  obtain ⟨j, t', -, ht', rfl, rfl⟩ := switchTask_cases ht h
  have hsame : k.sched.SameStacks (k.sched.putCurrent { t with rsp := t.rsp }) :=
    Scheduler.sameStacks_putCurrent ht rfl rfl
  exact ⟨hk.switchedTo hsame ht', hsame, t', ht', rfl⟩

theorem EntersAtTop.block {state : TaskState} (hk : k.EntersAtTop)
    (ht : k.sched.tasks k.cur = some t)
    (h : k.block state t.rsp = .ok (newRsp, k')) :
    k'.EntersAtTop ∧ k.sched.SameStacks k'.sched ∧
      ∃ t', k'.sched.tasks k'.cur = some t' ∧ newRsp = t'.rsp := by
  obtain ⟨u, j, t', hu, -, ht', rfl, rfl⟩ := block_cases h
  obtain rfl : t = u := Option.some.inj (ht.symm.trans hu)
  have hsame : k.sched.SameStacks
      (k.sched.putCurrent { t with state := state, rsp := t.rsp }) :=
    Scheduler.sameStacks_putCurrent ht rfl rfl
  exact ⟨hk.switchedTo hsame ht', hsame, t', ht', rfl⟩

theorem EntersAtTop.handOver (hk : k.EntersAtTop) (i : Fin 8) (r buf : ℕ) (msg : Message)
    (rsp : ℕ) :
    (k.handOver i r buf msg rsp).EntersAtTop ∧
      k.sched.SameStacks (k.handOver i r buf msg rsp).sched :=
  ⟨hk.of_same Scheduler.sameStacks_setState rfl rfl rfl, Scheduler.sameStacks_setState⟩

/-- **System calls keep the layout**, and return the stack pointer of the current task. -/
theorem SyscallOutcome.entersAtTop {rax rdi rsi : UInt64} (hk : k.EntersAtTop)
    (ht : k.sched.tasks k.cur = some t) (h : SyscallOutcome k rax rdi rsi t.rsp newRsp k') :
    k'.EntersAtTop ∧ k.sched.SameStacks k'.sched ∧
      ∃ t', k'.sched.tasks k'.cur = some t' ∧ newRsp = t'.rsp := by
  have hmem : ∀ mem, ({ k with mem := mem } : Kernel).EntersAtTop := fun mem ↦
    hk.of_same (Scheduler.SameStacks.refl _) rfl rfl rfl
  have hover : ∀ {i : Fin 8} {r buf : ℕ} {msg : Message},
      (k.handOver i r buf msg t.rsp).EntersAtTop ∧
        k.sched.SameStacks (k.handOver i r buf msg t.rsp).sched ∧
        ∃ t', (k.handOver i r buf msg t.rsp).sched.tasks k.cur = some t' ∧ t.rsp = t'.rsp := by
    intro i r buf msg
    obtain ⟨hok, hsame⟩ := hk.handOver i r buf msg t.rsp
    obtain ⟨t', ht', hrsp, -⟩ := hsame.symm.task ht
    exact ⟨hok, hsame, t', ht', hrsp.symm⟩
  -- only the two that switch tasks touch the stacks the processor enters on
  cases h with
  | yield _ _ k₁ hswitch =>
    obtain ⟨hok, hsame, t', ht', hrsp⟩ := hk.switchTask ht hswitch
    exact ⟨hok.of_same (Scheduler.SameStacks.refl _) rfl rfl rfl, hsame, t', ht', hrsp⟩
  | plain _ mem => exact ⟨hmem mem, Scheduler.SameStacks.refl _, t, ht, rfl⟩
  | send _ _ _ hsend =>
    cases hsend with
    | invalid => exact ⟨hmem _, Scheduler.SameStacks.refl _, t, ht, rfl⟩
    | deliver => exact hover
    | block d dest hid hdest hbuf _ _ hblock => exact hk.block ht hblock
  | recv _ _ _ hrecv =>
    cases hrecv with
    | accept => exact hover
    | block hnone _ _ hblock => exact hk.block ht hblock
  | tryRecv _ _ _ hrecv =>
    cases hrecv with
    | accept => exact hover
    | empty => exact ⟨hmem _, Scheduler.SameStacks.refl _, t, ht, rfl⟩

end Kernel

/-! ## Entering the kernel -/

namespace Machine

variable {m m' : Machine} {t : Task}

/-- A system call enters with a frame in the place of the caller's, and returns with the frame of
the current task. -/
theorem syscall_entry (hm : m.kernel.EntersAtTop) (ht : m.kernel.sched.tasks m.cur = some t)
    (h : m.syscall = .ok m') :
    ∃ mem newRsp,
      FramePushed m.kernel.mem mem t.kernelStackTop (syscallSaved m.regs) ∧
      Kernel.SyscallOutcome { m.kernel with mem := mem } (m.regs .rax) (m.regs .rdi) (m.regs .rsi)
        t.rsp newRsp m'.kernel ∧
      m'.regs = frameReg m'.kernel.mem newRsp := by
  have htop := hm.sched.top _ t ht
  have hstack := hm.currentKernelStack t ht
  obtain ⟨mem, newRsp, k', hframe, hout, rfl⟩ := syscall_cases (by omega) h
  rw [hstack] at hframe hout
  rw [show t.kernelStackTop - 160 = t.rsp by omega] at hout
  exact ⟨mem, newRsp, hframe, hout, rfl⟩

/-- A timer interrupt enters with a frame in the place of that of the interrupted task, and returns
with the frame of the current task. -/
theorem timer_entry (hm : m.kernel.EntersAtTop) (ht : m.kernel.sched.tasks m.cur = some t)
    (h : m.timer = .ok m') :
    ∃ mem ticks newRsp,
      FramePushed m.kernel.mem mem t.kernelStackTop m.regs ∧
      Kernel.switchTask { m.kernel with mem := mem, timerTicks := ticks } t.rsp =
        .ok (newRsp, m'.kernel) ∧
      m'.regs = frameReg m'.kernel.mem newRsp := by
  have htop := hm.sched.top _ t ht
  have hstack := hm.tssRsp0 t ht
  have haligned := hm.sched.aligned _ t ht
  obtain ⟨mem, ticks, newRsp, k', hframe, hout, rfl⟩ :=
    timer_cases (by omega) (by rwa [hstack]) h
  rw [hstack] at hframe hout
  rw [show t.kernelStackTop - 160 = t.rsp by omega] at hout
  exact ⟨mem, ticks, newRsp, hframe, hout, rfl⟩

/-- **Every step keeps the layout.** -/
theorem Step.entersAtTop {e : Event} (h : Step m e m') (hm : m.kernel.EntersAtTop) :
    m'.kernel.EntersAtTop ∧ m.kernel.sched.SameStacks m'.kernel.sched := by
  obtain ⟨t, ht⟩ := hm.current
  have hmem : ∀ mem ticks,
      ({ m.kernel with mem := mem, timerTicks := ticks } : Kernel).EntersAtTop :=
    fun mem ticks ↦ hm.of_same (Scheduler.SameStacks.refl _) rfl rfl rfl
  cases h with
  | user =>
    exact ⟨hm.of_same (Scheduler.SameStacks.refl _) rfl rfl rfl, Scheduler.SameStacks.refl _⟩
  | syscall h =>
    obtain ⟨mem, newRsp, -, hout, -⟩ := syscall_entry hm ht h
    obtain ⟨hok, hsame, -⟩ := hout.entersAtTop (hmem mem m.kernel.timerTicks) ht
    exact ⟨hok, hsame⟩
  | tick h =>
    obtain ⟨mem, ticks, newRsp, -, hswitch, -⟩ := timer_entry hm ht h
    obtain ⟨hok, hsame, -⟩ := (hmem mem ticks).switchTask ht hswitch
    exact ⟨hok, hsame⟩

theorem Step.stacksOk {e : Event} (h : Step m e m') (hm : m.kernel.StacksOk) :
    m'.kernel.StacksOk ∧ m.kernel.sched.SameStacks m'.kernel.sched := by
  obtain ⟨htop, hsame⟩ := h.entersAtTop hm.entersAtTop
  exact ⟨htop.stacksOk hm hsame, hsame⟩

/-- After a step of the kernel the registers are those of the current task's frame. -/
theorem regs_of_entry {e : Event} (h : Step m e m') (hm : m.kernel.EntersAtTop)
    (he : ∀ mem regs, e ≠ .user mem regs) (ht : m'.kernel.sched.tasks m'.cur = some t) :
    m'.regs = frameReg m'.kernel.mem t.rsp := by
  obtain ⟨u, hu⟩ := hm.current
  have hmem : ∀ mem ticks,
      ({ m.kernel with mem := mem, timerTicks := ticks } : Kernel).EntersAtTop :=
    fun mem ticks ↦ hm.of_same (Scheduler.SameStacks.refl _) rfl rfl rfl
  cases h with
  | user => exact absurd rfl (he _ _)
  | syscall h =>
    obtain ⟨mem, newRsp, -, hout, hregs⟩ := syscall_entry hm hu h
    obtain ⟨-, -, t', ht', rfl⟩ := hout.entersAtTop (hmem mem m.kernel.timerTicks) hu
    rw [hregs, Option.some.inj (ht.symm.trans ht')]
  | tick h =>
    obtain ⟨mem, ticks, newRsp, -, hswitch, hregs⟩ := timer_entry hm hu h
    obtain ⟨-, -, t', ht', rfl⟩ := (hmem mem ticks).switchTask hu hswitch
    rw [hregs, Option.some.inj (ht.symm.trans ht')]

end Machine

end RelizOS
