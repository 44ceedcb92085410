import RelizOS.Kernel.Frames

/-!
# Where the kernel is entered

There are two copies of the address at which the kernel is entered, `TSS.rsp0` for the timer
interrupt and `CURRENT_KERNEL_STACK` for system calls, and five places in the code that update them.
In every state of user mode both are the top of the running task's kernel stack, so an entry pushes
its 20 words over the running task's own frame, and what the dispatcher returns is the frame of the
task that runs next (`kernel_stacks`).

No frame ever moves. So on disjoint kernel stacks an entry leaves the frames of all other tasks
alone.
-/

open ByteMemory LabelledRun

namespace RelizOS

/-! ## Entries -/

/-- The two ways into the kernel. -/
inductive Entry where
  | syscall
  | timer

namespace Machine

/-- The address below which an entry pushes. -/
def entryTop (m : Machine) : Entry → ℕ
  | .syscall => m.kernel.currentKernelStack
  | .timer => m.kernel.tssRsp0 / 16 * 16

/-- The words an entry pushes. -/
def entryPushes (m : Machine) : Entry → List UInt64
  | .syscall => syscallPushes (syscallInstruction m.regs)
  | .timer => timerPushes m.regs

/-- Memory and stack pointer when the dispatcher is called. -/
def entered (m : Machine) (entry : Entry) : Mem × ℕ :=
  pushWords m.kernel.mem (m.entryTop entry) (m.entryPushes entry)

/-- What the dispatcher returns: the stack pointer for the return path, and the kernel. -/
def dispatched (m : Machine) (entry : Entry) : Checked (ℕ × Kernel) :=
  let k := { m.kernel with mem := (m.entered entry).1 }
  let sp := (m.entered entry).2
  match entry with
  | .syscall => k.handleSyscall (m.regs .rax) (m.regs .rdi) (m.regs .rsi) sp
  | .timer => k.handleTimerInterrupt sp

end Machine

/-- The call is a print, a yield, a send to a task that exists, a receive, blocking or not, or has
no meaning. -/
def Kernel.SchedulerCall (k : Kernel) (rax rdi : UInt64) : Prop :=
  match rax.toNat with
  | 3 => ∃ d : Fin 8, rdi.toNat = d + 1 ∧ k.sched.tasks d ≠ none
  | 5 | 6 | 7 | 8 | 9 | 10 | 11 | 12 => False
  | _ => True

/-- **The kernel stacks in user mode.** -/
structure EntriesOk (m : Machine) : Prop where
  /-- The current slot is occupied, and both copies of the stack top are that of its task. -/
  current : ∃ t, m.kernel.sched.tasks m.cur = some t ∧ m.kernel.tssRsp0 = t.kernelStackTop ∧
    m.kernel.currentKernelStack = t.kernelStackTop
  /-- Every task has its stack pointer saved 160 bytes below the top of its kernel stack. -/
  saved : ∀ i t, m.kernel.sched.tasks i = some t →
    160 ≤ t.kernelStackTop ∧ t.rsp = t.kernelStackTop - 160
  /-- An entry pushes over the frame of the running task, and over nothing else. -/
  entered : ∀ entry t, m.kernel.sched.tasks m.cur = some t → (m.entered entry).2 = t.rsp ∧
    ∀ a, ¬t.frame.Holds a → (m.entered entry).1 a = m.kernel.mem a
  /-- The return path gets the frame of the task that is current then. -/
  returned : ∀ entry newRsp k, m.dispatched entry = .ok (newRsp, k) →
    ∃ t, k.sched.tasks k.cur = some t ∧ newRsp = t.rsp
  /-- No call fails but in `VirtAddr::new`, where the top of a kernel stack is no address. -/
  syscall : m.kernel.SchedulerCall (m.regs .rax) (m.regs .rdi) →
    ∀ e, m.dispatched .syscall = .error e → e = .assertion
  /-- The timer interrupt can also overflow its counter. -/
  timer : ∀ e, m.dispatched .timer = .error e → e = .assertion ∨ e = .overflow

namespace Kernel

variable {k : Kernel} {t : Task} {rsp : ℕ} {e : Fault}

/-! ## What can fail -/

theorem switchTask_error (hcur : k.sched.tasks k.cur = some t) (h : k.switchTask rsp = .error e) :
    e = .assertion := by
  rw [switchTask, Scheduler.saveCurrentRsp_eq hcur] at h
  obtain ⟨j, hj, hsel⟩ := (k.sched.putCurrent { t with rsp := rsp }).selectNextTask_spec
  obtain ⟨t', ht'⟩ : ∃ t', (k.sched.putCurrent { t with rsp := rsp }).tasks j = some t' := by
    rcases hsel with ⟨-, -, -, -, ⟨t', ht', -⟩, -⟩ | ⟨rfl, -⟩
    · exact ⟨t', ht'⟩
    · exact ⟨_, Scheduler.putCurrent_tasks_self⟩
  have hcur' : ({ k.sched.putCurrent { t with rsp := rsp } with currentTaskIdx := j } :
    Scheduler).currentTask = some t' := ht'
  rw [hj, Checked.ok_bind, Scheduler.getCurrentRsp_eq hcur', Checked.ok_bind, hcur'] at h
  rcases Checked.bind_eq_error.mp h with haddr | ⟨_, -, h⟩
  · exact Checked.ensure_eq_error haddr
  · cases h

theorem block_error {state : TaskState} (hcur : k.sched.tasks k.cur = some t)
    (h : k.block state rsp = .error e) : e = .assertion := by
  have hcurrent : k.sched.currentTask = some t := hcur
  rw [block, hcurrent, Checked.unwrap_some, Checked.ok_bind, Scheduler.setState_current hcur] at h
  exact switchTask_error (t := { t with state := state }) Scheduler.putCurrent_tasks_self h

/-- No send to a task that exists fails but in a switch. -/
theorem sysSend_error {d : Fin 8} {destId msgPtr : ℕ} (hcur : k.sched.tasks k.cur = some t)
    (hid : destId = d + 1) (hdest : k.sched.tasks d ≠ none)
    (h : k.sysSend destId msgPtr rsp = .error e) : e = .assertion := by
  obtain ⟨dest, hdest⟩ := Option.ne_none_iff_exists'.mp hdest
  subst hid
  rw [sysSend, Checked.sub_of_le (by omega), Checked.ok_bind] at h
  have hlt : d.val + 1 - 1 < 8 := by omega
  have hd : (⟨d.val + 1 - 1, hlt⟩ : Fin 8) = d := Fin.ext (by dsimp only; omega)
  rw [dif_pos hlt, hd, hdest] at h
  dsimp only at h
  cases hbuf : dest.state.bufferFor (k.sched.currentTaskIdx.val + 1) with
  | some bufferPtr =>
    rw [hbuf] at h
    cases h
  | none =>
    rw [hbuf] at h
    exact block_error hcur h

/-- A sender that the search has found can be unwrapped. -/
theorem sysRecv_error {srcFilter msgPtr : ℕ} (hcur : k.sched.tasks k.cur = some t)
    (h : k.sysRecv srcFilter msgPtr rsp = .error e) : e = .assertion := by
  cases hsearch : k.sched.recvSearch (k.cur + 1) (srcIdOption srcFilter) with
  | some i =>
    obtain ⟨sender, msg, -, -, -, hrecv, -⟩ := receive_of_search hsearch msgPtr rsp
    rw [hrecv] at h
    cases h
  | none =>
    rw [(receive_of_search_none hsearch msgPtr rsp).1] at h
    exact block_error hcur h

theorem sysTryRecv_ne_error {srcFilter msgPtr : ℕ} :
    k.sysTryRecv srcFilter msgPtr rsp ≠ .error e := by
  intro h
  cases hsearch : k.sched.recvSearch (k.cur + 1) (srcIdOption srcFilter) with
  | some i =>
    obtain ⟨sender, msg, -, -, -, -, htry⟩ := receive_of_search hsearch msgPtr rsp
    rw [htry] at h
    cases h
  | none =>
    rw [(receive_of_search_none hsearch msgPtr rsp).2] at h
    cases h

theorem handleSyscall_error {rax rdi rsi : UInt64} (hcur : k.sched.tasks k.cur = some t)
    (hcall : k.SchedulerCall rax rdi) (h : k.handleSyscall rax rdi rsi rsp = .error e) :
    e = .assertion := by
  rw [SchedulerCall] at hcall
  rw [handleSyscall] at h
  split at h
  case h_1 => cases h
  case h_2 =>
    rcases Checked.bind_eq_error.mp h with hswitch | ⟨_, -, h⟩
    · exact switchTask_error hcur hswitch
    · cases h
  case h_3 hrax =>
    rw [hrax] at hcall
    obtain ⟨d, hid, hdest⟩ := hcall
    exact sysSend_error hcur hid hdest h
  case h_4 => exact sysRecv_error hcur h
  case h_13 => exact absurd h sysTryRecv_ne_error
  case h_14 => cases h
  -- the calls that do not concern the scheduler
  all_goals
    rename_i hrax
    rw [hrax] at hcall
    exact hcall.elim

theorem handleTimerInterrupt_error (hcur : k.sched.tasks k.cur = some t)
    (h : k.handleTimerInterrupt rsp = .error e) : e = .assertion ∨ e = .overflow := by
  rcases Checked.bind_eq_error.mp h with hadd | ⟨ticks, -, h⟩
  · right
    rw [Checked.add] at hadd
    split at hadd
    · cases hadd
    · exact (Except.error.inj hadd).symm
  · left
    exact switchTask_error (k := { k with timerTicks := ticks }) hcur h

end Kernel

namespace Machine

variable {m : Machine} {t : Task} {entry : Entry}

/-! ## Entering and returning -/

theorem entered_spec (hm : m.kernel.EntersAtTop) (ht : m.kernel.sched.tasks m.cur = some t)
    (entry : Entry) : (m.entered entry).2 = t.rsp ∧
      ∀ a, ¬t.frame.Holds a → (m.entered entry).1 a = m.kernel.mem a := by
  have htop : m.entryTop entry = t.rsp + 160 := by
    rw [hm.sched.top _ t ht]
    cases entry with
    | syscall => exact hm.currentKernelStack t ht
    | timer => rw [entryTop, hm.tssRsp0 t ht, Nat.div_mul_cancel (hm.sched.aligned _ t ht)]
  have hlen : 8 * (m.entryPushes entry).length = 160 := by
    cases entry <;> rfl
  rw [entered]
  constructor
  · rw [pushWords_snd, hlen, htop, Nat.add_sub_cancel]
  · intro a ha
    refine agreeOn_pushWords (a := a) (n := 1) (by omega) ?_ a le_rfl (by omega)
    simp only [Span.Holds, Task.frame] at ha
    omega

theorem dispatched_eq_ok (hm : m.kernel.EntersAtTop) {newRsp : ℕ} {k : Kernel}
    (h : m.dispatched entry = .ok (newRsp, k)) :
    ∃ t, k.sched.tasks k.cur = some t ∧ newRsp = t.rsp := by
  obtain ⟨t, ht⟩ := hm.current
  obtain ⟨hsp, -⟩ := entered_spec hm ht entry
  have hk : ∀ mem ticks,
      ({ m.kernel with mem := mem, timerTicks := ticks } : Kernel).EntersAtTop :=
    fun mem ticks ↦ hm.of_same (Scheduler.SameStacks.refl _) rfl rfl rfl
  cases entry with
  | syscall =>
    have hout := Kernel.handleSyscall_cases h
    generalize m.entered .syscall = pushed at hout hsp
    rw [hsp] at hout
    exact (hout.entersAtTop (hk pushed.1 m.kernel.timerTicks) ht).2.2
  | timer =>
    obtain ⟨ticks, -, hswitch⟩ := Checked.bind_eq_ok.mp h
    generalize m.entered .timer = pushed at hswitch hsp
    rw [hsp] at hswitch
    exact ((hk pushed.1 ticks).switchTask ht hswitch).2.2

end Machine

/-! ## Runs -/

theorem Kernel.EntersAtTop.entriesOk {m : Machine} (hm : m.kernel.EntersAtTop) : EntriesOk m where
  current := by
    obtain ⟨t, ht⟩ := hm.current
    exact ⟨t, ht, hm.tssRsp0 t ht, hm.currentKernelStack t ht⟩
  saved i t ht := by
    have htop := hm.sched.top i t ht
    omega
  entered entry t ht := Machine.entered_spec hm ht entry
  returned entry newRsp k h := Machine.dispatched_eq_ok hm h
  syscall hcall e h := by
    obtain ⟨t, ht⟩ := hm.current
    rw [Machine.dispatched] at h
    generalize m.entered .syscall = pushed at h
    exact Kernel.handleSyscall_error (k := { m.kernel with mem := pushed.1 }) ht hcall h
  timer e h := by
    obtain ⟨t, ht⟩ := hm.current
    rw [Machine.dispatched] at h
    generalize m.entered .timer = pushed at h
    exact Kernel.handleTimerInterrupt_error (k := { m.kernel with mem := pushed.1 }) ht h

/-- **The kernel-stack invariant**, in every state of user mode after the start of the first task;
and on disjoint kernel stacks no entry overwrites the frame of a task that is not running. -/
theorem kernel_stacks {k : Kernel} {specs : List TaskSpec} {m₀ m : Machine} {es : List Event}
    (hstart : k.start specs = .ok m₀) (hrun : Run Machine.Step m₀ es m) :
    EntriesOk m ∧ (KernelStacksOk specs → ∀ i t, i ≠ m.cur → m.kernel.sched.tasks i = some t →
      ∀ entry, AgreeOn (m.entered entry).1 m.kernel.mem t.rsp 160) := by
  have htop : m.kernel.EntersAtTop :=
    hrun.invariant (P := fun m ↦ m.kernel.EntersAtTop) (start_started hstart).entersAtTop
      fun _ _ _ hm hstep ↦ (hstep.entersAtTop hm).1
  refine ⟨htop.entriesOk, fun hok i t hi ht entry a h1 h2 ↦ ?_⟩
  have hstacks : m.kernel.StacksOk :=
    hrun.invariant (P := fun m ↦ m.kernel.StacksOk) ((start_started hstart).stacksOk hok)
      fun _ _ _ hm hstep ↦ (hstep.stacksOk hm).1
  obtain ⟨u, hu⟩ := htop.current
  -- the frame that is replaced is another one
  have hapart := hstacks.sched.apart i m.cur t u hi ht hu
  exact (Machine.entered_spec htop hu entry).2 a (hapart.not_holds ⟨h1, h2⟩)

theorem kernel_stacks_twoTasks : EntriesOk twoBlocked ∧
    ∀ i t, i ≠ twoBlocked.cur → twoBlocked.kernel.sched.tasks i = some t →
      ∀ entry, AgreeOn (twoBlocked.entered entry).1 twoBlocked.kernel.mem t.rsp 160 := by
  obtain ⟨es, hrun⟩ := run_twoBlocked
  obtain ⟨hentries, hother⟩ := kernel_stacks (Checked.eq_ok_result _ _) hrun
  exact ⟨hentries, hother twoTasks_ok⟩

end RelizOS
