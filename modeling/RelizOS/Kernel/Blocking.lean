import RelizOS.Kernel.Start

/-!
# Who runs after a call that blocks

`select_next_task` leaves the index at the current slot when no other task is runnable. That is
right for a task that yields or is preempted, and wrong for one that has just been blocked: the
kernel then returns to it, and it goes on as if its call had been completed.

So a blocked task never runs as long as every call that blocks its caller finds another task to run,
and the first call that does not returns to a blocked task (`current_runnable_iff`). A single task
that waits for a message shows it (`blocked_task_runs`).
-/

open LabelledRun

namespace RelizOS

namespace Kernel

variable {k k' : Kernel} {rsp newRsp : ℕ} {rax rdi rsi : UInt64}

/-- The call blocks its caller: it sends to a task that is not waiting for it, or receives and
nobody is sending to it. -/
def WouldBlock (k : Kernel) (rax rdi : UInt64) : Prop :=
  rax.toNat = 3 ∧ (∃ d : Fin 8, rdi.toNat = d + 1 ∧
    ∃ dest ∈ k.sched.tasks d, dest.state.bufferFor (k.cur + 1) = none) ∨
  rax.toNat = 4 ∧ ∀ i, ∀ t ∈ k.sched.tasks i, ¬t.SendsTo (k.cur + 1) (srcIdOption rdi.toNat)

instance (k : Kernel) (rax rdi : UInt64) : Decidable (k.WouldBlock rax rdi) :=
  inferInstanceAs (Decidable (_ ∧ (∃ _, _ ∧ ∃ _, _ ∧ _) ∨ _ ∧ ∀ _ _ _, _))

/-- A task other than the running one is runnable. -/
def OtherRunnable (k : Kernel) : Prop := ∃ i, i ≠ k.cur ∧ k.sched.RunnableAt i

instance (k : Kernel) : Decidable k.OtherRunnable :=
  inferInstanceAs (Decidable (∃ i, i ≠ k.cur ∧ k.sched.RunnableAt i))

/-! ## The ways to change the current task -/

theorem switchTask_runnable (hcur : k.sched.RunnableAt k.cur)
    (h : k.switchTask rsp = .ok (newRsp, k')) : k'.sched.RunnableAt k'.cur := by
  obtain ⟨t, ht, hrun⟩ := hcur
  obtain ⟨j, t', hsel, ht', -, rfl⟩ := switchTask_cases ht h
  obtain ⟨u, hu, hrun'⟩ :=
    hsel.runnableAt_of_current ⟨{ t with rsp := rsp }, Scheduler.putCurrent_tasks_self, hrun⟩
  exact ⟨u, hu, hrun'⟩

/-- Blocking the current task leads to a runnable one exactly when there is another one. -/
theorem block_runnable_iff {state : TaskState} (hstate : ¬state.IsRunnable)
    (h : k.block state rsp = .ok (newRsp, k')) :
    k'.sched.RunnableAt k'.cur ↔ k.OtherRunnable := by
  obtain ⟨t, j, t', hcur, hsel, ht', -, rfl⟩ := block_cases h
  generalize hs : k.sched.putCurrent { t with state := state, rsp := rsp } = sched at hsel ht' ⊢
  have hidx : sched.currentTaskIdx = k.cur := by rw [← hs]; rfl
  have hself : ¬sched.RunnableAt k.cur := by
    rintro ⟨u, hu, hrun⟩
    rw [← hs, Scheduler.putCurrent_tasks_self] at hu
    rw [← Option.some.inj hu] at hrun
    exact hstate hrun
  have hother : ∀ i, i ≠ k.cur → (sched.RunnableAt i ↔ k.sched.RunnableAt i) := by
    intro i hi
    rw [← hs, Scheduler.RunnableAt, Scheduler.RunnableAt, Scheduler.putCurrent_tasks_of_ne hi]
  show sched.RunnableAt j ↔ _
  constructor
  · intro hj
    have hne : j ≠ k.cur := by
      rintro rfl
      exact hself hj
    exact ⟨j, hne, (hother j hne).mp hj⟩
  · rintro ⟨i, hi, hrun⟩
    exact hsel.runnableAt_of_other ((hother i hi).mpr hrun) (by rwa [hidx])

theorem handOver_runnable {i : Fin 8} {r buf : ℕ} {msg : Message}
    (hcur : k.sched.RunnableAt k.cur) :
    (k.handOver i r buf msg rsp).sched.RunnableAt k.cur := by
  obtain ⟨t, ht, hrun⟩ := hcur
  by_cases hi : k.cur = i
  · subst hi
    exact ⟨_, Scheduler.setState_tasks_self ht, Or.inl rfl⟩
  · exact ⟨t, (Scheduler.setState_tasks_of_ne hi).trans ht, hrun⟩

/-! ## System calls -/

theorem sendsTo_of_sending {t : Task} {receiverId : ℕ} {srcId : Option ℕ} {msg : Message}
    (hstate : t.state = .sending receiverId msg) (hadmits : srcId = none ∨ srcId = some t.id) :
    t.SendsTo receiverId srcId := by
  rw [Task.SendsTo, hstate]
  exact ⟨rfl, hadmits⟩

/-- **After a system call** of a runnable task the current task is runnable exactly when the call
does not block its caller or finds another task. -/
theorem SyscallOutcome.runnable_iff (h : SyscallOutcome k rax rdi rsi rsp newRsp k')
    (hcur : k.sched.RunnableAt k.cur) :
    k'.sched.RunnableAt k'.cur ↔ (k.WouldBlock rax rdi → k.OtherRunnable) := by
  -- a call that comes back to its caller makes both sides true
  have hfree : k'.sched.RunnableAt k'.cur → ¬k.WouldBlock rax rdi →
      (k'.sched.RunnableAt k'.cur ↔ (k.WouldBlock rax rdi → k.OtherRunnable)) :=
    fun hrun hnot ↦ iff_of_true hrun fun hblock ↦ absurd hblock hnot
  -- a call that blocks its caller leaves both sides to the search for another task
  have hblocked : (k'.sched.RunnableAt k'.cur ↔ k.OtherRunnable) → k.WouldBlock rax rdi →
      (k'.sched.RunnableAt k'.cur ↔ (k.WouldBlock rax rdi → k.OtherRunnable)) :=
    fun hiff hblock ↦ hiff.trans ⟨fun hother _ ↦ hother, fun himp ↦ himp hblock⟩
  cases h with
  | yield hrax _ k₁ hswitch =>
    have hrun : k₁.sched.RunnableAt k₁.cur := switchTask_runnable hcur hswitch
    refine hfree hrun ?_
    rintro (⟨h3, -⟩ | ⟨h4, -⟩) <;> omega
  | plain hrax =>
    refine hfree hcur ?_
    rintro (⟨h3, -⟩ | ⟨h4, -⟩)
    · simp [h3] at hrax
    · simp [h4] at hrax
  | send hrax _ _ hsend =>
    cases hsend with
    | invalid hdest =>
      refine hfree hcur ?_
      rintro (⟨-, d, hid, dest, hd, -⟩ | ⟨h4, -⟩)
      · rw [hdest d hid] at hd
        cases hd
      · omega
    | deliver d dest buf hid hdest hbuf =>
      refine hfree (handOver_runnable hcur) ?_
      rintro (⟨-, d', hid', dest', hdest', hbuf'⟩ | ⟨h4, -⟩)
      · obtain rfl : d = d' := Fin.ext (by omega)
        rw [← Option.some.inj (hdest.symm.trans hdest'), hbuf] at hbuf'
        cases hbuf'
      · omega
    | block d dest hid hdest hbuf _ _ hblock =>
      exact hblocked (block_runnable_iff TaskState.not_isRunnable_sending hblock)
        (Or.inl ⟨hrax, d, hid, dest, hdest, hbuf⟩)
  | recv hrax _ _ hrecv =>
    cases hrecv with
    | accept i sender msg hsender hstate hadmits =>
      refine hfree (handOver_runnable hcur) ?_
      rintro (⟨h3, -⟩ | ⟨-, hnone⟩)
      · omega
      · exact hnone i sender hsender (sendsTo_of_sending hstate hadmits)
    | block hnone _ _ hblock =>
      exact hblocked (block_runnable_iff TaskState.not_isRunnable_receiving hblock)
        (Or.inr ⟨hrax, hnone⟩)
  | tryRecv hrax _ _ hrecv =>
    have hnot : ¬k.WouldBlock rax rdi := by rintro (⟨h3, -⟩ | ⟨h4, -⟩) <;> omega
    cases hrecv with
    | accept => exact hfree (handOver_runnable hcur) hnot
    | empty => exact hfree hcur hnot

end Kernel

/-! ## Runs -/

namespace Machine

variable {m m' : Machine} {e : Event}

/-- The event is not a system call that blocks the only runnable task. -/
def FindsRunnable (m : Machine) : Event → Prop
  | .syscall => m.kernel.WouldBlock (m.regs .rax) (m.regs .rdi) → m.kernel.OtherRunnable
  | .user _ _ | .tick => True

instance (m : Machine) : Decidable (m.FindsRunnable .syscall) :=
  inferInstanceAs (Decidable (_ → m.kernel.OtherRunnable))

/-- **One step** from a runnable task leads to a runnable task exactly under the condition. -/
theorem Step.runnable_iff (h : Step m e m') (hcur : m.kernel.sched.RunnableAt m.cur) :
    m'.kernel.sched.RunnableAt m'.cur ↔ m.FindsRunnable e := by
  cases h with
  | user => exact iff_of_true hcur trivial
  | syscall h =>
    obtain ⟨mem, rsp, newRsp, hout⟩ := syscall_outcome h
    exact hout.runnable_iff hcur
  | tick h =>
    obtain ⟨mem, ticks, rsp, newRsp, hswitch⟩ := timer_outcome h
    have hcur' : ({ m.kernel with mem := mem, timerTicks := ticks } : Kernel).sched.RunnableAt
      m.cur := hcur
    exact iff_of_true (Kernel.switchTask_runnable hcur' hswitch) trivial

end Machine

theorem Started.runnable {m : Machine} {specs : List TaskSpec} (h : Started m specs) :
    m.kernel.sched.RunnableAt m.cur := by
  obtain ⟨t, ht, -⟩ := h.current
  exact ⟨t, ht, Or.inl (h.allReady _ t ht)⟩

/-- **A blocked task does not run** in a run from the start of the first task in which every call
that blocks its caller finds another runnable task; and the first call that does not returns to a
task that is blocked. -/
theorem current_runnable_iff {k : Kernel} {specs : List TaskSpec} {m₀ m : Machine}
    {es : List Event} (hstart : k.start specs = .ok m₀)
    (hrun : Run (guarded Machine.FindsRunnable Machine.Step) m₀ es m) :
    m.kernel.sched.RunnableAt m.cur ∧
      ∀ e m', Machine.Step m e m' → (m'.kernel.sched.RunnableAt m'.cur ↔ m.FindsRunnable e) := by
  have hcur : m.kernel.sched.RunnableAt m.cur :=
    hrun.invariant (P := fun t ↦ t.kernel.sched.RunnableAt t.cur) (start_started hstart).runnable
      fun _ _ _ hcur hstep ↦ (hstep.2.runnable_iff hcur).mpr hstep.1
  exact ⟨hcur, fun e m' hstep ↦ hstep.runnable_iff hcur⟩

theorem current_runnable_iff_twoTasks : twoSent.kernel.sched.RunnableAt twoSent.cur := by
  have hload : guarded Machine.FindsRunnable Machine.Step twoStarted (.user _ _) _ :=
    ⟨trivial, .load twoStarted 3 2 0x5000⟩
  have hsend : guarded Machine.FindsRunnable Machine.Step (twoStarted.load 3 2 0x5000) .syscall
      twoSent := ⟨by decide +kernel, .syscall (Checked.eq_ok_result _ _)⟩
  exact (current_runnable_iff (Checked.eq_ok_result _ _) ((Run.nil.snoc hload).snoc hsend)).1

/-- A blocked task does run: the first task sends to the second, which then asks for a message of a
third, and the kernel returns to it. -/
theorem blocked_task_runs :
    ¬∀ (k : Kernel) (specs : List TaskSpec) (m₀ m : Machine) (es : List Event),
      k.start specs = .ok m₀ → Run Machine.Step m₀ es m → m.kernel.sched.RunnableAt m.cur := by
  intro hgeneral
  obtain ⟨es, hrun⟩ := run_twoBlocked
  have hblocked : ¬twoBlocked.kernel.sched.RunnableAt twoBlocked.cur := by decide +kernel
  exact hblocked (hgeneral _ _ _ _ es (Checked.eq_ok_result _ _) hrun)

end RelizOS
