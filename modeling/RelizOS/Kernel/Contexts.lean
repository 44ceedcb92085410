import RelizOS.Kernel.Frames

/-!
# Register contexts survive scheduling

When a task is interrupted or makes a call its registers are saved in its frame. Until it runs again
other tasks run, block and hand messages over, to it as well; what they may change in its frame is
the result of its own call, and only while it is blocked.

`SavedAs m i f` says that task `i` is suspended in `m` and will continue with the registers `f`. A
task that is blocked has no result in its frame yet, but the one it will get is known: a blocking
call ends with 0. The predicate is established when the kernel is entered (`savedAs_tick`,
`savedAs_syscall`), kept by every step of another task (`SavedAs.step`), and cashed in when the task
is resumed (`SavedAs.resume`).

The two segment selectors are a matter of their own: a system call saves those of user mode whatever
the registers hold. They do hold these (`UserMode`).
-/

open ByteMemory LabelledRun

namespace RelizOS

namespace Machine

variable {m m' : Machine} {e : Event} {t : Task} {i : Fin 8} {f : RegFile}

/-! ## Suspended tasks -/

/-- Task `i` will continue with the registers `f`. -/
def SavedAs (m : Machine) (i : Fin 8) (f : RegFile) : Prop :=
  ∃ t, m.kernel.sched.tasks i = some t ∧
    (∀ r, r ≠ .rax → frameReg m.kernel.mem t.rsp r = f r) ∧
    (t.IsRunnable → frameReg m.kernel.mem t.rsp .rax = f .rax) ∧ (¬t.IsRunnable → f .rax = 0)

theorem savedAs_tick (hm : m.Sound) (h : Step m .tick m') : m'.SavedAs m.cur m.regs := by
  obtain ⟨t, ht⟩ := hm.stacksOk.current
  cases h with
  | tick h =>
    obtain ⟨htasks, hself, -⟩ := timer_effect hm ht h
    refine ⟨t, by rw [htasks, ht], fun r _ ↦ by rw [hself], fun _ ↦ by rw [hself],
      fun hblocked ↦ ?_⟩
    exact absurd ((Scheduler.runnableAt_iff ht).mp hm.runnable) hblocked

/-- A system call saves all registers but `rax`, where its result will be. -/
theorem savedAs_syscall (hm : m.Sound) (h : OrderlyStep m .syscall m') :
    ∃ f, m'.SavedAs m.cur f ∧ (∀ r, r ≠ .rax → f r = syscallSaved m.regs r) ∧
      ∀ w, m.kernel.callResult (m.regs .rax) (m.regs .rdi) = some w → f .rax = w := by
  obtain ⟨t, ht⟩ := hm.stacksOk.current
  obtain ⟨hgood, h⟩ := h
  cases h with
  | syscall h =>
    obtain ⟨mem, hsaved, ⟨t', ht', hrsp, hself⟩, -⟩ := syscall_effect hm hgood ht h
    rcases hself with ⟨hrun, v, hframe, hresult⟩ | ⟨hstate, hframe, hresult⟩
    · rw [hsaved] at hframe
      refine ⟨Function.update (syscallSaved m.regs) .rax v, ⟨t', ht', fun r _ ↦ ?_, fun _ ↦ ?_,
        fun hblocked ↦ absurd hrun hblocked⟩, fun r hr ↦ Function.update_of_ne hr _ _,
        fun w hw ↦ ?_⟩
      · rw [hrsp, hframe]
      · rw [hrsp, hframe]
      · rw [Function.update_self, hresult w hw]
    · rw [hsaved] at hframe
      have hblocked : ¬t'.IsRunnable := hstate.not_isRunnable
      refine ⟨Function.update (syscallSaved m.regs) .rax 0, ⟨t', ht', fun r hr ↦ ?_,
        fun hrun ↦ absurd hrun hblocked, fun _ ↦ Function.update_self _ _ _⟩,
        fun r hr ↦ Function.update_of_ne hr _ _, fun w hw ↦ ?_⟩
      · rw [hrsp, hframe, Function.update_of_ne hr]
      · rw [Function.update_self]
        exact Option.some.inj (hresult.symm.trans hw)

/-- **A step of another task keeps a suspended task's registers.** -/
theorem SavedAs.step (hsaved : m.SavedAs i f) (hm : m.Sound) (h : OrderlyStep m e m')
    (hi : i ≠ m.cur) : m'.SavedAs i f := by
  obtain ⟨t, ht, hregs, hrax, hblocked⟩ := hsaved
  obtain ⟨t', ht', hrsp, heffect⟩ := h.2.otherEffect h.1 hm hi ht
  rcases heffect with ⟨hstate, hframe⟩ | ⟨hwas, hrun, hframe⟩
  · have hiff : t'.IsRunnable ↔ t.IsRunnable := by rw [Task.IsRunnable, hstate, Task.IsRunnable]
    rw [← hframe] at hregs hrax
    rw [← hrsp] at hregs hrax
    exact ⟨t', ht', hregs, fun hrun ↦ hrax (hiff.mp hrun), fun hno ↦ hblocked (mt hiff.mpr hno)⟩
  · -- its partner has handed a message over
    refine ⟨t', ht', fun r hr ↦ ?_, fun _ ↦ ?_, fun hno ↦ absurd hrun hno⟩
    · rw [hrsp, hframe, Function.update_of_ne hr, hregs r hr]
    · rw [hrsp, hframe, Function.update_self, hblocked hwas]

theorem SavedAs.resume (hsaved : m'.SavedAs m'.cur f) (hm : m.Sound) (h : OrderlyStep m e m')
    (he : ∀ mem regs, e ≠ .user mem regs) : m'.regs = f := by
  obtain ⟨t, ht, hregs, hrax, -⟩ := hsaved
  have hrun := (Scheduler.runnableAt_iff ht).mp (hm.step h).runnable
  rw [regs_of_entry h.2 hm.stacksOk.entersAtTop he ht]
  funext r
  by_cases hr : r = .rax
  · rw [hr, hrax hrun]
  · exact hregs r hr

/-- An orderly step while another task than `c` is running. -/
abbrev AwayStep (c : Fin 8) : Machine → Event → Machine → Prop :=
  guarded (fun m e ↦ m.cur ≠ c ∧ m.Orderly e) Step

/-- **A task that has been suspended by a step is resumed with its registers**, however long it
takes. -/
theorem SavedAs.resume_run {m₁ m₂ : Machine} {es : List Event} {c : Fin 8}
    (hsaved : m₁.SavedAs c f) (hm : m.Sound) (hentry : OrderlyStep m e m₁)
    (he : ∀ mem regs, e ≠ .user mem regs) (haway : Run (AwayStep c) m₁ es m₂)
    (hback : m₂.cur = c) : m₂.regs = f := by
  cases haway with
  | nil => exact SavedAs.resume (hback ▸ hsaved) hm hentry he
  | @snoc es' m₃ _ e' hrun hlast =>
    obtain ⟨hm₃, hsaved₃⟩ := hrun.invariant (P := fun n ↦ n.Sound ∧ n.SavedAs c f)
      ⟨hm.step hentry, hsaved⟩ fun n e n' ⟨hn, hsaved⟩ hstep ↦
        ⟨hn.step ⟨hstep.1.2, hstep.2⟩, hsaved.step hn ⟨hstep.1.2, hstep.2⟩ hstep.1.1.symm⟩
    obtain ⟨⟨hne, hgood⟩, hstep⟩ := hlast
    have he' : ∀ mem regs, e' ≠ .user mem regs := by
      rintro mem regs rfl
      cases hstep
      exact hne hback
    have hsaved₂ := hsaved₃.step hm₃ ⟨hgood, hstep⟩ (Ne.symm hne)
    exact SavedAs.resume (hback ▸ hsaved₂) hm₃ ⟨hgood, hstep⟩ he'

/-! ## The selectors -/

/-- The registers hold the selectors of user mode, and so do the frames of the tasks that are not
running. -/
structure UserMode (m : Machine) : Prop where
  cs : m.regs .cs = 0x23
  ss : m.regs .ss = 0x1B
  frames : ∀ i t, i ≠ m.cur → m.kernel.sched.tasks i = some t → UserFrame m.kernel.mem t

theorem UserMode.step (huser : m.UserMode) (hm : m.Sound) (h : OrderlyStep m e m') :
    m'.UserMode := by
  obtain ⟨t, ht⟩ := hm.stacksOk.current
  obtain ⟨-, hsame⟩ := h.2.stacksOk hm.stacksOk
  have hother : ∀ i u', i ≠ m.cur → m'.kernel.sched.tasks i = some u' →
      UserFrame m'.kernel.mem u' := by
    intro i u' hi hu'
    obtain ⟨u, hu, -⟩ := hsame.task hu'
    obtain ⟨hcs, hss⟩ := huser.frames i u hi hu
    obtain ⟨u'', hu'', hrsp, heffect⟩ := h.2.otherEffect h.1 hm hi hu
    obtain rfl : u' = u'' := Option.some.inj (hu'.symm.trans hu'')
    rw [UserFrame, hrsp]
    rcases heffect with ⟨-, hframe⟩ | ⟨-, -, hframe⟩
    · exact ⟨by rw [hframe, hcs], by rw [hframe, hss]⟩
    · exact ⟨by rw [hframe, Function.update_of_ne (by decide), hcs],
        by rw [hframe, Function.update_of_ne (by decide), hss]⟩
  -- after an entry the frame of the task that was running holds the selectors too
  have hentry : (∀ mem regs, e ≠ .user mem regs) →
      (∃ t', m'.kernel.sched.tasks m.cur = some t' ∧ UserFrame m'.kernel.mem t') →
      m'.UserMode := by
    rintro he ⟨t', ht', hself⟩
    have hall : m'.kernel.UserFrames := by
      intro i u hu
      by_cases hi : i = m.cur
      · subst hi
        rwa [← Option.some.inj (ht'.symm.trans hu)]
      · exact hother i u hi hu
    obtain ⟨u, hu⟩ := (hm.step h).stacksOk.current
    have hregs := regs_of_entry h.2 hm.stacksOk.entersAtTop he hu
    exact ⟨by rw [hregs]; exact (hall _ u hu).1, by rw [hregs]; exact (hall _ u hu).2,
      fun i t _ ht ↦ hall i t ht⟩
  obtain ⟨hgood, hstep⟩ := h
  cases hstep with
  | user hcs hss => exact ⟨hcs.trans huser.cs, hss.trans huser.ss, hother⟩
  | tick h =>
    obtain ⟨htasks, hself, -⟩ := timer_effect hm ht h
    refine hentry (fun _ _ ↦ nofun) ⟨t, by rw [htasks, ht], ?_, ?_⟩
    · rw [hself, huser.cs]
    · rw [hself, huser.ss]
  | syscall h =>
    obtain ⟨mem, hsaved, ⟨t', ht', hrsp, hself⟩, -⟩ := syscall_effect hm hgood ht h
    refine hentry (fun _ _ ↦ nofun) ⟨t', ht', ?_⟩
    rw [UserFrame, hrsp]
    rcases hself with ⟨-, v, hframe, -⟩ | ⟨-, hframe, -⟩
    · rw [hframe, hsaved, Function.update_of_ne (by decide), Function.update_of_ne (by decide)]
      exact ⟨rfl, rfl⟩
    · rw [hframe, hsaved]
      exact ⟨rfl, rfl⟩

end Machine

theorem Started.userMode {m : Machine} {specs : List TaskSpec} (h : Started m specs)
    (hok : KernelStacksOk specs) : m.UserMode :=
  ⟨(h.user hok).1, (h.user hok).2, fun i t _ ht ↦ h.frames hok i t ht⟩

/-! ## The contexts of a run -/

/-- **Contexts survive.** In an orderly run from the start of the first task, the kernel is entered
while some task is running, and that task is not running again until `m₂`. If it was interrupted by
the timer, all its registers are what they were. If it made a system call, all are but `rax`, `rcx`
and `r11`, and `rax` holds the result of that call. -/
theorem context_preserved {k : Kernel} {specs : List TaskSpec} {m₀ m m₁ m₂ : Machine} {e : Event}
    {es es' : List Event} (hok : KernelStacksOk specs) (hstart : k.start specs = .ok m₀)
    (hrun : Run Machine.OrderlyStep m₀ es m) (hentry : Machine.OrderlyStep m e m₁)
    (haway : Run (Machine.AwayStep m.cur) m₁ es' m₂) (hback : m₂.cur = m.cur) :
    (e = .tick → m₂.regs = m.regs) ∧
    (e = .syscall → (∀ r, r ≠ .rax → r ≠ .rcx → r ≠ .r11 → m₂.regs r = m.regs r) ∧
      ∀ v, m.kernel.callResult (m.regs .rax) (m.regs .rdi) = some v → m₂.regs .rax = v) := by
  have hstarted := start_started hstart
  obtain ⟨hm, huser⟩ := hrun.invariant (P := fun n ↦ n.Sound ∧ n.UserMode)
    ⟨hstarted.sound hok, hstarted.userMode hok⟩ fun n e n' ⟨hn, huser⟩ hstep ↦
      ⟨hn.step hstep, huser.step hn hstep⟩
  constructor
  · rintro rfl
    exact (Machine.savedAs_tick hm hentry.2).resume_run hm hentry (fun _ _ ↦ nofun) haway hback
  · rintro rfl
    obtain ⟨f, hsaved, hregs, hrax⟩ := Machine.savedAs_syscall hm hentry
    rw [hsaved.resume_run hm hentry (fun _ _ ↦ nofun) haway hback]
    refine ⟨fun r h1 h2 h3 ↦ ?_, hrax⟩
    rw [hregs r h1]
    cases r with
    | rax => exact absurd rfl h1
    | rcx => exact absurd rfl h2
    | r11 => exact absurd rfl h3
    | cs => exact huser.cs.symm
    | ss => exact huser.ss.symm
    | _ => rfl

/-- Of two tasks the first has sent a message, and the second has received it and yielded. -/
def twoResumed : Machine := (twoReceived.load 2 0 0).syscall.result (by decide +kernel)

theorem context_preserved_twoTasks : twoResumed.regs .rdi = 2 ∧ twoResumed.regs .rax = 0 := by
  have hrecv : Machine.AwayStep 0 (twoSent.load 4 0 0x6000) .syscall twoReceived :=
    ⟨⟨by decide +kernel, orderlyStep_twoReceived.1⟩, orderlyStep_twoReceived.2⟩
  have hyield : Machine.AwayStep 0 (twoReceived.load 2 0 0) .syscall twoResumed :=
    ⟨⟨by decide +kernel, by decide +kernel, by decide +kernel⟩,
      .syscall (Checked.eq_ok_result _ _)⟩
  have hload : ∀ (m : Machine) (rax rdi rsi : UInt64), m.cur ≠ 0 →
      Machine.AwayStep 0 m (.user m.kernel.mem (m.load rax rdi rsi).regs) (m.load rax rdi rsi) :=
    fun m rax rdi rsi hne ↦ ⟨⟨hne, (Machine.OrderlyStep.load m rax rdi rsi).1⟩, .load m rax rdi rsi⟩
  obtain ⟨-, hcall⟩ := context_preserved twoTasks_ok (Checked.eq_ok_result _ _)
    (Run.nil.snoc (.load _ 3 2 0x5000)) orderlyStep_twoSent
    ((((Run.nil.snoc (hload _ 4 0 0x6000 (by decide +kernel))).snoc hrecv).snoc
      (hload _ 2 0 0 (by decide +kernel))).snoc hyield) (by decide +kernel)
  obtain ⟨hregs, hrax⟩ := hcall rfl
  exact ⟨hregs .rdi (by decide) (by decide) (by decide), hrax 0 (by decide +kernel)⟩

end RelizOS
