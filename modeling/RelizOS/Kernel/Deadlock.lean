import RelizOS.Kernel.Blocking
import RelizOS.Kernel.RoundRobin
import RelizOS.Kernel.SendReceive
import RelizOS.Library.WaitFor

/-!
# Deadlocks

A blocked task is released by another one only: a sender by the task it sends to, a receiver by a
task that its filter admits. Several tasks can wait for each other in a circle, or one for itself,
and then the kernel does nothing about it. It has no timeouts, and no task can be stopped or told
that its call has failed.

So a task that is blocked may never run again, and `deadlock_iff` says when: exactly if it belongs
to a set of blocked tasks that wait only for each other. Such a set stays as it is, whatever the
other tasks do and whenever the timer interrupts. And for every task outside such a set there are
programs for the other tasks, of yields, sends and receives, that make it run again.

As before, runs are those in which every call that blocks its caller finds another task to run.
-/

open ByteMemory LabelledRun WaitFor

namespace RelizOS

/-- What the task waits for could come from the task in slot `q`. -/
def Task.WaitsFor (t : Task) (q : Fin 8) : Prop :=
  match t.state with
  | .sending destId _ => destId = q + 1
  | .receiving srcId _ => Admits srcId q
  | .ready | .running => False

theorem Task.WaitsFor.congr {t t' : Task} {q : Fin 8} (h : t.WaitsFor q)
    (heq : t'.state = t.state) : t'.WaitsFor q := by
  rwa [Task.WaitsFor, heq]

namespace Scheduler

/-- There is a task in the slot, and it does not run. -/
def BlockedAt (s : Scheduler) (i : Fin 8) : Prop := ∃ t, s.tasks i = some t ∧ ¬t.IsRunnable

/-- There is a task in slot `q`, and the task in slot `p` waits for it. -/
def Helps (s : Scheduler) (q p : Fin 8) : Prop :=
  s.tasks q ≠ none ∧ ∃ t, s.tasks p = some t ∧ t.WaitsFor q

/-- The tasks in the slots are blocked and wait only for each other. -/
def Deadlocked (s : Scheduler) (S : Set (Fin 8)) : Prop := Closed s.BlockedAt s.Helps S

/-- The state of the task in a slot. -/
def stateAt (s : Scheduler) (i : Fin 8) : Option TaskState := (s.tasks i).map Task.state

section

variable {s s' : Scheduler} {i p q : Fin 8} {t : Task}

theorem exists_task_of_stateAt (h : s'.stateAt i = s.stateAt i) (ht : s.tasks i = some t) :
    ∃ t', s'.tasks i = some t' ∧ t'.state = t.state := by
  rw [stateAt, stateAt, ht, Option.map_some] at h
  exact Option.map_eq_some_iff.mp h

theorem BlockedAt.congr (h : s.BlockedAt i) (hstate : s'.stateAt i = s.stateAt i) :
    s'.BlockedAt i := by
  obtain ⟨t, ht, hblocked⟩ := h
  obtain ⟨t', ht', heq⟩ := exists_task_of_stateAt hstate ht
  refine ⟨t', ht', ?_⟩
  rwa [Task.IsRunnable, heq]

theorem RunnableAt.congr (h : s.RunnableAt i) (hstate : s'.stateAt i = s.stateAt i) :
    s'.RunnableAt i := by
  obtain ⟨t, ht, hrun⟩ := h
  obtain ⟨t', ht', heq⟩ := exists_task_of_stateAt hstate ht
  refine ⟨t', ht', ?_⟩
  rwa [Task.IsRunnable, heq]

theorem runnableAt_of_not_blockedAt (h : ¬s.BlockedAt i) (ht : s.tasks i ≠ none) :
    s.RunnableAt i := by
  obtain ⟨t, ht⟩ := Option.ne_none_iff_exists'.mp ht
  refine ⟨t, ht, ?_⟩
  by_contra hrun
  exact h ⟨t, ht, hrun⟩

end

end Scheduler

/-! ## What a step does to the others -/

namespace Kernel

variable {k k' : Kernel} {rsp newRsp : ℕ} {rax rdi rsi : UInt64} {p : Fin 8}

theorem switchTask_stateAt (h : k.switchTask rsp = .ok (newRsp, k')) (i : Fin 8) :
    k'.sched.stateAt i = k.sched.stateAt i := by
  have hi := congrArg (Option.map Task.state) (switchTask_tasks h i)
  rwa [Option.map_map, Option.map_map] at hi

theorem handOver_stateAt {i : Fin 8} {r buf : ℕ} {msg : Message} (hp : p ≠ i) :
    (k.handOver i r buf msg rsp).sched.stateAt p = k.sched.stateAt p :=
  congrArg (Option.map Task.state) (Scheduler.setState_tasks_of_ne hp)

/-- **A system call** changes the state of its caller, and of a task that waits for the caller. -/
theorem SyscallOutcome.stateAt (h : SyscallOutcome k rax rdi rsi rsp newRsp k') (hp : p ≠ k.cur)
    (hnot : ∀ t, k.sched.tasks p = some t → ¬t.WaitsFor k.cur) :
    k'.sched.stateAt p = k.sched.stateAt p := by
  have hblocked : ∀ {state newRsp k'}, k.block state rsp = .ok (newRsp, k') →
      k'.sched.stateAt p = k.sched.stateAt p := fun hblock ↦
    congrArg (Option.map Task.state) ((block_tasks hblock).1 p hp)
  -- a task that is handed a message over, or out of, has been waiting for the caller
  have hsender : ∀ {i : Fin 8} {sender : Task} {msg : Message},
      k.sched.tasks i = some sender → sender.state = .sending (k.cur + 1) msg → p ≠ i := by
    rintro i sender msg hsender hstate rfl
    refine hnot sender hsender ?_
    rw [Task.WaitsFor, hstate]
  cases h with
  | yield _ _ k₁ hswitch => exact switchTask_stateAt hswitch p
  | plain => rfl
  | send _ _ _ hsend =>
    cases hsend with
    | invalid => rfl
    | deliver d dest buf hid hdest hbuf =>
      refine handOver_stateAt ?_
      rintro rfl
      obtain ⟨srcId, hstate, hadmits⟩ := TaskState.bufferFor_eq_some.mp hbuf
      refine hnot dest hdest ?_
      rw [Task.WaitsFor, hstate]
      exact hadmits
    | block d dest hid hdest hbuf _ _ hblock => exact hblocked hblock
  | recv _ _ _ hrecv =>
    cases hrecv with
    | accept i sender msg htask hstate => exact handOver_stateAt (hsender htask hstate)
    | block hnone _ _ hblock => exact hblocked hblock
  | tryRecv _ _ _ hrecv =>
    cases hrecv with
    | accept i sender msg htask hstate => exact handOver_stateAt (hsender htask hstate)
    | empty => rfl

theorem SyscallOutcome.of_yield (h : SyscallOutcome k rax rdi rsi rsp newRsp k')
    (hrax : rax.toNat = 2) :
    ∃ k₁, k.switchTask rsp = .ok (newRsp, k₁) ∧ k' = k₁.setRax rsp 0 := by
  cases h with
  | yield _ _ k₁ hswitch => exact ⟨k₁, hswitch, rfl⟩
  | send hsend => omega
  | recv hrecv => omega
  | tryRecv htry => omega
  | plain hplain => simp [hrax] at hplain

theorem SyscallOutcome.of_send (h : SyscallOutcome k rax rdi rsi rsp newRsp k')
    (hrax : rax.toNat = 3) :
    SendOutcome k rdi.toNat (k.stampedMessage rsi.toNat) rsp newRsp k' := by
  cases h with
  | yield hyield => omega
  | send _ _ _ hsend => exact hsend
  | recv hrecv => omega
  | tryRecv htry => omega
  | plain hplain => simp [hrax] at hplain

theorem SyscallOutcome.of_recv (h : SyscallOutcome k rax rdi rsi rsp newRsp k')
    (hrax : rax.toNat = 4) : RecvOutcome k (srcIdOption rdi.toNat) rsi.toNat rsp newRsp k' := by
  cases h with
  | yield hyield => omega
  | send hsend => omega
  | recv _ _ _ hrecv => exact hrecv
  | tryRecv htry => omega
  | plain hplain => simp [hrax] at hplain

theorem sysSend_returns {t : Task} {buf msgPtr : ℕ} (ht : k.sched.tasks p = some t)
    (hbuf : t.state.bufferFor (k.cur + 1) = some buf) :
    ∃ r, k.sysSend (p + 1) msgPtr rsp = .ok r := by
  rw [sysSend, Checked.sub_of_le (Nat.le_add_left 1 p.val), Checked.ok_bind,
    dif_pos (show p.val + 1 - 1 < 8 from p.isLt)]
  have hslot : k.sched.tasks ⟨p.val + 1 - 1, p.isLt⟩ = some t := ht
  rw [hslot]
  dsimp only
  rw [hbuf]
  exact ⟨_, rfl⟩

end Kernel

namespace Machine

variable {m m' : Machine} {e : Event} {es : List Event} {p q : Fin 8} {S : Set (Fin 8)}

/-- **A step** changes the state of the running task, and of a task that waits for it. -/
theorem Step.stateAt (h : Step m e m') (hp : p ≠ m.cur)
    (hnot : ∀ t, m.kernel.sched.tasks p = some t → ¬t.WaitsFor m.cur) :
    m'.kernel.sched.stateAt p = m.kernel.sched.stateAt p := by
  cases h with
  | user => rfl
  | syscall h =>
    obtain ⟨mem, rsp, newRsp, hout⟩ := syscall_outcome h
    exact hout.stateAt hp hnot
  | tick h =>
    obtain ⟨mem, ticks, rsp, newRsp, hswitch⟩ := timer_outcome h
    exact Kernel.switchTask_stateAt hswitch p

/-- What holds of the machine between two steps, beside the tasks that are blocked. -/
structure Going (m : Machine) : Prop where
  ids : m.kernel.sched.IdsOk
  enters : m.kernel.EntersAtTop
  runnable : m.kernel.sched.RunnableAt m.cur
  tops : m.kernel.TopsOk

/-- The steps in which every call that blocks its caller finds another task. -/
abbrev GuardedStep : Machine → Event → Machine → Prop := guarded FindsRunnable Step

theorem Going.step (hm : Going m) (h : GuardedStep m e m') :
    Going m' ∧ ∀ i, m'.kernel.sched.tasks i = none ↔ m.kernel.sched.tasks i = none := by
  obtain ⟨hfinds, hstep⟩ := h
  obtain ⟨henters, hsame⟩ := hstep.entersAtTop hm.enters
  refine ⟨⟨(hstep.refines hm.ids).2, henters, (hstep.runnable_iff hm.runnable).mpr hfinds,
    fun i t ht ↦ ?_⟩, fun i ↦ ?_⟩
  · obtain ⟨u, hu, -, htop⟩ := hsame.task ht
    rw [← htop]
    exact hm.tops i u hu
  · have hi := hsame i
    rw [← Option.map_eq_none_iff (f := Task.stack), hi, Option.map_eq_none_iff]

theorem Going.run (hm : Going m) (h : Run GuardedStep m es m') : Going m' :=
  h.invariant hm fun _ _ _ hm hstep ↦ (hm.step hstep).1

/-! ## A deadlock is for ever -/

/-- **A deadlock stays as it is** in one step. -/
theorem deadlocked_step (hm : Going m) (hd : m.kernel.sched.Deadlocked S)
    (h : GuardedStep m e m') :
    m'.kernel.sched.Deadlocked S ∧
      ∀ p ∈ S, m'.kernel.sched.stateAt p = m.kernel.sched.stateAt p := by
  obtain ⟨-, hnone⟩ := hm.step h
  obtain ⟨u, hu, hrun⟩ := hm.runnable
  -- the running task is not in the set, and nobody in the set waits for it
  have hcur : m.cur ∉ S := by
    intro hcur
    obtain ⟨t, ht, hblocked⟩ := (hd _ hcur).1
    rw [hu] at ht
    exact hblocked (Option.some.inj ht ▸ hrun)
  have hstate : ∀ p ∈ S, m'.kernel.sched.stateAt p = m.kernel.sched.stateAt p := by
    intro p hp
    refine h.2.stateAt (fun heq ↦ hcur (heq ▸ hp)) fun t ht hwaits ↦ hcur ?_
    refine (hd p hp).2 _ ⟨?_, t, ht, hwaits⟩
    rw [hu]
    exact Option.some_ne_none u
  refine ⟨hd.of_imp (fun p hp hblocked ↦ hblocked.congr (hstate p hp)) ?_, hstate⟩
  rintro p hp q ⟨hq, t', ht', hwaits⟩
  obtain ⟨t, ht, heq⟩ := Scheduler.exists_task_of_stateAt (hstate p hp).symm ht'
  exact ⟨fun hmissing ↦ hq ((hnone q).mpr hmissing), t, ht, hwaits.congr heq⟩

/-- **A deadlock stays as it is** in every run. -/
theorem deadlocked_run (hm : Going m) (hd : m.kernel.sched.Deadlocked S)
    (h : Run GuardedStep m es m') :
    m'.kernel.sched.Deadlocked S ∧
      ∀ p ∈ S, m'.kernel.sched.stateAt p = m.kernel.sched.stateAt p := by
  have hall : Going m' ∧ m'.kernel.sched.Deadlocked S ∧
      ∀ p ∈ S, m'.kernel.sched.stateAt p = m.kernel.sched.stateAt p := by
    refine h.invariant (P := fun t ↦ Going t ∧ t.kernel.sched.Deadlocked S ∧
      ∀ p ∈ S, t.kernel.sched.stateAt p = m.kernel.sched.stateAt p) ⟨hm, hd, fun _ _ ↦ rfl⟩ ?_
    rintro t e t' ⟨ht, hd, hstate⟩ hstep
    obtain ⟨hd', hstate'⟩ := deadlocked_step ht hd hstep
    exact ⟨(ht.step hstep).1, hd', fun p hp ↦ (hstate' p hp).trans (hstate p hp)⟩
  exact hall.2

/-! ## Every other task can be released -/

/-- Tasks have been released, and none has been blocked. -/
def Wakes (m m' : Machine) : Prop :=
  ∀ i, m'.kernel.sched.stateAt i = m.kernel.sched.stateAt i ∨ m'.kernel.sched.RunnableAt i

theorem Wakes.trans {m₁ m₂ : Machine} (h : m.Wakes m₁) (h' : m₁.Wakes m₂) : m.Wakes m₂ := by
  intro i
  rcases h' i with heq | hrun
  · exact (h i).imp heq.trans fun hrun ↦ hrun.congr heq
  · exact Or.inr hrun

theorem exists_call (m : Machine) {rax rdi rsi : UInt64}
    (hfinds : m.kernel.WouldBlock rax rdi → m.kernel.OtherRunnable)
    (hreturns : ∀ mem sp, ∃ r,
      ({ m.kernel with mem := mem } : Kernel).handleSyscall rax rdi rsi sp = .ok r) :
    ∃ es m' mem rsp newRsp, Run GuardedStep m es m' ∧
      Kernel.SyscallOutcome { m.kernel with mem := mem } rax rdi rsi rsp newRsp m'.kernel := by
  obtain ⟨m', hcall⟩ : ∃ m', (m.load rax rdi rsi).syscall = .ok m' := by
    rw [syscall]
    dsimp only
    generalize pushWords (m.load rax rdi rsi).kernel.mem
      (m.load rax rdi rsi).kernel.currentKernelStack
      (syscallPushes (syscallInstruction (m.load rax rdi rsi).regs)) = pushed
    obtain ⟨mem, sp⟩ := pushed
    obtain ⟨r, hr⟩ := hreturns mem sp
    exact ⟨_, Checked.bind_eq_ok.mpr ⟨r, hr, rfl⟩⟩
  obtain ⟨mem, rsp, newRsp, hout⟩ := syscall_outcome hcall
  have hload : GuardedStep m (.user m.kernel.mem (m.load rax rdi rsi).regs) (m.load rax rdi rsi) :=
    ⟨trivial, .load m rax rdi rsi⟩
  have hfinds : (m.load rax rdi rsi).FindsRunnable .syscall := hfinds
  exact ⟨_, m', mem, rsp, newRsp, (Run.nil.snoc hload).snoc ⟨hfinds, .syscall hcall⟩, hout⟩

/-- The running task yields: another runnable task comes closer to its turn. -/
theorem exists_yield (hm : Going m) :
    ∃ es m', Run GuardedStep m es m' ∧
      (∀ i, m'.kernel.sched.stateAt i = m.kernel.sched.stateAt i) ∧
      ∀ q, m.kernel.sched.RunnableAt q → m.kernel.sched.distance q ≠ 0 →
        m'.kernel.sched.distance q < m.kernel.sched.distance q := by
  obtain ⟨t, ht, -⟩ := hm.runnable
  have hfinds : m.kernel.WouldBlock 2 0 → m.kernel.OtherRunnable := by
    rintro (⟨h3, -⟩ | ⟨h4, -⟩)
    · exact absurd h3 (by decide)
    · exact absurd h4 (by decide)
  have hreturns : ∀ mem sp, ∃ r,
      ({ m.kernel with mem := mem } : Kernel).handleSyscall 2 0 0 sp = .ok r := by
    intro mem sp
    obtain ⟨⟨newRsp, k'⟩, hswitch⟩ :=
      Kernel.switchTask_returns (k := { m.kernel with mem := mem }) ht hm.tops sp
    exact ⟨_, Checked.bind_eq_ok.mpr ⟨(newRsp, k'), hswitch, rfl⟩⟩
  obtain ⟨es, m', mem, rsp, newRsp, hrun, hout⟩ := exists_call m hfinds hreturns
  obtain ⟨k₁, hswitch, hk₁⟩ := hout.of_yield rfl
  have hstate : ∀ i, m'.kernel.sched.stateAt i = m.kernel.sched.stateAt i := by
    intro i
    have hi := Kernel.switchTask_stateAt hswitch i
    rw [hk₁]
    exact hi
  refine ⟨es, m', hrun, hstate, fun q hq hne ↦ ?_⟩
  obtain ⟨j, t', hsel, -, -, rfl⟩ :=
    Kernel.switchTask_cases (k := { m.kernel with mem := mem }) ht hswitch
  rw [hk₁] at hstate ⊢
  exact hsel.distance_lt rfl (hq.congr (hstate q)) hne

/-- **Every runnable task gets its turn** by yields of the others. -/
theorem exists_current (hm : Going m) (hq : m.kernel.sched.RunnableAt q) :
    ∃ es m', Run GuardedStep m es m' ∧
      (∀ i, m'.kernel.sched.stateAt i = m.kernel.sched.stateAt i) ∧ m'.cur = q := by
  induction hn : m.kernel.sched.distance q using Nat.strong_induction_on generalizing m with
  | _ n ih =>
    by_cases hcur : m.kernel.sched.distance q = 0
    · exact ⟨[], m, .nil, fun _ ↦ rfl, Scheduler.distance_eq_zero.mp hcur⟩
    · obtain ⟨es₁, m₁, hrun₁, hstate₁, hcloser⟩ := exists_yield hm
      obtain ⟨es₂, m₂, hrun₂, hstate₂, hcur₂⟩ :=
        ih _ (hn ▸ hcloser q hq hcur) (hm.run hrun₁) (hq.congr (hstate₁ q)) rfl
      exact ⟨_, m₂, hrun₁.append hrun₂, fun i ↦ (hstate₂ i).trans (hstate₁ i), hcur₂⟩

theorem wakes_handOver {k : Kernel} {t : Task} {r buf rsp : ℕ} {msg : Message}
    (hm' : m'.kernel = k.handOver p r buf msg rsp) (hsched : k.sched = m.kernel.sched)
    (ht : m.kernel.sched.tasks p = some t) :
    m.Wakes m' ∧ m'.kernel.sched.RunnableAt p := by
  have hreleased : m'.kernel.sched.RunnableAt p := by
    rw [hm']
    exact ⟨_, Scheduler.setState_tasks_self (hsched ▸ ht), Or.inl rfl⟩
  refine ⟨fun i ↦ ?_, hreleased⟩
  by_cases hi : i = p
  · exact Or.inr (hi ▸ hreleased)
  · rw [hm', ← hsched]
    exact Or.inl (Kernel.handOver_stateAt hi)

theorem exists_receive {t : Task} {msg : Message} (hm : Going m)
    (ht : m.kernel.sched.tasks p = some t) (hstate : t.state = .sending (m.cur + 1) msg) :
    ∃ es m', Run GuardedStep m es m' ∧ m.Wakes m' ∧ m'.kernel.sched.RunnableAt p := by
  have hid : (UInt64.ofNat (p.val + 1)).toNat = p.val + 1 :=
    UInt64.toNat_ofNat_of_lt' (by rw [UInt64.size]; omega)
  have hfilter : srcIdOption (UInt64.ofNat (p.val + 1)).toNat = some t.id := by
    rw [hid, srcIdOption, if_neg (Nat.succ_ne_zero _), hm.ids p t ht]
  have hsends : t.SendsTo (m.cur + 1) (srcIdOption (UInt64.ofNat (p.val + 1)).toNat) :=
    Kernel.sendsTo_of_sending hstate (Or.inr hfilter)
  -- the only task that the filter admits is the sender
  have honly : ∀ {i : Fin 8} {u : Task}, m.kernel.sched.tasks i = some u →
      (srcIdOption (UInt64.ofNat (p.val + 1)).toNat = none ∨
        srcIdOption (UInt64.ofNat (p.val + 1)).toNat = some u.id) → i = p := by
    intro i u hu hadmits
    rw [hfilter, hm.ids p t ht, hm.ids i u hu] at hadmits
    rcases hadmits with hnone | hsome
    · cases hnone
    · have := Option.some.inj hsome
      exact Fin.ext (by omega)
  have hfinds : m.kernel.WouldBlock 4 (UInt64.ofNat (p.val + 1)) → m.kernel.OtherRunnable := by
    rintro (⟨h3, -⟩ | ⟨-, hnone⟩)
    · exact absurd h3 (by decide)
    · exact absurd hsends (hnone p t ht)
  have hreturns : ∀ mem sp, ∃ r, ({ m.kernel with mem := mem } : Kernel).handleSyscall 4
      (UInt64.ofNat (p.val + 1)) 0 sp = .ok r := by
    intro mem sp
    cases hsearch : m.kernel.sched.recvSearch (m.cur + 1)
      (srcIdOption (UInt64.ofNat (p.val + 1)).toNat) with
    | none => exact absurd hsends (Scheduler.recvSearch_none hsearch ht)
    | some i =>
      obtain ⟨_, _, -, -, -, hrecv, -⟩ :=
        Kernel.receive_of_search (k := { m.kernel with mem := mem }) hsearch 0 sp
      exact ⟨_, hrecv⟩
  obtain ⟨es, m', mem, rsp, newRsp, hrun, hout⟩ := exists_call m hfinds hreturns
  refine ⟨es, m', hrun, ?_⟩
  obtain ⟨k', hk⟩ : ∃ k', m'.kernel = k' := ⟨_, rfl⟩
  rw [hk] at hout
  cases hout.of_recv rfl with
  | accept i sender msg' hsender _ hadmits =>
    obtain rfl := honly hsender hadmits
    exact wakes_handOver hk rfl ht
  | block hnone => exact absurd hsends (hnone p t ht)

theorem exists_send {t : Task} {srcId : Option ℕ} {buf : ℕ}
    (ht : m.kernel.sched.tasks p = some t) (hstate : t.state = .receiving srcId buf)
    (hadmits : Admits srcId m.cur) :
    ∃ es m', Run GuardedStep m es m' ∧ m.Wakes m' ∧ m'.kernel.sched.RunnableAt p := by
  have hid : (UInt64.ofNat (p.val + 1)).toNat = p.val + 1 :=
    UInt64.toNat_ofNat_of_lt' (by rw [UInt64.size]; omega)
  have hbuf : t.state.bufferFor (m.cur + 1) = some buf :=
    TaskState.bufferFor_eq_some.mpr ⟨srcId, hstate, hadmits⟩
  have honly : ∀ d : Fin 8, (UInt64.ofNat (p.val + 1)).toNat = d.val + 1 → d = p := by
    intro d hd
    rw [hid] at hd
    exact Fin.ext (by omega)
  have hfinds : m.kernel.WouldBlock 3 (UInt64.ofNat (p.val + 1)) → m.kernel.OtherRunnable := by
    rintro (⟨-, d, hd, dest, hdest, hnone⟩ | ⟨h4, -⟩)
    · obtain rfl := honly d hd
      rw [Option.some.inj (hdest.symm.trans ht), hbuf] at hnone
      cases hnone
    · exact absurd h4 (by decide)
  have hreturns : ∀ mem sp, ∃ r, ({ m.kernel with mem := mem } : Kernel).handleSyscall 3
      (UInt64.ofNat (p.val + 1)) 0 sp = .ok r := by
    intro mem sp
    have hsend : ({ m.kernel with mem := mem } : Kernel).handleSyscall 3
        (UInt64.ofNat (p.val + 1)) 0 sp = ({ m.kernel with mem := mem } : Kernel).sysSend
          (UInt64.ofNat (p.val + 1)).toNat 0 sp := rfl
    rw [hsend, hid]
    exact Kernel.sysSend_returns ht hbuf
  obtain ⟨es, m', mem, rsp, newRsp, hrun, hout⟩ := exists_call m hfinds hreturns
  refine ⟨es, m', hrun, ?_⟩
  obtain ⟨k', hk⟩ : ∃ k', m'.kernel = k' := ⟨_, rfl⟩
  rw [hk] at hout
  cases hout.of_send rfl with
  | invalid hdest =>
    have hnone := hdest p hid
    rw [show (_ : Option Task) = some t from ht] at hnone
    cases hnone
  | deliver d dest _ hd hdest _ =>
    obtain rfl := honly d hd
    exact wakes_handOver hk rfl ht
  | block d dest hd hdest hnone =>
    obtain rfl := honly d hd
    rw [Option.some.inj (hdest.symm.trans ht)] at hnone
    exact absurd (hbuf.symm.trans hnone) (Option.some_ne_none buf)

/-- **The running task releases** a task that waits for it, by a call with its id. -/
theorem exists_release {t : Task} (hm : Going m) (ht : m.kernel.sched.tasks p = some t)
    (hwaits : t.WaitsFor m.cur) :
    ∃ es m', Run GuardedStep m es m' ∧ m.Wakes m' ∧ m'.kernel.sched.RunnableAt p := by
  rw [Task.WaitsFor] at hwaits
  cases hstate : t.state with
  | ready | running =>
    rw [hstate] at hwaits
    exact hwaits.elim
  | sending destId msg =>
    rw [hstate] at hwaits
    obtain rfl : destId = m.cur + 1 := hwaits
    exact exists_receive hm ht hstate
  | receiving srcId buf =>
    rw [hstate] at hwaits
    exact exists_send ht hstate hwaits

/-- **A free task runs again** in some run. -/
theorem exists_run_of_free (hm : Going m) (hp : m.kernel.sched.tasks p ≠ none)
    (hfree : Free m.kernel.sched.BlockedAt m.kernel.sched.Helps p) :
    ∃ es m', Run GuardedStep m es m' ∧ m.Wakes m' ∧ m'.kernel.sched.RunnableAt p := by
  induction hfree with
  | unblocked h =>
    exact ⟨[], m, .nil, fun _ ↦ Or.inl rfl, Scheduler.runnableAt_of_not_blockedAt h hp⟩
  | @helped p q hhelps _ ih =>
    obtain ⟨hq, t, ht, hwaits⟩ := hhelps
    obtain ⟨es₁, m₁, hrun₁, hwakes₁, hrunnable⟩ := ih hq
    rcases hwakes₁ p with hstate | hreleased
    · -- the helper gets its turn, and releases the task
      have hm₁ := hm.run hrun₁
      obtain ⟨es₂, m₂, hrun₂, hstate₂, hcur⟩ := exists_current hm₁ hrunnable
      obtain ⟨t₂, ht₂, heq⟩ :=
        Scheduler.exists_task_of_stateAt ((hstate₂ p).trans hstate) ht
      obtain ⟨es₃, m₃, hrun₃, hwakes₃, hreleased⟩ :=
        exists_release (hm₁.run hrun₂) ht₂ (hcur ▸ hwaits.congr heq)
      exact ⟨_, m₃, (hrun₁.append hrun₂).append hrun₃,
        hwakes₁.trans (Wakes.trans (fun i ↦ Or.inl (hstate₂ i)) hwakes₃), hreleased⟩
    · exact ⟨es₁, m₁, hrun₁, hwakes₁, hreleased⟩

end Machine

/-- Kernel stacks in the lower half of the address space have tops that `VirtAddr::new` accepts. -/
theorem Started.topsOk {m : Machine} {specs : List TaskSpec} (h : Started m specs)
    (htops : ∀ spec ∈ specs, spec.kernelStack.ptr + spec.kernelStack.len < 2 ^ 47) :
    m.kernel.TopsOk := by
  intro i t ht
  obtain ⟨spec, hspec, hnew⟩ := h.spawned.task i t ht
  have htop : t.kernelStackTop < 2 ^ 47 :=
    hnew.below.trans_lt (htops spec (List.mem_of_getElem? hspec))
  exact Checked.ensure_eq_ok.mpr (Or.inl (Nat.div_eq_of_lt htop))

/-- **When a task never runs again**: in a state reached from the start of the first task, a task
runs in no continuation of the run exactly if it belongs to a set of blocked tasks that wait only
for each other. The tasks of such a set keep their states for ever. -/
theorem deadlock_iff {k : Kernel} {specs : List TaskSpec} {m₀ m : Machine} {es : List Event}
    (hstart : k.start specs = .ok m₀) (hids : SpecIdsOk specs)
    (htops : ∀ spec ∈ specs, spec.kernelStack.ptr + spec.kernelStack.len < 2 ^ 47)
    (hrun : Run Machine.GuardedStep m₀ es m) :
    (∀ i, m.kernel.sched.tasks i ≠ none →
      ((∀ es' m', Run Machine.GuardedStep m es' m' → ¬m'.kernel.sched.RunnableAt i) ↔
        ∃ S, m.kernel.sched.Deadlocked S ∧ i ∈ S)) ∧
    ∀ S, m.kernel.sched.Deadlocked S → ∀ es' m', Run Machine.GuardedStep m es' m' →
      m'.kernel.sched.Deadlocked S ∧
        ∀ i ∈ S, m'.kernel.sched.stateAt i = m.kernel.sched.stateAt i := by
  have hstarted := start_started hstart
  have hm : m.Going := Machine.Going.run ⟨hstarted.idsOk hids, hstarted.entersAtTop,
    hstarted.runnable, hstarted.topsOk htops⟩ hrun
  refine ⟨fun i hi ↦ ?_, fun S hd es' m' hrun' ↦ Machine.deadlocked_run hm hd hrun'⟩
  constructor
  · intro hnever
    apply not_free_iff.mp
    intro hfree
    obtain ⟨es', m', hrun', -, hrunnable⟩ := Machine.exists_run_of_free hm hi hfree
    exact hnever es' m' hrun' hrunnable
  · rintro ⟨S, hd, hmem⟩ es' m' hrun' ⟨t, ht, hrunnable⟩
    obtain ⟨hd', -⟩ := Machine.deadlocked_run hm hd hrun'
    obtain ⟨t', ht', hblocked⟩ := (hd' i hmem).1
    exact hblocked (Option.some.inj (ht.symm.trans ht') ▸ hrunnable)

/-- Of two tasks the first has sent a message to itself. -/
def selfSent : Machine := (twoStarted.load 3 1 0x5000).syscall.result (by decide +kernel)

theorem deadlock_iff_selfSent :
    ¬∃ es m, Run Machine.GuardedStep selfSent es m ∧ m.kernel.sched.RunnableAt 0 := by
  have hload : Machine.GuardedStep twoStarted (.user _ _) _ :=
    ⟨trivial, .load twoStarted 3 1 0x5000⟩
  have hsend : Machine.GuardedStep (twoStarted.load 3 1 0x5000) .syscall selfSent :=
    ⟨by decide +kernel, .syscall (Checked.eq_ok_result _ _)⟩
  have htask : selfSent.kernel.sched.tasks 0 =
      some ⟨1, 0x20f60, 0x21000, .sending 1 ⟨1, 0, 0, 0, 0, 0⟩⟩ := by decide +kernel
  have hiff := (deadlock_iff (Checked.eq_ok_result _ _) specIdsOk_twoTasks (by decide)
    ((Run.nil.snoc hload).snoc hsend)).1 0 (by simp [htask])
  rintro ⟨es, m, hrun, hrunnable⟩
  refine hiff.mpr ⟨{0}, ?_, rfl⟩ es m hrun hrunnable
  -- only itself could receive the message
  rintro p rfl
  refine ⟨⟨_, htask, TaskState.not_isRunnable_sending⟩, ?_⟩
  rintro q ⟨-, t, ht, hwaits⟩
  obtain rfl := Option.some.inj (htask.symm.trans ht)
  have hq : 1 = q.val + 1 := hwaits
  exact Fin.ext (by omega)

end RelizOS
