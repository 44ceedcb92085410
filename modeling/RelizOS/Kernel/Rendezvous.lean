import RelizOS.Kernel.Machine
import RelizOS.Library.Rendezvous

/-!
# The IPC is a synchronous rendezvous

A task that is sending holds a message, a task that is receiving waits with a filter, and every
other task is idle. Under this view of the scheduler each step of the machine is a step of
`Rendezvous` (`Machine.Step.refines`), whoever acts and whether or not the acting task should have
been running.

That no rendezvous is missed follows at once: no task is ever left sending to one that is left
receiving from it.
-/

open LabelledRun

namespace RelizOS

/-! ## The view -/

/-- The slot of the task with a given id. -/
def slotOf (id : ℕ) : Option (Fin 8) := if h : id - 1 < 8 ∧ 0 < id then some ⟨id - 1, h.1⟩ else none

theorem slotOf_eq_some {id : ℕ} {i : Fin 8} : slotOf id = some i ↔ id = i + 1 := by
  have hi := i.isLt
  rw [slotOf]
  by_cases h : id - 1 < 8 ∧ 0 < id
  · rw [dif_pos h, Option.some_inj, Fin.ext_iff]
    dsimp only
    omega
  · rw [dif_neg h]
    simp only [reduceCtorEq, false_iff]
    omega

@[simp] theorem slotOf_succ (i : Fin 8) : slotOf (i + 1) = some i := slotOf_eq_some.mpr rfl

/-- The filter of a receive admits the task in slot `i`. -/
def Admits (srcId : Option ℕ) (i : Fin 8) : Prop := srcId = none ∨ srcId = some (i.val + 1)

/-- What a task is doing. -/
abbrev Status := Rendezvous.Status (Fin 8) Message (Option ℕ)

/-- What a task in this state is doing. -/
def TaskState.status : TaskState → Status
  | .ready | .running => .idle
  | .sending destId msg =>
    match slotOf destId with
    | some d => .sending d msg
    | none => .idle
  | .receiving srcId _ => .receiving srcId

/-- What the task in a slot is doing. -/
def Scheduler.status (s : Scheduler) (i : Fin 8) : Status :=
  match s.tasks i with
  | some t => t.state.status
  | none => .idle

/-- Every task has the id of its slot. -/
def Scheduler.IdsOk (s : Scheduler) : Prop := ∀ i t, s.tasks i = some t → t.id = i + 1

/-- Every task is ready. -/
def Scheduler.AllReady (s : Scheduler) : Prop := ∀ i t, s.tasks i = some t → t.state = .ready

instance (s : Scheduler) : Decidable s.IdsOk :=
  inferInstanceAs (Decidable (∀ i, ∀ t ∈ s.tasks i, t.id = i + 1))

instance (s : Scheduler) : Decidable s.AllReady :=
  inferInstanceAs (Decidable (∀ i, ∀ t ∈ s.tasks i, t.state = .ready))

theorem TaskState.status_eq_sending {st : TaskState} {d : Fin 8} {msg : Message} :
    st.status = .sending d msg ↔ st = .sending (d + 1) msg := by
  cases st with
  | sending destId msg' =>
    rw [TaskState.status]
    constructor
    · intro h
      cases hslot : slotOf destId with
      | none => simp [hslot] at h
      | some d' =>
        rw [hslot, Rendezvous.Status.sending.injEq] at h
        rw [slotOf_eq_some.mp hslot, h.1, h.2]
    · intro h
      obtain ⟨rfl, rfl⟩ := TaskState.sending.inj h
      rw [slotOf_succ]
  | ready => simp [TaskState.status]
  | running => simp [TaskState.status]
  | receiving srcId buf => simp [TaskState.status]

theorem TaskState.status_eq_receiving {st : TaskState} {srcId : Option ℕ} :
    st.status = .receiving srcId ↔ ∃ buf, st = .receiving srcId buf := by
  cases st with
  | sending destId msg' =>
    rw [TaskState.status]
    cases slotOf destId <;> simp
  | ready => simp [TaskState.status]
  | running => simp [TaskState.status]
  | receiving srcId' buf => simp [TaskState.status]

/-- A buffer for a sender is that of a receiver that admits it. -/
theorem TaskState.bufferFor_eq_some {st : TaskState} {i : Fin 8} {buf : ℕ} :
    st.bufferFor (i + 1) = some buf ↔ ∃ srcId, st = .receiving srcId buf ∧ Admits srcId i := by
  cases st with
  | receiving srcId buf' =>
    rw [TaskState.bufferFor]
    by_cases h : srcId = none ∨ srcId = some (i.val + 1)
    · rw [if_pos h, Option.some_inj]
      constructor
      · rintro rfl
        exact ⟨srcId, rfl, h⟩
      · rintro ⟨_, heq, -⟩
        exact (TaskState.receiving.inj heq).2
    · rw [if_neg h]
      constructor
      · intro hno
        cases hno
      · rintro ⟨srcId', heq, hadmits⟩
        obtain ⟨rfl, -⟩ := TaskState.receiving.inj heq
        exact absurd hadmits h
  | ready => simp [TaskState.bufferFor]
  | running => simp [TaskState.bufferFor]
  | sending destId msg => simp [TaskState.bufferFor]

namespace Scheduler

variable {s : Scheduler} {i : Fin 8} {t : Task} {state : TaskState}

theorem status_of_task (h : s.tasks i = some t) : s.status i = t.state.status := by
  rw [status, h]

theorem status_eq_sending {d : Fin 8} {msg : Message} :
    s.status i = .sending d msg ↔ ∃ t, s.tasks i = some t ∧ t.state = .sending (d + 1) msg := by
  rw [status]
  cases ht : s.tasks i with
  | none => simp
  | some t => simp [TaskState.status_eq_sending]

theorem status_congr {s' : Scheduler}
    (h : ∀ i, (s'.tasks i).map Task.state = (s.tasks i).map Task.state) : s'.status = s.status := by
  funext i
  have hi := h i
  rw [status, status]
  cases ht : s.tasks i <;> cases ht' : s'.tasks i <;> simp [ht, ht'] at hi ⊢
  rw [hi]

theorem status_putCurrent :
    (s.putCurrent t).status = Function.update s.status s.currentTaskIdx t.state.status := by
  funext i
  by_cases hi : i = s.currentTaskIdx
  · subst hi
    rw [Function.update_self, status_of_task putCurrent_tasks_self]
  · rw [Function.update_of_ne hi, status, putCurrent_tasks_of_ne hi, status]

theorem setState_tasks_self (h : s.tasks i = some t) :
    (s.setState i state).tasks i = some { t with state := state } := by
  rw [setState]
  dsimp only
  rw [Function.update_self, h]
  rfl

theorem setState_tasks_of_ne {j : Fin 8} (h : j ≠ i) : (s.setState i state).tasks j = s.tasks j :=
  Function.update_of_ne h _ _

theorem status_setState (h : s.tasks i = some t) :
    (s.setState i state).status = Function.update s.status i state.status := by
  funext j
  by_cases hj : j = i
  · subst hj
    rw [Function.update_self, status_of_task (setState_tasks_self h)]
  · rw [Function.update_of_ne hj, status, setState_tasks_of_ne hj, status]

theorem AllReady.status_eq (h : s.AllReady) (i : Fin 8) : s.status i = .idle := by
  rw [status]
  cases ht : s.tasks i with
  | none => rfl
  | some t =>
    dsimp only
    rw [h i t ht]
    rfl

/-! ### Ids never change -/

theorem IdsOk.of_map {s' : Scheduler} (h : s.IdsOk)
    (hmap : ∀ i, (s'.tasks i).map Task.id = (s.tasks i).map Task.id) : s'.IdsOk := by
  intro i t' ht'
  have hi := hmap i
  rw [ht', Option.map_some] at hi
  obtain ⟨t, ht, hid⟩ := Option.map_eq_some_iff.mp hi.symm
  rw [← hid, h i t ht]

end Scheduler

/-! ## Each outcome is a step -/

namespace Kernel

open Rendezvous

variable {k k' : Kernel} {rsp newRsp : ℕ}

theorem switchTask_status (h : k.switchTask rsp = .ok (newRsp, k')) :
    k'.sched.status = k.sched.status := by
  refine Scheduler.status_congr fun i ↦ ?_
  have hi := congrArg (Option.map Task.state) (switchTask_tasks h i)
  rwa [Option.map_map, Option.map_map] at hi

theorem switchTask_idsOk (h : k.switchTask rsp = .ok (newRsp, k')) (hids : k.sched.IdsOk) :
    k'.sched.IdsOk := by
  refine hids.of_map fun i ↦ ?_
  have hi := congrArg (Option.map Task.id) (switchTask_tasks h i)
  rwa [Option.map_map, Option.map_map] at hi

theorem block_status {state : TaskState} (h : k.block state rsp = .ok (newRsp, k')) :
    k'.sched.status = Function.update k.sched.status k.cur state.status := by
  obtain ⟨t, j, t', hcur, -, -, -, rfl⟩ := block_cases h
  exact Scheduler.status_putCurrent

theorem block_idsOk {state : TaskState} (h : k.block state rsp = .ok (newRsp, k'))
    (hids : k.sched.IdsOk) : k'.sched.IdsOk := by
  obtain ⟨t, j, t', hcur, -, -, -, rfl⟩ := block_cases h
  intro i u hu
  by_cases hi : i = k.cur
  · subst hi
    rw [switchedTo] at hu
    rw [← Option.some.inj (Scheduler.putCurrent_tasks_self.symm.trans hu)]
    exact hids _ t hcur
  · exact hids i u ((Scheduler.putCurrent_tasks_of_ne hi).symm.trans hu)

theorem handOver_idsOk {i : Fin 8} {r buf : ℕ} {msg : Message} (hids : k.sched.IdsOk) :
    (k.handOver i r buf msg rsp).sched.IdsOk := by
  refine hids.of_map fun j ↦ ?_
  rw [handOver]
  dsimp only
  by_cases hj : j = i
  · subst hj
    rw [Scheduler.setState]
    dsimp only
    rw [Function.update_self, Option.map_map]
    rfl
  · rw [Scheduler.setState_tasks_of_ne hj]

theorem handOver_deliver {d : Fin 8} {dest : Task} {srcId : Option ℕ} {buf : ℕ} {msg : Message}
    (hdest : k.sched.tasks d = some dest) (hstate : dest.state = .receiving srcId buf)
    (hadmits : Admits srcId k.cur) :
    Step Admits k.sched.status (.deliver k.cur d srcId msg)
      (k.handOver d dest.rsp buf msg rsp).sched.status := by
  rw [handOver, Scheduler.status_setState hdest]
  refine .deliver ?_ hadmits
  rw [Scheduler.status_of_task hdest, hstate]
  rfl

theorem handOver_accept {i : Fin 8} {sender : Task} {srcId : Option ℕ} {buf : ℕ} {msg : Message}
    (hids : k.sched.IdsOk) (hsender : k.sched.tasks i = some sender)
    (hstate : sender.state = .sending (k.cur + 1) msg)
    (hadmits : srcId = none ∨ srcId = some sender.id) :
    Step Admits k.sched.status (.accept i k.cur srcId msg)
      (k.handOver i sender.rsp buf msg rsp).sched.status := by
  rw [handOver, Scheduler.status_setState hsender]
  refine .accept (Scheduler.status_eq_sending.mpr ⟨sender, hsender, hstate⟩) ?_
  rwa [Admits, ← hids i sender hsender]

theorem block_post {d : Fin 8} {dest : Task} {msg : Message}
    (hdest : k.sched.tasks d = some dest) (hbuf : dest.state.bufferFor (k.cur + 1) = none)
    (hblock : k.block (.sending (d + 1) msg) rsp = .ok (newRsp, k')) :
    Step Admits k.sched.status (.post k.cur d msg) k'.sched.status := by
  have hstatus : (TaskState.sending (d + 1) msg).status = .sending d msg :=
    TaskState.status_eq_sending.mpr rfl
  rw [block_status hblock, hstatus]
  refine .post fun hadmits ↦ ?_
  rw [Scheduler.status_of_task hdest] at hadmits
  cases hst : dest.state.status with
  | idle => rw [hst] at hadmits; exact hadmits
  | sending d' msg' => rw [hst] at hadmits; exact hadmits
  | receiving srcId =>
    rw [hst] at hadmits
    obtain ⟨buf, hstate⟩ := TaskState.status_eq_receiving.mp hst
    rw [TaskState.bufferFor_eq_some.mpr ⟨srcId, hstate, hadmits⟩] at hbuf
    cases hbuf

theorem block_wait {srcId : Option ℕ} {buf : ℕ} (hids : k.sched.IdsOk)
    (hnone : ∀ i t, k.sched.tasks i = some t → ¬t.SendsTo (k.cur + 1) srcId)
    (hblock : k.block (.receiving srcId buf) rsp = .ok (newRsp, k')) :
    Step Admits k.sched.status (.wait k.cur srcId) k'.sched.status := by
  rw [block_status hblock]
  refine .wait fun src msg hsrc hadmits ↦ ?_
  obtain ⟨t, ht, hstate⟩ := Scheduler.status_eq_sending.mp hsrc
  refine hnone src t ht ?_
  rw [Task.SendsTo, hstate]
  exact ⟨rfl, by rwa [hids src t ht]⟩

/-- **Every system call is a step of the rendezvous.** -/
theorem SyscallOutcome.refines {rax rdi rsi : UInt64}
    (h : SyscallOutcome k rax rdi rsi rsp newRsp k') (hids : k.sched.IdsOk) :
    (∃ l, Step Admits k.sched.status l k'.sched.status) ∧ k'.sched.IdsOk := by
  cases h with
  | yield _ _ k₁ hswitch =>
    have hstatus := switchTask_status hswitch
    have hids' := switchTask_idsOk hswitch hids
    exact ⟨⟨.silent, by rw [setRax, hstatus]; exact .silent⟩, hids'⟩
  | plain => exact ⟨⟨.silent, .silent⟩, hids⟩
  | send _ _ _ hsend =>
    cases hsend with
    | invalid => exact ⟨⟨.silent, .silent⟩, hids⟩
    | deliver d dest buf _ hdest hbuf =>
      obtain ⟨srcId, hstate, hadmits⟩ := TaskState.bufferFor_eq_some.mp hbuf
      exact ⟨⟨_, handOver_deliver hdest hstate hadmits⟩, handOver_idsOk hids⟩
    | block d dest hid hdest hbuf _ _ hblock =>
      exact ⟨⟨_, block_post hdest hbuf (hid ▸ hblock)⟩, block_idsOk hblock hids⟩
  | recv _ _ _ hrecv =>
    cases hrecv with
    | accept i sender msg hsender hstate hadmits =>
      exact ⟨⟨_, handOver_accept hids hsender hstate hadmits⟩, handOver_idsOk hids⟩
    | block hnone _ _ hblock => exact ⟨⟨_, block_wait hids hnone hblock⟩, block_idsOk hblock hids⟩
  | tryRecv _ _ _ hrecv =>
    cases hrecv with
    | accept i sender msg hsender hstate hadmits =>
      exact ⟨⟨_, handOver_accept hids hsender hstate hadmits⟩, handOver_idsOk hids⟩
    | empty => exact ⟨⟨.silent, .silent⟩, hids⟩

end Kernel

/-! ## Every step of the machine is a step of the rendezvous -/

/-- **Refinement**, for every step. -/
theorem Machine.Step.refines {m m' : Machine} {e : Event} (h : Machine.Step m e m')
    (hids : m.kernel.sched.IdsOk) :
    (∃ l, Rendezvous.Step Admits m.kernel.sched.status l m'.kernel.sched.status) ∧
      m'.kernel.sched.IdsOk := by
  cases h with
  | user => exact ⟨⟨.silent, .silent⟩, hids⟩
  | syscall h =>
    obtain ⟨mem, rsp, newRsp, hout⟩ := Machine.syscall_outcome h
    exact hout.refines hids
  | tick h =>
    obtain ⟨mem, ticks, rsp, newRsp, hswitch⟩ := Machine.timer_outcome h
    have hstatus := Kernel.switchTask_status hswitch
    exact ⟨⟨.silent, by rw [hstatus]; exact .silent⟩, Kernel.switchTask_idsOk hswitch hids⟩

/-! ## No rendezvous is missed -/

/-- In every reachable state no rendezvous has been missed. -/
theorem noMissed_run {m m' : Machine} {es : List Event} (hready : m.kernel.sched.AllReady)
    (hids : m.kernel.sched.IdsOk) (hrun : Run Machine.Step m es m') :
    Rendezvous.NoMissed Admits m'.kernel.sched.status ∧ m'.kernel.sched.IdsOk := by
  refine hrun.invariant
    (P := fun t ↦ Rendezvous.NoMissed Admits t.kernel.sched.status ∧ t.kernel.sched.IdsOk)
    ⟨fun src dst msg hsrc ↦ ?_, hids⟩ fun t e t' ⟨hno, hids⟩ hstep ↦ ?_
  · rw [hready.status_eq] at hsrc
    cases hsrc
  · obtain ⟨⟨l, hl⟩, hids'⟩ := hstep.refines hids
    exact ⟨hl.noMissed hno, hids'⟩

/-- **No pair of tasks is left blocked on each other.** From tasks that are all ready and have the
ids of their slots, no run of user code, system calls and timer interrupts reaches a state in which
one task is sending to another that is receiving from it or from any. -/
theorem no_missed_rendezvous {m m' : Machine} {es : List Event} (hready : m.kernel.sched.AllReady)
    (hids : m.kernel.sched.IdsOk) (hrun : Run Machine.Step m es m') {i j : Fin 8} {s r : Task}
    (hs : m'.kernel.sched.tasks i = some s) (hr : m'.kernel.sched.tasks j = some r)
    {msg : Message} {srcId : Option ℕ} {buf : ℕ} (hsending : s.state = .sending r.id msg)
    (hreceiving : r.state = .receiving srcId buf) : ¬(srcId = none ∨ srcId = some s.id) := by
  obtain ⟨hno, hids'⟩ := noMissed_run hready hids hrun
  rw [hids' j r hr] at hsending
  have hadmits := hno i j msg (Scheduler.status_eq_sending.mpr ⟨s, hs, hsending⟩)
  rw [Scheduler.status_of_task hr, hreceiving] at hadmits
  rw [hids' i s hs]
  exact hadmits

/-- Of two tasks the first has sent a message to the second. -/
def twoSent : Machine := (twoStarted.load 3 2 0x5000).syscall.result (by decide +kernel)

/-- Then the second has asked for a message of a third. -/
def twoBlocked : Machine := (twoSent.load 4 3 0x6000).syscall.result (by decide +kernel)

theorem run_twoBlocked : ∃ es, Run Machine.Step twoStarted es twoBlocked :=
  ⟨_, (((Run.nil.snoc (.load _ 3 2 0x5000)).snoc (.syscall (Checked.eq_ok_result _ _))).snoc
    (.load _ 4 3 0x6000)).snoc (.syscall (Checked.eq_ok_result _ _))⟩

theorem no_missed_rendezvous_twoTasks : ¬((some 3 : Option ℕ) = none ∨ some 3 = some 1) := by
  obtain ⟨es, hrun⟩ := run_twoBlocked
  have hs : twoBlocked.kernel.sched.tasks 0 =
      some ⟨1, 0x20f60, 0x21000, .sending 2 ⟨1, 0, 0, 0, 0, 0⟩⟩ := by decide +kernel
  have hr : twoBlocked.kernel.sched.tasks 1 =
      some ⟨2, 0x40f60, 0x41000, .receiving (some 3) 0x6000⟩ := by decide +kernel
  exact no_missed_rendezvous (by decide +kernel) (by decide +kernel) hrun hs hr rfl rfl

end RelizOS
