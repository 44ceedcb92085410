import RelizOS.Kernel.Rendezvous

/-!
# What a send and a receive promise

A send to a task that does not exist is refused: the caller goes on with -1 and nothing else has
changed (`Refused`). The conversion of the id to an index comes before the check, so a send to id 0
is not refused but ends in a panic (`send_refused_iff`).

The two receives search for a sender in the same way and take its message in the same way. They
differ when there is none: `sys_try_recv` then refuses and `sys_recv` blocks its caller
(`recv_tryRecv`).
-/

open ByteMemory

namespace RelizOS

/-- No task has the id. -/
def Scheduler.NoTask (s : Scheduler) (id : ℕ) : Prop := ∀ d : Fin 8, id = d + 1 → s.tasks d = none

namespace Kernel

variable {k k' : Kernel} {rsp newRsp : ℕ}

/-! ## A send to no task -/

/-- The call returns to its caller with -1, and nothing else has changed. -/
structure Refused (k : Kernel) (rsp newRsp : ℕ) (k' : Kernel) : Prop where
  /-- The stack pointer is the caller's own. -/
  newRsp : newRsp = rsp
  /-- The result. -/
  result : readU64 k'.mem (rsp + 8 * 14) = -1
  /-- All tasks, the current one and the other data of the kernel stay. -/
  kernel : k' = { k with mem := k'.mem }
  /-- So does the rest of memory. -/
  mem : ∀ a, a < rsp + 8 * 14 ∨ rsp + 8 * 14 + 8 ≤ a → k'.mem a = k.mem a

theorem refused_setRax (k : Kernel) (rsp : ℕ) : k.Refused rsp rsp (k.setRax rsp (-1)) where
  newRsp := rfl
  result := readU64_writeU64_self _ _ _
  kernel := rfl
  mem _ h := writeLE_outside h

theorem sysSend_noTask {destId : ℕ} (hpos : destId ≠ 0) (h : k.sched.NoTask destId)
    (msgPtr rsp : ℕ) : k.sysSend destId msgPtr rsp = .ok (rsp, k.setRax rsp (-1)) := by
  rw [sysSend, Checked.sub_of_le (Nat.pos_of_ne_zero hpos), Checked.ok_bind]
  by_cases hlt : destId - 1 < 8
  · have hnone : k.sched.tasks ⟨destId - 1, hlt⟩ = none :=
      h _ (Nat.sub_add_cancel (Nat.pos_of_ne_zero hpos)).symm
    rw [dif_pos hlt, hnone]
    rfl
  · rw [dif_neg hlt]
    rfl

/-- **A send to a task that does not exist is refused** exactly when its id is not 0. -/
theorem send_refused_iff (k : Kernel) (rdi rsi : UInt64) (rsp : ℕ)
    (h : k.sched.NoTask rdi.toNat) :
    (∃ newRsp k', k.handleSyscall 3 rdi rsi rsp = .ok (newRsp, k') ∧ k.Refused rsp newRsp k') ↔
      rdi ≠ 0 := by
  constructor
  · rintro ⟨newRsp, k', hcall, -⟩ rfl
    cases hcall
  · intro hne
    have hpos : rdi.toNat ≠ 0 := fun hzero ↦ hne (UInt64.toNat_inj.mp hzero)
    exact ⟨rsp, k.setRax rsp (-1), sysSend_noTask hpos h rsi.toNat rsp, k.refused_setRax rsp⟩

/-- Of the two tasks that have been started one sends to a third. -/
theorem send_refused_iff_twoTasks :
    ∃ newRsp k', twoStarted.kernel.handleSyscall 3 3 0x5000 0x20f60 = .ok (newRsp, k') ∧
      twoStarted.kernel.Refused 0x20f60 newRsp k' := by
  refine (send_refused_iff twoStarted.kernel 3 0x5000 0x20f60 ?_).mpr (by decide)
  have hnone : twoStarted.kernel.sched.tasks 2 = none := by decide +kernel
  intro d hd
  obtain rfl : d = 2 := Fin.ext (Nat.succ.inj hd).symm
  exact hnone

/-- A send to id 0, which no task has, panics. -/
theorem not_send_refused :
    (¬∀ (k : Kernel) (rdi rsi : UInt64) (rsp : ℕ), k.sched.NoTask rdi.toNat →
      ∃ newRsp k', k.handleSyscall 3 rdi rsi rsp = .ok (newRsp, k') ∧ k.Refused rsp newRsp k') ∧
    twoStarted.kernel.handleSyscall 3 0 0x5000 0x20f60 = .error .overflow := by
  refine ⟨fun hgeneral ↦ ?_, rfl⟩
  obtain ⟨newRsp, k', hcall, -⟩ := hgeneral twoStarted.kernel 0 0x5000 0x20f60 nofun
  cases hcall

/-! ## The two receives -/

/-- The tops of the kernel stacks are addresses that `VirtAddr::new` accepts. -/
def TopsOk (k : Kernel) : Prop :=
  ∀ i, ∀ t ∈ k.sched.tasks i, virtAddrNew t.kernelStackTop = .ok ()

theorem switchTask_returns {t : Task} (hcur : k.sched.tasks k.cur = some t) (htops : k.TopsOk)
    (rsp : ℕ) : ∃ r, k.switchTask rsp = .ok r := by
  rw [switchTask, Scheduler.saveCurrentRsp_eq hcur]
  obtain ⟨j, hj, hsel⟩ := (k.sched.putCurrent { t with rsp := rsp }).selectNextTask_spec
  rw [hj, Checked.ok_bind]
  have htask : ∃ u, (k.sched.putCurrent { t with rsp := rsp }).tasks j = some u ∧
      virtAddrNew u.kernelStackTop = .ok () := by
    by_cases hjcur : j = k.cur
    · subst hjcur
      exact ⟨_, Scheduler.putCurrent_tasks_self, htops k.cur t hcur⟩
    · rcases hsel with ⟨-, -, -, -, ⟨u, hu, -⟩, -⟩ | ⟨heq, -⟩
      · refine ⟨u, hu, htops j u ?_⟩
        rwa [Scheduler.putCurrent_tasks_of_ne hjcur] at hu
      · exact absurd heq hjcur
  obtain ⟨u, hu, htop⟩ := htask
  have hcur' : ({ k.sched.putCurrent { t with rsp := rsp } with currentTaskIdx := j } :
      Scheduler).currentTask = some u := hu
  rw [Scheduler.getCurrentRsp_eq hcur', Checked.ok_bind, hcur']
  dsimp only
  rw [htop]
  exact ⟨_, rfl⟩

theorem block_returns {t : Task} (hcur : k.sched.tasks k.cur = some t) (htops : k.TopsOk)
    (state : TaskState) (rsp : ℕ) : ∃ r, k.block state rsp = .ok r := by
  have hcurrent : k.sched.currentTask = some t := hcur
  rw [block, hcurrent, Checked.unwrap_some, Checked.ok_bind, Scheduler.setState_current hcur]
  refine switchTask_returns (t := { t with state := state }) Scheduler.putCurrent_tasks_self
    (fun i u hu ↦ ?_) rsp
  by_cases hi : i = k.cur
  · subst hi
    rw [Option.mem_def, Scheduler.putCurrent_tasks_self] at hu
    rw [← Option.some.inj hu]
    exact htops k.cur t hcur
  · rw [Option.mem_def, Scheduler.putCurrent_tasks_of_ne hi] at hu
    exact htops i u hu

theorem block_tasks {state : TaskState} (h : k.block state rsp = .ok (newRsp, k')) :
    (∀ i ≠ k.cur, k'.sched.tasks i = k.sched.tasks i) ∧
      ∃ t ∈ k.sched.tasks k.cur,
        k'.sched.tasks k.cur = some { t with state := state, rsp := rsp } := by
  obtain ⟨t, j, t', hcur, -, -, -, rfl⟩ := block_cases h
  exact ⟨fun i hi ↦ Scheduler.putCurrent_tasks_of_ne hi, t, hcur, Scheduler.putCurrent_tasks_self⟩

/-- A task is blocked sending to the running task, and the filter admits it. -/
def SenderWaits (k : Kernel) (srcFilter : ℕ) : Prop :=
  ∃ i, ∃ t ∈ k.sched.tasks i, t.SendsTo (k.cur + 1) (srcIdOption srcFilter)

instance (k : Kernel) (srcFilter : ℕ) : Decidable (k.SenderWaits srcFilter) :=
  inferInstanceAs (Decidable (∃ i, ∃ t ∈ k.sched.tasks i, _))

/-- The search of both receives: it finds a sender exactly when one is waiting. -/
theorem recvSearch_eq_none {srcFilter : ℕ} :
    k.sched.recvSearch (k.cur + 1) (srcIdOption srcFilter) = none ↔ ¬k.SenderWaits srcFilter := by
  constructor
  · rintro hsearch ⟨i, t, ht, hsends⟩
    exact Scheduler.recvSearch_none hsearch ht hsends
  · intro hnone
    rw [Option.eq_none_iff_forall_ne_some]
    intro i hsearch
    obtain ⟨t, msg, ht, hstate, hadmits⟩ := Scheduler.recvSearch_some hsearch
    refine hnone ⟨i, t, ht, ?_⟩
    rw [Task.SendsTo, hstate]
    exact ⟨rfl, hadmits⟩

/-- **The two receives agree when a sender is waiting**: both hand over the message of the same
sender. **They differ when none is**: `sys_try_recv` refuses; `sys_recv` blocks its caller and
changes no other task, and it returns if the caller is a task and the kernel stacks are in order. -/
theorem recv_tryRecv (k : Kernel) (srcFilter msgPtr rsp : ℕ) :
    (k.SenderWaits srcFilter →
      ∃ i sender msg, k.sched.tasks i = some sender ∧ sender.state = .sending (k.cur + 1) msg ∧
        (srcIdOption srcFilter = none ∨ srcIdOption srcFilter = some sender.id) ∧
        k.sysTryRecv srcFilter msgPtr rsp =
          .ok (rsp, k.handOver i sender.rsp msgPtr msg rsp) ∧
        k.sysRecv srcFilter msgPtr rsp = k.sysTryRecv srcFilter msgPtr rsp) ∧
    (¬k.SenderWaits srcFilter →
      (∃ newRsp k', k.sysTryRecv srcFilter msgPtr rsp = .ok (newRsp, k') ∧
        k.Refused rsp newRsp k') ∧
      (∀ newRsp k', k.sysRecv srcFilter msgPtr rsp = .ok (newRsp, k') →
        (∀ i ≠ k.cur, k'.sched.tasks i = k.sched.tasks i) ∧
        ∃ t ∈ k.sched.tasks k.cur, k'.sched.tasks k.cur =
          some { t with state := .receiving (srcIdOption srcFilter) msgPtr, rsp := rsp }) ∧
      ((k.sched.tasks k.cur).isSome → k.TopsOk →
        ∃ r, k.sysRecv srcFilter msgPtr rsp = .ok r)) := by
  -- both calls search alike, and differ only in what they do when nobody is found
  refine ⟨fun hwaits ↦ ?_, fun hnone ↦ ?_⟩
  · cases hsearch : k.sched.recvSearch (k.cur + 1) (srcIdOption srcFilter) with
    | none => exact absurd hwaits (recvSearch_eq_none.mp hsearch)
    | some i =>
      obtain ⟨sender, msg, hsender, hstate, hadmits, hrecv, htry⟩ :=
        receive_of_search hsearch msgPtr rsp
      exact ⟨i, sender, msg, hsender, hstate, hadmits, htry, hrecv.trans htry.symm⟩
  · obtain ⟨hrecv, htry⟩ := receive_of_search_none (recvSearch_eq_none.mpr hnone) msgPtr rsp
    rw [hrecv, htry]
    refine ⟨⟨_, _, rfl, k.refused_setRax rsp⟩, fun newRsp k' h ↦ block_tasks h, fun hcur htops ↦ ?_⟩
    obtain ⟨t, ht⟩ := Option.isSome_iff_exists.mp hcur
    exact block_returns ht htops _ _

/-- The first of two tasks has sent to the second, which asks for a message: of any task, and of a
third. -/
theorem recv_tryRecv_twoTasks :
    (∃ i sender msg, twoSent.kernel.sched.tasks i = some sender ∧
      sender.state = .sending (twoSent.kernel.cur + 1) msg ∧
      (srcIdOption 0 = none ∨ srcIdOption 0 = some sender.id) ∧
      twoSent.kernel.sysTryRecv 0 0x6000 0x40f60 =
        .ok (0x40f60, twoSent.kernel.handOver i sender.rsp 0x6000 msg 0x40f60) ∧
      twoSent.kernel.sysRecv 0 0x6000 0x40f60 = twoSent.kernel.sysTryRecv 0 0x6000 0x40f60) ∧
    ∃ newRsp k', twoSent.kernel.sysTryRecv 3 0x6000 0x40f60 = .ok (newRsp, k') ∧
      twoSent.kernel.Refused 0x40f60 newRsp k' :=
  ⟨(recv_tryRecv twoSent.kernel 0 0x6000 0x40f60).1 (by decide +kernel),
    ((recv_tryRecv twoSent.kernel 3 0x6000 0x40f60).2 (by decide +kernel)).1⟩

end Kernel

end RelizOS
