import RelizOS.Kernel.Blocking

/-!
# What a call does to the frames

While the frames are laid out as they must be and no message buffer touches them, a system call
changes exactly one register of exactly two frames at most: its own result in `rax`, and, if it
hands a message over, the result of its partner. `SyscallOutcome.frame_self` and
`SyscallOutcome.frame_other` say so for the caller and for every other task.

`BuffersApart` is the invariant behind it, about the buffers of the tasks that are receiving.
-/

open ByteMemory LabelledRun

namespace RelizOS

/-! ## Writing a result -/

section

variable {m : Mem} {base : ℕ} {v : UInt64}

theorem frameReg_writeRax :
    frameReg (writeU64 m (base + 8 * 14) v) base = Function.update (frameReg m base) .rax v := by
  funext r
  by_cases hr : r = .rax
  · subst hr
    rw [Function.update_self]
    exact readU64_writeU64_self _ _ _
  · rw [Function.update_of_ne hr]
    have hslot : r.slot ≠ 14 := fun h ↦ hr (Reg.slot_inj h)
    refine readU64_writeU64_of_disjoint ?_
    omega

theorem frameReg_eq_of_agree {m' : Mem} (h : AgreeOn m m' base 160) :
    frameReg m base = frameReg m' base := funext fun r ↦ frameReg_congr h r

theorem frameReg_writeRax_of_apart {base' : ℕ}
    (h : (⟨base, base + 160⟩ : Span).Apart ⟨base', base' + 160⟩) :
    frameReg (writeU64 m (base' + 8 * 14) v) base = frameReg m base := by
  refine frameReg_eq_of_agree (agreeOn_writeU64 ?_)
  rw [Span.Apart] at h
  dsimp only at h
  omega

/-- The place of a message. -/
def messageSpan (ptr : ℕ) : Span := ⟨ptr, ptr + 48⟩

theorem frameReg_writeMessage_of_apart {buf : ℕ} {msg : Message}
    (h : (messageSpan buf).Apart ⟨base, base + 160⟩) :
    frameReg (writeMessage m buf msg) base = frameReg m base :=
  frameReg_eq_of_agree (agreeOn_writeMessage h.symm)

end

/-! ## Buffers -/

namespace Scheduler

/-- The memory touches no frame. -/
def ApartFromFrames (s : Scheduler) (b : Span) : Prop :=
  ∀ i t, s.tasks i = some t → b.Apart t.frame

instance (s : Scheduler) (b : Span) : Decidable (s.ApartFromFrames b) :=
  inferInstanceAs (Decidable (∀ i, ∀ t ∈ s.tasks i, b.Apart t.frame))

/-- The buffers of the tasks that are receiving touch no frame. -/
def BuffersApart (s : Scheduler) : Prop :=
  ∀ i t srcId buf, s.tasks i = some t → t.state = .receiving srcId buf →
    s.ApartFromFrames (messageSpan buf)

/-- A task that is sending sends to a slot there is. -/
def DestsOk (s : Scheduler) : Prop :=
  ∀ i t destId msg, s.tasks i = some t → t.state = .sending destId msg → ∃ d : Fin 8, destId = d + 1

theorem SameStacks.apartFromFrames {s s' : Scheduler} {b : Span} (h : s.SameStacks s')
    (hb : s.ApartFromFrames b) : s'.ApartFromFrames b := by
  intro i t' ht'
  obtain ⟨t, ht, hrsp, -⟩ := h.task ht'
  have := hb i t ht
  rwa [Task.frame, hrsp] at this

end Scheduler

namespace Kernel

variable {k k' : Kernel} {t u : Task} {i : Fin 8} {newRsp : ℕ} {rax rdi rsi : UInt64}

/-! ## Switching and handing over, on frames that are laid out as they must be -/

/-- A switch that saves the stack pointer already saved changes no task. -/
theorem switchTask_same (ht : k.sched.tasks k.cur = some t)
    (h : k.switchTask t.rsp = .ok (newRsp, k')) :
    k'.sched.tasks = k.sched.tasks ∧ k'.mem = k.mem := by
  obtain ⟨j, t', -, -, -, rfl⟩ := switchTask_cases ht h
  refine ⟨funext fun i ↦ ?_, rfl⟩
  by_cases hi : i = k.cur
  · subst hi
    rw [ht]
    exact Scheduler.putCurrent_tasks_self
  · exact Scheduler.putCurrent_tasks_of_ne hi

theorem block_same {state : TaskState} (ht : k.sched.tasks k.cur = some t)
    (h : k.block state t.rsp = .ok (newRsp, k')) :
    k'.sched.tasks = Function.update k.sched.tasks k.cur (some { t with state := state }) ∧
      k'.mem = k.mem := by
  obtain ⟨u, j, t', hu, -, -, -, rfl⟩ := block_cases h
  obtain rfl : t = u := Option.some.inj (ht.symm.trans hu)
  exact ⟨rfl, rfl⟩

section

variable {buf : ℕ} {msg : Message}

/-- After a message has been handed over, the results in the frames of both partners are 0. -/
theorem handOver_frame_self (hapart : t.frame.Apart u.frame)
    (hbuf : (messageSpan buf).Apart t.frame) :
    frameReg (k.handOver i u.rsp buf msg t.rsp).mem t.rsp =
      Function.update (frameReg k.mem t.rsp) .rax 0 := by
  rw [handOver]
  dsimp only
  rw [frameReg_writeRax, frameReg_writeRax_of_apart hapart,
    frameReg_writeMessage_of_apart hbuf]

theorem handOver_frame_partner (hapart : t.frame.Apart u.frame)
    (hbuf : (messageSpan buf).Apart u.frame) :
    frameReg (k.handOver i u.rsp buf msg t.rsp).mem u.rsp =
      Function.update (frameReg k.mem u.rsp) .rax 0 := by
  rw [handOver]
  dsimp only
  rw [frameReg_writeRax_of_apart hapart.symm, frameReg_writeRax,
    frameReg_writeMessage_of_apart hbuf]

theorem handOver_frame_other {w : Task} (hself : w.frame.Apart t.frame)
    (hpartner : w.frame.Apart u.frame) (hbuf : (messageSpan buf).Apart w.frame) :
    frameReg (k.handOver i u.rsp buf msg t.rsp).mem w.rsp = frameReg k.mem w.rsp := by
  rw [handOver]
  dsimp only
  rw [frameReg_writeRax_of_apart hself, frameReg_writeRax_of_apart hpartner,
    frameReg_writeMessage_of_apart hbuf]

theorem handOver_message (hself : (messageSpan buf).Apart t.frame)
    (hpartner : (messageSpan buf).Apart u.frame) :
    readMessage (k.handOver i u.rsp buf msg t.rsp).mem buf = msg := by
  rw [handOver]
  dsimp only
  have hslot : ∀ {w : Task}, (messageSpan buf).Apart w.frame →
      buf + 48 ≤ w.rsp + 8 * 14 ∨ w.rsp + 8 * 14 + 8 ≤ buf := by
    intro w hw
    rw [Span.Apart, messageSpan, Task.frame] at hw
    dsimp only at hw
    omega
  rw [readMessage_congr (agreeOn_writeU64 (hslot hself)),
    readMessage_congr (agreeOn_writeU64 (hslot hpartner)), readMessage_writeMessage]

end

/-! ## One call -/

/-- The result a call leaves in `rax`, where it is known in advance: 0 when the call is, or will be,
carried out, -1 when it fails. -/
def callResult (k : Kernel) (rax rdi : UInt64) : Option UInt64 :=
  match rax.toNat with
  | 2 | 4 => some 0
  | 3 => some (if ∃ d : Fin 8, rdi.toNat = d + 1 ∧ (k.sched.tasks d).isSome then 0 else -1)
  | 14 =>
    some (if ∃ i, ∃ t ∈ k.sched.tasks i, t.SendsTo (k.cur + 1) (srcIdOption rdi.toNat) then 0
      else -1)
  | _ => plainResult rax

theorem callResult_plain (h : rax.toNat ∉ [2, 3, 4, 14]) :
    k.callResult rax rdi = plainResult rax := by
  simp only [List.mem_cons, List.not_mem_nil, or_false, not_or] at h
  obtain ⟨h2, h3, h4, h14⟩ := h
  rw [callResult]
  split <;> first | rfl | contradiction

/-- A state in which a call leaves a caller it blocks: sending to a slot there is, or receiving into
the buffer it has named. -/
def BlockedState (rax rdi rsi : UInt64) : TaskState → Prop
  | .ready | .running => False
  | .sending destId _ => ∃ d : Fin 8, destId = d + 1
  | .receiving _ buf => messageSpan buf = callerBuffer rax rdi rsi

theorem BlockedState.not_isRunnable {state : TaskState} (h : BlockedState rax rdi rsi state) :
    ¬state.IsRunnable := by
  rintro (rfl | rfl)
  · exact h
  · exact h

/-- What has happened to the caller of a system call: it goes on with a result in `rax`, or it is
blocked. -/
def SelfEffect (k k' : Kernel) (rax rdi rsi : UInt64) (t : Task) : Prop :=
  ∃ t', k'.sched.tasks k.cur = some t' ∧ t'.rsp = t.rsp ∧
    (t'.IsRunnable ∧ (∃ v, frameReg k'.mem t.rsp = Function.update (frameReg k.mem t.rsp) .rax v ∧
        ∀ w, k.callResult rax rdi = some w → v = w) ∨
      BlockedState rax rdi rsi t'.state ∧ frameReg k'.mem t.rsp = frameReg k.mem t.rsp ∧
        k.callResult rax rdi = some 0)

/-- What has happened to the task `u` in slot `i`: nothing, or it has been blocked and now goes on
with the result 0. -/
def OtherEffect (k k' : Kernel) (i : Fin 8) (u : Task) : Prop :=
  ∃ u', k'.sched.tasks i = some u' ∧ u'.rsp = u.rsp ∧
    (u'.state = u.state ∧ frameReg k'.mem u.rsp = frameReg k.mem u.rsp ∨
      ¬u.IsRunnable ∧ u'.IsRunnable ∧
        frameReg k'.mem u.rsp = Function.update (frameReg k.mem u.rsp) .rax 0)

theorem OtherEffect.same (htasks : k'.sched.tasks i = k.sched.tasks i)
    (hu : k.sched.tasks i = some u) (hframe : frameReg k'.mem u.rsp = frameReg k.mem u.rsp) :
    OtherEffect k k' i u :=
  ⟨u, htasks.trans hu, rfl, Or.inl ⟨rfl, hframe⟩⟩

theorem block_effect {state : TaskState} (ht : k.sched.tasks k.cur = some t)
    (hstate : BlockedState rax rdi rsi state) (hresult : k.callResult rax rdi = some 0)
    (h : k.block state t.rsp = .ok (newRsp, k')) :
    SelfEffect k k' rax rdi rsi t ∧
      ∀ i u, i ≠ k.cur → k.sched.tasks i = some u → OtherEffect k k' i u := by
  obtain ⟨htasks, hmem⟩ := block_same ht h
  refine ⟨⟨{ t with state := state }, by rw [htasks, Function.update_self], rfl,
    Or.inr ⟨hstate, by rw [hmem], hresult⟩⟩, fun i u hi hu ↦ ?_⟩
  exact .same (by rw [htasks, Function.update_of_ne hi]) hu (by rw [hmem])

section

variable (hk : k.StacksOk) (ht : k.sched.tasks k.cur = some t) (hrun : t.IsRunnable)
include hk ht hrun

theorem setRax_effect {v : UInt64} (htasks : k'.sched.tasks = k.sched.tasks)
    (hmem : k'.mem = writeU64 k.mem (t.rsp + 8 * 14) v)
    (hresult : ∀ w, k.callResult rax rdi = some w → v = w) :
    SelfEffect k k' rax rdi rsi t ∧
      ∀ i u, i ≠ k.cur → k.sched.tasks i = some u → OtherEffect k k' i u := by
  refine ⟨⟨t, by rw [htasks, ht], rfl, Or.inl ⟨hrun, v, by rw [hmem, frameReg_writeRax], hresult⟩⟩,
    fun i u hi hu ↦ ?_⟩
  refine .same (by rw [htasks]) hu ?_
  rw [hmem, frameReg_writeRax_of_apart (hk.sched.apart i k.cur u t hi hu ht)]

theorem handOver_effect {d : Fin 8} {p : Task} {buf : ℕ} {msg : Message}
    (hd : k.sched.tasks d = some p) (hblocked : ¬p.IsRunnable)
    (hbuf : k.sched.ApartFromFrames (messageSpan buf))
    (hresult : ∀ w, k.callResult rax rdi = some w → 0 = w) :
    SelfEffect k (k.handOver d p.rsp buf msg t.rsp) rax rdi rsi t ∧
      ∀ i u, i ≠ k.cur → k.sched.tasks i = some u →
        OtherEffect k (k.handOver d p.rsp buf msg t.rsp) i u := by
  have hne : k.cur ≠ d := by
    rintro rfl
    rw [← Option.some.inj (ht.symm.trans hd)] at hblocked
    exact hblocked hrun
  have hapart := hk.sched.apart _ _ _ _ hne ht hd
  refine ⟨⟨t, (Scheduler.setState_tasks_of_ne hne).trans ht, rfl, Or.inl ⟨hrun, 0,
    handOver_frame_self hapart (hbuf _ t ht), hresult⟩⟩, fun i u hi hu ↦ ?_⟩
  by_cases hid : i = d
  · subst hid
    obtain rfl : p = u := Option.some.inj (hd.symm.trans hu)
    exact ⟨_, Scheduler.setState_tasks_self hd, rfl, Or.inr ⟨hblocked, Or.inl rfl,
      handOver_frame_partner hapart (hbuf _ p hd)⟩⟩
  · exact .same (Scheduler.setState_tasks_of_ne hid) hu (handOver_frame_other
      (hk.sched.apart _ _ _ _ hi hu ht) (hk.sched.apart _ _ _ _ hid hu hd) (hbuf _ u hu))

theorem plain_effect {mem : Mem} (hmem : PlainMem k rax rdi rsi t.rsp mem)
    (hbuf : k.sched.ApartFromFrames (callerBuffer rax rdi rsi))
    (hresult : ∀ w, k.callResult rax rdi = some w → plainResult rax = some w) :
    SelfEffect k { k with mem := mem } rax rdi rsi t ∧
      ∀ i u, i ≠ k.cur → k.sched.tasks i = some u → OtherEffect k { k with mem := mem } i u := by
  refine ⟨⟨t, ht, rfl, Or.inl ⟨hrun, readU64 mem (t.rsp + 8 * 14), funext fun r ↦ ?_,
    fun w hw ↦ hmem.result w (hresult w hw)⟩⟩, fun i u hi hu ↦ ?_⟩
  · by_cases hr : r = .rax
    · subst hr
      rw [Function.update_self]
      rfl
    · rw [Function.update_of_ne hr]
      have hslot : r.slot ≠ 14 := fun h ↦ hr (Reg.slot_inj h)
      have hlt := r.slot_lt
      have hapart := hbuf _ t ht
      rw [Span.Apart, Task.frame] at hapart
      dsimp only at hapart
      exact readU64_congr (hmem.agree _ _ (by omega) (by omega))
  · have hframes := hk.sched.apart i k.cur u t hi hu ht
    have hapart := hbuf _ u hu
    rw [Span.Apart, Task.frame] at hapart hframes
    dsimp only [Task.frame] at hapart hframes
    exact .same rfl hu (frameReg_eq_of_agree (hmem.agree _ _ (by omega) (by omega)))

/-- **What a system call does to each task.** -/
theorem SyscallOutcome.effect (hbufs : k.sched.BuffersApart)
    (hbuf : k.sched.ApartFromFrames (callerBuffer rax rdi rsi))
    (h : SyscallOutcome k rax rdi rsi t.rsp newRsp k') :
    SelfEffect k k' rax rdi rsi t ∧
      ∀ i u, i ≠ k.cur → k.sched.tasks i = some u → OtherEffect k k' i u := by
  have hmsg : rax.toNat = 3 ∨ rax.toNat = 4 ∨ rax.toNat = 14 →
      k.sched.ApartFromFrames (messageSpan rsi.toNat) := by
    rintro (h | h | h) <;> simpa [callerBuffer, messageSpan, h] using hbuf
  have hzero : k.callResult rax rdi = some 0 → ∀ w, k.callResult rax rdi = some w → 0 = w :=
    fun h w hw ↦ Option.some.inj (h.symm.trans hw)
  cases h with
  | yield hrax _ k₁ hswitch =>
    obtain ⟨htasks, hmem⟩ := switchTask_same ht hswitch
    exact setRax_effect hk ht hrun htasks (by rw [setRax, hmem])
      (hzero (by simp [callResult, hrax]))
  | plain hrax mem hmem =>
    exact plain_effect hk ht hrun hmem hbuf fun w hw ↦ by rwa [callResult_plain hrax] at hw
  | send hrax _ _ hsend =>
    cases hsend with
    | invalid hdest =>
      refine setRax_effect hk ht hrun rfl rfl fun w hw ↦ ?_
      have hnone : ¬∃ d : Fin 8, rdi.toNat = d + 1 ∧ (k.sched.tasks d).isSome := by
        rintro ⟨d, hid, hsome⟩
        rw [hdest d hid] at hsome
        cases hsome
      simp only [callResult, hrax, if_neg hnone] at hw
      exact Option.some.inj hw
    | deliver d dest buf hid hdest hdbuf =>
      have hsome : ∃ d : Fin 8, rdi.toNat = d + 1 ∧ (k.sched.tasks d).isSome :=
        ⟨d, hid, by rw [hdest]; rfl⟩
      -- the receiver is blocked in its own call, so the buffer is one the hypothesis on buffers
      -- covers
      obtain ⟨srcId, hstate, -⟩ := TaskState.bufferFor_eq_some.mp hdbuf
      exact handOver_effect hk ht hrun hdest
        (by rw [Task.IsRunnable, hstate]; exact TaskState.not_isRunnable_receiving)
        (hbufs d dest srcId buf hdest hstate)
        (hzero (by simp only [callResult, hrax, if_pos hsome]))
    | block d dest hid hdest hdbuf _ _ hblock =>
      have hsome : ∃ d : Fin 8, rdi.toNat = d + 1 ∧ (k.sched.tasks d).isSome :=
        ⟨d, hid, by rw [hdest]; rfl⟩
      have hstate : BlockedState rax rdi rsi (.sending rdi.toNat (k.stampedMessage rsi.toNat)) :=
        ⟨d, hid⟩
      exact block_effect ht hstate (by simp only [callResult, hrax, if_pos hsome]) hblock
  | recv hrax _ _ hrecv =>
    cases hrecv with
    | accept i sender msg hsender hstate hadmits =>
      exact handOver_effect hk ht hrun hsender
        (by rw [Task.IsRunnable, hstate]; exact TaskState.not_isRunnable_sending) (hmsg (by omega))
        (hzero (by simp [callResult, hrax]))
    | block hnone _ _ hblock =>
      have hstate : BlockedState rax rdi rsi (.receiving (srcIdOption rdi.toNat) rsi.toNat) := by
        simp [BlockedState, callerBuffer, messageSpan, hrax]
      exact block_effect ht hstate (by simp [callResult, hrax]) hblock
  | tryRecv hrax _ _ hrecv =>
    cases hrecv with
    | accept i sender msg hsender hstate hadmits =>
      have hsome : ∃ i, ∃ t ∈ k.sched.tasks i, t.SendsTo (k.cur + 1) (srcIdOption rdi.toNat) :=
        ⟨i, sender, hsender, sendsTo_of_sending hstate hadmits⟩
      exact handOver_effect hk ht hrun hsender
        (by rw [Task.IsRunnable, hstate]; exact TaskState.not_isRunnable_sending) (hmsg (by omega))
        (hzero (by simp only [callResult, hrax, if_pos hsome]))
    | empty hnone =>
      refine setRax_effect hk ht hrun rfl rfl fun w hw ↦ ?_
      have hno : ¬∃ i, ∃ t ∈ k.sched.tasks i, t.SendsTo (k.cur + 1) (srcIdOption rdi.toNat) := by
        rintro ⟨i, t, ht, hsends⟩
        exact hnone i t ht hsends
      simp only [callResult, hrax, if_neg hno] at hw
      exact Option.some.inj hw

end

end Kernel

/-! ## Steps of the machine -/

namespace Machine

/-- User code leaves the frames of the other tasks alone, and the memory a call reads or writes for
its caller touches no frame. -/
def SparesFrames (m : Machine) : Event → Prop
  | .user mem _ => ∀ i t, i ≠ m.cur → m.kernel.sched.tasks i = some t →
      AgreeOn mem m.kernel.mem t.rsp 160
  | .syscall => m.kernel.sched.ApartFromFrames
      (Kernel.callerBuffer (m.regs .rax) (m.regs .rdi) (m.regs .rsi))
  | .tick => True

instance (m : Machine) : Decidable (m.SparesFrames .syscall) :=
  inferInstanceAs (Decidable (m.kernel.sched.ApartFromFrames _))

/-- The events of an orderly run: the frames are spared, and a call that blocks its caller finds
another runnable task. -/
def Orderly (m : Machine) (e : Event) : Prop := m.FindsRunnable e ∧ m.SparesFrames e

/-- The steps of an orderly run. -/
abbrev OrderlyStep : Machine → Event → Machine → Prop := guarded Orderly Step

theorem OrderlyStep.load (m : Machine) (rax rdi rsi : UInt64) :
    OrderlyStep m (.user m.kernel.mem (m.load rax rdi rsi).regs) (m.load rax rdi rsi) :=
  ⟨⟨trivial, fun _ _ _ _ ↦ AgreeOn.refl _ _ _⟩, .load m rax rdi rsi⟩

/-- What an orderly run keeps. -/
structure Sound (m : Machine) : Prop where
  stacksOk : m.kernel.StacksOk
  runnable : m.kernel.sched.RunnableAt m.cur
  buffersApart : m.kernel.sched.BuffersApart
  destsOk : m.kernel.sched.DestsOk

variable {m m' : Machine} {e : Event} {t u : Task} {i : Fin 8}

/-- The frame of another task is not touched when the kernel is entered. -/
theorem FramePushed.frame_other {mem : Mem} {saved : RegFile} (hm : m.kernel.StacksOk)
    (ht : m.kernel.sched.tasks m.cur = some t)
    (h : FramePushed m.kernel.mem mem t.kernelStackTop saved) (hi : i ≠ m.cur)
    (hu : m.kernel.sched.tasks i = some u) : frameReg mem u.rsp = frameReg m.kernel.mem u.rsp := by
  have htop := hm.sched.top _ t ht
  have hapart := hm.sched.apart i m.cur u t hi hu ht
  rw [Span.Apart, Task.frame] at hapart
  dsimp only [Task.frame] at hapart
  exact frameReg_eq_of_agree (h.agree _ _ (by omega))

/-- And the frame of the running task holds what the stub has saved. -/
theorem FramePushed.frame_self {mem : Mem} {saved : RegFile} (hm : m.kernel.StacksOk)
    (ht : m.kernel.sched.tasks m.cur = some t)
    (h : FramePushed m.kernel.mem mem t.kernelStackTop saved) : frameReg mem t.rsp = saved := by
  have htop := hm.sched.top _ t ht
  funext r
  rw [← h.frame r, show t.kernelStackTop - 160 = t.rsp by omega]

/-- **What a system call does to the tasks**, from user mode to user mode. -/
theorem syscall_effect (hm : m.Sound) (hgood : m.Orderly .syscall)
    (ht : m.kernel.sched.tasks m.cur = some t) (h : m.syscall = .ok m') :
    ∃ mem, frameReg mem t.rsp = syscallSaved m.regs ∧
      Kernel.SelfEffect { m.kernel with mem := mem } m'.kernel (m.regs .rax) (m.regs .rdi)
        (m.regs .rsi) t ∧
      ∀ i u, i ≠ m.cur → m.kernel.sched.tasks i = some u →
        Kernel.OtherEffect m.kernel m'.kernel i u := by
  obtain ⟨mem, newRsp, hframe, hout, -⟩ := syscall_entry hm.stacksOk.entersAtTop ht h
  have hk : ({ m.kernel with mem := mem } : Kernel).StacksOk :=
    hm.stacksOk.of_same (Scheduler.SameStacks.refl _) rfl rfl rfl
  obtain ⟨hself, hother⟩ := hout.effect hk ht ((Scheduler.runnableAt_iff ht).mp hm.runnable)
    hm.buffersApart hgood.2
  refine ⟨mem, FramePushed.frame_self hm.stacksOk ht hframe, hself, fun i u hi hu ↦ ?_⟩
  obtain ⟨u', hu', hrsp, heffect⟩ := hother i u hi hu
  rw [FramePushed.frame_other hm.stacksOk ht hframe hi hu] at heffect
  exact ⟨u', hu', hrsp, heffect⟩

/-- **What a timer interrupt does to the tasks**: it saves the registers of the running one. -/
theorem timer_effect (hm : m.Sound) (ht : m.kernel.sched.tasks m.cur = some t)
    (h : m.timer = .ok m') :
    m'.kernel.sched.tasks = m.kernel.sched.tasks ∧ frameReg m'.kernel.mem t.rsp = m.regs ∧
      ∀ i u, i ≠ m.cur → m.kernel.sched.tasks i = some u →
        frameReg m'.kernel.mem u.rsp = frameReg m.kernel.mem u.rsp := by
  obtain ⟨mem, ticks, newRsp, hframe, hswitch, -⟩ := timer_entry hm.stacksOk.entersAtTop ht h
  have ht' : ({ m.kernel with mem := mem, timerTicks := ticks } : Kernel).sched.tasks
    m.cur = some t := ht
  obtain ⟨htasks, hmem⟩ := Kernel.switchTask_same ht' hswitch
  refine ⟨htasks, ?_, fun i u hi hu ↦ ?_⟩
  · rw [hmem]
    exact FramePushed.frame_self hm.stacksOk ht hframe
  · rw [hmem]
    exact FramePushed.frame_other hm.stacksOk ht hframe hi hu

/-- **What any step does to a task that is not running.** -/
theorem Step.otherEffect (h : Step m e m') (hgood : m.Orderly e) (hm : m.Sound) (hi : i ≠ m.cur)
    (hu : m.kernel.sched.tasks i = some u) : Kernel.OtherEffect m.kernel m'.kernel i u := by
  obtain ⟨t, ht⟩ := hm.stacksOk.current
  cases h with
  | user => exact .same rfl hu (frameReg_eq_of_agree (hgood.2 i u hi hu))
  | syscall h =>
    obtain ⟨-, -, -, hother⟩ := syscall_effect hm hgood ht h
    exact hother i u hi hu
  | tick h =>
    obtain ⟨htasks, -, hother⟩ := timer_effect hm ht h
    exact .same (by rw [htasks]) hu (hother i u hi hu)

/-- After a step a task that is blocked has been so before, in the same state, or it has made the
call that has blocked it. -/
theorem Step.blocked_cases (h : Step m e m') (hgood : m.Orderly e) (hm : m.Sound)
    {i : Fin 8} {t' : Task} (ht' : m'.kernel.sched.tasks i = some t') (hblocked : ¬t'.IsRunnable) :
    (∃ t, m.kernel.sched.tasks i = some t ∧ t.state = t'.state) ∨
      e = .syscall ∧ Kernel.BlockedState (m.regs .rax) (m.regs .rdi) (m.regs .rsi) t'.state := by
  obtain ⟨-, hsame⟩ := h.stacksOk hm.stacksOk
  obtain ⟨t, ht, -⟩ := hsame.task ht'
  by_cases hi : i = m.cur
  · subst hi
    cases h with
    | user => exact Or.inl ⟨t', ht', rfl⟩
    | tick h =>
      obtain ⟨htasks, -⟩ := timer_effect hm ht h
      exact Or.inl ⟨t', by rw [← htasks, ht'], rfl⟩
    | syscall h =>
      obtain ⟨mem, -, ⟨t₁, ht₁, -, hself⟩, -⟩ := syscall_effect hm hgood ht h
      obtain rfl : t' = t₁ := Option.some.inj (ht'.symm.trans ht₁)
      rcases hself with ⟨hrun, -⟩ | ⟨hstate, -⟩
      · exact absurd hrun hblocked
      · exact Or.inr ⟨rfl, hstate⟩
  · obtain ⟨u, hu, -, heffect⟩ := h.otherEffect hgood hm hi ht
    obtain rfl : t' = u := Option.some.inj (ht'.symm.trans hu)
    rcases heffect with ⟨heq, -⟩ | ⟨-, hrun, -⟩
    · exact Or.inl ⟨t, ht, heq.symm⟩
    · exact absurd hrun hblocked

/-- **An orderly step keeps the machine sound.** -/
theorem Sound.step (hm : m.Sound) (h : OrderlyStep m e m') : m'.Sound := by
  obtain ⟨hgood, h⟩ := h
  obtain ⟨hstacks, hsame⟩ := h.stacksOk hm.stacksOk
  refine ⟨hstacks, (h.runnable_iff hm.runnable).mpr hgood.1, ?_, ?_⟩
  · intro i t' srcId buf ht' hstate
    have hblocked : ¬t'.IsRunnable := by
      rw [Task.IsRunnable, hstate]
      exact TaskState.not_isRunnable_receiving
    apply hsame.apartFromFrames
    rcases h.blocked_cases hgood hm ht' hblocked with ⟨t, ht, heq⟩ | ⟨rfl, hcall⟩
    · exact hm.buffersApart i t srcId buf ht (heq.trans hstate)
    · rw [hstate] at hcall
      rw [show messageSpan buf = _ from hcall]
      exact hgood.2
  · intro i t' destId msg ht' hstate
    have hblocked : ¬t'.IsRunnable := by
      rw [Task.IsRunnable, hstate]
      exact TaskState.not_isRunnable_sending
    rcases h.blocked_cases hgood hm ht' hblocked with ⟨t, ht, heq⟩ | ⟨-, hcall⟩
    · exact hm.destsOk i t destId msg ht (heq.trans hstate)
    · rw [hstate] at hcall
      exact hcall

end Machine

/-- **The first task starts in a sound state.** -/
theorem Started.sound {m : Machine} {specs : List TaskSpec} (h : Started m specs)
    (hok : KernelStacksOk specs) : m.Sound where
  stacksOk := h.stacksOk hok
  runnable := h.runnable
  buffersApart i t srcId buf ht hstate := by
    rw [h.allReady i t ht] at hstate
    cases hstate
  destsOk i t destId msg ht hstate := by
    rw [h.allReady i t ht] at hstate
    cases hstate

/-! ### Two tasks -/

/-- The first task has sent a message to the second, and the second has received it. -/
def twoReceived : Machine := (twoSent.load 4 0 0x6000).syscall.result (by decide +kernel)

theorem twoTasks_ok : KernelStacksOk twoTasks := ⟨by decide, by decide⟩

theorem orderlyStep_twoSent : Machine.OrderlyStep (twoStarted.load 3 2 0x5000) .syscall twoSent :=
  ⟨⟨by decide +kernel, by decide +kernel⟩, .syscall (Checked.eq_ok_result _ _)⟩

theorem orderlyStep_twoReceived :
    Machine.OrderlyStep (twoSent.load 4 0 0x6000) .syscall twoReceived :=
  ⟨⟨by decide +kernel, by decide +kernel⟩, .syscall (Checked.eq_ok_result _ _)⟩

end RelizOS
