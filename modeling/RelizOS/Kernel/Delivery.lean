import RelizOS.Kernel.Frames

/-!
# Every message is delivered exactly once

What a task sees of the IPC is its own calls: it sends a message that it has written somewhere, or
asks for one from some source, and at some time its call ends with a result in `rax`. A `Ledger`
keeps these observations of all tasks: the sends to existing tasks with the messages as they were
written, the sends that have ended with 0, and the receives that have ended with 0, with the message
then found in the receiver's buffer.

The ledger is filled by looking at the machine before and after a step (`Machine.observe`), not at
what the kernel does. `Machine.Step.stepsAs` connects the two: a step of the machine is a step of
the rendezvous, and shows what that step shows. From there the results follow from what `Rendezvous`
knows (`delivered_exactly_once`).
-/

open ByteMemory LabelledRun

namespace RelizOS

/-! ## The ledger -/

/-- The message with the id of the task in slot `i` as its sender. -/
def Message.stampedBy (msg : Message) (i : Fin 8) : Message :=
  { msg with sender := UInt64.ofNat (i + 1) }

/-- A send to an existing task. -/
structure Sent where
  src : Fin 8
  dst : Fin 8
  /-- The message, as the sender wrote it. -/
  msg : Message

/-- A receive that has ended with 0. -/
structure Received where
  dst : Fin 8
  /-- The filter of the receive. -/
  srcId : Option ℕ
  /-- The message in the receiver's buffer. -/
  msg : Message

/-- What the tasks have seen of the IPC. -/
structure Ledger where
  /-- The sends to existing tasks. -/
  sent : List Sent
  /-- The sends that have ended with 0, by their sender and the id they were made to. -/
  completed : List (Fin 8 × ℕ)
  /-- The receives that have ended with 0. -/
  received : List Received

namespace Ledger

/-- Nothing has been seen. -/
def empty : Ledger := ⟨[], [], []⟩

/-- First the one, then the other. -/
def append (a b : Ledger) : Ledger :=
  ⟨a.sent ++ b.sent, a.completed ++ b.completed, a.received ++ b.received⟩

/-- The messages task `i` has sent to task `j`, in order, each with its sender filled in. -/
def sentMessages (g : Ledger) (i j : Fin 8) : List Message :=
  (g.sent.filter fun s ↦ s.src = i ∧ s.dst = j).map fun s ↦ s.msg.stampedBy i

/-- The messages task `j` has received that name task `i` as their sender, in order. -/
def receivedMessages (g : Ledger) (i j : Fin 8) : List Message :=
  (g.received.filter fun r ↦ r.dst = j ∧ r.msg.sender = UInt64.ofNat (i + 1)).map Received.msg

/-- The sends that have ended, by the ids of sender and destination. -/
def completedPairs (g : Ledger) : List (UInt64 × ℕ) :=
  g.completed.map fun c ↦ (UInt64.ofNat (c.1 + 1), c.2)

/-- The receives that have ended, by the sender the message names and the id of the receiver. -/
def receivedPairs (g : Ledger) : List (UInt64 × ℕ) :=
  g.received.map fun r ↦ (r.msg.sender, r.dst + 1)

variable (a b : Ledger) (i j : Fin 8)

theorem sentMessages_append :
    (a.append b).sentMessages i j = a.sentMessages i j ++ b.sentMessages i j := by
  rw [sentMessages, append, List.filter_append, List.map_append]
  rfl

theorem receivedMessages_append :
    (a.append b).receivedMessages i j = a.receivedMessages i j ++ b.receivedMessages i j := by
  rw [receivedMessages, append, List.filter_append, List.map_append]
  rfl

theorem completedPairs_append :
    (a.append b).completedPairs = a.completedPairs ++ b.completedPairs := List.map_append

theorem receivedPairs_append :
    (a.append b).receivedPairs = a.receivedPairs ++ b.receivedPairs := List.map_append

end Ledger

/-! ## What a step shows -/

/-- An IPC call, as its caller made it. -/
inductive IpcCall where
  | send (destId : ℕ)
  | recv (srcId : Option ℕ) (buf : ℕ)

namespace Machine

/-- The IPC call task `i` is in: the one it makes now, if it is running, or the one it is blocked
in. -/
def pendingCall (m : Machine) (e : Event) (i : Fin 8) : Option IpcCall :=
  if i = m.cur then
    match e with
    | .syscall =>
      match (m.regs .rax).toNat with
      | 3 => some (.send (m.regs .rdi).toNat)
      | 4 | 14 => some (.recv (srcIdOption (m.regs .rdi).toNat) (m.regs .rsi).toNat)
      | _ => none
    | .user _ _ | .tick => none
  else
    match (m.kernel.sched.tasks i).map Task.state with
    | some (.sending destId _) => some (.send destId)
    | some (.receiving srcId buf) => some (.recv srcId buf)
    | some .ready | some .running | none => none

/-- What a task that is not blocked finds in `rax`. -/
def result (m : Machine) (i : Fin 8) : Option UInt64 :=
  match m.kernel.sched.tasks i with
  | some t =>
    if t.IsRunnable then
      some (if i = m.cur then m.regs .rax else frameReg m.kernel.mem t.rsp .rax)
    else none
  | none => none

/-- The IPC call of task `i` that has ended with 0 in a step. -/
def endedCall (m : Machine) (e : Event) (m' : Machine) (i : Fin 8) : Option IpcCall :=
  if m'.result i = some 0 then m.pendingCall e i else none

/-- The send to an existing task that a step begins. -/
def begunSend (m : Machine) (e : Event) : List Sent :=
  match e with
  | .syscall =>
    if (m.regs .rax).toNat = 3 then
      match slotOf (m.regs .rdi).toNat with
      | some d =>
        if (m.kernel.sched.tasks d).isSome then
          [⟨m.cur, d, readMessage m.kernel.mem (m.regs .rsi).toNat⟩]
        else []
      | none => []
    else []
  | .user _ _ | .tick => []

/-- What the tasks see in a step. -/
def observe (m : Machine) (e : Event) (m' : Machine) : Ledger where
  sent := m.begunSend e
  completed := (List.finRange 8).filterMap fun i ↦
    match m.endedCall e m' i with
    | some (.send destId) => some (i, destId)
    | some (.recv _ _) | none => none
  received := (List.finRange 8).filterMap fun i ↦
    match m.endedCall e m' i with
    | some (.recv srcId buf) => some ⟨i, srcId, readMessage m'.kernel.mem buf⟩
    | some (.send _) | none => none

/-! ## The observations of each outcome -/

variable {m m' : Machine} {e : Event} {t t' : Task} {i : Fin 8}

theorem result_of_blocked (ht : m.kernel.sched.tasks i = some t) (hblocked : ¬t.IsRunnable) :
    m.result i = none := by
  rw [result, ht]
  exact if_neg hblocked

/-- After an entry the result of a task that is not blocked is the one in its frame. -/
theorem result_of_entry (hm : m.Sound) (h : Step m e m') (he : ∀ mem regs, e ≠ .user mem regs)
    (ht' : m'.kernel.sched.tasks i = some t') (hrun : t'.IsRunnable) :
    m'.result i = some (frameReg m'.kernel.mem t'.rsp .rax) := by
  rw [result, ht']
  dsimp only
  rw [if_pos hrun]
  by_cases hi : i = m'.cur
  · subst hi
    rw [if_pos rfl, regs_of_entry h hm.stacksOk.entersAtTop he ht']
  · rw [if_neg hi]

theorem endedCall_of_same (hi : i ≠ m.cur)
    (hstate : (m'.kernel.sched.tasks i).map Task.state = (m.kernel.sched.tasks i).map Task.state) :
    m.endedCall e m' i = none := by
  rw [endedCall]
  by_cases hresult : m'.result i = some 0
  · rw [if_pos hresult, pendingCall.eq_def, if_neg hi, ← hstate]
    cases ht' : m'.kernel.sched.tasks i with
    | none => rfl
    | some t' =>
      have hrun : t'.IsRunnable := by
        by_contra hblocked
        rw [result_of_blocked ht' hblocked] at hresult
        cases hresult
      rw [Option.map_some]
      rcases hrun with hready | hrunning
      · rw [hready]
      · rw [hrunning]
  · exact if_neg hresult

/-- A list is filtered down to the one element that is not mapped to nothing. -/
private theorem filterMap_eq_singleton {α β : Type} {f : α → Option β} {a : α} {b : β}
    {l : List α} (hnodup : l.Nodup) (ha : a ∈ l) (hf : f a = some b)
    (hother : ∀ x, x ≠ a → f x = none) : l.filterMap f = [b] := by
  induction l with
  | nil => simp at ha
  | cons x l ih =>
    rw [List.nodup_cons] at hnodup
    by_cases hx : x = a
    · subst hx
      have hrest : l.filterMap f = [] := by
        rw [List.filterMap_eq_nil_iff]
        exact fun y hy ↦ hother y fun heq ↦ hnodup.1 (heq ▸ hy)
      rw [List.filterMap_cons_some hf, hrest]
    · rw [List.filterMap_cons_none (hother x hx)]
      exact ih hnodup.2 ((List.mem_cons.mp ha).resolve_left (Ne.symm hx))

theorem observe_of_none (h : ∀ i, m.endedCall e m' i = none) :
    m.observe e m' = ⟨m.begunSend e, [], []⟩ := by
  rw [observe]
  congr 1
  · rw [List.filterMap_eq_nil_iff]
    intro i _
    rw [h i]
  · rw [List.filterMap_eq_nil_iff]
    intro i _
    rw [h i]

theorem observe_of_pair {s r : Fin 8} {destId : ℕ} {srcId : Option ℕ} {buf : ℕ}
    (hs : m.endedCall e m' s = some (.send destId))
    (hr : m.endedCall e m' r = some (.recv srcId buf))
    (hother : ∀ i, i ≠ s → i ≠ r → m.endedCall e m' i = none) :
    m.observe e m' =
      ⟨m.begunSend e, [(s, destId)], [⟨r, srcId, readMessage m'.kernel.mem buf⟩]⟩ := by
  rw [observe]
  congr 1
  · refine filterMap_eq_singleton (List.nodup_finRange 8) (List.mem_finRange s) (by rw [hs])
      fun i hi ↦ ?_
    by_cases hir : i = r
    · rw [hir, hr]
    · rw [hother i hi hir]
  · refine filterMap_eq_singleton (List.nodup_finRange 8) (List.mem_finRange r) (by rw [hr])
      fun i hi ↦ ?_
    by_cases his : i = s
    · rw [his, hs]
    · rw [hother i his hi]

end Machine

/-! ## The observations are those of the rendezvous -/

open Rendezvous (Label ActorIdle)

/-- What the tasks see of a step of the rendezvous. -/
def Recorded (g : Ledger) : Label (Fin 8) Message (Option ℕ) → Prop
  | .silent | .wait _ _ => g = .empty
  | .deliver src dst srcId msg => ∃ raw : Message, msg = raw.stampedBy src ∧
      g = ⟨[⟨src, dst, raw⟩], [(src, dst + 1)], [⟨dst, srcId, msg⟩]⟩
  | .post src dst msg => ∃ raw : Message, msg = raw.stampedBy src ∧ g = ⟨[⟨src, dst, raw⟩], [], []⟩
  | .accept src dst srcId msg => g = ⟨[], [(src, dst + 1)], [⟨dst, srcId, msg⟩]⟩

/-- The call that is a step of the rendezvous, read off the registers of the running task. -/
def Machine.CallIs (m : Machine) : Event → Label (Fin 8) Message (Option ℕ) → Prop
  | .user _ _, l | .tick, l => l = .silent
  | .syscall, .silent => (m.regs .rax).toNat ≠ 4 ∧ ((m.regs .rax).toNat = 3 →
      ∀ d : Fin 8, (m.regs .rdi).toNat = d + 1 → m.kernel.sched.tasks d = none)
  | .syscall, .deliver src dst _ msg | .syscall, .post src dst msg =>
    src = m.cur ∧ (m.regs .rax).toNat = 3 ∧ (m.regs .rdi).toNat = dst + 1 ∧
      msg = (readMessage m.kernel.mem (m.regs .rsi).toNat).stampedBy m.cur
  | .syscall, .accept _ dst srcId _ | .syscall, .wait dst srcId =>
    dst = m.cur ∧ ((m.regs .rax).toNat = 4 ∨ (m.regs .rax).toNat = 14) ∧
      srcId = srcIdOption (m.regs .rdi).toNat

/-- A step of the machine is the step `l` of the rendezvous: it changes what the tasks are doing as
`l` does, shows what `l` shows, and is the call `l` of the running task, which has been idle. -/
structure Machine.StepsAs (m : Machine) (e : Event) (m' : Machine)
    (l : Label (Fin 8) Message (Option ℕ)) : Prop where
  step : Rendezvous.Step Admits m.kernel.sched.status l m'.kernel.sched.status
  idle : ActorIdle m.kernel.sched.status l
  recorded : Recorded (m.observe e m') l
  call : m.CallIs e l

namespace Machine

variable {m m' : Machine} {e : Event} {t t' p : Task} {i d : Fin 8} {mem : Mem} {newRsp : ℕ}

theorem endedCall_cur {v : UInt64} (hv : m'.result m.cur = some v) :
    m.endedCall .syscall m' m.cur = if v = 0 then m.pendingCall .syscall m.cur else none := by
  rw [endedCall, hv]
  simp only [Option.some_inj]

theorem pendingCall_send (hrax : (m.regs .rax).toNat = 3) :
    m.pendingCall .syscall m.cur = some (.send (m.regs .rdi).toNat) := by
  simp [pendingCall, hrax]

theorem pendingCall_recv (hrax : (m.regs .rax).toNat = 4 ∨ (m.regs .rax).toNat = 14) :
    m.pendingCall .syscall m.cur =
      some (.recv (srcIdOption (m.regs .rdi).toNat) (m.regs .rsi).toNat) := by
  rcases hrax with hrax | hrax <;> simp [pendingCall, hrax]

theorem pendingCall_none (hrax : (m.regs .rax).toNat ∉ [3, 4, 14]) :
    m.pendingCall .syscall m.cur = none := by
  simp only [List.mem_cons, List.not_mem_nil, or_false, not_or] at hrax
  obtain ⟨h3, h4, h14⟩ := hrax
  rw [pendingCall.eq_def, if_pos rfl]
  dsimp only
  split <;> first | rfl | contradiction

theorem begunSend_of_ne (hrax : (m.regs .rax).toNat ≠ 3) : m.begunSend .syscall = [] :=
  if_neg hrax

theorem begunSend_of_task (hrax : (m.regs .rax).toNat = 3) (hid : (m.regs .rdi).toNat = d + 1)
    (hd : m.kernel.sched.tasks d = some p) :
    m.begunSend .syscall = [⟨m.cur, d, readMessage m.kernel.mem (m.regs .rsi).toNat⟩] := by
  have hslot : slotOf (m.regs .rdi).toNat = some d := slotOf_eq_some.mpr hid
  simp [begunSend, hrax, hslot, hd]

theorem begunSend_of_none (hdest : ∀ d : Fin 8, (m.regs .rdi).toNat = d + 1 →
    m.kernel.sched.tasks d = none) : m.begunSend .syscall = [] := by
  rw [begunSend]
  split
  · cases hslot : slotOf (m.regs .rdi).toNat with
    | none => rfl
    | some d => simp [hdest d (slotOf_eq_some.mp hslot)]
  · rfl

/-- The message a call reads is the one its caller has written. -/
theorem stampedMessage_eq (hm : m.Sound) (ht : m.kernel.sched.tasks m.cur = some t)
    {saved : RegFile} (hframe : FramePushed m.kernel.mem mem t.kernelStackTop saved) {ptr : ℕ}
    (hapart : m.kernel.sched.ApartFromFrames (messageSpan ptr)) :
    Kernel.stampedMessage { m.kernel with mem := mem } ptr =
      (readMessage m.kernel.mem ptr).stampedBy m.cur := by
  have htop := hm.stacksOk.sched.top _ t ht
  have hown := hapart _ t ht
  rw [Span.Apart, messageSpan, Task.frame] at hown
  dsimp only at hown
  rw [Kernel.stampedMessage, readMessage_congr (hframe.agree _ _ (by omega))]
  rfl

/-- After a message has been handed over both partners have the result 0, every other task is in its
state, and the message is in the buffer. -/
theorem handOver_observed {buf : ℕ} {msg : Message} (hm : m.Sound) (h : Step m .syscall m')
    (ht : m.kernel.sched.tasks m.cur = some t) (hd : m.kernel.sched.tasks d = some p)
    (hblocked : ¬p.IsRunnable) (hbuf : m.kernel.sched.ApartFromFrames (messageSpan buf))
    (hk : m'.kernel = Kernel.handOver { m.kernel with mem := mem } d p.rsp buf msg t.rsp) :
    d ≠ m.cur ∧ m'.result m.cur = some 0 ∧ m'.result d = some 0 ∧
      (∀ i, i ≠ m.cur → i ≠ d → m.endedCall .syscall m' i = none) ∧
      readMessage m'.kernel.mem buf = msg := by
  have hrun := (Scheduler.runnableAt_iff ht).mp hm.runnable
  have hne : d ≠ m.cur := by
    rintro rfl
    rw [← Option.some.inj (ht.symm.trans hd)] at hblocked
    exact hblocked hrun
  -- the two results are written into the two frames, which do not meet, and the message apart from
  -- both
  have hapart := hm.stacksOk.sched.apart _ _ _ _ hne.symm ht hd
  have htasks : m'.kernel.sched.tasks = (m.kernel.sched.setState d .ready).tasks := by
    rw [hk]
    rfl
  have hcur' : m'.kernel.sched.tasks m.cur = some t := by
    rw [htasks, Scheduler.setState_tasks_of_ne hne.symm, ht]
  have hd' : m'.kernel.sched.tasks d = some { p with state := .ready } := by
    rw [htasks, Scheduler.setState_tasks_self hd]
  refine ⟨hne, ?_, ?_, fun i hi hid ↦ endedCall_of_same hi ?_, ?_⟩
  · rw [result_of_entry hm h (fun _ _ ↦ nofun) hcur' hrun, hk,
      Kernel.handOver_frame_self hapart (hbuf _ t ht), Function.update_self]
  · rw [result_of_entry hm h (fun _ _ ↦ nofun) hd' (Or.inl rfl), hk]
    dsimp only
    rw [Kernel.handOver_frame_partner hapart (hbuf _ p hd), Function.update_self]
  · rw [htasks, Scheduler.setState_tasks_of_ne hid]
  · rw [hk]
    exact Kernel.handOver_message (hbuf _ t ht) (hbuf _ p hd)

/-- A call that only leaves the result `v` ends no call, unless it is one of the IPC and `v` is 0.
-/
theorem setRax_observed (mem : Mem) (v : UInt64) (hm : m.Sound) (h : Step m .syscall m')
    (ht : m.kernel.sched.tasks m.cur = some t)
    (htasks : m'.kernel.sched.tasks = m.kernel.sched.tasks)
    (hcur : (m.regs .rax).toNat ∉ [3, 4, 14] ∨
      v ≠ 0 ∧ m'.kernel.mem = writeU64 mem (t.rsp + 8 * 14) v) :
    m.observe .syscall m' = ⟨m.begunSend .syscall, [], []⟩ := by
  refine observe_of_none fun i ↦ ?_
  by_cases hi : i = m.cur
  · subst hi
    rcases hcur with hrax | ⟨hv, hmem⟩
    · rw [endedCall, pendingCall_none hrax, ite_self]
    · have hrun := (Scheduler.runnableAt_iff ht).mp hm.runnable
      have hresult : m'.result m.cur = some v := by
        rw [result_of_entry hm h (fun _ _ ↦ nofun) (by rw [htasks, ht]) hrun, hmem,
          frameReg_writeRax, Function.update_self]
      rw [endedCall_cur hresult, if_neg hv]
  · exact endedCall_of_same hi (by rw [htasks])

theorem block_observed {state : TaskState} (hstate : ¬state.IsRunnable)
    (htasks : m'.kernel.sched.tasks =
      Function.update m.kernel.sched.tasks m.cur (some { t with state := state })) :
    m.observe .syscall m' = ⟨m.begunSend .syscall, [], []⟩ := by
  refine observe_of_none fun i ↦ ?_
  by_cases hi : i = m.cur
  · subst hi
    rw [endedCall, result_of_blocked (t := { t with state := state })
      (by rw [htasks, Function.update_self]) hstate]
    rfl
  · exact endedCall_of_same hi (by rw [htasks, Function.update_of_ne hi])

theorem stepsAs_silent (hstatus : m'.kernel.sched.status = m.kernel.sched.status)
    (hobserve : m.observe e m' = .empty) (hcall : m.CallIs e .silent) :
    ∃ l, m.StepsAs e m' l :=
  ⟨.silent, by rw [hstatus]; exact .silent, trivial, hobserve, hcall⟩

theorem Sound.status_cur (hm : m.Sound) : m.kernel.sched.status m.cur = .idle := by
  obtain ⟨t, ht, hrun⟩ := hm.runnable
  rw [Scheduler.status_of_task ht]
  rcases hrun with hready | hrunning
  · rw [hready]
    rfl
  · rw [hrunning]
    rfl

private theorem messageSpan_apart (hspares : m.SparesFrames .syscall)
    (hrax : (m.regs .rax).toNat = 3 ∨ (m.regs .rax).toNat = 4 ∨ (m.regs .rax).toNat = 14) :
    m.kernel.sched.ApartFromFrames (messageSpan (m.regs .rsi).toNat) := by
  rcases hrax with h | h | h <;>
    simpa [SparesFrames, Kernel.callerBuffer, messageSpan, h] using hspares

section

variable {srcId : Option ℕ} {buf : ℕ} {msg : Message} {saved : RegFile} {k' : Kernel}

/-- A send that meets its receiver. -/
theorem stepsAs_deliver (hm : m.Sound) (h : Step m .syscall m')
    (ht : m.kernel.sched.tasks m.cur = some t) (hspares : m.SparesFrames .syscall)
    (hframe : FramePushed m.kernel.mem mem t.kernelStackTop saved)
    (hrax : (m.regs .rax).toNat = 3) (hid : (m.regs .rdi).toNat = d + 1)
    (hd : m.kernel.sched.tasks d = some p) (hstate : p.state = .receiving srcId buf)
    (hadmits : Admits srcId m.cur)
    (hk : m'.kernel = Kernel.handOver { m.kernel with mem := mem } d p.rsp buf
      (Kernel.stampedMessage { m.kernel with mem := mem } (m.regs .rsi).toNat) t.rsp) :
    ∃ l, m.StepsAs .syscall m' l := by
  have hblocked : ¬p.IsRunnable := by
    rw [Task.IsRunnable, hstate]
    exact TaskState.not_isRunnable_receiving
  obtain ⟨hne, hself, hpartner, hother, hread⟩ := handOver_observed hm h ht hd hblocked
    (hm.buffersApart d p srcId buf hd hstate) hk
  have hpending : m.pendingCall .syscall d = some (.recv srcId buf) := by
    rw [pendingCall.eq_def, if_neg hne, hd, Option.map_some, hstate]
  have hstamped := stampedMessage_eq hm ht hframe (messageSpan_apart hspares (Or.inl hrax))
  refine ⟨.deliver m.cur d srcId _, ?_, hm.status_cur, ⟨_, hstamped, ?_⟩, rfl, hrax, hid, hstamped⟩
  · rw [hk]
    exact Kernel.handOver_deliver (k := { m.kernel with mem := mem }) hd hstate hadmits
  · rw [observe_of_pair (s := m.cur) (r := d)
      (by rw [endedCall_cur hself, if_pos rfl, pendingCall_send hrax])
      (by rw [endedCall, if_pos hpartner, hpending]) hother, begunSend_of_task hrax hid hd, hread,
      hid]

/-- A send that does not. -/
theorem stepsAs_post (hm : m.Sound) (ht : m.kernel.sched.tasks m.cur = some t)
    (hspares : m.SparesFrames .syscall)
    (hframe : FramePushed m.kernel.mem mem t.kernelStackTop saved)
    (hrax : (m.regs .rax).toNat = 3) (hid : (m.regs .rdi).toNat = d + 1)
    (hd : m.kernel.sched.tasks d = some p) (hbuf : p.state.bufferFor (m.cur + 1) = none)
    (hblock : Kernel.block { m.kernel with mem := mem } (.sending (m.regs .rdi).toNat
      (Kernel.stampedMessage { m.kernel with mem := mem } (m.regs .rsi).toNat)) t.rsp =
        .ok (newRsp, m'.kernel)) :
    ∃ l, m.StepsAs .syscall m' l := by
  have hstamped := stampedMessage_eq hm ht hframe (messageSpan_apart hspares (Or.inl hrax))
  obtain ⟨htasks, -⟩ := Kernel.block_same (k := { m.kernel with mem := mem }) ht hblock
  refine ⟨.post m.cur d _, ?_, hm.status_cur, ⟨_, hstamped, ?_⟩, rfl, hrax, hid, hstamped⟩
  · exact Kernel.block_post (k := { m.kernel with mem := mem }) hd hbuf (hid ▸ hblock)
  · rw [block_observed TaskState.not_isRunnable_sending htasks, begunSend_of_task hrax hid hd]

theorem stepsAs_accept (hm : m.Sound) (hids : m.kernel.sched.IdsOk) (h : Step m .syscall m')
    (ht : m.kernel.sched.tasks m.cur = some t) (hspares : m.SparesFrames .syscall)
    (hrax : (m.regs .rax).toNat = 4 ∨ (m.regs .rax).toNat = 14)
    (hd : m.kernel.sched.tasks d = some p) (hstate : p.state = .sending (m.cur + 1) msg)
    (hadmits : srcIdOption (m.regs .rdi).toNat = none ∨
      srcIdOption (m.regs .rdi).toNat = some p.id)
    (hk : m'.kernel = Kernel.handOver { m.kernel with mem := mem } d p.rsp (m.regs .rsi).toNat msg
      t.rsp) : ∃ l, m.StepsAs .syscall m' l := by
  have hblocked : ¬p.IsRunnable := by
    rw [Task.IsRunnable, hstate]
    exact TaskState.not_isRunnable_sending
  obtain ⟨hne, hself, hpartner, hother, hread⟩ := handOver_observed hm h ht hd hblocked
    (messageSpan_apart hspares (Or.inr hrax)) hk
  have hpending : m.pendingCall .syscall d = some (.send (m.cur + 1)) := by
    rw [pendingCall.eq_def, if_neg hne, hd, Option.map_some, hstate]
  refine ⟨.accept d m.cur (srcIdOption (m.regs .rdi).toNat) msg, ?_, trivial, ?_, rfl, hrax, rfl⟩
  · rw [hk]
    exact Kernel.handOver_accept (k := { m.kernel with mem := mem }) hids hd hstate hadmits
  · rw [Recorded, observe_of_pair (s := d) (r := m.cur)
      (by rw [endedCall, if_pos hpartner, hpending])
      (by rw [endedCall_cur hself, if_pos rfl, pendingCall_recv hrax])
      (fun j h1 h2 ↦ hother j h2 h1), begunSend_of_ne (by omega), hread]

theorem stepsAs_wait (hm : m.Sound) (hids : m.kernel.sched.IdsOk)
    (ht : m.kernel.sched.tasks m.cur = some t) (hrax : (m.regs .rax).toNat = 4)
    (hnone : ∀ i t, m.kernel.sched.tasks i = some t →
      ¬t.SendsTo (m.cur + 1) (srcIdOption (m.regs .rdi).toNat))
    (hblock : Kernel.block { m.kernel with mem := mem }
      (.receiving (srcIdOption (m.regs .rdi).toNat) (m.regs .rsi).toNat) t.rsp =
        .ok (newRsp, m'.kernel)) : ∃ l, m.StepsAs .syscall m' l := by
  obtain ⟨htasks, -⟩ := Kernel.block_same (k := { m.kernel with mem := mem }) ht hblock
  refine ⟨.wait m.cur (srcIdOption (m.regs .rdi).toNat), ?_, hm.status_cur, ?_, rfl, Or.inl hrax,
    rfl⟩
  · exact Kernel.block_wait (k := { m.kernel with mem := mem }) hids hnone hblock
  · rw [Recorded, block_observed TaskState.not_isRunnable_receiving htasks,
      begunSend_of_ne (by omega)]
    rfl

end

/-- **Every system call** is a step of the rendezvous, and shows what that step shows. -/
theorem syscall_stepsAs (hm : m.Sound) (hids : m.kernel.sched.IdsOk)
    (hspares : m.SparesFrames .syscall) (hcall : m.syscall = .ok m') :
    ∃ l, m.StepsAs .syscall m' l := by
  obtain ⟨t, ht⟩ := hm.stacksOk.current
  obtain ⟨mem, newRsp, hframe, hout, -⟩ := syscall_entry hm.stacksOk.entersAtTop ht hcall
  have h : Step m .syscall m' := .syscall hcall
  -- a call that neither hands a message over nor blocks is a silent step; each of the others has
  -- its own
  generalize hk : m'.kernel = k' at hout
  cases hout with
  | yield hrax _ k₁ hswitch =>
    obtain ⟨htasks, -⟩ := Kernel.switchTask_same (k := { m.kernel with mem := mem }) ht hswitch
    have hstatus := Kernel.switchTask_status hswitch
    refine stepsAs_silent ?_ ?_ ⟨by omega, fun h ↦ by omega⟩
    · rw [hk]
      exact hstatus
    · rw [setRax_observed mem 0 hm h ht (by rw [hk]; exact htasks) (Or.inl (by simp [hrax])),
        begunSend_of_ne (by omega)]
      rfl
  | plain hrax mem' =>
    simp only [List.mem_cons, List.not_mem_nil, or_false, not_or] at hrax
    obtain ⟨-, h3, h4, h14⟩ := hrax
    refine stepsAs_silent (by rw [hk]) ?_ ⟨h4, fun h ↦ absurd h h3⟩
    rw [setRax_observed mem 0 hm h ht (by rw [hk]) (Or.inl (by simp [h3, h4, h14])),
      begunSend_of_ne h3]
    rfl
  | send hrax _ _ hsend =>
    cases hsend with
    | invalid hdest =>
      refine stepsAs_silent (by rw [hk]; rfl) ?_ ⟨by omega, fun _ ↦ hdest⟩
      rw [setRax_observed mem (-1) hm h ht (by rw [hk]; rfl) (Or.inr ⟨by decide, by rw [hk]; rfl⟩),
        begunSend_of_none hdest]
      rfl
    | deliver d dest buf hid hdest hdbuf =>
      obtain ⟨srcId, hstate, hadmits⟩ := TaskState.bufferFor_eq_some.mp hdbuf
      exact stepsAs_deliver hm h ht hspares hframe hrax hid hdest hstate hadmits hk
    | block d dest hid hdest hdbuf _ _ hblock =>
      exact stepsAs_post hm ht hspares hframe hrax hid hdest hdbuf (hk ▸ hblock)
  | recv hrax _ _ hrecv =>
    cases hrecv with
    | accept i sender msg hsender hstate hadmits =>
      exact stepsAs_accept hm hids h ht hspares (Or.inl hrax) hsender hstate hadmits hk
    | block hnone _ _ hblock => exact stepsAs_wait hm hids ht hrax hnone (hk ▸ hblock)
  | tryRecv hrax _ _ hrecv =>
    cases hrecv with
    | accept i sender msg hsender hstate hadmits =>
      exact stepsAs_accept hm hids h ht hspares (Or.inr hrax) hsender hstate hadmits hk
    | empty hnone =>
      refine stepsAs_silent (by rw [hk]; rfl) ?_ ⟨by omega, fun h ↦ by omega⟩
      rw [setRax_observed mem (-1) hm h ht (by rw [hk]; rfl) (Or.inr ⟨by decide, by rw [hk]; rfl⟩),
        begunSend_of_ne (by omega)]
      rfl

/-- **Every step** is a step of the rendezvous, and shows what that step shows. -/
theorem Step.stepsAs (h : Step m e m') (hspares : m.SparesFrames e) (hm : m.Sound)
    (hids : m.kernel.sched.IdsOk) : ∃ l, m.StepsAs e m' l := by
  have hsilent : m.begunSend e = [] → m.pendingCall e m.cur = none → m.CallIs e .silent →
      m'.kernel.sched.tasks = m.kernel.sched.tasks → ∃ l, m.StepsAs e m' l := by
    intro hsend hcur hcall htasks
    apply stepsAs_silent (Scheduler.status_congr fun i ↦ by rw [htasks]) ?_ hcall
    rw [observe_of_none, hsend]
    · rfl
    · intro i
      by_cases hi : i = m.cur
      · rw [hi, endedCall, hcur, ite_self]
      · exact endedCall_of_same hi (by rw [htasks])
  cases h with
  | user => exact hsilent rfl (if_pos rfl) rfl rfl
  | syscall h => exact syscall_stepsAs hm hids hspares h
  | tick h =>
    obtain ⟨t, ht⟩ := hm.stacksOk.current
    obtain ⟨htasks, -⟩ := timer_effect hm ht h
    exact hsilent rfl (if_pos rfl) rfl htasks

end Machine

/-! ## What a step adds to the ledger -/

section

open Rendezvous

theorem id_inj {i j : Fin 8} : UInt64.ofNat (i + 1) = UInt64.ofNat (j + 1) ↔ i = j := by
  revert i j
  decide

/-- A message that changes hands names its sender. -/
def Stamped : Label (Fin 8) Message (Option ℕ) → Prop
  | .deliver src _ _ msg | .post src _ msg | .accept src _ _ msg =>
    msg.sender = UInt64.ofNat (src + 1)
  | .silent | .wait _ _ => True

variable {g : Ledger} {l : Label (Fin 8) Message (Option ℕ)} {s s' : Fin 8 → Status}

theorem Recorded.stamped (h : Recorded g l) (hstep : Step Admits s l s')
    (hs : ∀ i d msg, s i = .sending d msg → msg.sender = UInt64.ofNat (i + 1)) : Stamped l := by
  cases hstep with
  | silent => trivial
  | wait => trivial
  | accept hsrc => exact hs _ _ _ hsrc
  | deliver =>
    obtain ⟨raw, rfl, -⟩ := h
    rfl
  | post =>
    obtain ⟨raw, rfl, -⟩ := h
    rfl

theorem Stamped.held (h : Stamped l) (hstep : Step Admits s l s')
    (hs : ∀ i d msg, s i = .sending d msg → msg.sender = UInt64.ofNat (i + 1)) {i d : Fin 8}
    {msg : Message} (hheld : s' i = .sending d msg) : msg.sender = UInt64.ofNat (i + 1) := by
  have hidle : ∀ {p : Fin 8} {st : Status}, (∀ d msg, st ≠ .sending d msg) →
      Function.update s p st i = .sending d msg → msg.sender = UInt64.ofNat (i + 1) := by
    intro p st hst hheld
    by_cases hi : i = p
    · rw [hi, Function.update_self] at hheld
      exact absurd hheld (hst _ _)
    · rw [Function.update_of_ne hi] at hheld
      exact hs _ _ _ hheld
  cases hstep with
  | silent => exact hs _ _ _ hheld
  | deliver => exact hidle (fun _ _ h ↦ by cases h) hheld
  | accept => exact hidle (fun _ _ h ↦ by cases h) hheld
  | wait => exact hidle (fun _ _ h ↦ by cases h) hheld
  | @post src dst msg' _ =>
    by_cases hi : i = src
    · subst hi
      rw [Function.update_self, Status.sending.injEq] at hheld
      rw [← hheld.2]
      exact h
    · rw [Function.update_of_ne hi] at hheld
      exact hs _ _ _ hheld

theorem Recorded.sentMessages (h : Recorded g l) (i j : Fin 8) :
    g.sentMessages i j = l.sent i j := by
  have hone : ∀ (src dst : Fin 8) (raw : Message),
      (([⟨src, dst, raw⟩] : List Sent).filter fun s ↦ s.src = i ∧ s.dst = j).map
        (fun s ↦ s.msg.stampedBy i) = if src = i ∧ dst = j then [raw.stampedBy src] else [] := by
    intro src dst raw
    by_cases hpair : src = i ∧ dst = j
    · obtain ⟨rfl, rfl⟩ := hpair
      simp
    · simp [hpair]
  cases l with
  | silent => rw [h]; rfl
  | wait => rw [h]; rfl
  | accept => rw [h]; rfl
  | deliver src dst srcId msg =>
    obtain ⟨raw, rfl, rfl⟩ := h
    exact hone src dst raw
  | post src dst msg =>
    obtain ⟨raw, rfl, rfl⟩ := h
    exact hone src dst raw

theorem Recorded.receivedMessages (h : Recorded g l) (hl : Stamped l) (i j : Fin 8) :
    g.receivedMessages i j = l.received i j := by
  -- a received message counts for the pair that is named by its place and its stamp
  have hone : ∀ (src dst : Fin 8) (srcId : Option ℕ) (msg : Message),
      msg.sender = UInt64.ofNat (src + 1) →
      (([⟨dst, srcId, msg⟩] : List Received).filter fun r ↦
        r.dst = j ∧ r.msg.sender = UInt64.ofNat (i + 1)).map Received.msg =
        if src = i ∧ dst = j then [msg] else [] := by
    intro src dst srcId msg hsender
    have hiff : (dst = j ∧ msg.sender = UInt64.ofNat (i + 1)) ↔ src = i ∧ dst = j := by
      rw [hsender, id_inj, and_comm]
    simp only [List.filter_cons, List.filter_nil, decide_eq_true_eq, hiff]
    by_cases hpair : src = i ∧ dst = j
    · rw [if_pos hpair, if_pos hpair]
      rfl
    · rw [if_neg hpair, if_neg hpair]
      rfl
  cases l with
  | silent => rw [h]; rfl
  | wait => rw [h]; rfl
  | post src dst msg =>
    obtain ⟨raw, -, rfl⟩ := h
    rfl
  | accept src dst srcId msg =>
    rw [h]
    exact hone src dst srcId msg hl
  | deliver src dst srcId msg =>
    obtain ⟨raw, -, rfl⟩ := h
    exact hone src dst srcId msg hl

/-- A send ends together with the receive of its message. -/
theorem Recorded.paired (h : Recorded g l) (hl : Stamped l) :
    g.completedPairs = g.receivedPairs := by
  cases l with
  | silent => rw [h]; rfl
  | wait => rw [h]; rfl
  | post src dst msg =>
    obtain ⟨raw, -, rfl⟩ := h
    rfl
  | accept src dst srcId msg =>
    rw [h]
    simp only [Ledger.completedPairs, Ledger.receivedPairs, List.map_cons, List.map_nil]
    rw [hl]
  | deliver src dst srcId msg =>
    obtain ⟨raw, -, rfl⟩ := h
    simp only [Ledger.completedPairs, Ledger.receivedPairs, List.map_cons, List.map_nil]
    rw [hl]

/-- A message is received only from a task the filter admits. -/
theorem Recorded.admitted (h : Recorded g l) (hl : Stamped l) (hstep : Step Admits s l s') :
    ∀ r ∈ g.received, ∃ i : Fin 8, r.msg.sender = UInt64.ofNat (i + 1) ∧ Admits r.srcId i := by
  intro r hr
  cases l with
  | silent => rw [h] at hr; cases hr
  | wait => rw [h] at hr; cases hr
  | post src dst msg =>
    obtain ⟨raw, -, rfl⟩ := h
    cases hr
  | accept src dst srcId msg =>
    rw [h] at hr
    obtain rfl := List.mem_singleton.mp hr
    exact ⟨src, hl, hstep.admits_accept⟩
  | deliver src dst srcId msg =>
    obtain ⟨raw, -, rfl⟩ := h
    obtain rfl := List.mem_singleton.mp hr
    exact ⟨src, hl, hstep.admits_deliver⟩

end

/-! ## The ledger of a run -/

/-- A machine with the ledger of the run so far. -/
structure Observed where
  machine : Machine
  ledger : Ledger

/-- A step of an orderly run adds what the tasks see of it to the ledger. -/
def Observed.Step (o : Observed) (e : Event) (o' : Observed) : Prop :=
  o.machine.OrderlyStep e o'.machine ∧
    o'.ledger = o.ledger.append (o.machine.observe e o'.machine)

/-- The message task `i` holds for task `j` while it is blocked sending. -/
def Machine.held (m : Machine) (i j : Fin 8) : List Message :=
  match (m.kernel.sched.tasks i).map Task.state with
  | some (.sending destId msg) => if destId = j + 1 then [msg] else []
  | some .ready | some .running | some (.receiving _ _) | none => []

theorem Machine.held_eq (m : Machine) (i j : Fin 8) :
    m.held i j = (m.kernel.sched.status i).held j := by
  rw [held, Scheduler.status]
  cases m.kernel.sched.tasks i with
  | none => rfl
  | some t =>
    rw [Option.map_some]
    dsimp only
    cases hstate : t.state with
    | ready => rfl
    | running => rfl
    | receiving srcId buf => rfl
    | sending destId msg =>
      rw [TaskState.status]
      dsimp only
      cases hslot : slotOf destId with
      | none =>
        rw [if_neg]
        · rfl
        · rintro rfl
          simp at hslot
      | some d =>
        rw [slotOf_eq_some.mp hslot, Rendezvous.Status.held]
        simp only [add_left_inj, Fin.val_inj]

/-- What holds of machine and ledger in an orderly run. -/
structure Observed.Ok (o : Observed) : Prop where
  sound : o.machine.Sound
  idsOk : o.machine.kernel.sched.IdsOk
  /-- Messages that are held name their senders. -/
  stamped : ∀ i d msg, o.machine.kernel.sched.status i = .sending d msg →
    msg.sender = UInt64.ofNat (i + 1)
  conserved : ∀ i j, o.ledger.sentMessages i j =
    o.ledger.receivedMessages i j ++ o.machine.held i j
  paired : o.ledger.completedPairs = o.ledger.receivedPairs
  admitted : ∀ r ∈ o.ledger.received, ∃ i : Fin 8, r.msg.sender = UInt64.ofNat (i + 1) ∧
    Admits r.srcId i

/-- **An orderly step** keeps machine and ledger consistent. -/
theorem Observed.Ok.step {o o' : Observed} {e : Event} (ho : o.Ok) (h : o.Step e o') : o'.Ok := by
  obtain ⟨hstep, hledger⟩ := h
  obtain ⟨l, hl, hidle, hrec, -⟩ := hstep.2.stepsAs hstep.1.2 ho.sound ho.idsOk
  have hstamped := hrec.stamped hl ho.stamped
  refine ⟨ho.sound.step hstep, (hstep.2.refines ho.idsOk).2,
    fun i d msg hheld ↦ hstamped.held hl ho.stamped hheld, fun i j ↦ ?_, ?_, ?_⟩
  · have hconserve := hl.conserve hidle i j
    rw [hledger, Ledger.sentMessages_append, Ledger.receivedMessages_append, ho.conserved i j,
      hrec.sentMessages, hrec.receivedMessages hstamped, List.append_assoc, List.append_assoc,
      Machine.held_eq, Machine.held_eq, hconserve]
  · rw [hledger, Ledger.completedPairs_append, Ledger.receivedPairs_append, ho.paired,
      hrec.paired hstamped]
  · rw [hledger]
    intro r hr
    rcases List.mem_append.mp hr with hr | hr
    · exact ho.admitted r hr
    · exact hrec.admitted hstamped hl r hr

theorem Started.observedOk {m : Machine} {specs : List TaskSpec} (h : Started m specs)
    (hok : KernelStacksOk specs) (hids : SpecIdsOk specs) :
    (⟨m, .empty⟩ : Observed).Ok where
  sound := h.sound hok
  idsOk := h.idsOk hids
  stamped i d msg hheld := by
    rw [h.allReady.status_eq] at hheld
    cases hheld
  conserved i j := by
    rw [Machine.held_eq, h.allReady.status_eq]
    rfl
  paired := rfl
  admitted r hr := by cases hr

/-- **IPC is exactly-once and authentic.** In an orderly run from the start of the first task,
observed with an empty ledger at first:

* the messages task `i` has sent to an existing task `j` are, in order and unchanged but for the
  sender's id, the messages `j` has received that name `i`, followed by the one `i` is holding while
  it is blocked sending to `j`, if any;
* sends and receives end in pairs;
* every message received names a task that the receiver's filter admits. -/
theorem delivered_exactly_once {k : Kernel} {specs : List TaskSpec} {m₀ : Machine} {o : Observed}
    {es : List Event} (hok : KernelStacksOk specs) (hids : SpecIdsOk specs)
    (hstart : k.start specs = .ok m₀) (hrun : Run Observed.Step ⟨m₀, .empty⟩ es o) :
    (∀ i j, o.ledger.sentMessages i j = o.ledger.receivedMessages i j ++ o.machine.held i j) ∧
    o.ledger.completedPairs = o.ledger.receivedPairs ∧
    ∀ r ∈ o.ledger.received, ∃ i : Fin 8, r.msg.sender = UInt64.ofNat (i + 1) ∧
      (r.srcId = none ∨ r.srcId = some (i.val + 1)) := by
  have ho : o.Ok := hrun.invariant ((start_started hstart).observedOk hok hids)
    fun _ _ _ ho hstep ↦ ho.step hstep
  exact ⟨ho.conserved, ho.paired, ho.admitted⟩

theorem delivered_exactly_once_twoTasks :
    ∃ g : Ledger, g.received.length = 1 ∧
      ∀ i j, g.sentMessages i j = g.receivedMessages i j ++ twoReceived.held i j := by
  have hobserve : ∀ {o : Observed} {e : Event} {m : Machine} (h : o.machine.OrderlyStep e m),
      o.Step e ⟨m, o.ledger.append (o.machine.observe e m)⟩ := fun h ↦ ⟨h, rfl⟩
  have hrun := (((Run.nil.snoc (hobserve (o := ⟨twoStarted, .empty⟩) (.load _ 3 2 0x5000))).snoc
    (hobserve orderlyStep_twoSent)).snoc (hobserve (.load _ 4 0 0x6000))).snoc
    (hobserve orderlyStep_twoReceived)
  exact ⟨_, by decide +kernel,
    (delivered_exactly_once twoTasks_ok specIdsOk_twoTasks (Checked.eq_ok_result _ _) hrun).1⟩

end RelizOS
