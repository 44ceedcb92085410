import RelizOS.Kernel.Syscall
import RelizOS.Library.Span

/-!
# What each call does

One lemma for each kernel operation says what it has done if it returned. `switchTask_cases` and
`block_cases` are the two ways to change the current task. A send or a receive has one of the
outcomes `SendOutcome` and `RecvOutcome`; both hand a message over in the same way, `handOver`.
`handleSyscall_cases` puts them together with the calls that only leave a result.

Everything proved about the kernel afterwards is a case analysis on these outcomes; the definitions
of the calls are not unfolded again.
-/

open ByteMemory

namespace RelizOS

/-! ## The searches for a sender -/

namespace Scheduler

variable {s : Scheduler} {receiverId : ℕ} {srcId : Option ℕ} {i : Fin 8}

theorem recvSearch_eq (s : Scheduler) (receiverId : ℕ) (srcId : Option ℕ) :
    s.recvSearch receiverId srcId = s.tryRecvSearch receiverId srcId := by
  rw [recvSearch, tryRecvSearch, List.findSome?_map]
  generalize List.finRange 8 = l
  induction l with
  | nil => rfl
  | cons i l ih =>
    rw [List.findSome?_cons, List.find?_cons]
    cases ht : s.tasks i with
    | none => simpa [ht] using ih
    | some t =>
      by_cases hsends : t.SendsTo receiverId srcId
      · simp [ht, hsends]
      · simpa [ht, hsends] using ih

theorem recvSearch_some (h : s.recvSearch receiverId srcId = some i) :
    ∃ t msg, s.tasks i = some t ∧ t.state = .sending receiverId msg ∧
      (srcId = none ∨ srcId = some t.id) := by
  rw [recvSearch_eq] at h
  have hfound := List.find?_some h
  cases ht : s.tasks i with
  | none => simp [ht] at hfound
  | some t =>
    rw [ht] at hfound
    have hsends := of_decide_eq_true hfound
    rw [Task.SendsTo] at hsends
    cases hstate : t.state with
    | sending destId msg =>
      rw [hstate] at hsends
      exact ⟨t, msg, rfl, by rw [hstate, hsends.1], hsends.2⟩
    | ready => simp [hstate] at hsends
    | running => simp [hstate] at hsends
    | receiving src buf => simp [hstate] at hsends

theorem recvSearch_none (h : s.recvSearch receiverId srcId = none) {t : Task}
    (ht : s.tasks i = some t) : ¬t.SendsTo receiverId srcId := by
  rw [recvSearch_eq] at h
  have hnot := List.find?_eq_none.mp h i (List.mem_finRange i)
  simpa [ht] using hnot

end Scheduler

namespace Kernel

variable {k k' : Kernel} {t : Task} {rsp newRsp : ℕ}

/-- The slot of the running task. -/
abbrev cur (k : Kernel) : Fin 8 := k.sched.currentTaskIdx

/-! ## Switching -/

/-- The kernel after the switch to slot `j`, which holds task `t`. -/
def switchedTo (k : Kernel) (sched : Scheduler) (j : Fin 8) (t : Task) : Kernel :=
  { k with
    sched := { sched with currentTaskIdx := j }
    tssRsp0 := t.kernelStackTop
    currentKernelStack := t.kernelStackTop }

/-- The stack pointer of the current task `t` is saved and another task selected, whose stack
pointer is returned. -/
theorem switchTask_cases (hcur : k.sched.tasks k.cur = some t)
    (h : k.switchTask rsp = .ok (newRsp, k')) :
    ∃ j t', (k.sched.putCurrent { t with rsp := rsp }).Selects j ∧
      (k.sched.putCurrent { t with rsp := rsp }).tasks j = some t' ∧ newRsp = t'.rsp ∧
      k' = k.switchedTo (k.sched.putCurrent { t with rsp := rsp }) j t' := by
  rw [switchTask, Scheduler.saveCurrentRsp_eq hcur] at h
  obtain ⟨j, hj, hsel⟩ := (k.sched.putCurrent { t with rsp := rsp }).selectNextTask_spec
  generalize hs : k.sched.putCurrent { t with rsp := rsp } = sched at h hj hsel ⊢
  have hrun : ∃ t', sched.tasks j = some t' := by
    rcases hsel with ⟨-, -, -, -, ⟨t', ht', -⟩, -⟩ | ⟨rfl, -⟩
    · exact ⟨t', ht'⟩
    · subst hs
      exact ⟨_, Scheduler.putCurrent_tasks_self⟩
  obtain ⟨t', ht'⟩ := hrun
  have hcur' : ({ sched with currentTaskIdx := j } : Scheduler).currentTask = some t' := ht'
  rw [hj, Checked.ok_bind, Scheduler.getCurrentRsp_eq hcur', Checked.ok_bind, hcur'] at h
  obtain ⟨_, -, h⟩ := Checked.bind_eq_ok.mp h
  cases h
  exact ⟨j, t', hsel, ht', rfl, rfl⟩

/-- A switch leaves every task as it is, but for the saved stack pointer of the current one. -/
theorem switchTask_tasks (h : k.switchTask rsp = .ok (newRsp, k')) (i : Fin 8) :
    (k'.sched.tasks i).map ({ · with rsp := 0 }) = (k.sched.tasks i).map ({ · with rsp := 0 }) := by
  cases hcur : k.sched.tasks k.cur with
  | some t =>
    obtain ⟨j, t', -, -, -, rfl⟩ := switchTask_cases hcur h
    by_cases hi : i = k.cur
    · subst hi
      dsimp only [switchedTo]
      rw [Scheduler.putCurrent_tasks_self, hcur]
      rfl
    · exact congrArg _ (Scheduler.putCurrent_tasks_of_ne hi)
  | none =>
    have hsave : (k.sched.saveCurrentRsp rsp).tasks = k.sched.tasks := by
      rw [Scheduler.saveCurrentRsp]
      split
      · rfl
      · rw [hcur]
    obtain ⟨j, hj, -⟩ := (k.sched.saveCurrentRsp rsp).selectNextTask_spec
    rw [switchTask, hj, Checked.ok_bind] at h
    obtain ⟨r, -, h⟩ := Checked.bind_eq_ok.mp h
    split at h
    · obtain ⟨_, -, h⟩ := Checked.bind_eq_ok.mp h
      cases h
      rw [hsave]
    · cases h
      rw [hsave]

theorem block_cases {state : TaskState} (h : k.block state rsp = .ok (newRsp, k')) :
    ∃ t j t', k.sched.tasks k.cur = some t ∧
      (k.sched.putCurrent { t with state := state, rsp := rsp }).Selects j ∧
      (k.sched.putCurrent { t with state := state, rsp := rsp }).tasks j = some t' ∧
      newRsp = t'.rsp ∧
      k' = k.switchedTo (k.sched.putCurrent { t with state := state, rsp := rsp }) j t' := by
  obtain ⟨t, hcur, h⟩ := Checked.bind_eq_ok.mp h
  have hcur : k.sched.tasks k.cur = some t := Checked.unwrap_eq_ok.mp hcur
  rw [Scheduler.setState_current hcur] at h
  obtain ⟨j, t', hsel, ht', hrsp, hk⟩ :=
    switchTask_cases (t := { t with state := state }) Scheduler.putCurrent_tasks_self h
  simp only [Scheduler.putCurrent_putCurrent] at hsel ht' hk
  exact ⟨t, j, t', hcur, hsel, ht', hrsp, hk⟩

/-! ## Handing a message over -/

/-- The kernel after a message has been handed over: it is in the receiver's buffer, the partner,
whose frame is at `partnerRsp`, is ready, and both calls have the result 0. -/
def handOver (k : Kernel) (partner : Fin 8) (partnerRsp bufferPtr : ℕ) (msg : Message)
    (rsp : ℕ) : Kernel :=
  { k with
    sched := k.sched.setState partner .ready
    mem := writeU64 (writeU64 (writeMessage k.mem bufferPtr msg) (partnerRsp + 8 * 14) 0)
      (rsp + 8 * 14) 0 }

/-- What `sys_send` has done. -/
inductive SendOutcome (k : Kernel) (destId : ℕ) (msg : Message) (rsp : ℕ) : ℕ → Kernel → Prop
  /-- There is no such task. -/
  | invalid (hdest : ∀ d : Fin 8, destId = d + 1 → k.sched.tasks d = none) :
      SendOutcome k destId msg rsp rsp (k.setRax rsp (-1))
  /-- The destination has been waiting. -/
  | deliver (d : Fin 8) (dest : Task) (bufferPtr : ℕ) (hid : destId = d + 1)
      (hdest : k.sched.tasks d = some dest)
      (hbuf : dest.state.bufferFor (k.cur + 1) = some bufferPtr) :
      SendOutcome k destId msg rsp rsp (k.handOver d dest.rsp bufferPtr msg rsp)
  /-- The sender is blocked. -/
  | block (d : Fin 8) (dest : Task) (hid : destId = d + 1) (hdest : k.sched.tasks d = some dest)
      (hbuf : dest.state.bufferFor (k.cur + 1) = none) (newRsp : ℕ) (k' : Kernel)
      (hblock : k.block (.sending destId msg) rsp = .ok (newRsp, k')) :
      SendOutcome k destId msg rsp newRsp k'

/-- The message at an address, with the sender's id filled in. -/
def stampedMessage (k : Kernel) (msgPtr : ℕ) : Message :=
  { readMessage k.mem msgPtr with sender := UInt64.ofNat (k.cur + 1) }

theorem sysSend_cases {destId msgPtr : ℕ} (h : k.sysSend destId msgPtr rsp = .ok (newRsp, k')) :
    SendOutcome k destId (k.stampedMessage msgPtr) rsp newRsp k' := by
  obtain ⟨destIdx, hsub, h⟩ := Checked.bind_eq_ok.mp h
  obtain ⟨hpos, rfl⟩ := Checked.sub_eq_ok.mp hsub
  -- an id past the table and an id whose place is free are refused alike
  by_cases hlt : destId - 1 < 8
  · have hid : destId = ((⟨destId - 1, hlt⟩ : Fin 8) : ℕ) + 1 := by
      dsimp only
      omega
    rw [dif_pos hlt] at h
    cases hdest : k.sched.tasks ⟨destId - 1, hlt⟩ with
    | none =>
      rw [hdest] at h
      cases h
      refine .invalid fun d hd ↦ ?_
      obtain rfl : d = ⟨destId - 1, hlt⟩ := Fin.ext (by dsimp only; omega)
      exact hdest
    | some dest =>
      rw [hdest] at h
      dsimp only at h
      cases hbuf : dest.state.bufferFor (k.sched.currentTaskIdx.val + 1) with
      | some bufferPtr =>
        rw [hbuf] at h
        cases h
        exact .deliver _ dest bufferPtr hid hdest hbuf
      | none =>
        rw [hbuf] at h
        exact .block _ dest hid hdest hbuf newRsp k' h
  · rw [dif_neg hlt] at h
    cases h
    exact .invalid fun d hd ↦ absurd d.isLt (by omega)

/-- What `sys_recv` has done. -/
inductive RecvOutcome (k : Kernel) (srcId : Option ℕ) (msgPtr rsp : ℕ) : ℕ → Kernel → Prop
  /-- A sender has been waiting. -/
  | accept (i : Fin 8) (sender : Task) (msg : Message) (hsender : k.sched.tasks i = some sender)
      (hstate : sender.state = .sending (k.cur + 1) msg)
      (hadmits : srcId = none ∨ srcId = some sender.id) :
      RecvOutcome k srcId msgPtr rsp rsp (k.handOver i sender.rsp msgPtr msg rsp)
  /-- The receiver is blocked. -/
  | block (hnone : ∀ i t, k.sched.tasks i = some t → ¬t.SendsTo (k.cur + 1) srcId)
      (newRsp : ℕ) (k' : Kernel)
      (hblock : k.block (.receiving srcId msgPtr) rsp = .ok (newRsp, k')) :
      RecvOutcome k srcId msgPtr rsp newRsp k'

/-- What `sys_try_recv` has done. -/
inductive TryRecvOutcome (k : Kernel) (srcId : Option ℕ) (msgPtr rsp : ℕ) : ℕ → Kernel → Prop
  /-- A sender has been waiting. -/
  | accept (i : Fin 8) (sender : Task) (msg : Message) (hsender : k.sched.tasks i = some sender)
      (hstate : sender.state = .sending (k.cur + 1) msg)
      (hadmits : srcId = none ∨ srcId = some sender.id) :
      TryRecvOutcome k srcId msgPtr rsp rsp (k.handOver i sender.rsp msgPtr msg rsp)
  /-- There is none. -/
  | empty (hnone : ∀ i t, k.sched.tasks i = some t → ¬t.SendsTo (k.cur + 1) srcId) :
      TryRecvOutcome k srcId msgPtr rsp rsp (k.setRax rsp (-1))

theorem takeMessage_eq {i : Fin 8} {sender : Task} {destId : ℕ} {msg : Message}
    (hsender : k.sched.tasks i = some sender) (hstate : sender.state = .sending destId msg)
    (msgPtr rsp : ℕ) :
    k.takeMessage i msgPtr rsp = .ok (some (k.handOver i sender.rsp msgPtr msg rsp)) := by
  rw [takeMessage, hsender, Checked.unwrap_some, Checked.ok_bind, hstate]
  rfl

/-- Both receives take the message of the task that the search finds. -/
theorem receive_of_search {i : Fin 8} {srcFilter : ℕ}
    (h : k.sched.recvSearch (k.cur + 1) (srcIdOption srcFilter) = some i) (msgPtr rsp : ℕ) :
    ∃ sender msg, k.sched.tasks i = some sender ∧ sender.state = .sending (k.cur + 1) msg ∧
      (srcIdOption srcFilter = none ∨ srcIdOption srcFilter = some sender.id) ∧
      k.sysRecv srcFilter msgPtr rsp = .ok (rsp, k.handOver i sender.rsp msgPtr msg rsp) ∧
      k.sysTryRecv srcFilter msgPtr rsp = .ok (rsp, k.handOver i sender.rsp msgPtr msg rsp) := by
  obtain ⟨sender, msg, hsender, hstate, hadmits⟩ := Scheduler.recvSearch_some h
  have htake := takeMessage_eq hsender hstate msgPtr rsp
  refine ⟨sender, msg, hsender, hstate, hadmits, ?_, ?_⟩
  · rw [sysRecv, h]
    dsimp only
    rw [htake]
    rfl
  · rw [sysTryRecv, ← Scheduler.recvSearch_eq, h]
    dsimp only
    rw [htake]
    rfl

theorem receive_of_search_none {srcFilter : ℕ}
    (h : k.sched.recvSearch (k.cur + 1) (srcIdOption srcFilter) = none) (msgPtr rsp : ℕ) :
    k.sysRecv srcFilter msgPtr rsp = k.block (.receiving (srcIdOption srcFilter) msgPtr) rsp ∧
      k.sysTryRecv srcFilter msgPtr rsp = .ok (rsp, k.setRax rsp (-1)) := by
  constructor
  · rw [sysRecv, h]
  · rw [sysTryRecv, ← Scheduler.recvSearch_eq, h]
    rfl

theorem sysRecv_cases {srcFilter msgPtr : ℕ}
    (h : k.sysRecv srcFilter msgPtr rsp = .ok (newRsp, k')) :
    RecvOutcome k (srcIdOption srcFilter) msgPtr rsp newRsp k' := by
  cases hsearch : k.sched.recvSearch (k.cur + 1) (srcIdOption srcFilter) with
  | some i =>
    obtain ⟨sender, msg, hsender, hstate, hadmits, hrecv, -⟩ :=
      receive_of_search hsearch msgPtr rsp
    rw [hrecv] at h
    cases h
    exact .accept i sender msg hsender hstate hadmits
  | none =>
    rw [(receive_of_search_none hsearch msgPtr rsp).1] at h
    exact .block (fun i t ht ↦ Scheduler.recvSearch_none hsearch ht) newRsp k' h

theorem sysTryRecv_cases {srcFilter msgPtr : ℕ}
    (h : k.sysTryRecv srcFilter msgPtr rsp = .ok (newRsp, k')) :
    TryRecvOutcome k (srcIdOption srcFilter) msgPtr rsp newRsp k' := by
  cases hsearch : k.sched.recvSearch (k.cur + 1) (srcIdOption srcFilter) with
  | some i =>
    obtain ⟨sender, msg, hsender, hstate, hadmits, -, htry⟩ :=
      receive_of_search hsearch msgPtr rsp
    rw [htry] at h
    cases h
    exact .accept i sender msg hsender hstate hadmits
  | none =>
    rw [(receive_of_search_none hsearch msgPtr rsp).2] at h
    cases h
    exact .empty fun i t ht ↦ Scheduler.recvSearch_none hsearch ht

/-! ## The dispatcher -/

/-- The memory of its caller that a system call reads or writes. -/
def callerBuffer (rax rdi rsi : UInt64) : Span :=
  match rax.toNat with
  | 3 | 4 | 14 => ⟨rsi.toNat, rsi.toNat + 48⟩
  | 6 => ⟨rdi.toNat, rdi.toNat + min rsi.toNat 512⟩
  | 8 => ⟨rdi.toNat, rdi.toNat + 32⟩
  | _ => ⟨0, 0⟩

/-- The result of a call that neither blocks nor reports data: 0 for a print, -1 for a number that
is no call. -/
def plainResult (rax : UInt64) : Option UInt64 :=
  match rax.toNat with
  | 1 => some 0
  | 2 | 3 | 4 | 5 | 6 | 7 | 8 | 9 | 10 | 11 | 12 | 14 => none
  | _ => some (-1)

/-- Memory after a call that does not concern the scheduler: changed in the caller's buffer and in
the `rax` slot only. -/
structure PlainMem (k : Kernel) (rax rdi rsi : UInt64) (rsp : ℕ) (mem : Mem) : Prop where
  agree : ∀ a n, (a + n ≤ rsp + 8 * 14 ∨ rsp + 8 * 14 + 8 ≤ a) →
    (a + n ≤ (callerBuffer rax rdi rsi).lo ∨ (callerBuffer rax rdi rsi).hi ≤ a) →
    AgreeOn mem k.mem a n
  result : ∀ v, plainResult rax = some v → readU64 mem (rsp + 8 * 14) = v

/-- What `handle_syscall` has done. -/
inductive SyscallOutcome (k : Kernel) (rax rdi rsi : UInt64) (rsp : ℕ) : ℕ → Kernel → Prop
  | yield (hrax : rax.toNat = 2) (newRsp : ℕ) (k' : Kernel)
      (hswitch : k.switchTask rsp = .ok (newRsp, k')) :
      SyscallOutcome k rax rdi rsi rsp newRsp (k'.setRax rsp 0)
  | send (hrax : rax.toNat = 3) (newRsp : ℕ) (k' : Kernel)
      (hsend : SendOutcome k rdi.toNat (k.stampedMessage rsi.toNat) rsp newRsp k') :
      SyscallOutcome k rax rdi rsi rsp newRsp k'
  | recv (hrax : rax.toNat = 4) (newRsp : ℕ) (k' : Kernel)
      (hrecv : RecvOutcome k (srcIdOption rdi.toNat) rsi.toNat rsp newRsp k') :
      SyscallOutcome k rax rdi rsi rsp newRsp k'
  | tryRecv (hrax : rax.toNat = 14) (newRsp : ℕ) (k' : Kernel)
      (hrecv : TryRecvOutcome k (srcIdOption rdi.toNat) rsi.toNat rsp newRsp k') :
      SyscallOutcome k rax rdi rsi rsp newRsp k'
  | plain (hrax : rax.toNat ∉ [2, 3, 4, 14]) (mem : Mem)
      (hmem : PlainMem k rax rdi rsi rsp mem) :
      SyscallOutcome k rax rdi rsi rsp rsp { k with mem := mem }

private theorem length_infoText {s : Scheduler} {info : List UInt8} (h : s.infoText = .ok info) :
    info.length ≤ 512 := by
  obtain ⟨pieces, -, h⟩ := Checked.bind_eq_ok.mp h
  rw [← Except.ok.inj h]
  have hfold : ∀ (ps : List (List UInt8)) (acc : List UInt8), acc.length ≤ 512 →
      (ps.foldl appendPiece acc).length ≤ 512 := by
    intro ps
    induction ps with
    | nil => exact fun acc hacc ↦ hacc
    | cons p ps ih =>
      intro acc hacc
      refine ih _ ?_
      rw [appendPiece, List.length_append, List.length_take]
      omega
  exact hfold _ _ (Nat.zero_le _)

private theorem PlainMem.write {rax rdi rsi v : UInt64} {mem : Mem}
    (hmem : ∀ a n, (a + n ≤ (callerBuffer rax rdi rsi).lo ∨ (callerBuffer rax rdi rsi).hi ≤ a) →
      AgreeOn mem k.mem a n)
    (hv : ∀ w, plainResult rax = some w → v = w) :
    PlainMem k rax rdi rsi rsp (writeU64 mem (rsp + 8 * 14) v) where
  agree a n hslot hout := (agreeOn_writeU64 hslot).trans (hmem a n hout)
  result w hw := by rw [readU64_writeU64_self, hv w hw]

theorem handleSyscall_cases {rax rdi rsi : UInt64}
    (h : k.handleSyscall rax rdi rsi rsp = .ok (newRsp, k')) :
    SyscallOutcome k rax rdi rsi rsp newRsp k' := by
  -- most plain calls leave the memory alone and say nothing but a result
  have hsame : ∀ a n, (a + n ≤ (callerBuffer rax rdi rsi).lo ∨ (callerBuffer rax rdi rsi).hi ≤ a) →
      AgreeOn k.mem k.mem a n := fun a n _ ↦ AgreeOn.refl _ _ _
  have hnone : plainResult rax = none → ∀ v w, plainResult rax = some w → v = w :=
    fun hnone v w hw ↦ by rw [hnone] at hw; cases hw
  rw [handleSyscall] at h
  split at h
  case h_1 hrax =>
    cases h
    exact .plain (by simp [hrax]) _ (.write hsame fun w hw ↦ by simpa [plainResult, hrax] using hw)
  case h_2 hrax =>
    obtain ⟨⟨r, k₁⟩, hswitch, h⟩ := Checked.bind_eq_ok.mp h
    cases h
    exact .yield hrax _ _ hswitch
  case h_3 hrax => exact .send hrax _ _ (sysSend_cases h)
  case h_4 hrax => exact .recv hrax _ _ (sysRecv_cases h)
  case h_5 hrax =>
    cases h
    exact .plain (by simp [hrax]) _ (.write hsame (hnone (by simp [plainResult, hrax]) _))
  case h_6 hrax =>
    obtain ⟨info, hinfo, h⟩ := Checked.bind_eq_ok.mp h
    cases h
    -- the task table is cut to what fits both the caller and the buffer of the kernel
    have hlen := length_infoText hinfo
    have hout : callerBuffer rax rdi rsi = ⟨rdi.toNat, rdi.toNat + min rsi.toNat 512⟩ := by
      simp [callerBuffer, hrax]
    refine .plain (by simp [hrax]) _ (.write (fun a n hapart ↦ agreeOn_writeBytes ?_)
      (hnone (by simp [plainResult, hrax]) _))
    rw [hout] at hapart
    rw [List.length_take]
    exact hapart.imp_right fun hle ↦ by dsimp only at hle; omega
  case h_7 hrax =>
    cases h
    exact .plain (by simp [hrax]) _ (.write hsame (hnone (by simp [plainResult, hrax]) _))
  case h_8 hrax =>
    cases hinfo : k.gopInfo with
    | none =>
      rw [hinfo] at h
      cases h
      exact .plain (by simp [hrax]) _ (.write hsame (hnone (by simp [plainResult, hrax]) _))
    | some info =>
      rw [hinfo] at h
      cases h
      have hout : callerBuffer rax rdi rsi = ⟨rdi.toNat, rdi.toNat + 32⟩ := by
        simp [callerBuffer, hrax]
      have hwords : ∀ a n,
          (a + n ≤ (callerBuffer rax rdi rsi).lo ∨ (callerBuffer rax rdi rsi).hi ≤ a) →
          AgreeOn (writeWords k.mem rdi.toNat
            [info.width, info.height, info.stride, info.bytesPerPixel]) k.mem a n :=
        fun a n hapart ↦ agreeOn_writeWords (by rwa [hout] at hapart)
      rw [← hinfo]
      exact .plain (by simp [hrax]) _ (.write hwords (hnone (by simp [plainResult, hrax]) _))
  case h_9 hrax =>
    cases h
    exact .plain (by simp [hrax]) k.mem
      ⟨fun a n _ _ ↦ AgreeOn.refl _ _ _, fun w hw ↦ by simp [plainResult, hrax] at hw⟩
  -- the call that shuts the machine down does not come back
  case h_10 hrax => cases h
  case h_11 hrax =>
    cases h
    exact .plain (by simp [hrax]) _ (.write hsame (hnone (by simp [plainResult, hrax]) _))
  case h_12 hrax =>
    cases h
    exact .plain (by simp [hrax]) _ (.write hsame (hnone (by simp [plainResult, hrax]) _))
  case h_13 hrax => exact .tryRecv hrax _ _ (sysTryRecv_cases h)
  case h_14 hrax =>
    have hunknown : plainResult rax = some (-1) := by
      rw [plainResult]
      split <;> first | rfl | contradiction
    have hrax : rax.toNat ∉ [2, 3, 4, 14] := by
      simp only [List.mem_cons, List.not_mem_nil, or_false, not_or]
      refine ⟨?_, ?_, ?_, ?_⟩ <;> assumption
    cases h
    exact .plain hrax _ (.write hsame fun w hw ↦ by rw [hunknown] at hw; cases hw; rfl)

end Kernel

end RelizOS
