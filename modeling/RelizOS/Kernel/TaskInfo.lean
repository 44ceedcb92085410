import RelizOS.Kernel.Start
import RelizOS.Kernel.Texts

/-!
# The task information

System call 6 describes the tasks, a line for each. Ids are written in decimal into buffers of ten
digits, so a number with more digits ends the call in a panic (`infoText_returns_iff`). Ids of tasks
and of destinations are small, but the filter of a receive is what the caller passed. As long as no
task receives with a filter of eleven digits, the text is complete in every state reached
(`infoText_run`).

The text always fits into its buffer of 512 bytes; whether it fits into the caller's is another
matter. The call copies what fits and returns the length of the whole text (`returnsWritten_iff`).
-/

open ByteMemory LabelledRun

namespace RelizOS

/-! ## What the text should say -/

/-- What is said of a state, with `num` for the ids of other tasks. -/
def TaskState.describe (num : ℕ → String) : TaskState → String
  | .ready => "Ready"
  | .running => "Running"
  | .sending destId _ => "Sending to " ++ num destId
  | .receiving (some src) _ => "Receiving from " ++ num src
  | .receiving none _ => "Receiving from ANY"

/-- The line of a task. -/
def Task.line (num : ℕ → String) (t : Task) : String :=
  "Task " ++ toString t.id ++ ": " ++ t.state.describe num ++ "\n"

/-- The lines of all tasks, in the order of the slots. -/
def Scheduler.infoLines (num : ℕ → String) (s : Scheduler) : String :=
  String.join (((List.finRange 8).filterMap s.tasks).map (Task.line num))

/-- The id of another task, as it is written. There is no task 0, and no digit is written for it. -/
def peerText (id : ℕ) : String := if id = 0 then "" else toString id

/-- The other task that a state names. -/
def TaskState.peer : TaskState → Option ℕ
  | .sending destId _ => some destId
  | .receiving srcId _ => srcId
  | .ready | .running => none

theorem TaskState.describe_sending (num : ℕ → String) (destId : ℕ) (msg : Message) :
    (sending destId msg).describe num = "Sending to " ++ num destId := rfl

theorem TaskState.describe_receiving (num : ℕ → String) (src buf : ℕ) :
    (receiving (some src) buf).describe num = "Receiving from " ++ num src := rfl

/-- The ids that are written have at most ten digits. -/
def Task.ShortIds (t : Task) : Prop := t.id < 10 ^ 10 ∧ ∀ id ∈ t.state.peer, id < 10 ^ 10

/-- So have those of all tasks. -/
def Scheduler.ShortIds (s : Scheduler) : Prop := ∀ i, ∀ t ∈ s.tasks i, t.ShortIds

/-! ## Digits -/

theorem digitLoop_of_lt {fuel idx value : ℕ} {ds : List UInt8} (hfuel : idx < fuel)
    (hpos : 0 < value) (hlt : value < 10 ^ idx) :
    digitLoop fuel value idx ds = .ok (bytesOf (toString value) ++ ds) := by
  induction fuel generalizing idx value ds with
  | zero => omega
  | succ fuel ih =>
    have hidx : 1 ≤ idx := by
      by_contra hzero
      rw [show idx = 0 by omega, pow_zero] at hlt
      omega
    rw [digitLoop, if_pos hpos, Checked.sub_of_le hidx, Checked.ok_bind]
    by_cases hdigit : value < 10
    · rw [bytesOf_toString_of_lt hdigit, Nat.div_eq_of_lt hdigit, Nat.mod_eq_of_lt hdigit]
      cases fuel with
      | zero => omega
      | succ fuel => rfl
    · have hrest : value / 10 < 10 ^ (idx - 1) := by
        rw [Nat.div_lt_iff_lt_mul (by omega), ← pow_succ, Nat.sub_add_cancel hidx]
        exact hlt
      rw [ih (by omega) (by omega) hrest, bytesOf_toString_of_le (n := value) (by omega),
        List.append_assoc]
      rfl

/-- A number with more digits runs over the front of the buffer. -/
theorem digitLoop_of_ge {fuel idx value : ℕ} {ds : List UInt8} (hfuel : idx < fuel)
    (hge : 10 ^ idx ≤ value) : digitLoop fuel value idx ds = .error .overflow := by
  induction fuel generalizing idx value ds with
  | zero => omega
  | succ fuel ih =>
    have hpos : 0 < value := lt_of_lt_of_le (pow_pos (by omega) idx) hge
    rw [digitLoop, if_pos hpos]
    cases idx with
    | zero => rfl
    | succ idx =>
      rw [Checked.sub_of_le (Nat.succ_pos idx), Checked.ok_bind, Nat.succ_sub_one]
      refine ih (by omega) ?_
      rwa [Nat.le_div_iff_mul_le (by omega), ← pow_succ]

theorem digits_of_lt {n : ℕ} (h : n < 10 ^ 10) : digits n = .ok (bytesOf (peerText n)) := by
  rw [digits, peerText]
  by_cases hzero : n = 0
  · rw [if_pos hzero, hzero]
    with_unfolding_all decide
  · rw [if_neg hzero, digitLoop_of_lt (by omega) (Nat.pos_of_ne_zero hzero) h, List.append_nil]

theorem digits_of_ge {n : ℕ} (h : 10 ^ 10 ≤ n) : digits n = .error .overflow :=
  digitLoop_of_ge (by omega) h

/-! ## One task -/

theorem TaskState.pieces_of_short {st : TaskState} (h : ∀ id ∈ st.peer, id < 10 ^ 10) :
    ∃ ps, st.pieces = .ok ps ∧ ps.flatten = bytesOf (st.describe peerText) := by
  cases st with
  | ready => exact ⟨_, rfl, List.append_nil _⟩
  | running => exact ⟨_, rfl, List.append_nil _⟩
  | sending destId msg =>
    rw [pieces, digits_of_lt (h destId rfl)]
    refine ⟨_, rfl, ?_⟩
    rw [describe_sending, bytesOf_append, List.flatten_cons, List.flatten_singleton]
  | receiving srcId buf =>
    cases srcId with
    | none => exact ⟨_, rfl, List.append_nil _⟩
    | some src =>
      rw [pieces, digits_of_lt (h src rfl)]
      refine ⟨_, rfl, ?_⟩
      rw [describe_receiving, bytesOf_append, List.flatten_cons, List.flatten_singleton]

theorem TaskState.pieces_of_long {st : TaskState} {id : ℕ} (hid : id ∈ st.peer)
    (h : 10 ^ 10 ≤ id) : st.pieces = .error .overflow := by
  cases st with
  | ready => cases hid
  | running => cases hid
  | sending destId msg =>
    obtain rfl := Option.some.inj hid
    rw [pieces, digits_of_ge h]
    rfl
  | receiving srcId buf =>
    obtain rfl : srcId = some id := hid
    rw [pieces, digits_of_ge h]
    rfl

namespace Task

variable {t : Task}

/-- The pieces of a task, with the choice of its id in one place. -/
theorem pieces_eq (t : Task) :
    t.pieces = (if t.id = 0 then .ok (bytesOf "0") else digits t.id) >>= fun id ↦
      t.state.pieces >>= fun state ↦
        .ok ([bytesOf "Task ", id, bytesOf ": "] ++ state ++ [bytesOf "\n"]) := by
  rw [pieces]
  split <;> rfl

theorem idText_of_lt (h : t.id < 10 ^ 10) :
    (if t.id = 0 then .ok (bytesOf "0") else digits t.id) = .ok (bytesOf (toString t.id)) := by
  by_cases hzero : t.id = 0
  · rw [if_pos hzero, hzero]
    rfl
  · rw [if_neg hzero, digits_of_lt h, peerText, if_neg hzero]

/-- **The pieces of a task** whose ids are short are its line. -/
theorem pieces_of_short (h : t.ShortIds) :
    ∃ ps, t.pieces = .ok ps ∧ ps.flatten = bytesOf (t.line peerText) := by
  obtain ⟨ps, hps, hflat⟩ := TaskState.pieces_of_short h.2
  rw [pieces_eq, idText_of_lt h.1, Checked.ok_bind, hps]
  exact ⟨_, rfl, by simp [line, hflat]⟩

theorem short_of_pieces {ps : List (List UInt8)} (h : t.pieces = .ok ps) : t.ShortIds := by
  rw [pieces_eq] at h
  obtain ⟨id, hid, h⟩ := Checked.bind_eq_ok.mp h
  obtain ⟨state, hstate, -⟩ := Checked.bind_eq_ok.mp h
  constructor
  · by_contra hlong
    have hge : 10 ^ 10 ≤ t.id := Nat.le_of_not_lt hlong
    rw [if_neg (by omega), digits_of_ge hge] at hid
    cases hid
  · intro p hp
    by_contra hlong
    rw [TaskState.pieces_of_long hp (Nat.le_of_not_lt hlong)] at hstate
    cases hstate

theorem length_peerText_le {n : ℕ} (hn : n < 10 ^ 10) : (bytesOf (peerText n)).length ≤ 10 := by
  rw [peerText]
  by_cases hzero : n = 0
  · rw [if_pos hzero]
    with_unfolding_all decide
  · rw [if_neg hzero]
    exact length_toString_le (by omega) hn

theorem length_describe_le {st : TaskState} (hshort : ∀ p ∈ st.peer, p < 10 ^ 10) :
    (bytesOf (st.describe peerText)).length ≤ 25 := by
  have hsending : (bytesOf "Sending to ").length = 11 := by with_unfolding_all decide
  have hreceiving : (bytesOf "Receiving from ").length = 15 := by with_unfolding_all decide
  cases st with
  | ready => with_unfolding_all decide
  | running => with_unfolding_all decide
  | sending destId msg =>
    have hdest := length_peerText_le (hshort destId rfl)
    rw [TaskState.describe_sending, bytesOf_append, List.length_append]
    omega
  | receiving srcId buf =>
    cases srcId with
    | none =>
      change (bytesOf "Receiving from ANY").length ≤ 25
      with_unfolding_all decide
    | some src =>
      have hsrc := length_peerText_le (hshort src rfl)
      rw [TaskState.describe_receiving, bytesOf_append, List.length_append]
      omega

theorem length_line_le (h : t.ShortIds) : (bytesOf (t.line peerText)).length ≤ 43 := by
  have htask : (bytesOf "Task ").length = 5 := by with_unfolding_all decide
  have hcolon : (bytesOf ": ").length = 2 := by with_unfolding_all decide
  have hend : (bytesOf "\n").length = 1 := by with_unfolding_all decide
  have hid := length_toString_le (by omega) h.1
  have hdescribe := length_describe_le h.2
  simp only [line, bytesOf_append, List.length_append]
  omega

theorem length_lines_le {l : List Task} (h : ∀ t ∈ l, t.ShortIds) :
    (l.flatMap fun t ↦ bytesOf (t.line peerText)).length ≤ 43 * l.length := by
  induction l with
  | nil => exact Nat.zero_le _
  | cons t l ih =>
    have hhead := length_line_le (h t List.mem_cons_self)
    have htail := ih fun u hu ↦ h u (List.mem_cons_of_mem t hu)
    rw [List.flatMap_cons, List.length_append, List.length_cons]
    omega

/-! ## All tasks -/

theorem mapM_pieces {l : List Task} (h : ∀ t ∈ l, t.ShortIds) :
    ∃ pss, l.mapM pieces = .ok pss ∧
      pss.flatten.flatten = l.flatMap fun t ↦ bytesOf (t.line peerText) := by
  induction l with
  | nil => exact ⟨[], rfl, rfl⟩
  | cons t l ih =>
    obtain ⟨ps, hps, hflat⟩ := pieces_of_short (h t List.mem_cons_self)
    obtain ⟨pss, hpss, hflats⟩ := ih fun u hu ↦ h u (List.mem_cons_of_mem t hu)
    refine ⟨ps :: pss, ?_, ?_⟩
    · rw [List.mapM_cons, hps, Checked.ok_bind, hpss]
      rfl
    · rw [List.flatten_cons, List.flatten_append, hflat, hflats, List.flatMap_cons]

theorem short_of_mapM {l : List Task} {pss : List (List (List UInt8))}
    (h : l.mapM pieces = .ok pss) : ∀ t ∈ l, t.ShortIds := by
  induction l generalizing pss with
  | nil => exact fun t ht ↦ absurd ht List.not_mem_nil
  | cons t l ih =>
    rw [List.mapM_cons] at h
    obtain ⟨ps, hps, h⟩ := Checked.bind_eq_ok.mp h
    obtain ⟨rest, hrest, -⟩ := Checked.bind_eq_ok.mp h
    intro u hu
    rcases List.mem_cons.mp hu with rfl | hu
    · exact short_of_pieces hps
    · exact ih hrest u hu

end Task

/-- Nothing is cut off as long as everything fits. -/
theorem foldl_appendPiece {ps : List (List UInt8)} {info : List UInt8}
    (h : info.length + ps.flatten.length ≤ 512) :
    ps.foldl appendPiece info = info ++ ps.flatten := by
  induction ps generalizing info with
  | nil => exact (List.append_nil info).symm
  | cons p ps ih =>
    rw [List.flatten_cons, List.length_append] at h
    have hfits : appendPiece info p = info ++ p := by
      rw [appendPiece, List.take_of_length_le (by omega)]
    rw [List.foldl_cons, hfits, ih (by rw [List.length_append]; omega), List.flatten_cons,
      List.append_assoc]

namespace Scheduler

variable {s : Scheduler}

theorem mem_slots {t : Task} : t ∈ (List.finRange 8).filterMap s.tasks ↔ ∃ i, t ∈ s.tasks i := by
  simp [List.mem_filterMap]

theorem length_infoLines_le (h : s.ShortIds) : (bytesOf (s.infoLines peerText)).length ≤ 344 := by
  have hcount : ((List.finRange 8).filterMap s.tasks).length ≤ 8 :=
    (List.length_filterMap_le _ _).trans (by simp)
  have hall := Task.length_lines_le fun t ht ↦ by
    obtain ⟨i, hi⟩ := mem_slots.mp ht
    exact h i t hi
  rw [infoLines, bytesOf_join, List.flatMap_map]
  omega

/-- **The text is complete** when the ids are short. -/
theorem infoText_of_short (h : s.ShortIds) :
    s.infoText = .ok (bytesOf (s.infoLines peerText)) := by
  obtain ⟨pss, hpss, hflat⟩ := Task.mapM_pieces fun t ht ↦ by
    obtain ⟨i, hi⟩ := mem_slots.mp ht
    exact h i t hi
  have htext : bytesOf (s.infoLines peerText) = pss.flatten.flatten := by
    rw [hflat, infoLines, bytesOf_join, List.flatMap_map]
  have hlen := length_infoLines_le h
  rw [htext] at hlen ⊢
  rw [infoText, hpss, Checked.ok_bind, foldl_appendPiece]
  · rfl
  · rw [List.length_nil]
    omega

/-- **The text is made** exactly when the ids are short. -/
theorem infoText_returns_iff : (∃ info, s.infoText = .ok info) ↔ s.ShortIds := by
  constructor
  · rintro ⟨info, h⟩ i t ht
    obtain ⟨pss, hpss, -⟩ := Checked.bind_eq_ok.mp h
    exact Task.short_of_mapM hpss t (mem_slots.mpr ⟨i, ht⟩)
  · exact fun h ↦ ⟨_, infoText_of_short h⟩

/-! ## The call -/

/-- What system call 6 copies into a buffer of `maxLen` bytes, and what it returns. -/
def infoReply (s : Scheduler) (maxLen : ℕ) : Checked (List UInt8 × ℕ) := do
  let info ← s.infoText
  return (info.take maxLen, info.length)

/-- The call returns the number of bytes it has written. -/
def ReturnsWritten (s : Scheduler) (maxLen : ℕ) : Prop :=
  ∃ written result, s.infoReply maxLen = .ok (written, result) ∧ result = written.length

/-- What is copied and what is returned: the text as far as it fits, and its whole length. -/
theorem infoReply_of_short (h : s.ShortIds) (maxLen : ℕ) :
    s.infoReply maxLen = .ok ((bytesOf (s.infoLines peerText)).take maxLen,
      (bytesOf (s.infoLines peerText)).length) := by
  rw [infoReply, infoText_of_short h]
  rfl

end Scheduler

namespace Kernel

variable {k : Kernel}

/-- System call 6 is its reply, copied into the caller's buffer and stored in its `rax` slot. -/
theorem handleSyscall_info (k : Kernel) (rdi rsi : UInt64) (rsp : ℕ) :
    k.handleSyscall 6 rdi rsi rsp = do
      let (written, result) ← k.sched.infoReply rsi.toNat
      let k := { k with mem := writeBytes k.mem rdi.toNat written }
      return (rsp, k.setRax rsp (UInt64.ofNat result)) := by
  rw [Scheduler.infoReply]
  show (k.sched.infoText >>= _) = _
  cases k.sched.infoText <;> rfl

/-- **System call 6 returns the number of bytes it has written** exactly when all ids have at most
ten digits and the caller's buffer has room for the whole text. -/
theorem returnsWritten_iff (k : Kernel) (rdi rsi : UInt64) (rsp : ℕ) :
    (k.handleSyscall 6 rdi rsi rsp = do
      let (written, result) ← k.sched.infoReply rsi.toNat
      let k := { k with mem := writeBytes k.mem rdi.toNat written }
      return (rsp, k.setRax rsp (UInt64.ofNat result))) ∧
    (k.sched.ReturnsWritten rsi.toNat ↔
      k.sched.ShortIds ∧ (bytesOf (k.sched.infoLines peerText)).length ≤ rsi.toNat) := by
  refine ⟨handleSyscall_info k rdi rsi rsp, ?_⟩
  constructor
  · rintro ⟨written, result, hreply, hlen⟩
    obtain ⟨info, hinfo, -⟩ := Checked.bind_eq_ok.mp hreply
    have hshort := Scheduler.infoText_returns_iff.mp ⟨info, hinfo⟩
    rw [Scheduler.infoReply_of_short hshort] at hreply
    obtain ⟨rfl, rfl⟩ := Prod.mk.inj (Except.ok.inj hreply)
    rw [List.length_take] at hlen
    exact ⟨hshort, by omega⟩
  · rintro ⟨hshort, hle⟩
    exact ⟨_, _, Scheduler.infoReply_of_short hshort rsi.toNat, by rw [List.take_of_length_le hle]⟩

/-- One task is ready. -/
def oneReady : Scheduler :=
  ⟨fun i ↦ if i = Scheduler.firstSlot then some ⟨1, 0, 0, .ready⟩ else none, Scheduler.firstSlot, 0⟩

/-- The line of one task needs 14 bytes; a caller with room for 8 is told 14. -/
theorem not_returnsWritten :
    (¬∀ (s : Scheduler) (maxLen : ℕ), s.ReturnsWritten maxLen) ∧
      (oneReady.infoReply 8).map (fun r ↦ (r.1.length, r.2)) = .ok (8, 14) := by
  have hrun : (oneReady.infoReply 8).map (fun r ↦ (r.1.length, r.2)) = .ok (8, 14) := by
    with_unfolding_all decide
  refine ⟨fun hgeneral ↦ ?_, hrun⟩
  obtain ⟨written, result, hreply, hlen⟩ := hgeneral oneReady 8
  rw [hreply] at hrun
  obtain ⟨h8, h14⟩ := Prod.mk.inj (Except.ok.inj hrun)
  dsimp only at h8 h14
  omega

end Kernel

/-! ## The states that tasks reach -/

/-- All tasks are in states with the property. -/
def Scheduler.AllStates (P : TaskState → Prop) (s : Scheduler) : Prop :=
  ∀ i, ∀ t ∈ s.tasks i, P t.state

/-- The ids of other tasks that the state names are ids, and have at most ten digits. -/
def TaskState.PeerOk (st : TaskState) : Prop := ∀ id ∈ st.peer, 0 < id ∧ id < 10 ^ 10

namespace Kernel

variable {k k' : Kernel} {rsp newRsp : ℕ} {rax rdi rsi : UInt64} {P : TaskState → Prop}

theorem switchTask_allStates (h : k.switchTask rsp = .ok (newRsp, k'))
    (hk : k.sched.AllStates P) : k'.sched.AllStates P := by
  intro i t' ht'
  have hi := switchTask_tasks h i
  rw [Option.mem_def.mp ht', Option.map_some] at hi
  obtain ⟨t, ht, heq⟩ := Option.map_eq_some_iff.mp hi.symm
  have hstate : t.state = t'.state := (Task.mk.inj heq).2.2.2
  exact hstate ▸ hk i t ht

theorem block_allStates {state : TaskState} (h : k.block state rsp = .ok (newRsp, k'))
    (hk : k.sched.AllStates P) (hstate : P state) : k'.sched.AllStates P := by
  obtain ⟨t, j, t', hcur, -, -, -, rfl⟩ := block_cases h
  intro i u hu
  rw [switchedTo] at hu
  by_cases hi : i = k.cur
  · subst hi
    rw [← Option.some.inj (Scheduler.putCurrent_tasks_self.symm.trans hu)]
    exact hstate
  · exact hk i u ((Scheduler.putCurrent_tasks_of_ne hi).symm.trans hu)

theorem handOver_allStates {i : Fin 8} {partnerRsp buf : ℕ} {msg : Message}
    (hk : k.sched.AllStates P) (hready : P .ready) :
    (k.handOver i partnerRsp buf msg rsp).sched.AllStates P := by
  intro j u hu
  by_cases hj : j = i
  · subst hj
    rw [Option.mem_def, handOver, Scheduler.setState] at hu
    dsimp only at hu
    rw [Function.update_self] at hu
    obtain ⟨t, -, rfl⟩ := Option.map_eq_some_iff.mp hu
    exact hready
  · exact hk j u ((Scheduler.setState_tasks_of_ne hj).symm.trans hu)

/-- **The states after a system call** are those before it, ready, or the state of a task that has
been blocked. -/
theorem SyscallOutcome.allStates (h : SyscallOutcome k rax rdi rsi rsp newRsp k')
    (hk : k.sched.AllStates P) (hready : P .ready)
    (hsending : ∀ (d : Fin 8) msg, P (.sending (d + 1) msg))
    (hreceiving : rax.toNat = 4 → ∀ buf, P (.receiving (srcIdOption rdi.toNat) buf)) :
    k'.sched.AllStates P := by
  cases h with
  | yield _ _ k₁ hswitch =>
    have hk₁ : k₁.sched.AllStates P := switchTask_allStates hswitch hk
    exact hk₁
  | plain => exact hk
  | send _ _ _ hsend =>
    cases hsend with
    | invalid => exact hk
    | deliver => exact handOver_allStates hk hready
    | block d dest hid _ _ _ _ hblock =>
      exact block_allStates hblock hk (hid ▸ hsending d _)
  | recv hrax _ _ hrecv =>
    cases hrecv with
    | accept => exact handOver_allStates hk hready
    | block _ _ _ hblock => exact block_allStates hblock hk (hreceiving hrax _)
  | tryRecv _ _ _ hrecv =>
    cases hrecv with
    | accept => exact handOver_allStates hk hready
    | empty => exact hk

end Kernel

/-! ## Runs -/

namespace Machine

variable {m m' : Machine} {e : Event}

/-- The event is not a receive with a filter of more than ten digits. -/
def ShortFilter (m : Machine) : Event → Prop
  | .syscall => (m.regs .rax).toNat = 4 → (m.regs .rdi).toNat < 10 ^ 10
  | .user _ _ | .tick => True

instance (m : Machine) : Decidable (m.ShortFilter .syscall) :=
  inferInstanceAs (Decidable (_ → _ < _))

/-- **One step** keeps the ids that the states name short. -/
theorem Step.peerOk (h : Step m e m') (hshort : m.ShortFilter e)
    (hm : m.kernel.sched.AllStates TaskState.PeerOk) :
    m'.kernel.sched.AllStates TaskState.PeerOk := by
  cases h with
  | user => exact hm
  | syscall h =>
    obtain ⟨mem, rsp, newRsp, hout⟩ := syscall_outcome h
    refine hout.allStates hm nofun (fun d msg id hid ↦ ?_) fun hrax buf id hid ↦ ?_
    · have hd := d.isLt
      obtain rfl : d.val + 1 = id := Option.some.inj hid
      omega
    · have hid : srcIdOption (m.regs .rdi).toNat = some id := hid
      rw [srcIdOption] at hid
      split_ifs at hid with hzero
      obtain rfl := Option.some.inj hid
      exact ⟨Nat.pos_of_ne_zero hzero, hshort hrax⟩
  | tick h =>
    obtain ⟨mem, ticks, rsp, newRsp, hswitch⟩ := timer_outcome h
    exact Kernel.switchTask_allStates hswitch hm

end Machine

namespace Scheduler

variable {s : Scheduler}

theorem shortIds_of_peerOk (hids : s.IdsOk) (h : s.AllStates TaskState.PeerOk) : s.ShortIds := by
  intro i t ht
  have hi := i.isLt
  have hid := hids i t ht
  exact ⟨by omega, fun id hmem ↦ (h i t ht id hmem).2⟩

/-- Where no state names a task 0, all numbers are written in decimal. -/
theorem infoLines_of_peerOk (h : s.AllStates TaskState.PeerOk) :
    s.infoLines peerText = s.infoLines toString := by
  have hpeer : ∀ id, 0 < id → peerText id = toString id := fun id hpos ↦ if_neg hpos.ne'
  have hline : ∀ t ∈ (List.finRange 8).filterMap s.tasks, t.line peerText = t.line toString := by
    intro t ht
    obtain ⟨i, hi⟩ := mem_slots.mp ht
    have hok := h i t hi
    rw [Task.line, Task.line]
    cases hst : t.state with
    | ready => rfl
    | running => rfl
    | sending destId msg =>
      rw [hst] at hok
      rw [TaskState.describe_sending, TaskState.describe_sending, hpeer destId (hok destId rfl).1]
    | receiving srcId buf =>
      rw [hst] at hok
      cases srcId with
      | none => rfl
      | some src =>
        rw [TaskState.describe_receiving, TaskState.describe_receiving, hpeer src (hok src rfl).1]
  rw [infoLines, infoLines, List.map_congr_left hline]

end Scheduler

/-- **The task information is complete** in every state reached by a run from the start of the first
task in which no task receives with a filter of more than ten digits: system call 6 returns, and the
text it makes is the line of every task, in the order of the slots, all ids in decimal and nothing
cut off. -/
theorem infoText_run {k : Kernel} {specs : List TaskSpec} {m₀ m : Machine} {es : List Event}
    (hstart : k.start specs = .ok m₀) (hids : SpecIdsOk specs)
    (hrun : Run (guarded Machine.ShortFilter Machine.Step) m₀ es m) :
    m.kernel.sched.infoText = .ok (bytesOf (m.kernel.sched.infoLines toString)) ∧
      (bytesOf (m.kernel.sched.infoLines toString)).length ≤ 512 ∧
      ∀ rdi rsi rsp, ∃ k', m.kernel.handleSyscall 6 rdi rsi rsp = .ok (rsp, k') := by
  have hstarted := start_started hstart
  obtain ⟨hpeer, hids'⟩ := hrun.invariant
    (P := fun t ↦ t.kernel.sched.AllStates TaskState.PeerOk ∧ t.kernel.sched.IdsOk)
    ⟨fun i t ht ↦ hstarted.allReady i t ht ▸ nofun, hstarted.idsOk hids⟩
    fun t e t' ⟨hpeer, hids⟩ hstep ↦ ⟨hstep.2.peerOk hstep.1 hpeer, (hstep.2.refines hids).2⟩
  have hshort := Scheduler.shortIds_of_peerOk hids' hpeer
  have hlen := Scheduler.length_infoLines_le hshort
  have htext := Scheduler.infoText_of_short hshort
  rw [Scheduler.infoLines_of_peerOk hpeer] at hlen htext
  refine ⟨htext, hlen.trans (by omega), fun rdi rsi rsp ↦ ?_⟩
  rw [Kernel.handleSyscall_info, Scheduler.infoReply, htext]
  exact ⟨_, rfl⟩

/-- The first of two tasks has sent to the second. -/
theorem infoText_run_twoTasks :
    twoSent.kernel.sched.infoText = .ok (bytesOf (twoSent.kernel.sched.infoLines toString)) := by
  have hload : guarded Machine.ShortFilter Machine.Step twoStarted (.user _ _) _ :=
    ⟨trivial, .load twoStarted 3 2 0x5000⟩
  have hsend : guarded Machine.ShortFilter Machine.Step (twoStarted.load 3 2 0x5000) .syscall
      twoSent := ⟨by decide +kernel, .syscall (Checked.eq_ok_result _ _)⟩
  exact (infoText_run (Checked.eq_ok_result _ _) specIdsOk_twoTasks
    ((Run.nil.snoc hload).snoc hsend)).1

/-- The first of two tasks has asked for a message of a task whose id has eleven digits. -/
def longFilter : Machine :=
  (twoStarted.load 4 10000000000 0x5000).syscall.result (by decide +kernel)

/-- Then system call 6 panics. -/
theorem not_infoText_run :
    ¬∀ (k : Kernel) (specs : List TaskSpec) (m₀ m : Machine) (es : List Event),
      k.start specs = .ok m₀ → SpecIdsOk specs → Run Machine.Step m₀ es m →
      ∃ info, m.kernel.sched.infoText = .ok info := by
  intro hgeneral
  have hrun : Run Machine.Step twoStarted _ longFilter :=
    (Run.nil.snoc (.load _ 4 10000000000 0x5000)).snoc (.syscall (Checked.eq_ok_result _ _))
  have hshort := Scheduler.infoText_returns_iff.mp
    (hgeneral _ _ _ _ _ (Checked.eq_ok_result _ _) specIdsOk_twoTasks hrun)
  have htask : longFilter.kernel.sched.tasks Scheduler.firstSlot =
      some ⟨1, 0x20f60, 0x21000, .receiving (some 10000000000) 0x5000⟩ := by decide +kernel
  have hlong := (hshort Scheduler.firstSlot _ htask).2 10000000000 rfl
  omega

end RelizOS
