import RelizOS.Services.Exchange

/-!
# Requests and replies

The programs run on the machine: what a task is doing, as the scheduler sees it, is what its place
says (`Linked`). A step of the machine is a step of the rendezvous (`Machine.Step.stepsAs`), the
beginning of a call or a meeting, and both keep the places consistent and the log in step with them.

That some task is always in no call is what the kernel needs to find a task to run when it blocks
one (`Linked.findsRunnable`), so the runs of the services are orderly, and in them the results hold
(`request_reply`).
-/

open Rendezvous (NoMissed Label)
open ByteMemory LabelledRun

namespace RelizOS

/-! ## Calls and places -/

section

variable {i : Fin 8} {p p' : Pc} {destId : ℕ} {msg : Message}

theorem Program.sends (h : Program i p (.send destId msg) p') (hfits : p.Fits i) :
    ∃ d : Fin 8, IsService d ∧ destId = d + 1 ∧ p'.status = .sending d msg := by
  have hreply : ∀ {job}, (Pc.free job).Fits i → i ≠ shell → ∃ d : Fin 8, IsService d ∧
      job.sender.toNat = d + 1 ∧ (Pc.replying job msg).status = .sending d msg := by
    intro job hfits hi
    obtain ⟨client, hasks⟩ := hfits.resolve_left hi
    refine ⟨client, ?_, slotOf_eq_some.mp hasks.slotOf_sender, ?_⟩
    · rcases hasks.2 with ⟨rfl, -⟩ | ⟨rfl | rfl, -⟩
      · exact Or.inl rfl
      · exact Or.inl rfl
      · exact Or.inr (Or.inl rfl)
    · rw [Pc.status, hasks.slotOf_sender]
  rw [Program] at h
  split at h
  · cases h with
    | askFs => exact ⟨fsServer, Or.inr (Or.inl rfl), rfl, rfl⟩
    | askAta => exact ⟨ataServer, Or.inr (Or.inr rfl), rfl, rfl⟩
  · next h0 =>
    split at h
    · cases h with
      | ask => exact ⟨ataServer, Or.inr (Or.inr rfl), rfl, rfl⟩
      | reply => exact hreply hfits h0
    · split at h
      · cases h with
        | reply => exact hreply hfits h0
      · cases h with
        | key => exact ⟨shell, Or.inl rfl, rfl, rfl⟩

theorem Program.receives {srcFilter : ℕ} (h : Program i p (.recv srcFilter) p') :
    p'.status = .receiving (srcIdOption srcFilter) := by
  rw [Program] at h
  split at h
  · cases h <;> rfl
  · split at h
    · cases h <;> rfl
    · split at h
      · cases h <;> rfl
      · cases h

theorem Pc.begins_of_idle (hfits : p.Fits i) (h : p.status = .idle) : p.begins i = [] := by
  cases p with
  | replying job reply =>
    obtain ⟨client, hasks⟩ := hfits
    rw [Pc.status, hasks.slotOf_sender] at h
    cases h
  | asking => cases h
  | top | listening | free | asked | awaiting | notifying => rfl

end

section

variable {pc : Fin 8 → Pc} {src dst i : Fin 8} {msg : Message}

theorem Meeting.status (h : Meeting pc src dst msg) :
    (meet pc src dst msg i).status = if i = src ∨ i = dst then .idle else (pc i).status := by
  by_cases his : i = src
  · rw [if_pos (Or.inl his), his, meet_src]
    cases h with
    | request _ hsrc => rw [hsrc]; rfl
    | reply _ _ hsrc => rw [hsrc]; rfl
    | event hsrc => rw [hsrc]; rfl
  · by_cases hid : i = dst
    · rw [if_pos (Or.inr hid), hid, meet_dst h.ne]
      cases h with
      | request _ _ hdst => rw [hdst]; rfl
      | reply _ _ _ hdst => rw [hdst]; rfl
      | event _ hdst => rw [hdst]; rfl
    · rw [if_neg (not_or.mpr ⟨his, hid⟩), meet_of_ne his hid]

/-! ## The programs go on as the observations say -/

variable {g : Ledger} {filter : Option ℕ}

/-- Where a send and a receive have ended, the two tasks have met. -/
theorem Ledger.advance_pair {sent : List Sent} {destId : ℕ} :
    (⟨sent, [(src, destId)], [⟨dst, filter, msg⟩]⟩ : Ledger).advance pc = meet pc src dst msg := by
  funext i
  by_cases his : i = src
  · rw [his, meet_src]
    simp [Ledger.advance]
  · by_cases hid : i = dst
    · subst hid
      rw [meet_dst his]
      simp [Ledger.advance, Ne.symm his]
    · rw [meet_of_ne his hid]
      simp [Ledger.advance, Ne.symm his, Ne.symm hid]

end

/-! ## Places and statuses -/

section

variable {s s' s'' : Fin 8 → Status} {pc : Fin 8 → Pc} {log : List ServiceEvent} {c src dst : Fin 8}
  {p' : Pc} {msg : Message} {filter : Option ℕ}

/-- The places are consistent, they say what the tasks are doing, and the log is in step. -/
structure Placed (s : Fin 8 → Status) (pc : Fin 8 → Pc) (log : List ServiceEvent) : Prop where
  status : ∀ i, s i = (pc i).status
  consistent : Consistent pc
  logOk : LogOk pc log

theorem Placed.begin (h : Placed s pc log) (hbegins : (pc c).Begins c p') :
    Placed (Function.update s c p'.status) (Function.update pc c p') (log ++ p'.begins c) where
  status i := by
    by_cases hi : i = c
    · rw [hi, Function.update_self, Function.update_self]
    · rw [Function.update_of_ne hi, Function.update_of_ne hi, h.status i]
  consistent := h.consistent.begin hbegins
  logOk := h.logOk.begin hbegins

theorem Placed.meet (h : Placed s pc log) (hsrc : s src = .sending dst msg)
    (hdst : s dst = .receiving filter) (hadmits : Admits filter src)
    (hs' : ∀ i, s' i = if i = src ∨ i = dst then .idle else s i) :
    Placed s' (meet pc src dst msg) (log ++ (pc dst).answers dst msg) := by
  rw [h.status] at hsrc hdst
  have hmeet := h.consistent.meeting hsrc hdst hadmits
  refine ⟨fun i ↦ ?_, h.consistent.meet hmeet, h.logOk.meet h.consistent hmeet⟩
  rw [hs' i, hmeet.status, h.status i]

/-! ## A call of a program is a step of the rendezvous -/

variable {g : Ledger} {l : Label (Fin 8) Message (Option ℕ)}

theorem Placed.quiet {sent : List Sent} (h : Placed s pc log) :
    Placed s ((⟨sent, [], []⟩ : Ledger).advance pc)
      (log ++ (⟨sent, [], []⟩ : Ledger).answers pc) := by
  have hlog : log ++ (⟨sent, [], []⟩ : Ledger).answers pc = log := List.append_nil log
  rw [hlog]
  exact h

theorem Placed.received {sent : List Sent} {destId : ℕ} {srcId : Option ℕ} (h : Placed s pc log)
    (hsrc : s src = .sending dst msg) (hdst : s dst = .receiving filter)
    (hadmits : Admits filter src) (hs' : ∀ i, s' i = if i = src ∨ i = dst then .idle else s i) :
    Placed s' ((⟨sent, [(src, destId)], [⟨dst, srcId, msg⟩]⟩ : Ledger).advance pc)
      (log ++ (⟨sent, [(src, destId)], [⟨dst, srcId, msg⟩]⟩ : Ledger).answers pc) := by
  rw [Ledger.advance_pair]
  have hlog : (⟨sent, [(src, destId)], [⟨dst, srcId, msg⟩]⟩ : Ledger).answers pc =
      (pc dst).answers dst msg := List.append_nil _
  rw [hlog]
  exact h.meet hsrc hdst hadmits hs'

/-- **A send** meets a receiver, or stays. -/
theorem Placed.send (h : Placed s pc log) (hidle : s c = .idle) (hbegins : (pc c).Begins c p')
    (hcall : p'.status = .sending dst msg) (hstep : Rendezvous.Step Admits s l s')
    (hrec : Recorded g l) (hl : (∃ filter, l = .deliver c dst filter msg) ∨ l = .post c dst msg) :
    Placed s' (g.advance (Function.update pc c p'))
      (log ++ p'.begins c ++ g.answers (Function.update pc c p')) := by
  have hbegun := h.begin hbegins
  rw [hcall] at hbegun
  rcases hl with ⟨filter, rfl⟩ | rfl
  · obtain ⟨raw, -, rfl⟩ := hrec
    cases hstep with
    | deliver hdst hadmits =>
      have hne : dst ≠ c := by
        rintro rfl
        rw [hidle] at hdst
        cases hdst
      refine hbegun.received (Function.update_self _ _ _)
        ((Function.update_of_ne hne _ _).trans hdst) hadmits fun i ↦ ?_
      by_cases hi : i = c
      · rw [if_pos (Or.inl hi), hi, Function.update_of_ne hne.symm, hidle]
      · by_cases hd : i = dst
        · rw [if_pos (Or.inr hd), hd, Function.update_self]
        · rw [if_neg (not_or.mpr ⟨hi, hd⟩), Function.update_of_ne hi, Function.update_of_ne hd]
  · obtain ⟨raw, -, rfl⟩ := hrec
    cases hstep with
    | post => exact hbegun.quiet

/-- **A receive** meets a sender, or stays. -/
theorem Placed.recv (h : Placed s pc log) (hidle : s c = .idle) (hbegins : (pc c).Begins c p')
    (hcall : p'.status = .receiving filter) (hstep : Rendezvous.Step Admits s l s')
    (hrec : Recorded g l) (hl : (∃ src msg, l = .accept src c filter msg) ∨ l = .wait c filter) :
    Placed s' (g.advance (Function.update pc c p'))
      (log ++ p'.begins c ++ g.answers (Function.update pc c p')) := by
  have hbegun := h.begin hbegins
  rw [hcall] at hbegun
  rcases hl with ⟨src, msg, rfl⟩ | rfl
  · rw [hrec]
    cases hstep with
    | accept hsrc hadmits =>
      have hne : src ≠ c := by
        rintro rfl
        rw [hidle] at hsrc
        cases hsrc
      refine hbegun.received ((Function.update_of_ne hne _ _).trans hsrc)
        (Function.update_self _ _ _) hadmits fun i ↦ ?_
      by_cases hi : i = src
      · rw [if_pos (Or.inl hi), hi, Function.update_self]
      · by_cases hd : i = c
        · rw [if_pos (Or.inr hd), hd, Function.update_of_ne hne.symm, hidle]
        · rw [if_neg (not_or.mpr ⟨hi, hd⟩), Function.update_of_ne hi, Function.update_of_ne hd]
  · rw [hrec]
    cases hstep with
    | wait => exact hbegun.quiet

end

/-! ## The steps of the services -/

namespace Machine

variable {m m' : Machine} {l : Label (Fin 8) Message (Option ℕ)}

theorem Sound.runnableAt_of_idle (hm : m.Sound) {i : Fin 8}
    (hsome : (m.kernel.sched.tasks i).isSome) (hidle : m.kernel.sched.status i = .idle) :
    m.kernel.sched.RunnableAt i := by
  obtain ⟨t, ht⟩ := Option.isSome_iff_exists.mp hsome
  rw [Scheduler.status_of_task ht] at hidle
  refine ⟨t, ht, ?_⟩
  rw [Task.IsRunnable]
  cases hstate : t.state with
  | ready => exact Or.inl rfl
  | running => exact Or.inr rfl
  | receiving srcId buf =>
    rw [hstate] at hidle
    cases hidle
  | sending destId msg =>
    obtain ⟨d, rfl⟩ := hm.destsOk i t destId msg ht hstate
    rw [hstate, TaskState.status_eq_sending.mpr rfl] at hidle
    cases hidle

/-- A send to a task that exists delivers the message or holds it. -/
theorem CallIs.send (h : m.CallIs .syscall l) (h3 : (m.regs .rax).toNat = 3) {d : Fin 8}
    (hid : (m.regs .rdi).toNat = d + 1) (hd : (m.kernel.sched.tasks d).isSome) :
    (∃ filter, l = .deliver m.cur d filter
      ((readMessage m.kernel.mem (m.regs .rsi).toNat).stampedBy m.cur)) ∨
    l = .post m.cur d ((readMessage m.kernel.mem (m.regs .rsi).toNat).stampedBy m.cur) := by
  cases l with
  | silent =>
    rw [h.2 h3 d hid] at hd
    cases hd
  | deliver src dst filter msg =>
    obtain ⟨rfl, -, hid', rfl⟩ := h
    obtain rfl : d = dst := Fin.ext (by omega)
    exact Or.inl ⟨filter, rfl⟩
  | post src dst msg =>
    obtain ⟨rfl, -, hid', rfl⟩ := h
    obtain rfl : d = dst := Fin.ext (by omega)
    exact Or.inr rfl
  | accept =>
    obtain ⟨-, hrax, -⟩ := h
    omega
  | wait =>
    obtain ⟨-, hrax, -⟩ := h
    omega

/-- A receive accepts a message or waits for one. -/
theorem CallIs.recv (h : m.CallIs .syscall l) (h4 : (m.regs .rax).toNat = 4) :
    (∃ src msg, l = .accept src m.cur (srcIdOption (m.regs .rdi).toNat) msg) ∨
    l = .wait m.cur (srcIdOption (m.regs .rdi).toNat) := by
  cases l with
  | silent => exact absurd h4 h.1
  | deliver =>
    obtain ⟨-, hrax, -⟩ := h
    omega
  | post =>
    obtain ⟨-, hrax, -⟩ := h
    omega
  | accept src dst filter msg =>
    obtain ⟨rfl, -, rfl⟩ := h
    exact Or.inl ⟨src, msg, rfl⟩
  | wait dst filter =>
    obtain ⟨rfl, -, rfl⟩ := h
    exact Or.inr rfl

theorem CallIs.silent (h : m.CallIs .syscall l) (h3 : (m.regs .rax).toNat ≠ 3)
    (h4 : (m.regs .rax).toNat ≠ 4) (h14 : (m.regs .rax).toNat ≠ 14) : l = .silent := by
  cases l with
  | silent => rfl
  | deliver => exact absurd h.2.1 h3
  | post => exact absurd h.2.1 h3
  | accept => exact absurd h.2.1 (not_or.mpr ⟨h4, h14⟩)
  | wait => exact absurd h.2.1 (not_or.mpr ⟨h4, h14⟩)

/-- A call that blocks its caller holds a message or waits. -/
theorem StepsAs.of_wouldBlock (hl : m.StepsAs .syscall m' l) (hids : m.kernel.sched.IdsOk)
    (h : m.kernel.WouldBlock (m.regs .rax) (m.regs .rdi)) :
    m'.kernel.sched.status m.cur ≠ .idle ∧
      ∀ i, i ≠ m.cur → m'.kernel.sched.status i = m.kernel.sched.status i := by
  obtain ⟨hstep, hidle, -, hcall⟩ := hl
  generalize hs' : m'.kernel.sched.status = s' at hstep
  -- a call that would block is a post or a wait; each other label says a partner was found
  cases hstep with
  | silent =>
    rcases h with ⟨h3, d, hid, dest, hdest, -⟩ | ⟨h4, -⟩
    · rw [hcall.2 h3 d hid] at hdest
      cases hdest
    · exact absurd h4 hcall.1
  | @deliver src dst filter msg hdst hadmits =>
    obtain ⟨rfl, h3, hid, -⟩ := hcall
    rcases h with ⟨-, d, hid', dest, hdest, hbuf⟩ | ⟨h4, -⟩
    · obtain rfl : d = dst := Fin.ext (by omega)
      rw [Scheduler.status_of_task hdest] at hdst
      obtain ⟨buf, hstate⟩ := TaskState.status_eq_receiving.mp hdst
      rw [TaskState.bufferFor_eq_some.mpr ⟨filter, hstate, hadmits⟩] at hbuf
      cases hbuf
    · omega
  | post =>
    obtain ⟨rfl, -⟩ := hcall
    refine ⟨by rw [Function.update_self]; exact nofun, fun i hi ↦ Function.update_of_ne hi _ _⟩
  | @accept src dst filter msg hsrc hadmits =>
    obtain ⟨rfl, hrax, rfl⟩ := hcall
    rcases h with ⟨h3, -⟩ | ⟨-, hnone⟩
    · omega
    · obtain ⟨t, ht, hstate⟩ := Scheduler.status_eq_sending.mp hsrc
      refine absurd (Kernel.sendsTo_of_sending hstate ?_) (hnone src t ht)
      rwa [hids src t ht]
  | wait =>
    obtain ⟨rfl, -⟩ := hcall
    refine ⟨by rw [Function.update_self]; exact nofun, fun i hi ↦ Function.update_of_ne hi _ _⟩

end Machine

namespace Services

variable {σ σ' : Services} {e : Event}

/-- The places of the programs are those of the tasks of the machine. -/
structure Linked (σ : Services) : Prop where
  sound : σ.machine.Sound
  idsOk : σ.machine.kernel.sched.IdsOk
  noMissed : NoMissed Admits σ.machine.kernel.sched.status
  placed : Placed σ.machine.kernel.sched.status σ.pc σ.log
  /-- The shell and the servers exist, and one more task. -/
  tasks : ∀ i : Fin 8, IsService i ∨ i = 3 → (σ.machine.kernel.sched.tasks i).isSome

theorem Linked.noMissed_pc (h : σ.Linked) : NoMissed Admits fun i ↦ (σ.pc i).status := by
  rw [← funext h.placed.status]
  exact h.noMissed

/-- The places after a step are those of the tasks. -/
theorem Linked.placed_step (hσ : σ.Linked) (h : σ.Step e σ')
    {l : Label (Fin 8) Message (Option ℕ)} (hl : σ.machine.StepsAs e σ'.machine l) :
    Placed σ'.machine.kernel.sched.status σ'.pc σ'.log := by
  obtain ⟨-, -, pc', hfollows, hpc, hlog⟩ := h
  obtain ⟨hstep, -, hrec, hcall⟩ := hl
  have hidle := hσ.sound.status_cur
  have hfits := hσ.placed.consistent.fits σ.machine.cur
  rw [hpc, hlog]
  -- a step that is no call changes no place
  have hsilent : l = .silent → pc' = σ.pc σ.machine.cur →
      Placed σ'.machine.kernel.sched.status
        ((σ.machine.observe e σ'.machine).advance (Function.update σ.pc σ.machine.cur pc'))
        (σ.log ++ pc'.begins σ.machine.cur ++
          (σ.machine.observe e σ'.machine).answers (Function.update σ.pc σ.machine.cur pc')) := by
    rintro rfl rfl
    have hstatus : σ'.machine.kernel.sched.status = σ.machine.kernel.sched.status := by
      generalize σ'.machine.kernel.sched.status = s' at hstep
      cases hstep
      rfl
    have hbegins := Pc.begins_of_idle hfits ((hσ.placed.status _).symm.trans hidle)
    rw [show σ.machine.observe e σ'.machine = .empty from hrec, Function.update_eq_self, hbegins,
      List.append_nil, hstatus]
    exact hσ.placed.quiet
  cases e with
  | user mem regs => exact hsilent hcall hfollows
  | tick => exact hsilent hcall hfollows
  | syscall =>
    rw [Machine.Follows] at hfollows
    split at hfollows
    case h_1 h3 =>
      have hbegins := Program.begins hfollows hfits rfl
      obtain ⟨d, hd, hid, hstatus⟩ := Program.sends hfollows hfits
      exact hσ.placed.send hidle hbegins hstatus hstep hrec
        (hcall.send h3 hid (hσ.tasks d (Or.inl hd)))
    case h_2 h4 =>
      have hbegins := Program.begins hfollows hfits trivial
      exact hσ.placed.recv hidle hbegins (Program.receives hfollows) hstep hrec (hcall.recv h4)
    case h_3 => exact absurd hfollows id
    case h_4 h3 h4 h14 => exact hsilent (hcall.silent h3 h4 h14) hfollows

/-- **A step of the services** keeps places and tasks together. -/
theorem Linked.step (hσ : σ.Linked) (h : σ.Step e σ') : σ'.Linked := by
  obtain ⟨l, hl⟩ := h.1.stepsAs h.2.1 hσ.sound hσ.idsOk
  have hplaced := hσ.placed_step h hl
  have hno := hl.step.noMissed hσ.noMissed
  have hsame := (h.1.stacksOk hσ.sound.stacksOk).2
  have htasks : ∀ i : Fin 8, IsService i ∨ i = 3 →
      (σ'.machine.kernel.sched.tasks i).isSome := by
    intro i hi
    obtain ⟨t, ht⟩ := Option.isSome_iff_exists.mp (hσ.tasks i hi)
    obtain ⟨t', ht', -⟩ := hsame.symm.task ht
    rw [ht']
    rfl
  have hfinds : σ.machine.FindsRunnable e := by
    cases e with
    | user => trivial
    | tick => trivial
    | syscall =>
      -- the task that is in no call after the step has been in no call before
      intro hblock
      obtain ⟨hcur, hother⟩ := hl.of_wouldBlock hσ.idsOk hblock
      have hno' : NoMissed Admits fun i ↦ (σ'.pc i).status := by
        rw [← funext hplaced.status]
        exact hno
      obtain ⟨i, hi, hidle⟩ := exists_idle hplaced.consistent hno' (e := 3)
        (by rintro (h | h | h) <;> revert h <;> decide)
      rw [Idle, ← hplaced.status] at hidle
      have hne : i ≠ σ.machine.cur := by
        rintro rfl
        exact hcur hidle
      rw [hother i hne] at hidle
      exact ⟨i, hne, hσ.sound.runnableAt_of_idle (hσ.tasks i hi) hidle⟩
  exact ⟨hσ.sound.step ⟨⟨hfinds, h.2.1⟩, h.1⟩, (h.1.refines hσ.idsOk).2, hno, hplaced, htasks⟩

end Services

theorem Started.linked {m : Machine} {specs : List TaskSpec} (h : Started m specs)
    (hok : KernelStacksOk specs) (hids : SpecIdsOk specs) (hlen : 4 ≤ specs.length) :
    (⟨m, fun _ ↦ .top, []⟩ : Services).Linked where
  sound := h.sound hok
  idsOk := h.idsOk hids
  noMissed src dst msg hsrc := by
    rw [h.allReady.status_eq] at hsrc
    cases hsrc
  placed := by
    refine ⟨fun i ↦ h.allReady.status_eq i, ⟨fun i ↦ trivial, fun server _ msg ↦ ?_⟩,
      ⟨fun _ _ ↦ rfl, fun _ _ ↦ rfl⟩⟩
    constructor
    · intro hjob
      cases hjob
    · rintro ⟨client, hwaits⟩
      cases hwaits
  tasks i hi := by
    have hlt : i.val < 4 := by
      rcases hi with (rfl | rfl | rfl) | rfl <;> decide
    rw [Option.isSome_iff_ne_none, ne_eq, h.spawned.none_iff]
    omega

/-- **Request/reply** neither deadlocks nor mixes up replies. From the start of the tasks, whatever
the schedule and whatever the programs do between their calls:

* while the shell is in an exchange, the shell or a server is runnable;
* the requests of a client to a server are those it has received replies to, in order, followed by
  the one of the exchange it is in, if any;
* the replies of a server to a client, with the requests they reply to, are those the client has
  received as replies to these requests, in order, followed by the one the server still holds, if
  any. -/
theorem request_reply {k : Kernel} {specs : List TaskSpec} {m₀ : Machine} {σ : Services}
    {es : List Event} (hok : KernelStacksOk specs) (hids : SpecIdsOk specs)
    (hlen : 4 ≤ specs.length) (hstart : k.start specs = .ok m₀)
    (hrun : Run Services.Step ⟨m₀, fun _ ↦ .top, []⟩ es σ) :
    ((σ.pc shell).InExchange → σ.machine.kernel.sched.RunnableAt shell ∨
      σ.machine.kernel.sched.RunnableAt fsServer ∨ σ.machine.kernel.sched.RunnableAt ataServer) ∧
    ∀ client server,
      askedOf σ.log client server =
        (answeredOf σ.log client server).map Prod.fst ++ (σ.pc client).request server ∧
      repliedOf σ.log server client =
        answeredOf σ.log client server ++ (σ.pc server).heldReply client := by
  have hσ : σ.Linked := hrun.invariant ((start_started hstart).linked hok hids hlen)
    fun _ _ _ hσ hstep ↦ hσ.step hstep
  refine ⟨fun hex ↦ ?_, fun client server ↦
    ⟨hσ.placed.logOk.asked client server, hσ.placed.logOk.replied client server⟩⟩
  obtain ⟨i, hi, hidle⟩ := exists_idle_of_inExchange hσ.placed.consistent hσ.noMissed_pc hex
  rw [Idle, ← hσ.placed.status] at hidle
  have hrun := hσ.sound.runnableAt_of_idle (hσ.tasks i (Or.inl hi)) hidle
  rcases hi with rfl | rfl | rfl
  · exact Or.inl hrun
  · exact Or.inr (Or.inl hrun)
  · exact Or.inr (Or.inr hrun)

/-! ### Four tasks -/

/-- The shell, the servers and one more task, whose stacks have a page each. -/
def fourTasks : List TaskSpec :=
  [⟨1, 0x1000, ⟨0x10000, 0x1000⟩, ⟨0x20000, 0x1000⟩, false⟩,
    ⟨2, 0x2000, ⟨0x30000, 0x1000⟩, ⟨0x40000, 0x1000⟩, false⟩,
    ⟨3, 0x3000, ⟨0x50000, 0x1000⟩, ⟨0x60000, 0x1000⟩, true⟩,
    ⟨4, 0x4000, ⟨0x70000, 0x1000⟩, ⟨0x80000, 0x1000⟩, false⟩]

/-- A memory with a key event at 0x5000 and a request to list the files at 0x6000. -/
def fourMem : Mem :=
  writeMessage (writeMessage (fun _ ↦ 0) 0x5000 ⟨0, 20, 97, 0, 0, 0⟩) 0x6000 ⟨0, 10, 0, 0, 0, 0⟩

/-- The four tasks have been started. -/
def fourStarted : Machine :=
  (Kernel.start ⟨.new, fourMem, 0, 0, 0, 0, none⟩ fourTasks).result (by decide +kernel)

/-- The shell has asked for a key. -/
def fourListening : Machine := (fourStarted.load 4 0 0x7000).syscall.result (by decide +kernel)

/-- Two timer interrupts later the fourth task runs. -/
def fourTicked : Machine := fourListening.timer.result (by decide +kernel)

def fourTicked' : Machine := fourTicked.timer.result (by decide +kernel)

/-- It has sent a key to the shell. -/
def fourKey : Machine := (fourTicked'.load 3 1 0x5000).syscall.result (by decide +kernel)

/-- Another timer interrupt later the shell runs. -/
def fourBack : Machine := fourKey.timer.result (by decide +kernel)

/-- It has sent a request to the file system server. -/
def fourAsking : Machine := (fourBack.load 3 2 0x6000).syscall.result (by decide +kernel)

namespace Services

/-- The services after a step in which the running task goes to place `pc'`. -/
def next (σ : Services) (e : Event) (m' : Machine) (pc' : Pc) : Services :=
  ⟨m', (σ.machine.observe e m').advance (Function.update σ.pc σ.machine.cur pc'),
    σ.log ++ pc'.begins σ.machine.cur ++
      (σ.machine.observe e m').answers (Function.update σ.pc σ.machine.cur pc')⟩

variable {σ : Services} {e : Event} {m' : Machine} {pc' : Pc}

theorem step_next (hstep : σ.machine.Step e m') (hspares : σ.machine.SparesFrames e)
    (hfollows : σ.machine.Follows (σ.pc σ.machine.cur) e pc') : σ.Step e (σ.next e m' pc') :=
  ⟨hstep, hspares, pc', hfollows, rfl, rfl⟩

/-- Loading registers. -/
def load (σ : Services) (rax rdi rsi : UInt64) : Services :=
  σ.next (.user σ.machine.kernel.mem (σ.machine.load rax rdi rsi).regs)
    (σ.machine.load rax rdi rsi) (σ.pc σ.machine.cur)

theorem step_load (σ : Services) (rax rdi rsi : UInt64) :
    σ.Step (.user σ.machine.kernel.mem (σ.machine.load rax rdi rsi).regs) (σ.load rax rdi rsi) :=
  step_next (.load _ _ _ _) (fun _ _ _ _ ↦ AgreeOn.refl _ _ _) rfl

end Services

theorem Machine.follows_send {m : Machine} {i : Fin 8} {p pc pc' : Pc} {destId : ℕ} {msg : Message}
    (hrax : (m.regs .rax).toNat = 3) (hcur : m.cur = i) (hp : pc = p)
    (hdest : (m.regs .rdi).toNat = destId)
    (hmsg : (readMessage m.kernel.mem (m.regs .rsi).toNat).stampedBy m.cur = msg)
    (h : Program i p (.send destId msg) pc') : m.Follows pc .syscall pc' := by
  rw [Machine.Follows, hrax]
  rw [hmsg, hdest, hp, hcur]
  exact h

/-- The key event, as it is sent. -/
def keyEvent : Message := ⟨4, 20, 97, 0, 0, 0⟩

/-- The request, as it is sent. -/
def listRequest : Message := ⟨1, 10, 0, 0, 0, 0⟩

/-- The services at these times. -/
def servicesStarted : Services := ⟨fourStarted, fun _ ↦ .top, []⟩
def servicesListening : Services :=
  (servicesStarted.load 4 0 0x7000).next .syscall fourListening .listening
def servicesTicked : Services :=
  (servicesListening.next .tick fourTicked .top).next .tick fourTicked' .top
def servicesKey : Services :=
  (servicesTicked.load 3 1 0x5000).next .syscall fourKey (.notifying keyEvent)
def servicesBack : Services := servicesKey.next .tick fourBack .top
def servicesAsking : Services := (servicesBack.load 3 2 0x6000).next .syscall fourAsking
  (.asking keyEvent fsServer listRequest)

theorem run_servicesAsking :
    ∃ es, Run Services.Step ⟨fourStarted, fun _ ↦ .top, []⟩ es servicesAsking := by
  have hlisten : (servicesStarted.load 4 0 0x7000).Step .syscall servicesListening :=
    Services.step_next (.syscall (Checked.eq_ok_result _ _)) (by decide +kernel) TaskShell.recv
  have htick : servicesListening.Step .tick (servicesListening.next .tick fourTicked .top) := by
    apply Services.step_next (.tick (Checked.eq_ok_result _ _)) trivial
    show Pc.top = _
    decide +kernel
  have htick' : (servicesListening.next .tick fourTicked .top).Step .tick servicesTicked := by
    apply Services.step_next (.tick (Checked.eq_ok_result _ _)) trivial
    show Pc.top = _
    decide +kernel
  have hkey : (servicesTicked.load 3 1 0x5000).Step .syscall servicesKey := by
    apply Services.step_next (.syscall (Checked.eq_ok_result _ _)) (by decide +kernel)
    exact Machine.follows_send (i := 3) (p := .top) (by decide +kernel) (by decide +kernel)
      (by decide +kernel) (by decide +kernel) (by decide +kernel) (Environment.key rfl)
  have hback : servicesKey.Step .tick servicesBack := by
    apply Services.step_next (.tick (Checked.eq_ok_result _ _)) trivial
    show Pc.top = _
    decide +kernel
  have hask : (servicesBack.load 3 2 0x6000).Step .syscall servicesAsking := by
    apply Services.step_next (.syscall (Checked.eq_ok_result _ _)) (by decide +kernel)
    exact Machine.follows_send (i := shell) (p := .free keyEvent) (by decide +kernel)
      (by decide +kernel) (by decide +kernel) (by decide +kernel) (by decide +kernel)
      (TaskShell.askFs rfl (Or.inl rfl))
  exact ⟨_, ((((((((Run.nil.snoc (Services.step_load _ 4 0 0x7000)).snoc hlisten).snoc htick).snoc
    htick').snoc (Services.step_load _ 3 1 0x5000)).snoc hkey).snoc hback).snoc
    (Services.step_load _ 3 2 0x6000)).snoc hask⟩

theorem request_reply_fourTasks :
    (servicesAsking.machine.kernel.sched.RunnableAt shell ∨
      servicesAsking.machine.kernel.sched.RunnableAt fsServer ∨
      servicesAsking.machine.kernel.sched.RunnableAt ataServer) ∧
    askedOf servicesAsking.log shell fsServer = [listRequest] := by
  have hids : SpecIdsOk fourTasks := by
    rintro (_ | _ | _ | _ | i) spec hspec
    · cases hspec
      rfl
    · cases hspec
      rfl
    · cases hspec
      rfl
    · cases hspec
      rfl
    · cases hspec
  have hpc : servicesAsking.pc shell = .asking keyEvent fsServer listRequest := by decide +kernel
  obtain ⟨es, hrun⟩ := run_servicesAsking
  obtain ⟨hrunnable, hlog⟩ := request_reply ⟨by decide, by decide⟩ hids (by decide)
    (Checked.eq_ok_result _ _) hrun
  have hanswered : answeredOf servicesAsking.log shell fsServer = [] := by decide +kernel
  refine ⟨hrunnable (by rw [hpc]; trivial), ?_⟩
  rw [(hlog shell fsServer).1, hanswered, hpc]
  rfl

end RelizOS
