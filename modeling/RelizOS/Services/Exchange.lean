import RelizOS.Services.Programs

/-!
# Who waits for whom

A rendezvous ends the send and the receive at the same time, so a server is busy with a job exactly
while the client that sent it is past its send and has not received the reply. That is the invariant
`Consistent` of the places: `Fits` says where each task can be, and `served` relates the jobs of the
servers to the requests of the clients.

A step of the programs is one of two things. A task begins a call (`Consistent.begin`), which
changes neither the job of a server nor what a client waits for; or two tasks in matching calls meet
(`Consistent.meet`), and there are three ways they can (`Consistent.meeting`). The log is kept in
step with the places (`LogOk`).

The chain of waiting tasks is short: the shell may wait for the file system server, that for the ATA
server, and the ATA server for nobody it is not already talking to. So in an exchange of the shell
one of the three is not in a call (`exists_idle_of_inExchange`).
-/

open Rendezvous (NoMissed)

namespace RelizOS

/-! ## What a place says -/

namespace Pc

/-- What a task at this place is doing. -/
def status : Pc → Status
  | .top | .free _ | .asked _ _ _ => .idle
  | .listening => .receiving none
  | .asking _ server request => .sending server request
  | .awaiting _ server _ => .receiving (some (server + 1))
  | .replying job reply =>
    match slotOf job.sender.toNat with
    | some client => .sending client reply
    | none => .idle
  | .notifying event => .sending shell event

/-- The message a task is working on. -/
def job : Pc → Option Message
  | .free job | .asking job _ _ | .asked job _ _ | .awaiting job _ _ | .replying job _ => some job
  | .top | .listening | .notifying _ => none

/-- The request a server has received and this task has no reply to yet. -/
def waits : Pc → Option (Fin 8 × Message)
  | .asked _ server request | .awaiting _ server request => some (server, request)
  | .top | .listening | .free _ | .asking _ _ _ | .replying _ _ | .notifying _ => none

/-- The request of the exchange under way with a server. -/
def request (server : Fin 8) : Pc → List Message
  | .asking _ s request | .asked _ s request | .awaiting _ s request =>
    if s = server then [request] else []
  | .top | .listening | .free _ | .replying _ _ | .notifying _ => []

/-- The reply a server holds for a client, with the request. -/
def heldReply (client : Fin 8) : Pc → List (Message × Message)
  | .replying job reply =>
    if job.sender = UInt64.ofNat (client + 1) then [(job, reply)] else []
  | .top | .listening | .free _ | .asking _ _ _ | .asked _ _ _ | .awaiting _ _ _
  | .notifying _ => []

end Pc

/-- `msg` is a request a client may send to a server. -/
def Asks (client server : Fin 8) (msg : Message) : Prop :=
  msg.sender = UInt64.ofNat (client + 1) ∧
    (client = shell ∧ server = fsServer ∧ msg.IsFsRequest ∨
      (client = shell ∨ client = fsServer) ∧ server = ataServer ∧ msg.IsAtaRequest)

/-- `job` is a request some client may send to a server. -/
def Serves (server : Fin 8) (job : Message) : Prop := ∃ client, Asks client server job

/-- The shell or one of the servers. -/
def IsService (i : Fin 8) : Prop := i = shell ∨ i = fsServer ∨ i = ataServer

/-- Task `i` can be at this place. -/
def Pc.Fits (i : Fin 8) : Pc → Prop
  | .top => True
  | .listening => IsService i
  | .free job => i = shell ∨ Serves i job
  | .asking job server request | .asked job server request | .awaiting job server request =>
    Asks i server request ∧ (i = shell ∨ Serves i job)
  | .replying job _ => Serves i job
  | .notifying _ => ¬IsService i

/-- The places of all tasks are consistent. -/
structure Consistent (pc : Fin 8 → Pc) : Prop where
  fits : ∀ i, (pc i).Fits i
  /-- A server has a job exactly while a client waits for the reply to it. -/
  served : ∀ server, server ≠ shell → ∀ msg,
    ((pc server).job = some msg ↔ ∃ client, (pc client).waits = some (server, msg))

/-! ## Clients and servers -/

section

variable {client client' server : Fin 8} {msg : Message} {i : Fin 8} {p : Pc}

theorem Asks.client_unique (h : Asks client server msg) (h' : Asks client' server msg) :
    client = client' := id_inj.mp (h.1.symm.trans h'.1)

theorem Asks.slotOf_sender (h : Asks client server msg) :
    slotOf msg.sender.toNat = some client := by
  have hlt : (client : ℕ) + 1 < UInt64.size := by
    have := client.isLt
    have : UInt64.size = 2 ^ 64 := rfl
    omega
  rw [h.1, UInt64.toNat_ofNat_of_lt' hlt, slotOf_succ]

theorem Asks.server_ne_shell (h : Asks client server msg) : server ≠ shell := by
  rcases h.2 with ⟨-, rfl, -⟩ | ⟨-, rfl, -⟩ <;> decide

theorem Asks.isService (h : Asks client server msg) : IsService server := by
  rcases h.2 with ⟨-, rfl, -⟩ | ⟨-, rfl, -⟩
  · exact Or.inr (Or.inl rfl)
  · exact Or.inr (Or.inr rfl)

theorem Serves.isService (h : Serves server msg) : IsService server := h.choose_spec.isService

theorem Serves.ne_shell (h : Serves server msg) : server ≠ shell := h.choose_spec.server_ne_shell

theorem Asks.not_mutual (h : Asks client server msg) {msg' : Message} :
    ¬Asks server client msg' := by
  rintro ⟨-, h'⟩
  obtain ⟨-, h⟩ := h
  rcases h with ⟨rfl, rfl, -⟩ | ⟨rfl | rfl, rfl, -⟩ <;>
    rcases h' with ⟨h1, h2, -⟩ | ⟨h1, h2, -⟩ <;> revert h1 h2 <;> decide

theorem Pc.Fits.asks_of_waits (h : p.Fits i) (hwaits : p.waits = some (server, msg)) :
    Asks i server msg := by
  cases p with
  | asked job s request =>
    obtain ⟨rfl, rfl⟩ := Prod.mk.inj (Option.some.inj hwaits)
    exact h.1
  | awaiting job s request =>
    obtain ⟨rfl, rfl⟩ := Prod.mk.inj (Option.some.inj hwaits)
    exact h.1
  | top | listening | free | asking | replying | notifying => cases hwaits

end

/-! ## Beginning a call -/

/-- The message of a send names its sender. -/
def IpcAction.StampedBy (i : Fin 8) : IpcAction → Prop
  | .send _ msg => msg.sender = UInt64.ofNat (i + 1)
  | .recv _ => True

/-- What a place in a call shares with the place before it. -/
structure Pc.Begins (i : Fin 8) (p p' : Pc) : Prop where
  fits : p'.Fits i
  job : i ≠ shell → p'.job = p.job
  waits : p'.waits = p.waits
  request : ∀ client server, p.request server ++ askedOf (p'.begins i) client server =
    if client = i then p'.request server else p.request server
  heldReply : ∀ client server, p.heldReply client ++ repliedOf (p'.begins i) server client =
    if server = i then p'.heldReply client else p.heldReply client
  answered : ∀ client server, answeredOf (p'.begins i) client server = []

section

variable {i : Fin 8} {p p' : Pc} {job reply request : Message} {server : Fin 8}

private theorem begins_quiet (hfits : p'.Fits i) (hjob : i ≠ shell → p'.job = p.job)
    (hwaits : p'.waits = p.waits) (hbegins : p'.begins i = [])
    (hrequest : ∀ server, p'.request server = p.request server)
    (hreply : ∀ client, p'.heldReply client = p.heldReply client) : p.Begins i p' := by
  refine ⟨hfits, hjob, hwaits, fun client server ↦ ?_, fun client server ↦ ?_, fun _ _ ↦ ?_⟩
  · rw [hbegins, hrequest, ite_self]
    exact List.append_nil _
  · rw [hbegins, hreply, ite_self]
    exact List.append_nil _
  · rw [hbegins]
    rfl

theorem begins_listening (hi : IsService i) (h : p = .top ∨ i = shell ∧ ∃ job, p = .free job) :
    p.Begins i .listening := by
  rcases h with rfl | ⟨rfl, job, rfl⟩
  · exact begins_quiet hi (fun _ ↦ rfl) rfl rfl (fun _ ↦ rfl) fun _ ↦ rfl
  · exact begins_quiet hi (fun hne ↦ absurd rfl hne) rfl rfl (fun _ ↦ rfl) fun _ ↦ rfl

theorem begins_asking (hfits : (Pc.free job).Fits i) (hasks : Asks i server request) :
    (Pc.free job).Begins i (.asking job server request) := by
  refine ⟨⟨hasks, hfits⟩, fun _ ↦ rfl, rfl, fun client s ↦ ?_, fun client s ↦ ?_, fun _ _ ↦ rfl⟩
  · by_cases hclient : client = i
    · subst hclient
      by_cases hs : server = s <;> simp [Pc.request, Pc.begins, askedOf, hs]
    · simp [Pc.request, Pc.begins, askedOf, hclient, Ne.symm hclient]
  · simp [Pc.heldReply, Pc.begins, repliedOf]

theorem begins_awaiting (hfits : (Pc.asked job server request).Fits i) :
    (Pc.asked job server request).Begins i (.awaiting job server request) :=
  begins_quiet hfits (fun _ ↦ rfl) rfl rfl (fun _ ↦ rfl) fun _ ↦ rfl

theorem begins_replying (hserves : Serves i job) :
    (Pc.free job).Begins i (.replying job reply) := by
  refine ⟨hserves, fun _ ↦ rfl, rfl, fun client s ↦ ?_, fun client s ↦ ?_, fun _ _ ↦ rfl⟩
  · simp [Pc.request, Pc.begins, askedOf]
  · by_cases hs : s = i
    · subst hs
      by_cases hsender : job.sender = UInt64.ofNat (client + 1) <;>
        simp only [Pc.heldReply, Pc.begins, repliedOf, List.filterMap_cons, List.filterMap_nil,
          List.nil_append, hsender, true_and, if_true, if_false]
    · simp [Pc.heldReply, Pc.begins, repliedOf, hs, Ne.symm hs]

theorem begins_notifying {event : Message} (hi : ¬IsService i) :
    Pc.top.Begins i (.notifying event) :=
  begins_quiet hi (fun _ ↦ rfl) rfl rfl (fun _ ↦ rfl) fun _ ↦ rfl

/-- **A call of a program** shares with the place before it what others rely on. -/
theorem Program.begins {action : IpcAction} (h : Program i p action p') (hfits : p.Fits i)
    (hstamped : action.StampedBy i) : p.Begins i p' := by
  rw [Program] at h
  by_cases h0 : i = shell
  · rw [if_pos h0] at h
    subst h0
    cases h with
    | recv => exact begins_listening (Or.inl rfl) (Or.inl rfl)
    | next => exact begins_listening (Or.inl rfl) (Or.inr ⟨rfl, _, rfl⟩)
    | askFs _ hrequest => exact begins_asking hfits ⟨hstamped, Or.inl ⟨rfl, rfl, hrequest⟩⟩
    | askAta _ hrequest =>
      exact begins_asking hfits ⟨hstamped, Or.inr ⟨Or.inl rfl, rfl, hrequest⟩⟩
    | awaitFs => exact begins_awaiting hfits
    | awaitAta => exact begins_awaiting hfits
  rw [if_neg h0] at h
  by_cases h1 : i = fsServer
  · rw [if_pos h1] at h
    subst h1
    have hserves : ∀ {job}, (Pc.free job).Fits fsServer → Serves fsServer job :=
      fun hfits ↦ hfits.resolve_left h0
    cases h with
    | recv => exact begins_listening (Or.inr (Or.inl rfl)) (Or.inl rfl)
    | next hjob =>
      -- only requests arrive at the server
      obtain ⟨client, -, hasks⟩ := hserves hfits
      rcases hasks with ⟨-, -, hrequest⟩ | ⟨-, heq, -⟩
      · exact absurd hrequest hjob
      · exact absurd heq (by decide)
    | ask _ hrequest => exact begins_asking hfits ⟨hstamped, Or.inr ⟨Or.inr rfl, rfl, hrequest⟩⟩
    | await => exact begins_awaiting hfits
    | reply => exact begins_replying (hserves hfits)
  rw [if_neg h1] at h
  by_cases h2 : i = ataServer
  · rw [if_pos h2] at h
    subst h2
    have hserves : ∀ {job}, (Pc.free job).Fits ataServer → Serves ataServer job :=
      fun hfits ↦ hfits.resolve_left h0
    cases h with
    | recv => exact begins_listening (Or.inr (Or.inr rfl)) (Or.inl rfl)
    | next hjob =>
      obtain ⟨client, -, hasks⟩ := hserves hfits
      rcases hasks with ⟨-, heq, -⟩ | ⟨-, -, hrequest⟩
      · exact absurd heq (by decide)
      · exact absurd hrequest hjob
    | reply => exact begins_replying (hserves hfits)
  rw [if_neg h2] at h
  cases h with
  | key => exact begins_notifying (by rintro (h | h | h) <;> contradiction)

end

section

variable {pc : Fin 8 → Pc} {log : List ServiceEvent} {i : Fin 8} {p' : Pc}

/-- The requests and replies in the log are those the places account for. -/
structure LogOk (pc : Fin 8 → Pc) (log : List ServiceEvent) : Prop where
  asked : ∀ client server, askedOf log client server =
    (answeredOf log client server).map Prod.fst ++ (pc client).request server
  replied : ∀ client server, repliedOf log server client =
    answeredOf log client server ++ (pc server).heldReply client

theorem Consistent.begin (h : Consistent pc) (hbegins : (pc i).Begins i p') :
    Consistent (Function.update pc i p') := by
  refine ⟨fun j ↦ ?_, fun server hserver msg ↦ ?_⟩
  · by_cases hj : j = i
    · subst hj
      rw [Function.update_self]
      exact hbegins.fits
    · rw [Function.update_of_ne hj]
      exact h.fits j
  · have hjob : (Function.update pc i p' server).job = (pc server).job := by
      by_cases hs : server = i
      · subst hs
        rw [Function.update_self, hbegins.job hserver]
      · rw [Function.update_of_ne hs]
    have hwaits : ∀ client, (Function.update pc i p' client).waits = (pc client).waits := by
      intro client
      by_cases hc : client = i
      · rw [hc, Function.update_self, hbegins.waits]
      · rw [Function.update_of_ne hc]
    simp only [hjob, hwaits]
    exact h.served server hserver msg

theorem LogOk.begin (h : LogOk pc log) (hbegins : (pc i).Begins i p') :
    LogOk (Function.update pc i p') (log ++ p'.begins i) := by
  -- a begun exchange logs a request or a reply that is being made, never an answer
  have hanswered : ∀ client server, answeredOf (log ++ p'.begins i) client server =
      answeredOf log client server := by
    intro client server
    rw [answeredOf, List.filterMap_append]
    exact (congrArg _ (hbegins.answered client server)).trans (List.append_nil _)
  refine ⟨fun client server ↦ ?_, fun client server ↦ ?_⟩
  · have hrequest := hbegins.request client server
    rw [hanswered, askedOf, List.filterMap_append, ← askedOf, ← askedOf, h.asked client server,
      List.append_assoc]
    congr 1
    by_cases hc : client = i
    · subst hc
      rw [Function.update_self, hrequest, if_pos rfl]
    · rw [Function.update_of_ne hc]
      have hnil : askedOf (p'.begins i) client server = [] := by
        rw [if_neg hc] at hrequest
        exact List.append_right_eq_self.mp hrequest
      rw [hnil, List.append_nil]
  · have hreply := hbegins.heldReply client server
    rw [hanswered, repliedOf, List.filterMap_append, ← repliedOf, ← repliedOf,
      h.replied client server, List.append_assoc]
    congr 1
    by_cases hs : server = i
    · subst hs
      rw [Function.update_self, hreply, if_pos rfl]
    · rw [Function.update_of_ne hs]
      have hnil : repliedOf (p'.begins i) server client = [] := by
        rw [if_neg hs] at hreply
        exact List.append_right_eq_self.mp hreply
      rw [hnil, List.append_nil]

/-! ## Meeting -/

/-- The places after the calls of two tasks have ended. -/
def meet (pc : Fin 8 → Pc) (src dst : Fin 8) (msg : Message) : Fin 8 → Pc :=
  Function.update (Function.update pc dst ((pc dst).got msg)) src (pc src).sent

/-- The three ways two tasks can meet. -/
inductive Meeting (pc : Fin 8 → Pc) (src dst : Fin 8) (msg : Message) : Prop
  /-- A server receives a request. -/
  | request (job : Message) (hsrc : pc src = .asking job dst msg) (hdst : pc dst = .listening)
  /-- A client receives the reply to its request. -/
  | reply (job request : Message) (hsrc : pc src = .replying request msg)
      (hdst : pc dst = .awaiting job src request)
  /-- The shell receives an event. -/
  | event (hsrc : pc src = .notifying msg) (hdst : pc dst = .listening) (hshell : dst = shell)

variable {src dst : Fin 8} {msg : Message} {filter : Option ℕ}

/-- A task that is receiving and admits `src` is at the top of its main loop, or awaits a reply of
`src`. -/
private theorem receiving_cases (hdst : (pc dst).status = .receiving filter)
    (hadmits : Admits filter src) :
    pc dst = .listening ∨ ∃ job request, pc dst = .awaiting job src request := by
  cases hpc : pc dst with
  | listening => exact Or.inl rfl
  | awaiting job server request =>
    rw [hpc, Pc.status, Rendezvous.Status.receiving.injEq] at hdst
    rw [← hdst, Admits, Option.some_inj] at hadmits
    obtain rfl : server = src := Fin.ext (by simpa using hadmits)
    exact Or.inr ⟨job, request, rfl⟩
  | top => simp [hpc, Pc.status] at hdst
  | free => simp [hpc, Pc.status] at hdst
  | asking => simp [hpc, Pc.status] at hdst
  | asked => simp [hpc, Pc.status] at hdst
  | notifying => simp [hpc, Pc.status] at hdst
  | replying job reply =>
    rw [hpc, Pc.status] at hdst
    split at hdst <;> cases hdst

/-- **When a sender and a receiver meet**, a request reaches its server, a reply the request it
answers, or an event the shell. -/
theorem Consistent.meeting (h : Consistent pc) (hsrc : (pc src).status = .sending dst msg)
    (hdst : (pc dst).status = .receiving filter) (hadmits : Admits filter src) :
    Meeting pc src dst msg := by
  have hfits := h.fits src
  have hreceiving := receiving_cases hdst hadmits
  cases hpc : pc src with
  | asking job server request =>
    rw [hpc] at hfits hsrc
    obtain ⟨rfl, rfl⟩ := Rendezvous.Status.sending.inj hsrc
    rcases hreceiving with hlisten | ⟨job', request', hawait⟩
    · exact .request job hpc hlisten
    · -- the server would be a client of its own client
      have hfits' := h.fits server
      rw [hawait] at hfits'
      exact absurd hfits'.1 hfits.1.not_mutual
  | replying request reply =>
    rw [hpc] at hfits hsrc
    obtain ⟨client, hasks⟩ := hfits
    rw [Pc.status, hasks.slotOf_sender] at hsrc
    obtain ⟨rfl, rfl⟩ := Rendezvous.Status.sending.inj hsrc
    -- the server replies to the stamp of its job, and just one client waits for that job
    obtain ⟨client', hwaits⟩ := (h.served src hasks.server_ne_shell request).mp (by rw [hpc]; rfl)
    obtain rfl := hasks.client_unique ((h.fits client').asks_of_waits hwaits)
    rcases hreceiving with hlisten | ⟨job', request', hawait⟩
    · rw [hlisten] at hwaits
      cases hwaits
    · rw [hawait, Pc.waits, Option.some_inj, Prod.mk.injEq] at hwaits
      exact .reply job' request hpc (hwaits.2 ▸ hawait)
  | notifying event =>
    rw [hpc] at hfits hsrc
    obtain ⟨rfl, rfl⟩ := Rendezvous.Status.sending.inj hsrc
    rcases hreceiving with hlisten | ⟨job', request', hawait⟩
    · exact .event hpc hlisten rfl
    · have hfits' := h.fits shell
      rw [hawait] at hfits'
      exact absurd hfits'.1.isService hfits
  | top => simp [hpc, Pc.status] at hsrc
  | listening => simp [hpc, Pc.status] at hsrc
  | free => simp [hpc, Pc.status] at hsrc
  | asked => simp [hpc, Pc.status] at hsrc
  | awaiting => simp [hpc, Pc.status] at hsrc

theorem Meeting.ne (h : Meeting pc src dst msg) : dst ≠ src := by
  rintro rfl
  cases h with
  | request _ hsrc hdst => exact absurd (hsrc.symm.trans hdst) nofun
  | reply _ _ hsrc hdst => exact absurd (hsrc.symm.trans hdst) nofun
  | event hsrc hdst => exact absurd (hsrc.symm.trans hdst) nofun

theorem meet_src : meet pc src dst msg src = (pc src).sent := Function.update_self _ _ _

theorem meet_dst (hne : dst ≠ src) : meet pc src dst msg dst = (pc dst).got msg := by
  rw [meet, Function.update_of_ne hne, Function.update_self]

theorem meet_of_ne (hsrc : i ≠ src) (hdst : i ≠ dst) : meet pc src dst msg i = pc i := by
  rw [meet, Function.update_of_ne hsrc, Function.update_of_ne hdst]

/-- After a meeting, what holds of sender and receiver and of everyone else holds of all. -/
private theorem forall_meet {P : Fin 8 → Pc → Prop} (hne : dst ≠ src)
    (hsrc : P src (pc src).sent) (hdst : P dst ((pc dst).got msg))
    (hother : ∀ i, i ≠ src → i ≠ dst → P i (pc i)) (i : Fin 8) :
    P i (meet pc src dst msg i) := by
  by_cases his : i = src
  · rw [his, meet_src]
    exact hsrc
  · by_cases hid : i = dst
    · rw [hid, meet_dst hne]
      exact hdst
    · rw [meet_of_ne his hid]
      exact hother i his hid

/-- After a request the server has a job, and the client waits. -/
private theorem Consistent.meet_request {job : Message} (h : Consistent pc) (hne : dst ≠ src)
    (hsrc : pc src = .asking job dst msg) (hdst : pc dst = .listening) :
    Consistent (meet pc src dst msg) := by
  have hfits := h.fits src
  rw [hsrc] at hfits
  have hjob : ∀ i, (RelizOS.meet pc src dst msg i).job =
      if i = dst then some msg else (pc i).job := by
    refine forall_meet (P := fun i p ↦ p.job = if i = dst then some msg else (pc i).job) hne ?_ ?_
      fun i _ hid ↦ by rw [if_neg hid]
    · rw [if_neg (Ne.symm hne), hsrc]
      rfl
    · rw [if_pos rfl, hdst]
      rfl
  have hwaits : ∀ i, (RelizOS.meet pc src dst msg i).waits =
      if i = src then some (dst, msg) else (pc i).waits := by
    refine forall_meet
      (P := fun i p ↦ p.waits = if i = src then some (dst, msg) else (pc i).waits) hne ?_ ?_
      fun i his _ ↦ by rw [if_neg his]
    · rw [if_pos rfl, hsrc]
      rfl
    · rw [if_neg hne, hdst]
      rfl
  refine ⟨forall_meet (P := fun i p ↦ p.Fits i) hne ?_ ?_ fun i _ _ ↦ h.fits i,
    fun server hserver q ↦ ?_⟩
  · rw [hsrc]
    exact hfits
  · rw [hdst]
    exact Or.inr ⟨src, hfits.1⟩
  · have hold := h.served server hserver q
    rw [hjob]
    constructor
    · intro hq
      by_cases hs : server = dst
      · rw [if_pos hs] at hq
        exact ⟨src, by rw [hwaits, if_pos rfl, hs, Option.some.inj hq]⟩
      · rw [if_neg hs] at hq
        obtain ⟨client, hclient⟩ := hold.mp hq
        have hc : client ≠ src := by
          rintro rfl
          rw [hsrc] at hclient
          cases hclient
        exact ⟨client, by rw [hwaits, if_neg hc, hclient]⟩
    · rintro ⟨client, hclient⟩
      rw [hwaits] at hclient
      by_cases hc : client = src
      · rw [if_pos hc, Option.some_inj, Prod.mk.injEq] at hclient
        rw [if_pos hclient.1.symm, hclient.2]
      · rw [if_neg hc] at hclient
        have hs : server ≠ dst := by
          rintro rfl
          have := hold.mpr ⟨client, hclient⟩
          rw [hdst] at this
          cases this
        rw [if_neg hs]
        exact hold.mpr ⟨client, hclient⟩

/-- After a reply the server has no job, and the client does not wait. -/
private theorem Consistent.meet_reply {job request : Message} (h : Consistent pc) (hne : dst ≠ src)
    (hsrc : pc src = .replying request msg) (hdst : pc dst = .awaiting job src request) :
    Consistent (meet pc src dst msg) := by
  have hfits := h.fits src
  have hfits' := h.fits dst
  rw [hsrc] at hfits
  rw [hdst] at hfits'
  have hjob : ∀ i, (RelizOS.meet pc src dst msg i).job =
      if i = src then none else (pc i).job := by
    refine forall_meet (P := fun i p ↦ p.job = if i = src then none else (pc i).job) hne ?_ ?_
      fun i his _ ↦ by rw [if_neg his]
    · rw [if_pos rfl, hsrc]
      rfl
    · rw [if_neg hne, hdst]
      rfl
  have hwaits : ∀ i, (RelizOS.meet pc src dst msg i).waits =
      if i = dst then none else (pc i).waits := by
    refine forall_meet (P := fun i p ↦ p.waits = if i = dst then none else (pc i).waits) hne ?_ ?_
      fun i _ hid ↦ by rw [if_neg hid]
    · rw [if_neg (Ne.symm hne), hsrc]
      rfl
    · rw [if_pos rfl, hdst]
      rfl
  refine ⟨forall_meet (P := fun i p ↦ p.Fits i) hne ?_ ?_ fun i _ _ ↦ h.fits i,
    fun server hserver q ↦ ?_⟩
  · rw [hsrc]
    trivial
  · rw [hdst]
    exact hfits'.2
  · have hold := h.served server hserver q
    rw [hjob]
    constructor
    · intro hq
      by_cases hs : server = src
      · rw [if_pos hs] at hq
        cases hq
      · rw [if_neg hs] at hq
        obtain ⟨client, hclient⟩ := hold.mp hq
        have hc : client ≠ dst := by
          rintro rfl
          rw [hdst, Pc.waits, Option.some_inj, Prod.mk.injEq] at hclient
          exact hs hclient.1.symm
        exact ⟨client, by rw [hwaits, if_neg hc, hclient]⟩
    · rintro ⟨client, hclient⟩
      rw [hwaits] at hclient
      by_cases hc : client = dst
      · rw [if_pos hc] at hclient
        cases hclient
      · rw [if_neg hc] at hclient
        have hs : server ≠ src := by
          rintro rfl
          have hq := hold.mpr ⟨client, hclient⟩
          rw [hsrc] at hq
          obtain rfl := Option.some.inj hq
          -- two clients that wait for one request would have sent it under one stamp
          exact hc (((h.fits client).asks_of_waits hclient).client_unique hfits'.1)
        rw [if_neg hs]
        exact hold.mpr ⟨client, hclient⟩

private theorem Consistent.meet_event (h : Consistent pc) (hne : dst ≠ src)
    (hsrc : pc src = .notifying msg) (hdst : pc dst = .listening) (hshell : dst = shell) :
    Consistent (meet pc src dst msg) := by
  have hwaits : ∀ i, (RelizOS.meet pc src dst msg i).waits = (pc i).waits :=
    forall_meet (P := fun i p ↦ p.waits = (pc i).waits) hne (by rw [hsrc]; rfl)
      (by rw [hdst]; rfl) fun _ _ _ ↦ rfl
  have hjob : ∀ i, i ≠ shell → (RelizOS.meet pc src dst msg i).job = (pc i).job :=
    forall_meet (P := fun i p ↦ i ≠ shell → p.job = (pc i).job) hne
      (fun _ ↦ by rw [hsrc]; rfl) (fun hi ↦ absurd hshell hi) fun _ _ _ _ ↦ rfl
  refine ⟨forall_meet (P := fun i p ↦ p.Fits i) hne ?_ ?_ fun i _ _ ↦ h.fits i,
    fun server hserver q ↦ ?_⟩
  · rw [hsrc]
    trivial
  · rw [hdst]
    exact Or.inl hshell
  · simp only [hjob server hserver, hwaits]
    exact h.served server hserver q

/-- **A meeting leaves the places consistent.** -/
theorem Consistent.meet (h : Consistent pc) (hmeet : Meeting pc src dst msg) :
    Consistent (meet pc src dst msg) := by
  have hne := hmeet.ne
  cases hmeet with
  | request job hsrc hdst => exact h.meet_request hne hsrc hdst
  | reply job request hsrc hdst => exact h.meet_reply hne hsrc hdst
  | event hsrc hdst hshell => exact h.meet_event hne hsrc hdst hshell

private theorem LogOk.meet_quiet (h : LogOk pc log) (hne : dst ≠ src)
    (hnil : (pc dst).answers dst msg = [])
    (hsent : ∀ i, (pc src).sent.request i = (pc src).request i ∧
      (pc src).sent.heldReply i = (pc src).heldReply i)
    (hgot : ∀ i, ((pc dst).got msg).request i = (pc dst).request i ∧
      ((pc dst).got msg).heldReply i = (pc dst).heldReply i) :
    LogOk (meet pc src dst msg) (log ++ (pc dst).answers dst msg) := by
  have hkept := forall_meet (P := fun j p ↦ ∀ i, p.request i = (pc j).request i ∧
    p.heldReply i = (pc j).heldReply i) hne hsent hgot fun _ _ _ _ ↦ ⟨rfl, rfl⟩
  rw [hnil, List.append_nil]
  exact ⟨fun client server ↦ by rw [(hkept client server).1, h.asked],
    fun client server ↦ by rw [(hkept server client).2, h.replied]⟩

private theorem LogOk.meet_reply {job request : Message} (h : LogOk pc log) (hc : Consistent pc)
    (hne : dst ≠ src) (hsrc : pc src = .replying request msg)
    (hdst : pc dst = .awaiting job src request) :
    LogOk (meet pc src dst msg) (log ++ (pc dst).answers dst msg) := by
  have hasks : Asks dst src request := by
    have := hc.fits dst
    rw [hdst] at this
    exact this.1
  have hlog : (pc dst).answers dst msg = [.answered dst src request msg] := by rw [hdst]; rfl
  have hanswered : ∀ client server,
      answeredOf (log ++ (pc dst).answers dst msg) client server =
        answeredOf log client server ++
          if dst = client ∧ src = server then [(request, msg)] else [] := by
    intro client server
    rw [hlog, answeredOf, List.filterMap_append, ← answeredOf]
    congr 1
    by_cases hpair : dst = client ∧ src = server
    · rw [if_pos hpair]
      exact List.filterMap_cons_some (if_pos hpair)
    · rw [if_neg hpair]
      exact List.filterMap_cons_none (if_neg hpair)
  have hasked : ∀ client server, askedOf (log ++ (pc dst).answers dst msg) client server =
      askedOf log client server := by
    intro client server
    rw [hlog, askedOf, List.filterMap_append]
    exact List.append_nil _
  have hreplied : ∀ client server, repliedOf (log ++ (pc dst).answers dst msg) server client =
      repliedOf log server client := by
    intro client server
    rw [hlog, repliedOf, List.filterMap_append]
    exact List.append_nil _
  refine ⟨fun client server ↦ ?_, fun client server ↦ ?_⟩
  · -- the request under way becomes an answered one
    have hrequest : (pc client).request server =
        (if dst = client ∧ src = server then [request] else []) ++
          (RelizOS.meet pc src dst msg client).request server := by
      by_cases hs : client = src
      · rw [hs, meet_src, hsrc, if_neg fun h ↦ hne h.1]
        rfl
      · by_cases hd : client = dst
        · rw [hd, meet_dst hne, hdst]
          by_cases hserver : src = server <;> simp [Pc.request, Pc.got, hserver]
        · rw [meet_of_ne hs hd, if_neg fun h ↦ hd h.1.symm]
          rfl
    rw [hasked, hanswered, h.asked client server, hrequest, List.map_append, List.append_assoc]
    by_cases hpair : dst = client ∧ src = server
    · rw [if_pos hpair, if_pos hpair]
      rfl
    · rw [if_neg hpair, if_neg hpair]
      rfl
  · -- the reply held becomes a received one
    have hreply : (pc server).heldReply client =
        (if dst = client ∧ src = server then [(request, msg)] else []) ++
          (RelizOS.meet pc src dst msg server).heldReply client := by
      by_cases hs : server = src
      · rw [hs, meet_src, hsrc, Pc.heldReply, hasks.1]
        by_cases hclient : dst = client
        · rw [if_pos (id_inj.mpr hclient), if_pos ⟨hclient, rfl⟩]
          rfl
        · rw [if_neg (mt id_inj.mp hclient), if_neg fun h ↦ hclient h.1]
          rfl
      · rw [if_neg fun h ↦ hs h.2.symm]
        by_cases hd : server = dst
        · rw [hd, meet_dst hne, hdst]
          rfl
        · rw [meet_of_ne hs hd]
          rfl
    rw [hreplied, hanswered, h.replied client server, hreply, List.append_assoc]

/-- **The log is kept in step** by a meeting, in which the receiver logs a reply. -/
theorem LogOk.meet (h : LogOk pc log) (hc : Consistent pc) (hmeet : Meeting pc src dst msg) :
    LogOk (meet pc src dst msg) (log ++ (pc dst).answers dst msg) := by
  have hne := hmeet.ne
  cases hmeet with
  | request job hsrc hdst =>
    refine h.meet_quiet hne (by rw [hdst]; rfl) (fun i ↦ ?_) fun i ↦ ?_
    · rw [hsrc]
      exact ⟨rfl, rfl⟩
    · rw [hdst]
      exact ⟨rfl, rfl⟩
  | reply job request hsrc hdst => exact h.meet_reply hc hne hsrc hdst
  | event hsrc hdst =>
    refine h.meet_quiet hne (by rw [hdst]; rfl) (fun i ↦ ?_) fun i ↦ ?_
    · rw [hsrc]
      exact ⟨rfl, rfl⟩
    · rw [hdst]
      exact ⟨rfl, rfl⟩

end

/-! ## Somebody is free -/

section

variable {pc : Fin 8 → Pc} {client server : Fin 8} {job request reply : Message}

/-- The tasks that are in no call. -/
def Idle (pc : Fin 8 → Pc) (i : Fin 8) : Prop := (pc i).status = .idle

/-- A sender and a receiver that admits it are not both left behind. -/
private theorem not_missed {src dst : Fin 8} {msg : Message} {filter : Option ℕ}
    (hno : NoMissed Admits fun i ↦ (pc i).status) (hsrc : (pc src).status = .sending dst msg)
    (hdst : (pc dst).status = .receiving filter) : ¬Admits filter src := by
  have h := hno src dst msg hsrc
  simp only [hdst] at h
  exact h

/-- A server that is replying has a client that is not in a call. -/
private theorem exists_idle_of_replying (h : Consistent pc)
    (hno : NoMissed Admits fun i ↦ (pc i).status) (hpc : pc server = .replying job reply) :
    ∃ i, IsService i ∧ Idle pc i := by
  have hfits := h.fits server
  rw [hpc] at hfits
  obtain ⟨client, hwaits⟩ := (h.served server hfits.ne_shell job).mp (by rw [hpc]; rfl)
  have hasks := (h.fits client).asks_of_waits hwaits
  have hclient : IsService client := by
    rcases hasks.2 with ⟨rfl, -⟩ | ⟨rfl | rfl, -⟩
    · exact Or.inl rfl
    · exact Or.inl rfl
    · exact Or.inr (Or.inl rfl)
  -- the client has sent its request, so it is about to receive or already receiving
  cases hcl : pc client with
  | asked => exact ⟨client, hclient, by rw [Idle, hcl]; rfl⟩
  | awaiting job' s request =>
    -- it waits for this very reply
    rw [hcl, Pc.waits, Option.some_inj, Prod.mk.injEq] at hwaits
    obtain ⟨rfl, rfl⟩ := hwaits
    have hsending : (pc s).status = .sending client reply := by
      rw [hpc, Pc.status, hasks.slotOf_sender]
    exact absurd (Or.inr rfl) (not_missed hno hsending (by rw [hcl]; rfl))
  | top | listening | free | asking | replying | notifying =>
    rw [hcl] at hwaits
    cases hwaits

theorem Pc.request_eq_singleton {p : Pc} : p.request server = [request] ↔
    ∃ job, p = .asking job server request ∨ p = .asked job server request ∨
      p = .awaiting job server request := by
  cases p with
  | asking job s q | asked job s q | awaiting job s q =>
    rw [Pc.request]
    by_cases hs : s = server <;> simp [hs]
  | top | listening | free | replying | notifying => simp [Pc.request]

/-- If a client is in an exchange with a server, one of the two or a client of the server is in no
call, unless the server is itself in an exchange. -/
private theorem exists_idle_of_request (h : Consistent pc)
    (hno : NoMissed Admits fun i ↦ (pc i).status) (hclient : IsService client)
    (hrequest : (pc client).request server = [request])
    (hserver : (pc server).InExchange → ∃ i, IsService i ∧ Idle pc i) :
    ∃ i, IsService i ∧ Idle pc i := by
  have hcl : ∃ job, pc client = .asking job server request ∨ pc client = .asked job server request ∨
      pc client = .awaiting job server request := Pc.request_eq_singleton.mp hrequest
  have hasks : Asks client server request := by
    have hfits := h.fits client
    obtain ⟨job, hcl | hcl | hcl⟩ := hcl <;> rw [hcl] at hfits <;> exact hfits.1
  obtain ⟨job, hcl | hcl | hcl⟩ := hcl
  · -- the request has not arrived, so the server does not listen
    have hsending : (pc client).status = .sending server request := by
      rw [hcl]
      rfl
    have hfits := h.fits server
    cases hs : pc server with
    | top | free | asked => exact ⟨server, hasks.isService, by rw [Idle, hs]; rfl⟩
    | listening => exact absurd (Or.inl rfl) (not_missed hno hsending (by rw [hs]; rfl))
    | asking | awaiting => exact hserver (by rw [hs]; trivial)
    | replying => exact exists_idle_of_replying h hno hs
    | notifying =>
      rw [hs] at hfits
      exact absurd hasks.isService hfits
  · exact ⟨client, hclient, by rw [Idle, hcl]; rfl⟩
  · -- the request has arrived, so the server has a job
    have hjob := (h.served server hasks.server_ne_shell request).mpr ⟨client, by rw [hcl]; rfl⟩
    cases hs : pc server with
    | free | asked => exact ⟨server, hasks.isService, by rw [Idle, hs]; rfl⟩
    | asking | awaiting => exact hserver (by rw [hs]; trivial)
    | replying => exact exists_idle_of_replying h hno hs
    | top | listening | notifying =>
      rw [hs] at hjob
      cases hjob

theorem Pc.InExchange.exists_request {p : Pc} {i : Fin 8} (h : p.InExchange) (hfits : p.Fits i) :
    ∃ server request, Asks i server request ∧ p.request server = [request] := by
  cases p with
  | asking job server request => exact ⟨server, request, hfits.1, if_pos rfl⟩
  | asked job server request => exact ⟨server, request, hfits.1, if_pos rfl⟩
  | awaiting job server request => exact ⟨server, request, hfits.1, if_pos rfl⟩
  | top | listening | free | replying | notifying => exact absurd h id

/-- **In an exchange of the shell** one of the three is in no call. -/
theorem exists_idle_of_inExchange (h : Consistent pc)
    (hno : NoMissed Admits fun i ↦ (pc i).status) (hshell : (pc shell).InExchange) :
    ∃ i, IsService i ∧ Idle pc i := by
  -- the ATA server asks nobody
  have hata : ¬(pc ataServer).InExchange := by
    intro hex
    obtain ⟨server, request, hasks, -⟩ := hex.exists_request (h.fits ataServer)
    rcases hasks.2 with ⟨heq, -⟩ | ⟨heq | heq, -⟩ <;> revert heq <;> decide
  -- and the file system server asks only the ATA server
  have hfs : (pc fsServer).InExchange → ∃ i, IsService i ∧ Idle pc i := by
    intro hex
    obtain ⟨server, request, hasks, hrequest⟩ := hex.exists_request (h.fits fsServer)
    obtain rfl : server = ataServer := by
      rcases hasks.2 with ⟨heq, -⟩ | ⟨-, rfl, -⟩
      · exact absurd heq (by decide)
      · rfl
    exact exists_idle_of_request h hno (Or.inr (Or.inl rfl)) hrequest fun hex ↦ absurd hex hata
  obtain ⟨server, request, hasks, hrequest⟩ := hshell.exists_request (h.fits shell)
  refine exists_idle_of_request h hno (Or.inl rfl) hrequest fun hex ↦ ?_
  rcases hasks.2 with ⟨-, rfl, -⟩ | ⟨-, rfl, -⟩
  · exact hfs hex
  · exact absurd hex hata

/-- **At any time** the shell, a server or any one task besides is in no call. -/
theorem exists_idle (h : Consistent pc) (hno : NoMissed Admits fun i ↦ (pc i).status) {e : Fin 8}
    (he : ¬IsService e) : ∃ i, (IsService i ∨ i = e) ∧ Idle pc i := by
  have hshell := h.fits shell
  cases hs : pc shell with
  | top | free | asked => exact ⟨shell, Or.inl (Or.inl rfl), by rw [Idle, hs]; rfl⟩
  | asking | awaiting =>
    obtain ⟨i, hi, hidle⟩ := exists_idle_of_inExchange h hno (by rw [hs]; trivial)
    exact ⟨i, Or.inl hi, hidle⟩
  | listening =>
    -- an event for the shell would have arrived
    have hfits := h.fits e
    cases hev : pc e with
    | top | free | asked => exact ⟨e, Or.inr rfl, by rw [Idle, hev]; rfl⟩
    | notifying =>
      exact absurd (Or.inl rfl) (@not_missed _ e _ _ _ hno (by rw [hev]; rfl) (by rw [hs]; rfl))
    | listening =>
      rw [hev] at hfits
      exact absurd hfits he
    | asking | awaiting =>
      rw [hev] at hfits
      rcases hfits.1.2 with ⟨rfl, -⟩ | ⟨rfl | rfl, -⟩
      · exact absurd (Or.inl rfl) he
      · exact absurd (Or.inl rfl) he
      · exact absurd (Or.inr (Or.inl rfl)) he
    | replying =>
      rw [hev] at hfits
      exact absurd hfits.isService he
  | replying =>
    rw [hs] at hshell
    exact absurd rfl hshell.ne_shell
  | notifying =>
    rw [hs] at hshell
    exact absurd (Or.inl rfl) hshell

end

end RelizOS
