import RelizOS.Kernel.KernelStacks

/-!
# The state in which the first task starts

`kernel_main` creates its tasks with `Task::new_user`, spawns them, and starts the first one. The
tasks then stand in the slots in the order of creation, all ready, each with a frame at the top of
its kernel stack; `Started` says so, and `start_started` proves it by going through the list of
tasks with the invariant `Spawned`.

That the frames are apart and return to user mode needs more: the kernel stacks must be disjoint, as
mutable slices are, and long enough for a frame.
-/

open ByteMemory

namespace RelizOS

/-- The kernel stacks are disjoint and have room for a frame. -/
structure KernelStacksOk (specs : List TaskSpec) : Prop where
  room : ∀ spec ∈ specs, 175 ≤ spec.kernelStack.len
  disjoint : specs.Pairwise fun a b ↦
    a.kernelStack.ptr + a.kernelStack.len ≤ b.kernelStack.ptr ∨
      b.kernelStack.ptr + b.kernelStack.len ≤ a.kernelStack.ptr

/-- The ids are 1, 2, 3 and so on, in the order of creation. -/
def SpecIdsOk (specs : List TaskSpec) : Prop :=
  ∀ i spec, specs[i]? = some spec → spec.id = i + 1

theorem specIdsOk_twoTasks : SpecIdsOk twoTasks := by
  rintro (_ | _ | i) spec hspec
  · cases hspec
    rfl
  · cases hspec
    rfl
  · cases hspec

/-- The frame of a task returns to user mode. -/
def UserFrame (m : Mem) (t : Task) : Prop :=
  frameReg m t.rsp .cs = 0x23 ∧ frameReg m t.rsp .ss = 0x1B

theorem UserFrame.congr {m m' : Mem} {t : Task} (h : UserFrame m t)
    (hagree : AgreeOn m' m t.rsp 160) : UserFrame m' t :=
  ⟨(frameReg_congr hagree _).trans h.1, (frameReg_congr hagree _).trans h.2⟩

/-! ## One task -/

theorem alignedTop_eq_ok {stack : StackSlice} {top : ℕ} (h : alignedTop stack = .ok top) :
    top = (stack.ptr + stack.len) / 16 * 16 := by
  obtain ⟨a, ha, h⟩ := Checked.bind_eq_ok.mp h
  obtain ⟨hlt, rfl⟩ := Checked.add_eq_ok.mp ha
  have hmask : (stack.ptr + stack.len) &&& Checked.not64 (2 ^ 4 - 1) =
      (stack.ptr + stack.len) / 2 ^ 4 * 2 ^ 4 := Checked.land_not64 hlt (by decide)
  exact (Except.ok.inj h).symm.trans hmask

/-- What `Task::new_user` makes. -/
structure NewTask (spec : TaskSpec) (t : Task) : Prop where
  id : t.id = spec.id
  state : t.state = .ready
  top : t.rsp + 160 = t.kernelStackTop
  aligned : 16 ∣ t.kernelStackTop
  above : spec.kernelStack.ptr + spec.kernelStack.len < t.kernelStackTop + 16
  below : t.kernelStackTop ≤ spec.kernelStack.ptr + spec.kernelStack.len

theorem newUser_eq_ok {m m' : Mem} {spec : TaskSpec} {t : Task}
    (h : Task.newUser m spec.id spec.entryPoint spec.userStack spec.kernelStack spec.allowIo =
      .ok (t, m')) :
    NewTask spec t ∧ UserFrame m' t ∧
      ∀ a n, (a + n ≤ t.rsp ∨ t.rsp + 160 ≤ a) → AgreeOn m' m a n := by
  obtain ⟨userTop, -, h⟩ := Checked.bind_eq_ok.mp h
  obtain ⟨kernelTop, hkernel, h⟩ := Checked.bind_eq_ok.mp h
  obtain ⟨rsp, hrsp, h⟩ := Checked.bind_eq_ok.mp h
  obtain ⟨hle, hrsp⟩ := Checked.sub_eq_ok.mp hrsp
  have htop := alignedTop_eq_ok hkernel
  cases h
  refine ⟨⟨rfl, rfl, by dsimp only; omega, htop ▸ Nat.dvd_mul_left _ _, by dsimp only; omega,
    by dsimp only; omega⟩, ⟨?_, ?_⟩, fun a n h ↦ agreeOn_writeWords h⟩
  · exact readU64_writeWords rfl
  · exact readU64_writeWords rfl

theorem NewTask.frame_within {spec : TaskSpec} {t : Task} (h : NewTask spec t)
    (hroom : 175 ≤ spec.kernelStack.len) :
    t.frame.Within
      ⟨spec.kernelStack.ptr, spec.kernelStack.ptr + spec.kernelStack.len⟩ := by
  have := h.top
  have := h.above
  have := h.below
  exact ⟨by dsimp only [Task.frame]; omega, by dsimp only [Task.frame]; omega⟩

/-! ## All tasks -/

/-- The tasks of `specs` have been spawned. -/
structure Spawned (s : Scheduler) (specs : List TaskSpec) : Prop where
  none_iff : ∀ i : Fin 8, s.tasks i = none ↔ specs.length ≤ i
  task : ∀ (i : Fin 8) t, s.tasks i = some t → ∃ spec, specs[i.val]? = some spec ∧ NewTask spec t

/-- The frames of all tasks return to user mode. -/
def Kernel.UserFrames (k : Kernel) : Prop := ∀ i t, k.sched.tasks i = some t → UserFrame k.mem t

theorem spawned_nil : Spawned .new [] :=
  ⟨fun i ↦ ⟨fun _ ↦ Nat.zero_le _, fun _ ↦ rfl⟩, fun i t ht ↦ by cases ht⟩

theorem spawn_eq_ok {s s' : Scheduler} {t : Task} (h : s.spawn t = .ok s') :
    ∃ i, s.tasks i = none ∧ (∀ j, j < i → s.tasks j ≠ none) ∧
      s' = { s with tasks := Function.update s.tasks i (some t) } := by
  rw [Scheduler.spawn] at h
  cases hfind : (List.finRange 8).find? fun i ↦ (s.tasks i).isNone with
  | none => simp [hfind] at h
  | some i =>
    rw [hfind] at h
    cases h
    have hfree : (s.tasks i).isNone = true := by
      have := List.find?_some hfind
      simpa using this
    refine ⟨i, Option.isNone_iff_eq_none.mp hfree, fun j hj ↦ ?_, rfl⟩
    obtain ⟨-, n, hn, hi, hbefore⟩ := List.find?_eq_some_iff_getElem.mp hfind
    have hlen : n < 8 := by simpa using hn
    have hni : n = i := by rw [← hi]; simp
    have hjn : j.val < n := by rw [hni]; exact hj
    intro hj
    have := hbefore j hjn
    simp [hj] at this

theorem Spawned.spawn {s s' : Scheduler} {specs : List TaskSpec} {t : Task}
    (h : Spawned s specs) (hspawn : s.spawn t = .ok s') :
    ∃ i : Fin 8, i.val = specs.length ∧
      s' = { s with tasks := Function.update s.tasks i (some t) } := by
  obtain ⟨i, hi, hbefore, rfl⟩ := spawn_eq_ok hspawn
  refine ⟨i, ?_, rfl⟩
  have hle := (h.none_iff i).mp hi
  have hlt := i.isLt
  by_contra hne
  exact hbefore ⟨specs.length, by omega⟩ (Fin.lt_def.mpr (by dsimp only; omega))
    ((h.none_iff _).mpr le_rfl)

theorem Spawned.snoc {k k' : Kernel} {specs : List TaskSpec} {spec : TaskSpec}
    (h : Spawned k.sched specs) (hspawn : k.spawnUser spec = .ok k') :
    Spawned k'.sched (specs ++ [spec]) ∧
      (KernelStacksOk (specs ++ [spec]) → k.UserFrames → k'.UserFrames) := by
  obtain ⟨⟨t, mem⟩, hnew, hspawn⟩ := Checked.bind_eq_ok.mp hspawn
  obtain ⟨htask, hframe, hagree⟩ := newUser_eq_ok hnew
  dsimp only at hspawn
  cases hslot : k.sched.spawn t with
  | error e => simp [hslot] at hspawn
  | ok sched =>
    rw [hslot] at hspawn
    cases hspawn
    obtain ⟨i, hi, rfl⟩ := h.spawn hslot
    refine ⟨⟨fun j ↦ ?_, fun j u hu ↦ ?_⟩, fun hok hframes j u hu ↦ ?_⟩
    · dsimp only
      rw [List.length_append, List.length_singleton]
      by_cases hj : j = i
      · subst hj
        rw [Function.update_self]
        simp only [reduceCtorEq, false_iff]
        omega
      · have hne : j.val ≠ i.val := fun heq ↦ hj (Fin.ext heq)
        rw [Function.update_of_ne hj, h.none_iff j]
        omega
    · dsimp only at hu
      by_cases hj : j = i
      · subst hj
        rw [Function.update_self] at hu
        obtain rfl := Option.some.inj hu
        refine ⟨spec, ?_, htask⟩
        rw [hi, List.getElem?_append_right le_rfl, Nat.sub_self]
        rfl
      · rw [Function.update_of_ne hj] at hu
        obtain ⟨spec', hspec', htask'⟩ := h.task j u hu
        obtain ⟨hlt, -⟩ := List.getElem?_eq_some_iff.mp hspec'
        exact ⟨spec', by rw [List.getElem?_append_left hlt, hspec'], htask'⟩
    · dsimp only at hu ⊢
      by_cases hj : j = i
      · subst hj
        rw [Function.update_self] at hu
        obtain rfl := Option.some.inj hu
        exact hframe
      · rw [Function.update_of_ne hj] at hu
        obtain ⟨spec', hspec', htask'⟩ := h.task j u hu
        -- the new frame lies in another kernel stack
        have hmem' := List.mem_of_getElem? hspec'
        obtain ⟨h1, h2⟩ := htask.frame_within (hok.room spec (by simp))
        obtain ⟨h3, h4⟩ := htask'.frame_within (hok.room spec' (List.mem_append_left _ hmem'))
        have hdisj := (List.pairwise_append.mp hok.disjoint).2.2 spec' hmem' spec (by simp)
        dsimp only [Task.frame] at h1 h2 h3 h4
        exact (hframes j u hu).congr (hagree _ _ (by omega))

theorem spawned_foldlM {k k' : Kernel} {done specs : List TaskSpec} (h : Spawned k.sched done)
    (hfold : specs.foldlM Kernel.spawnUser k = .ok k') :
    Spawned k'.sched (done ++ specs) ∧
      (KernelStacksOk (done ++ specs) → k.UserFrames → k'.UserFrames) := by
  induction specs generalizing k done with
  | nil =>
    cases hfold
    rw [List.append_nil]
    exact ⟨h, fun _ hframes ↦ hframes⟩
  | cons spec specs ih =>
    rw [List.foldlM_cons] at hfold
    obtain ⟨k₁, hspawn, hfold⟩ := Checked.bind_eq_ok.mp hfold
    obtain ⟨h₁, hframes₁⟩ := h.snoc hspawn
    obtain ⟨h₂, hframes₂⟩ := ih h₁ hfold
    rw [List.append_cons]
    refine ⟨h₂, fun hok hframes ↦ hframes₂ hok (hframes₁ ?_ hframes)⟩
    exact ⟨fun s hs ↦ hok.room s (List.mem_append_left _ hs),
      hok.disjoint.sublist (List.sublist_append_left _ _)⟩

/-! ## The start -/

/-- The state in which the first task starts. -/
structure Started (m : Machine) (specs : List TaskSpec) : Prop where
  spawned : Spawned m.kernel.sched specs
  /-- The first task is current. -/
  current : ∃ t, m.kernel.sched.tasks m.cur = some t ∧
    m.kernel.tssRsp0 = t.kernelStackTop ∧ m.kernel.currentKernelStack = t.kernelStackTop ∧
    m.regs = frameReg m.kernel.mem t.rsp
  frames : KernelStacksOk specs → m.kernel.UserFrames

/-- **The start of the first task**, from any state of the kernel. -/
theorem start_started {k : Kernel} {specs : List TaskSpec} {m : Machine}
    (hstart : k.start specs = .ok m) : Started m specs := by
  obtain ⟨k₁, hfold, hstart⟩ := Checked.bind_eq_ok.mp hstart
  obtain ⟨hspawned, hframes⟩ := spawned_foldlM (k := { k with sched := .new }) spawned_nil hfold
  obtain ⟨first, hfirst, hstart⟩ := Checked.bind_eq_ok.mp hstart
  have hfirst : k₁.sched.tasks Scheduler.firstSlot = some first := Checked.unwrap_eq_ok.mp hfirst
  obtain ⟨_, -, hstart⟩ := Checked.bind_eq_ok.mp hstart
  dsimp only at hstart
  rw [popRegs_popOrder] at hstart
  cases hstart
  exact ⟨⟨hspawned.none_iff, hspawned.task⟩, ⟨first, hfirst, rfl, rfl, rfl⟩,
    fun hok ↦ hframes hok fun i t ht ↦ by cases ht⟩

namespace Started

variable {m : Machine} {specs : List TaskSpec}

theorem allReady (h : Started m specs) : m.kernel.sched.AllReady := by
  intro i t ht
  obtain ⟨_, -, hnew⟩ := h.spawned.task i t ht
  exact hnew.state

theorem idsOk (h : Started m specs) (hids : SpecIdsOk specs) : m.kernel.sched.IdsOk := by
  intro i t ht
  obtain ⟨spec, hspec, hnew⟩ := h.spawned.task i t ht
  rw [hnew.id, hids i spec hspec]

theorem entersAtTop (h : Started m specs) : m.kernel.EntersAtTop := by
  obtain ⟨first, hfirst, htss, hstack, -⟩ := h.current
  have hcur : ∀ t, m.kernel.sched.tasks m.cur = some t → t = first :=
    fun t ht ↦ Option.some.inj (ht.symm.trans hfirst)
  refine ⟨⟨fun i t ht ↦ ?_, fun i t ht ↦ ?_⟩, ⟨first, hfirst⟩, fun t ht ↦ by rw [htss, hcur t ht],
    fun t ht ↦ by rw [hstack, hcur t ht]⟩
  · obtain ⟨_, -, hnew⟩ := h.spawned.task i t ht
    exact hnew.top
  · obtain ⟨_, -, hnew⟩ := h.spawned.task i t ht
    exact hnew.aligned

theorem stacksOk (h : Started m specs) (hok : KernelStacksOk specs) : m.kernel.StacksOk := by
  have htop := h.entersAtTop
  refine ⟨⟨htop.sched.top, htop.sched.aligned, fun i j t u hij ht hu ↦ ?_⟩, htop.current,
    htop.tssRsp0, htop.currentKernelStack⟩
  obtain ⟨a, ha, hnew⟩ := h.spawned.task i t ht
  obtain ⟨b, hb, hnew'⟩ := h.spawned.task j u hu
  obtain ⟨h1, h2⟩ := hnew.frame_within (hok.room a (List.mem_of_getElem? ha))
  obtain ⟨h3, h4⟩ := hnew'.frame_within (hok.room b (List.mem_of_getElem? hb))
  have hdisj := List.pairwise_iff_getElem.mp hok.disjoint
  obtain ⟨hi, rfl⟩ := List.getElem?_eq_some_iff.mp ha
  obtain ⟨hj, rfl⟩ := List.getElem?_eq_some_iff.mp hb
  have hne : i.val ≠ j.val := fun heq ↦ hij (Fin.ext heq)
  dsimp only [Task.frame] at h1 h2 h3 h4
  rw [Span.Apart]
  dsimp only [Task.frame]
  rcases Nat.lt_or_gt_of_ne hne with hlt | hgt
  · have := hdisj i j hi hj hlt
    omega
  · have := hdisj j i hj hi hgt
    omega

theorem user (h : Started m specs) (hok : KernelStacksOk specs) :
    m.regs .cs = 0x23 ∧ m.regs .ss = 0x1B := by
  obtain ⟨first, hfirst, -, -, hregs⟩ := h.current
  rw [hregs]
  exact h.frames hok _ first hfirst

end Started

end RelizOS
