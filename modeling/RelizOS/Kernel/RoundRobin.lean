import RelizOS.Kernel.Task

/-!
# Round robin without starvation

`select_next_task` moves to the first runnable slot after the current one in cyclic order. Between
two calls everything may change: tasks block, wake, and are added. A task that stays runnable is
selected all the same after at most as many calls as it is places away, because a call never moves
past it. The measure is the cyclic distance from the current slot; every call that does not select
the task makes it smaller (`Selects.distance_lt`).
-/

namespace RelizOS

namespace Scheduler

variable {s s' : Scheduler} {i j : Fin 8}

/-- How many places slot `j` is after the current one, cyclically. -/
def distance (s : Scheduler) (j : Fin 8) : ℕ := (j.val + 8 - s.currentTaskIdx.val) % 8

/-- `select_next_task` has been called, and then anything but the current index may have changed. -/
def Round (s s' : Scheduler) : Prop :=
  ∃ t, s.selectNextTask = .ok t ∧ s'.currentTaskIdx = t.currentTaskIdx

theorem slotAfter_distance : s.slotAfter (s.distance j) = j := by
  have hj := j.isLt
  have hcur := s.currentTaskIdx.isLt
  refine Fin.ext ?_
  dsimp only [slotAfter, distance]
  omega

theorem distance_eq_zero : s.distance j = 0 ↔ s.currentTaskIdx = j := by
  have hj := j.isLt
  have hcur := s.currentTaskIdx.isLt
  rw [distance, Fin.ext_iff]
  omega

/-- **A call does not move past a runnable slot**: it comes closer. -/
theorem Selects.distance_lt (h : s.Selects i) (hi : s'.currentTaskIdx = i) (hrun : s.RunnableAt j)
    (hne : s.distance j ≠ 0) : s'.distance j < s.distance j := by
  have hlt : s.distance j < 8 := Nat.mod_lt _ (by decide)
  have hat : s.RunnableAt (s.slotAfter (s.distance j)) := by rwa [slotAfter_distance]
  rcases h with ⟨k, h1, h8, hk, -, hfirst⟩ | ⟨-, hnone⟩
  · have hle : k ≤ s.distance j := by
      by_contra hlt
      exact hfirst _ (Nat.pos_of_ne_zero hne) (Nat.lt_of_not_le hlt) hat
    have hval : s'.currentTaskIdx.val = (s.currentTaskIdx + k) % 8 := by rw [hi, hk, slotAfter]
    have hj := j.isLt
    have hcur := s.currentTaskIdx.isLt
    rw [distance] at hle ⊢
    rw [distance, hval]
    omega
  · exact absurd hat (hnone _ (Nat.pos_of_ne_zero hne) hlt)

/-- **One round** comes closer to a runnable slot. -/
theorem Round.distance_lt (h : s.Round s') (hrun : s.RunnableAt j) (hne : s.distance j ≠ 0) :
    s'.distance j < s.distance j := by
  obtain ⟨t, ht, hcur⟩ := h
  obtain ⟨i, hi, hsel⟩ := s.selectNextTask_spec
  obtain rfl := Except.ok.inj (hi.symm.trans ht)
  exact hsel.distance_lt hcur hrun hne

end Scheduler

/-- A number that becomes smaller as long as it is not zero becomes zero in time. -/
private theorem exists_eq_zero_of_decreasing {d : ℕ → ℕ} {N : ℕ} (h0 : d 0 ≤ N)
    (hstep : ∀ n < N, d n ≠ 0 → d (n + 1) < d n) : ∃ m ≤ N, d m = 0 := by
  induction N generalizing d with
  | zero => exact ⟨0, le_rfl, Nat.le_zero.mp h0⟩
  | succ N ih =>
    by_cases hzero : d 0 = 0
    · exact ⟨0, Nat.zero_le _, hzero⟩
    · have hlt := hstep 0 (Nat.succ_pos N) hzero
      obtain ⟨m, hm, hd⟩ := ih (d := fun n ↦ d (n + 1)) (by omega)
        fun n hn ↦ hstep (n + 1) (Nat.succ_lt_succ hn)
      exact ⟨m + 1, Nat.succ_le_succ hm, hd⟩

namespace Scheduler

/-- **Round robin without starvation.** `select_next_task` ends. It moves to the first runnable slot
after the current one, stays when no other slot is runnable, and changes nothing else. In any
sequence of states that are one call and arbitrary other changes apart, a task that is present and
runnable before each call is selected after at most as many calls as its slot is places after the
first current one. -/
theorem no_starvation :
    (∀ s : Scheduler, ∃ j, s.selectNextTask = .ok { s with currentTaskIdx := j } ∧ s.Selects j) ∧
      ∀ (seq : ℕ → Scheduler) (j : Fin 8), (seq 0).currentTaskIdx ≠ j →
        (∀ n < (seq 0).distance j, (seq n).RunnableAt j ∧ (seq n).Round (seq (n + 1))) →
        ∃ m, 1 ≤ m ∧ m ≤ (seq 0).distance j ∧ (seq m).currentTaskIdx = j := by
  refine ⟨selectNextTask_spec, fun seq j hne hround ↦ ?_⟩
  obtain ⟨m, hm, hzero⟩ := exists_eq_zero_of_decreasing (d := fun n ↦ (seq n).distance j) le_rfl
    fun n hn hfar ↦ (hround n hn).2.distance_lt (hround n hn).1 hfar
  rw [distance_eq_zero] at hzero
  refine ⟨m, Nat.pos_of_ne_zero ?_, hm, hzero⟩
  rintro rfl
  exact hne hzero

/-- Slots of tasks that come and go. -/
def passing : ℕ → List ℕ
  | 0 => [0, 1]
  | 1 => [2]
  | 2 => [1, 2]
  | _ => []

/-- The task in slot 3 waits for its turn while the others come and go. -/
def threeReady (n : ℕ) : Scheduler :=
  ⟨fun i ↦ if i.val = 3 ∨ i.val ∈ passing n then some ⟨i + 1, 0, 0, .ready⟩ else none,
    new.slotAfter n, 0⟩

theorem no_starvation_threeReady :
    ∃ m, 1 ≤ m ∧ m ≤ (threeReady 0).distance 3 ∧ (threeReady m).currentTaskIdx = 3 := by
  refine no_starvation.2 threeReady 3 (by decide) ?_
  have hrun : ∀ n < 3, (threeReady n).RunnableAt 3 := by decide
  have hnext : ∀ n < 3, (threeReady n).selectLoop 8 ((threeReady n).currentTaskIdx + 1) =
      .ok (threeReady (n + 1)).currentTaskIdx := by decide
  intro n hn
  exact ⟨hrun n hn, { threeReady n with currentTaskIdx := (threeReady (n + 1)).currentTaskIdx },
    by rw [selectNextTask, hnext n hn]; rfl, rfl⟩

end Scheduler

end RelizOS
