import RelizOS.Library.Slice

/-!
# Stores until a fault

A computation in `Painting α` stores values into a buffer and may panic on the way. A panic does not
take back what has been stored.

`Paints n p P stores` says what `p` does to every buffer of length `n`: it ends without a panic
exactly under the condition `P`, and in either case the values it has stored by then are the ones in
`stores`, an index and a value each. The rules below compute both along the program; a loop stores
what an iteration stores before which none panics (`paints_forM`). If some value is never stored, a
buffer full of this value shows all stores, so that what the computation can change is exactly where
it stores (`Paints.changes_iff`).
-/

/-- A computation that stores into a buffer, until it ends or panics. -/
abbrev Painting (α : Type) := ExceptT Fault (StateM (Slice α))

namespace Painting

variable {α β γ : Type}

instance : MonadLift Checked (Painting α) := ⟨fun c ↦ ExceptT.mk (pure c)⟩

/-- How a computation ends, and the buffer then. -/
def exec (p : Painting α β) (s : Slice α) : Except Fault β × Slice α := p.run.run s

/-- `buffer.len()`. -/
def bufLen : Painting α ℕ := do
  let s ← get
  return s.len

/-- `buffer[i] = a`. -/
def store (i : ℕ) (a : α) : Painting α Unit := do
  let s ← get
  let s ← s.write i a
  set s

/-! ## Execution -/

theorem exec_bind (p : Painting α β) (f : β → Painting α γ) (s : Slice α) :
    exec (p >>= f) s = match exec p s with
      | (.ok b, s') => exec (f b) s'
      | (.error e, s') => (.error e, s') := by
  rw [exec, ExceptT.run_bind, StateT.run_bind]
  rcases h : exec p s with ⟨e | b, s'⟩
  · rw [exec] at h
    rw [h]
    rfl
  · rw [exec] at h
    rw [h]
    rfl

theorem exec_bind_of_ok {p : Painting α β} {f : β → Painting α γ} {s s' : Slice α} {b : β}
    (h : exec p s = (.ok b, s')) : exec (p >>= f) s = exec (f b) s' := by
  rw [exec_bind, h]

theorem exec_checked (c : Checked β) (s : Slice α) :
    exec (liftM c : Painting α β) s = (c, s) := rfl

theorem exec_store {s : Slice α} {i : ℕ} {a : α} (h : i < s.len) :
    exec (store i a) s = (.ok (), { s with get := Function.update s.get i a }) := by
  rw [store, exec_bind_of_ok (show exec get s = (.ok s, s) from rfl), Slice.write_of_lt h,
    exec_bind_of_ok (exec_checked (Except.ok _) s)]
  rfl

/-! ## What is stored -/

/-- What a computation does to the buffers of length `n`. -/
structure Paints (n : ℕ) (p : Painting α Unit) (P : Prop) (stores : ℕ → α → Prop) : Prop where
  ok_iff : ∀ s : Slice α, s.len = n → ((exec p s).1 = .ok () ↔ P)
  len : ∀ s : Slice α, s.len = n → (exec p s).2.len = n
  stored : ∀ s : Slice α, s.len = n → ∀ i, (∃ a, stores i a) → stores i ((exec p s).2.get i)
  kept : ∀ s : Slice α, s.len = n → ∀ i, (¬∃ a, stores i a) → (exec p s).2.get i = s.get i

section

variable {n : ℕ} {P Q : Prop} {I J : ℕ → α → Prop} {p : Painting α Unit}

theorem Paints.congr (h : Paints n p P I) (hP : P ↔ Q) (hI : ∀ i a, I i a ↔ J i a) :
    Paints n p Q J := by
  obtain rfl : I = J := funext fun i ↦ funext fun a ↦ propext (hI i a)
  obtain rfl : P = Q := propext hP
  exact h

theorem paints_pure : Paints n (pure () : Painting α Unit) True fun _ _ ↦ False where
  ok_iff _ _ := iff_of_true rfl trivial
  len _ hs := hs
  stored _ _ _ h := h.elim fun _ hfalse ↦ hfalse
  kept _ _ _ _ := rfl

theorem paints_store {i : ℕ} {a : α} (h : i < n) :
    Paints n (store i a) True fun j b ↦ j = i ∧ b = a where
  ok_iff s hs := by
    rw [exec_store (hs ▸ h)]
    exact iff_of_true rfl trivial
  len s hs := by
    rw [exec_store (hs ▸ h)]
    exact hs
  stored s hs j hj := by
    obtain ⟨b, rfl, rfl⟩ := hj
    rw [exec_store (hs ▸ h)]
    exact ⟨rfl, Function.update_self _ _ _⟩
  kept s hs j hj := by
    rw [exec_store (hs ▸ h)]
    exact Function.update_of_ne (fun heq ↦ hj ⟨a, heq, rfl⟩) _ _

theorem Paints.exec_bind (hp : Paints n p P I) (f : Unit → Painting α Unit) {s : Slice α}
    (hs : s.len = n) :
    (P ∧ exec (p >>= f) s = exec (f ()) (exec p s).2) ∨
      (¬P ∧ (exec (p >>= f) s).1 ≠ .ok () ∧ (exec (p >>= f) s).2 = (exec p s).2) := by
  have hok := hp.ok_iff s hs
  rw [Painting.exec_bind]
  rcases hexec : exec p s with ⟨e | u, s'⟩
  · rw [hexec] at hok
    refine Or.inr ⟨fun hP ↦ ?_, fun h ↦ ?_, rfl⟩
    · cases hok.mpr hP
    · cases h
  · rw [hexec] at hok
    exact Or.inl ⟨hok.mp rfl, rfl⟩

/-- **One after the other**: the second stores only if the first does not panic. -/
theorem Paints.seq {f : Unit → Painting α Unit} (hp : Paints n p P I) (hf : Paints n (f ()) Q J) :
    Paints n (p >>= f) (P ∧ Q) fun i a ↦ I i a ∨ P ∧ J i a := by
  constructor
  · intro s hs
    rcases hp.exec_bind f hs with ⟨hP, hexec⟩ | ⟨hP, hexec, -⟩
    · rw [hexec, hf.ok_iff _ (hp.len s hs)]
      exact (and_iff_right hP).symm
    · exact iff_of_false hexec fun h ↦ hP h.1
  · intro s hs
    rcases hp.exec_bind f hs with ⟨-, hexec⟩ | ⟨-, -, hexec⟩
    · rw [hexec]
      exact hf.len _ (hp.len s hs)
    · rw [hexec]
      exact hp.len s hs
  · rintro s hs i ⟨a, ha⟩
    rcases hp.exec_bind f hs with ⟨hP, hexec⟩ | ⟨hP, -, hexec⟩
    · rw [hexec]
      by_cases hJ : ∃ b, J i b
      · exact Or.inr ⟨hP, hf.stored _ (hp.len s hs) i hJ⟩
      · rw [hf.kept _ (hp.len s hs) i hJ]
        exact Or.inl (hp.stored s hs i ⟨a, ha.resolve_right fun h ↦ hJ ⟨a, h.2⟩⟩)
    · rw [hexec]
      exact Or.inl (hp.stored s hs i ⟨a, ha.resolve_right fun h ↦ hP h.1⟩)
  · intro s hs i hnone
    have hI : ¬∃ a, I i a := fun ⟨a, ha⟩ ↦ hnone ⟨a, Or.inl ha⟩
    rcases hp.exec_bind f hs with ⟨hP, hexec⟩ | ⟨-, -, hexec⟩
    · rw [hexec, hf.kept _ (hp.len s hs) i fun ⟨a, ha⟩ ↦ hnone ⟨a, Or.inr ⟨hP, ha⟩⟩]
      exact hp.kept s hs i hI
    · rw [hexec]
      exact hp.kept s hs i hI

theorem paints_checked {c : Checked β} {f : β → Painting α Unit}
    (h : ∀ b, c = .ok b → Paints n (f b) P I) :
    Paints n (liftM c >>= f) (Checked.Returns c ∧ P) fun i a ↦ Checked.Returns c ∧ I i a := by
  cases c with
  | ok b =>
    have hreturns : Checked.Returns (Except.ok b : Checked β) := ⟨b, rfl⟩
    exact (h b rfl).congr (and_iff_right hreturns).symm fun i a ↦ (and_iff_right hreturns).symm
  | error e =>
    have hpanics : ¬Checked.Returns (Except.error e : Checked β) := fun ⟨b, hb⟩ ↦ by cases hb
    refine ⟨fun s _ ↦ iff_of_false (fun hok ↦ ?_) fun hr ↦ hpanics hr.1, fun s hs ↦ hs,
      fun s _ i hi ↦ ?_, fun s _ i _ ↦ rfl⟩
    · cases hok
    · exact hi.elim fun a ha ↦ absurd ha.1 hpanics

theorem paints_add {w a b : ℕ} {f : ℕ → Painting α Unit} (h : Paints n (f (a + b)) P I) :
    Paints n (liftM (Checked.add w a b) >>= f) (a + b < 2 ^ w ∧ P)
      fun i c ↦ a + b < 2 ^ w ∧ I i c := by
  have hreturns : Checked.Returns (Checked.add w a b) ↔ a + b < 2 ^ w := by
    simp [Checked.Returns, Checked.add_eq_ok]
  refine (paints_checked fun c hc ↦ ?_).congr (and_congr_left' hreturns)
    fun i c ↦ and_congr_left' hreturns
  obtain ⟨-, rfl⟩ := Checked.add_eq_ok.mp hc
  exact h

theorem paints_mul {w a b : ℕ} {f : ℕ → Painting α Unit} (h : Paints n (f (a * b)) P I) :
    Paints n (liftM (Checked.mul w a b) >>= f) (a * b < 2 ^ w ∧ P)
      fun i c ↦ a * b < 2 ^ w ∧ I i c := by
  have hreturns : Checked.Returns (Checked.mul w a b) ↔ a * b < 2 ^ w := by
    simp [Checked.Returns, Checked.mul_eq_ok]
  refine (paints_checked fun c hc ↦ ?_).congr (and_congr_left' hreturns)
    fun i c ↦ and_congr_left' hreturns
  obtain ⟨-, rfl⟩ := Checked.mul_eq_ok.mp hc
  exact h

theorem paints_bufLen {f : ℕ → Painting α Unit} (h : Paints n (f n) P I) :
    Paints n (bufLen >>= f) P I := by
  have hexec : ∀ s : Slice α, s.len = n → exec (bufLen >>= f) s = exec (f n) s := by
    rintro s rfl
    exact exec_bind_of_ok rfl
  refine ⟨fun s hs ↦ ?_, fun s hs ↦ ?_, fun s hs ↦ ?_, fun s hs ↦ ?_⟩
  · rw [hexec s hs]
    exact h.ok_iff s hs
  · rw [hexec s hs]
    exact h.len s hs
  · rw [hexec s hs]
    exact h.stored s hs
  · rw [hexec s hs]
    exact h.kept s hs

end

/-- **A counting loop** stores what its iterations store until one panics. -/
theorem paints_forM {n m : ℕ} {f : ℕ → Painting α Unit} {P : ℕ → Prop} {I : ℕ → ℕ → α → Prop}
    (h : ∀ k < m, Paints n (f k) (P k) (I k)) :
    Paints n ((List.range m).forM f) (∀ k < m, P k)
      fun i a ↦ ∃ k < m, (∀ j < k, P j) ∧ I k i a := by
  induction m with
  | zero =>
    exact paints_pure.congr (iff_of_true trivial fun k hk ↦ absurd hk (Nat.not_lt_zero k))
      fun i a ↦ iff_of_false id fun ⟨k, hk, _⟩ ↦ absurd hk (Nat.not_lt_zero k)
  | succ m ih =>
    have hfront := ih fun k hk ↦ h k (Nat.lt_succ_of_lt hk)
    have hlast := h m (Nat.lt_succ_self m)
    have hsplit : (List.range (m + 1)).forM f = (List.range m).forM f >>= fun _ ↦ f m := by
      rw [List.range_succ, List.forM_eq_forM, List.forM_append, List.forM_cons]
      simp only [List.forM_nil, bind_pure_unit]
    rw [hsplit]
    refine (hfront.seq hlast).congr ?_ fun i a ↦ ?_
    · exact Nat.forall_lt_succ_right.symm
    · rw [Nat.exists_lt_succ_right]

/-- **What a computation can change** is exactly where it stores, if some value is never stored. -/
theorem Paints.changes_iff {n : ℕ} {P : Prop} {I : ℕ → α → Prop} {p : Painting α Unit}
    (h : Paints n p P I) {a : α} (hfresh : ∀ i, ¬I i a) (Q : ℕ → Prop) :
    (∀ s : Slice α, s.len = n → ∀ i, (exec p s).2.get i ≠ s.get i → Q i) ↔
      ∀ i b, I i b → Q i := by
  constructor
  · intro hchange i b hb
    refine hchange ⟨fun _ ↦ a, n⟩ rfl i fun heq ↦ hfresh i ?_
    have hstored := h.stored ⟨fun _ ↦ a, n⟩ rfl i ⟨b, hb⟩
    rwa [heq] at hstored
  · intro hQ s hs i hne
    by_contra hnot
    exact hne (h.kept s hs i fun ⟨b, hb⟩ ↦ hnot (hQ i b hb))

end Painting
