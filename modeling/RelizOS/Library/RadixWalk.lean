import RelizOS.Library.RadixTable

/-!
# Walking a whole radix table

A walk over a radix table visits every entry of the root table, and below every entry that names a
table the entries of that table, and so on. `Reached` are the entries it finds in use. Tables may be
shared: an entry that is reached on several paths is one entry.

A program may change entries while it walks. As long as a change keeps what an entry means for the
walk, the entries reached stay the same (`reached_congr`). What changes of all reached entries do to
the lookups is `lookup_map`.
-/

namespace RadixTable

variable {F I E R R' : Type}

/-- A change of the results. -/
def Meaning.map (ρ : R → R') : Meaning F R → Meaning F R'
  | .absent => .absent
  | .leaf r => .leaf (ρ r)
  | .table f => .table f

theorem Meaning.leaf_ne_absent {r : R} : (.leaf r : Meaning F R) ≠ .absent := by
  intro h
  cases h

theorem Meaning.table_ne_absent {f : F} : (.table f : Meaning F R) ≠ .absent := by
  intro h
  cases h

/-- The entries in use that a walk of `n` levels reaches from a table. -/
inductive Reached (dec : ℕ → E → Meaning F R) (T : F → I → E) : ℕ → F → F → I → Prop
  /-- An entry of the table itself. -/
  | here {n : ℕ} {root : F} {i : I} (h : dec n (T root i) ≠ .absent) :
      Reached dec T (n + 1) root root i
  /-- An entry below an entry that names a table. -/
  | child {n : ℕ} {root f g : F} {i j : I} (h : dec n (T root j) = .table g)
      (hr : Reached dec T n g f i) : Reached dec T (n + 1) root f i

/-- The entries that a lookup reads. -/
def entries (dec : ℕ → E → Meaning F R) (T : F → I → E) : F → List I → List E
  | _, [] => []
  | f, i :: is => T f i ::
    match dec is.length (T f i) with
    | .table g => entries dec T g is
    | _ => []

variable {dec : ℕ → E → Meaning F R} {T T' : F → I → E} {n : ℕ} {root f : F} {i : I} {path : List I}

theorem reached_succ_iff : Reached dec T (n + 1) root f i ↔
    (f = root ∧ dec n (T root i) ≠ .absent) ∨
      ∃ j g, dec n (T root j) = .table g ∧ Reached dec T n g f i := by
  constructor
  · rintro (h | ⟨h, hr⟩)
    · exact Or.inl ⟨rfl, h⟩
    · exact Or.inr ⟨_, _, h, hr⟩
  · rintro (⟨rfl, h⟩ | ⟨j, g, h, hr⟩)
    · exact .here h
    · exact .child h hr

theorem Reached.ne_absent (h : Reached dec T n root f i) : ∃ k, dec k (T f i) ≠ .absent := by
  induction h with
  | here h => exact ⟨_, h⟩
  | child _ _ ih => exact ih

theorem reached_congr (h : ∀ k f i, dec k (T' f i) = dec k (T f i)) :
    Reached dec T' n root f i ↔ Reached dec T n root f i := by
  induction n generalizing root with
  | zero =>
    constructor
    · intro hr
      cases hr
    · intro hr
      cases hr
  | succ n ih => simp only [reached_succ_iff, h, ih]

theorem tableAt_congr_meaning (h : ∀ k f i, dec k (T' f i) = dec k (T f i)) :
    tableAt dec T' n root path = tableAt dec T n root path := by
  induction path generalizing n root with
  | nil => cases n <;> rfl
  | cons i path ih =>
    cases n with
    | zero => rfl
    | succ n =>
      rw [tableAt, tableAt, h]
      cases dec n (T root i) with
      | absent => rfl
      | leaf r => rfl
      | table g => exact ih

/-- A walk that takes more entries to be in use, and all tables to be tables, reaches more. -/
theorem Reached.mono {dec' : ℕ → E → Meaning F R'} (h : Reached dec T n root f i)
    (hpresent : ∀ k e, dec k e ≠ .absent → dec' k e ≠ .absent)
    (htable : ∀ k e g, dec k e = .table g → dec' k e = .table g) :
    Reached dec' T n root f i := by
  induction h with
  | here h => exact .here (hpresent _ _ h)
  | child h _ ih => exact .child (htable _ _ _ h) ih

theorem forall_mem_entries {P : E → Prop} {r : R}
    (hP : ∀ f i, Reached dec T n root f i → P (T f i)) (hlen : path.length = n)
    (h : lookup dec T root path = some r) : ∀ e ∈ entries dec T root path, P e := by
  induction path generalizing n root with
  | nil => exact fun e he ↦ absurd he List.not_mem_nil
  | cons i path ih =>
    subst hlen
    rw [lookup] at h
    rw [entries]
    intro e he
    cases hk : dec path.length (T root i) with
    | absent =>
      rw [hk] at h
      cases h
    | leaf r' =>
      rw [hk] at he
      rw [List.mem_singleton.mp he]
      exact hP _ _ (.here (by rw [hk]; exact Meaning.leaf_ne_absent))
    | table g =>
      rw [hk] at h he
      rcases List.mem_cons.mp he with rfl | he
      · exact hP _ _ (.here (by rw [hk]; exact Meaning.table_ne_absent))
      · exact ih (fun f j hr ↦ hP f j (.child hk hr)) rfl h e he

/-- **Changing the reached entries changes the results of the lookups**, and nothing else of them.
-/
theorem lookup_map {ρ : R → R} (hlen : path.length = n)
    (hmap : ∀ k f i, Reached dec T n root f i → dec k (T' f i) = (dec k (T f i)).map ρ)
    (habsent : ∀ k f i, dec k (T f i) = .absent → dec k (T' f i) = .absent) :
    lookup dec T' root path = (lookup dec T root path).map ρ := by
  induction path generalizing n root with
  | nil => rfl
  | cons i path ih =>
    subst hlen
    rw [lookup, lookup]
    cases hk : dec path.length (T root i) with
    | absent => rw [habsent _ _ _ hk]; rfl
    | leaf r => rw [hmap _ _ _ (.here (by rw [hk]; exact Meaning.leaf_ne_absent)), hk]; rfl
    | table g =>
      rw [hmap _ _ _ (.here (by rw [hk]; exact Meaning.table_ne_absent)), hk]
      exact ih rfl fun k f j hr ↦ hmap k f j (.child hk hr)

end RadixTable
