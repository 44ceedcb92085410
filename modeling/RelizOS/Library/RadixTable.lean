import Mathlib.Data.Nat.Notation
import Mathlib.Logic.Function.Basic
import Mathlib.Tactic.Common

/-!
# Radix tables

A radix table of `n` levels resolves a list of `n` indices: the first index selects an entry of the
root table, the entry names the table for the next index, and so on until an entry is a leaf or is
absent. Tables live in a store `T : F → I → E` from table names and indices to raw entries, and
`dec k e` says what entry `e` means with `k` indices still to come. Page tables, tries in a heap and
multi-level maps on disk are of this form.

## The tree condition

Nothing in the store itself prevents two entries from naming one table. `Tree` says that it does not
happen: a table is reached at one position only. It is what makes local changes local. An entry of a
reachable table belongs to one position, so storing to it affects the paths through that position
and no others (`lookup_setEntry_of_not_prefix`); and linking a fresh blank table under an absent
entry changes no lookup at all (`lookup_link`), because the paths through it ended there before and
end one table later now.
-/

namespace RadixTable

/-- What an entry says. -/
inductive Meaning (F R : Type) where
  /-- Nothing is stored under the entry. -/
  | absent
  /-- The entry is the result. -/
  | leaf (r : R)
  /-- The lookup continues in another table. -/
  | table (f : F)
  deriving DecidableEq

variable {F I E R : Type} (dec : ℕ → E → Meaning F R) (T : F → I → E)

/-- The result stored for a list of indices. -/
def lookup : F → List I → Option R
  | _, [] => none
  | f, i :: is =>
    match dec is.length (T f i) with
    | .absent => none
    | .leaf r => some r
    | .table g => lookup g is

/-- The table at a position of a hierarchy of `n` levels, the position given by the indices that
lead to it. -/
def tableAt : ℕ → F → List I → Option F
  | _, f, [] => some f
  | 0, _, _ :: _ => none
  | n + 1, f, i :: is =>
    match dec n (T f i) with
    | .table g => tableAt n g is
    | _ => none

/-- Every reachable table is reached at one position only. -/
def Tree (n : ℕ) (root : F) : Prop :=
  ∀ p q f, tableAt dec T n root p = some f → tableAt dec T n root q = some f → p = q

/-- The store with one entry replaced. -/
def setEntry [DecidableEq F] [DecidableEq I] (f : F) (i : I) (e : E) : F → I → E :=
  Function.update T f (Function.update (T f) i e)

/-- The store with one table made blank. -/
def clear [DecidableEq F] (f : F) (blank : E) : F → I → E := Function.update T f fun _ ↦ blank

variable {dec T} {T' : F → I → E} {n : ℕ} {root f g h : F} {p q : List I} {i j : I} {e : E}

/-! ## Positions -/

theorem tableAt_cons {k : F} (h : dec n (T root i) = .table k) :
    tableAt dec T (n + 1) root (i :: p) = tableAt dec T n k p := by
  rw [tableAt, h]

theorem tableAt_cons_eq_some :
    tableAt dec T (n + 1) root (i :: p) = some f ↔
      ∃ k, dec n (T root i) = .table k ∧ tableAt dec T n k p = some f := by
  rw [tableAt]
  cases dec n (T root i) <;> simp

theorem length_le_of_tableAt (hf : tableAt dec T n root p = some f) : p.length ≤ n := by
  induction p generalizing n root with
  | nil => exact Nat.zero_le _
  | cons i p ih =>
    cases n with
    | zero => cases hf
    | succ n =>
      obtain ⟨k, -, hk⟩ := tableAt_cons_eq_some.mp hf
      exact Nat.succ_le_succ (ih hk)

theorem tableAt_append (hf : tableAt dec T n root p = some f) (hlen : p.length + 1 ≤ n) :
    tableAt dec T n root (p ++ i :: q) =
      tableAt dec T (n - p.length) f (i :: q) := by
  induction p generalizing n root with
  | nil =>
    rw [tableAt, Option.some_inj] at hf
    rw [hf]
    rfl
  | cons a p ih =>
    cases n with
    | zero => cases hf
    | succ n =>
      obtain ⟨k, hdec, hk⟩ := tableAt_cons_eq_some.mp hf
      rw [List.cons_append, tableAt_cons hdec, ih hk (Nat.le_of_succ_le_succ hlen),
        List.length_cons, Nat.succ_sub_succ]

theorem tableAt_snoc (hf : tableAt dec T n root p = some f)
    (hdec : dec (n - p.length - 1) (T f i) = .table g) (hlen : p.length + 1 ≤ n) :
    tableAt dec T n root (p ++ [i]) = some g := by
  obtain ⟨k, hk⟩ : ∃ k, n - p.length = k + 1 := ⟨n - p.length - 1, by omega⟩
  rw [tableAt_append hf hlen, hk, tableAt_cons (by rwa [hk] at hdec)]
  cases k <;> rfl

theorem tableAt_snoc_of_not_table (hf : tableAt dec T n root p = some f)
    (hdec : ∀ k, dec (n - p.length - 1) (T f i) ≠ .table k) (hlen : p.length + 1 ≤ n) :
    tableAt dec T n root (p ++ i :: q) = none := by
  obtain ⟨k, hk⟩ : ∃ k, n - p.length = k + 1 := ⟨n - p.length - 1, by omega⟩
  rw [tableAt_append hf hlen, hk, tableAt]
  rw [hk] at hdec
  cases hm : dec k (T f i) with
  | table g => exact absurd hm (hdec g)
  | leaf r => rfl
  | absent => rfl

/-- A lookup ends at its first entry or continues in the table that the entry names. -/
theorem lookup_cons_eq_some {r : R} : lookup dec T f (i :: p) = some r ↔
    dec p.length (T f i) = .leaf r ∨
      ∃ k, dec p.length (T f i) = .table k ∧ lookup dec T k p = some r := by
  rw [lookup]
  cases dec p.length (T f i) <;> simp

theorem lookup_append (hf : tableAt dec T n root p = some f) (hlen : (p ++ q).length = n) :
    lookup dec T root (p ++ q) = lookup dec T f q := by
  induction p generalizing n root with
  | nil =>
    rw [tableAt, Option.some_inj] at hf
    rw [hf, List.nil_append]
  | cons a p ih =>
    cases n with
    | zero => cases hf
    | succ n =>
      obtain ⟨k, hdec, hk⟩ := tableAt_cons_eq_some.mp hf
      have hlen' : (p ++ q).length = n := Nat.succ.inj hlen
      rw [List.cons_append, lookup, hlen', hdec]
      exact ih hk hlen'

/-! ## What a path depends on -/

/-- Two stores agree on the entries a path visits. -/
def AgreeOn (dec : ℕ → E → Meaning F R) (T T' : F → I → E) (n : ℕ) (root : F) (q : List I) :
    Prop :=
  ∀ p i f, p ++ [i] <+: q → tableAt dec T n root p = some f → T' f i = T f i

private theorem AgreeOn.tail {k : F} (hagree : AgreeOn dec T T' (n + 1) root (i :: q))
    (hk : dec n (T root i) = .table k) : AgreeOn dec T T' n k q := by
  intro p j f hp hf
  exact hagree (i :: p) j f ((List.prefix_cons_inj i).mpr hp) (by rw [tableAt_cons hk, hf])

/-- A lookup depends only on the entries it visits. -/
theorem lookup_congr (hlen : q.length = n) (hagree : AgreeOn dec T T' n root q) :
    lookup dec T' root q = lookup dec T root q := by
  induction q generalizing n root with
  | nil => rfl
  | cons i q ih =>
    subst hlen
    have hhead : T' root i = T root i := hagree [] i root (List.prefix_append [i] q) rfl
    rw [lookup, lookup, hhead]
    cases hk : dec q.length (T root i) with
    | absent => rfl
    | leaf r => rfl
    | table k => exact ih rfl (hagree.tail hk)

theorem tableAt_congr (hagree : AgreeOn dec T T' n root q) :
    tableAt dec T' n root q = tableAt dec T n root q := by
  induction q generalizing n root with
  | nil => cases n <;> rfl
  | cons i q ih =>
    cases n with
    | zero => rfl
    | succ n =>
      have hhead : T' root i = T root i :=
        hagree [] i root (List.prefix_append [i] q) rfl
      rw [tableAt, tableAt, hhead]
      cases hk : dec n (T root i) with
      | absent => rfl
      | leaf r => rfl
      | table k => exact ih (hagree.tail hk)

/-! ## Clearing a table that is not in use -/

section Clear

variable [DecidableEq F] {blank : E}

theorem clear_of_reachable (hg : ∀ p, tableAt dec T n root p ≠ some g)
    (hf : tableAt dec T n root p = some f) : clear T g blank f = T f := by
  have hne : f ≠ g := fun heq ↦ hg p (heq ▸ hf)
  rw [clear, Function.update_of_ne hne]

theorem agreeOn_clear (hg : ∀ p, tableAt dec T n root p ≠ some g) (q : List I) :
    AgreeOn dec T (clear T g blank) n root q := by
  intro p i f _ hf
  rw [clear_of_reachable hg hf]

theorem lookup_clear (hg : ∀ p, tableAt dec T n root p ≠ some g) (hlen : q.length = n) :
    lookup dec (clear T g blank) root q = lookup dec T root q :=
  lookup_congr hlen (agreeOn_clear hg q)

theorem tableAt_clear (hg : ∀ p, tableAt dec T n root p ≠ some g) :
    tableAt dec (clear T g blank) n root q = tableAt dec T n root q :=
  tableAt_congr (agreeOn_clear hg q)

theorem clear_self : clear T g blank g i = blank := by rw [clear, Function.update_self]

end Clear

/-! ## Storing to an entry -/

section SetEntry

variable [DecidableEq F] [DecidableEq I]

@[simp] theorem setEntry_self : setEntry T f i e f i = e := by
  rw [setEntry, Function.update_self, Function.update_self]

theorem setEntry_of_ne (h : g ≠ f ∨ j ≠ i) : setEntry T f i e g j = T g j := by
  rw [setEntry]
  by_cases hg : g = f
  · subst hg
    rw [Function.update_self, Function.update_of_ne (h.resolve_left (not_not.mpr rfl))]
  · rw [Function.update_of_ne hg]

/-- In a tree, the entry at position `p ++ [i]` is on the paths with that prefix only. -/
theorem agreeOn_setEntry (htree : Tree dec T n root) (hf : tableAt dec T n root p = some f)
    (hq : ¬p ++ [i] <+: q) : AgreeOn dec T (setEntry T f i e) n root q := by
  intro p' j g hp' hg
  refine setEntry_of_ne ?_
  by_contra hne
  obtain ⟨rfl, rfl⟩ : g = f ∧ j = i := by
    rw [not_or, not_not, not_not] at hne
    exact hne
  obtain rfl := htree p p' g hf hg
  exact hq hp'

/-- **A store is local**: lookups that do not go through the entry keep their results. -/
theorem lookup_setEntry_of_not_prefix (htree : Tree dec T n root)
    (hf : tableAt dec T n root p = some f) (hlen : q.length = n) (hq : ¬p ++ [i] <+: q) :
    lookup dec (setEntry T f i e) root q = lookup dec T root q :=
  lookup_congr hlen (agreeOn_setEntry htree hf hq)

theorem tableAt_setEntry_self (htree : Tree dec T n root) (hf : tableAt dec T n root p = some f) :
    tableAt dec (setEntry T f i e) n root p = some f := by
  rw [tableAt_congr (agreeOn_setEntry htree hf ?_), hf]
  intro hp
  have := hp.length_le
  rw [List.length_append, List.length_singleton] at this
  omega

/-- A leaf stored at the last level is the result of its path. -/
theorem lookup_setEntry_leaf {r : R} (htree : Tree dec T n root)
    (hf : tableAt dec T n root p = some f) (hlen : p.length + 1 = n) (he : dec 0 e = .leaf r) :
    lookup dec (setEntry T f i e) root (p ++ [i]) = some r := by
  rw [lookup_append (tableAt_setEntry_self htree hf) (by rw [List.length_append]; exact hlen),
    lookup, setEntry_self]
  simp only [List.length_nil, he]

theorem tableAt_setEntry_last (htree : Tree dec T n root) (hf : tableAt dec T n root p = some f)
    (hlen : p.length + 1 = n) (hold : ∀ g, dec 0 (T f i) ≠ .table g)
    (hnew : ∀ g, dec 0 e ≠ .table g) :
    tableAt dec (setEntry T f i e) n root q = tableAt dec T n root q := by
  have hlevel : n - p.length - 1 = 0 := by omega
  by_cases hq : p ++ [i] <+: q
  · obtain ⟨q, rfl⟩ := hq
    rw [List.append_assoc, List.singleton_append,
      tableAt_snoc_of_not_table hf (by rwa [hlevel]) (Nat.le_of_eq hlen),
      tableAt_snoc_of_not_table (tableAt_setEntry_self htree hf)
        (by rwa [hlevel, setEntry_self]) (Nat.le_of_eq hlen)]
  · exact tableAt_congr (agreeOn_setEntry htree hf hq)

end SetEntry

/-- The hierarchy depends on the entries that name tables only. -/
theorem tableAt_congr_table (h : ∀ k f i g, dec k (T' f i) = .table g ↔ dec k (T f i) = .table g) :
    tableAt dec T' n root q = tableAt dec T n root q := by
  induction q generalizing n root with
  | nil => cases n <;> rfl
  | cons i q ih =>
    cases n with
    | zero => rfl
    | succ n =>
      apply Option.ext
      intro g
      simp only [tableAt_cons_eq_some, h, ih]

theorem Tree.congr (htree : Tree dec T n root)
    (h : ∀ q, tableAt dec T' n root q = tableAt dec T n root q) : Tree dec T' n root := by
  intro p q f hp hq
  rw [h] at hp hq
  exact htree p q f hp hq

/-! ## Linking a blank table -/

section Link

variable [DecidableEq F] [DecidableEq I]

/-- What it takes to link table `g` under entry `i` of table `f`: the entry has been absent and now
names `g`, which is blank and nowhere in the hierarchy. -/
structure Link (dec : ℕ → E → Meaning F R) (T : F → I → E) (n : ℕ) (root : F) (p : List I) (f : F)
    (i : I) (e : E) (g : F) : Prop where
  tree : Tree dec T n root
  parent : tableAt dec T n root p = some f
  level : p.length + 1 ≤ n
  absent : dec (n - p.length - 1) (T f i) = .absent
  entry : dec (n - p.length - 1) e = .table g
  fresh : ∀ q, tableAt dec T n root q ≠ some g
  blank : ∀ k j, dec k (T g j) = .absent

namespace Link

variable (hlink : Link dec T n root p f i e g)

include hlink

theorem blank_setEntry (k : ℕ) (j : I) : dec k (setEntry T f i e g j) = .absent := by
  have hne : g ≠ f := fun heq ↦ hlink.fresh p (heq ▸ hlink.parent)
  rw [setEntry_of_ne (Or.inl hne), hlink.blank]

theorem tableAt_child : tableAt dec (setEntry T f i e) n root (p ++ [i]) = some g :=
  tableAt_snoc (tableAt_setEntry_self hlink.tree hlink.parent)
    (by rw [setEntry_self, hlink.entry]) hlink.level

/-- **Linking changes no lookup.** -/
theorem lookup_eq (hlen : q.length = n) :
    lookup dec (setEntry T f i e) root q = lookup dec T root q := by
  by_cases hq : p ++ [i] <+: q
  · obtain ⟨q', rfl⟩ := hq
    have hbefore : lookup dec T root (p ++ [i] ++ q') = none := by
      rw [List.append_assoc] at hlen ⊢
      have hq' : q'.length = n - p.length - 1 := by
        rw [List.length_append, List.length_append, List.length_singleton] at hlen
        omega
      rw [lookup_append hlink.parent hlen, List.singleton_append, lookup, hq', hlink.absent]
    rw [hbefore, lookup_append hlink.tableAt_child hlen]
    cases q' with
    | nil => rfl
    | cons j q' => rw [lookup, hlink.blank_setEntry]
  · exact lookup_setEntry_of_not_prefix hlink.tree hlink.parent hlen hq

/-- The tables of the new hierarchy are the old ones and the one linked. -/
theorem tableAt_iff : tableAt dec (setEntry T f i e) n root q = some h ↔
    tableAt dec T n root q = some h ∨ q = p ++ [i] ∧ h = g := by
  by_cases hq : p ++ [i] <+: q
  · obtain ⟨q', rfl⟩ := hq
    have hbefore : tableAt dec T n root (p ++ [i] ++ q') = none := by
      rw [List.append_assoc]
      exact tableAt_snoc_of_not_table hlink.parent (by rw [hlink.absent]; simp) hlink.level
    rw [hbefore]
    cases q' with
    | nil =>
      rw [List.append_nil, hlink.tableAt_child]
      simp [eq_comm]
    | cons j q' =>
      have hafter : tableAt dec (setEntry T f i e) n root (p ++ [i] ++ j :: q') = none := by
        rcases Nat.lt_or_ge (p ++ [i]).length n with hlt | hge
        · exact tableAt_snoc_of_not_table hlink.tableAt_child
            (by rw [hlink.blank_setEntry]; simp) hlt
        · rw [Option.eq_none_iff_forall_ne_some]
          intro k hk
          have := length_le_of_tableAt hk
          rw [List.length_append, List.length_cons] at this
          omega
      rw [hafter]
      simp
  · have hne : q ≠ p ++ [i] := fun heq ↦ hq (heq ▸ List.prefix_rfl)
    rw [tableAt_congr (agreeOn_setEntry hlink.tree hlink.parent hq)]
    simp [hne]

theorem tree_setEntry : Tree dec (setEntry T f i e) n root := by
  intro q q' h hq hq'
  rcases hlink.tableAt_iff.mp hq with hold | ⟨hpos, rfl⟩ <;>
    rcases hlink.tableAt_iff.mp hq' with hold' | ⟨hpos', hg⟩
  · exact hlink.tree q q' h hold hold'
  · exact absurd (hg ▸ hold) (hlink.fresh q)
  · exact absurd hold' (hlink.fresh q')
  · rw [hpos, hpos']

end Link

end Link

/-! ## Paths that can be extended -/

/-- Every entry of the path above the last level is blank or names a table. -/
def Extendable (dec : ℕ → E → Meaning F R) (T : F → I → E) (n : ℕ) (root : F) (blank : E)
    (path : List I) : Prop :=
  ∀ p i f, p ++ [i] <+: path → p.length + 1 < n → tableAt dec T n root p = some f →
    T f i = blank ∨ ∃ g, dec (n - p.length - 1) (T f i) = .table g

theorem Link.extendable [DecidableEq F] [DecidableEq I] {blank : E} {path : List I}
    (hlink : Link dec T n root p f i e g) (hblank : ∀ j, T g j = blank)
    (hext : Extendable dec T n root blank path) :
    Extendable dec (setEntry T f i e) n root blank path := by
  intro p' j h hpath hlen hh
  rcases hlink.tableAt_iff.mp hh with hold | ⟨-, rfl⟩
  · by_cases hcell : h = f ∧ j = i
    · obtain ⟨rfl, rfl⟩ := hcell
      obtain rfl := hlink.tree p p' h hlink.parent hold
      exact Or.inr ⟨g, by rw [setEntry_self, hlink.entry]⟩
    · rw [setEntry_of_ne (not_and_or.mp hcell)]
      exact hext p' j h hpath hlen hold
  · have hne : h ≠ f := fun heq ↦ hlink.fresh p (heq ▸ hlink.parent)
    rw [setEntry_of_ne (Or.inl hne)]
    exact Or.inl (hblank j)

/-- A path stays extendable in a store that has the same hierarchy, if the blank entries above the
last level are blank in it. -/
theorem Extendable.congr {blank : E} {path : List I} (hext : Extendable dec T n root blank path)
    (hat : ∀ q, tableAt dec T' n root q = tableAt dec T n root q)
    (hblank : ∀ p i f, p.length + 1 < n → tableAt dec T n root p = some f → T f i = blank →
      T' f i = blank) : Extendable dec T' n root blank path := by
  intro p i f hpath hlen hf
  have hf' : tableAt dec T n root p = some f := (hat p).symm.trans hf
  rcases hext p i f hpath hlen hf' with hunused | ⟨g, hg⟩
  · exact Or.inl (hblank p i f hlen hf' hunused)
  · -- the table below is where it was, so the entry names it
    have hchild := (hat (p ++ [i])).trans (tableAt_snoc hf' hg (Nat.le_of_lt hlen))
    obtain ⟨k, hk⟩ : ∃ k, n - p.length = k + 1 := ⟨n - p.length - 1, by omega⟩
    rw [tableAt_append hf (Nat.le_of_lt hlen), hk, tableAt_cons_eq_some] at hchild
    obtain ⟨g', hg', -⟩ := hchild
    refine Or.inr ⟨g', ?_⟩
    rwa [hk]

end RadixTable
