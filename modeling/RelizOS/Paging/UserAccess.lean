import RelizOS.Library.RadixWalk
import RelizOS.Library.Slice
import RelizOS.Paging.MapPage

/-!
# Making all pages accessible to user mode

`mark_all_user_accessible` walks the whole hierarchy of page tables and sets `USER_ACCESSIBLE` in
every entry that is present. It rewrites the tables while it walks them, and it may come to a table
more than once. But a mark changes nothing that the walk depends on, so the entries it marks are
those that a walk of the unmarked tables reaches (`Reached`), and marking one of them again changes
nothing.

The walk takes every present entry of the level 4 table to name a table, also one with the huge-page
flag, which the processor reserves there. So it reaches all that the processor can.
-/

open ByteMemory RadixTable

namespace RelizOS

/-! ## The code -/

theorem entryFlags_land (entry : UInt64) : entryFlags entry &&& addrMask = 0 := by
  rw [entryFlags, UInt64.and_assoc, UInt64.and_comm (~~~addrMask), UInt64.and_not_self,
    UInt64.and_zero]

namespace PageTableFlags

/-- `entry.flags()`. -/
def ofEntry (entry : UInt64) : PageTableFlags := ⟨entryFlags entry, entryFlags_land entry⟩

theorem or_land (flags : PageTableFlags) : (flags.bits ||| USER_ACCESSIBLE) &&& addrMask = 0 := by
  rw [or_and_distrib, flags.bits_and, UInt64.zero_or]
  decide

/-- `flags | PageTableFlags::USER_ACCESSIBLE`. -/
def withUser (flags : PageTableFlags) : PageTableFlags :=
  ⟨flags.bits ||| USER_ACCESSIBLE, flags.or_land⟩

end PageTableFlags

namespace Paging

/-- The body of a loop over the entries of a table. What is done with a present entry after it has
been marked depends on the level. -/
def markEntry (below : Paging → PageTableFlags → ℕ → Checked Paging) (table : ℕ) (s : Paging)
    (index : ℕ) : Checked Paging := do
  let entry ← entryPtr table index
  let flags := PageTableFlags.ofEntry (readU64 s.mem entry)
  if ¬PageTableFlags.contains flags.bits PageTableFlags.PRESENT then return s
  else
    let addr := entryAddr (readU64 s.mem entry)
    let s ← s.setAddr entry addr flags.withUser
    below s flags addr

/-- The loop over a level 1 table. -/
def markL1 (s : Paging) (l1 : ℕ) : Checked Paging :=
  (List.range 512).foldlM (markEntry (fun s _ _ ↦ return s) l1) s

/-- The loop over a level 2 table. An entry with the huge-page flag has no table beneath. -/
def markL2 (s : Paging) (l2 : ℕ) : Checked Paging :=
  (List.range 512).foldlM (markEntry (fun s flags2 addr2 ↦
    if PageTableFlags.contains flags2.bits PageTableFlags.HUGE_PAGE then return s
    else do s.markL1 (← s.physToVirt addr2)) l2) s

/-- The loop over a level 3 table. -/
def markL3 (s : Paging) (l3 : ℕ) : Checked Paging :=
  (List.range 512).foldlM (markEntry (fun s flags3 addr3 ↦
    if PageTableFlags.contains flags3.bits PageTableFlags.HUGE_PAGE then return s
    else do s.markL2 (← s.physToVirt addr3)) l3) s

/-- The loop over the level 4 table. -/
def markL4 (s : Paging) (l4 : ℕ) : Checked Paging :=
  (List.range 512).foldlM (markEntry (fun s _ addr4 ↦ do s.markL3 (← s.physToVirt addr4)) l4) s

/-- Set `USER_ACCESSIBLE` on every present entry at every level. -/
def markAllUserAccessible (s : Paging) : Checked Paging := do s.markL4 (← s.activeLevel4Table)

end Paging

/-! ## Marked entries -/

/-- An entry with `USER_ACCESSIBLE` set. -/
def userEntry (entry : UInt64) : UInt64 := entry ||| PageTableFlags.USER_ACCESSIBLE

/-- A translation with `USER_ACCESSIBLE` set. -/
def Leaf.withUser (l : Leaf) : Leaf :=
  { l with flags := l.flags ||| PageTableFlags.USER_ACCESSIBLE }

/-- What the walk takes an entry to mean. There is no table beneath an entry of a level 1 table, and
none beneath an entry of a level 2 or level 3 table that has the huge-page flag. -/
def walkMeaning (level : ℕ) (entry : UInt64) : Meaning ℕ Unit :=
  if ¬PageTableFlags.contains entry PageTableFlags.PRESENT then .absent
  else if level = 0 then .leaf ()
  else if level ≠ 3 ∧ PageTableFlags.contains entry PageTableFlags.HUGE_PAGE then .leaf ()
  else .table (entryAddr entry / 4096)

section Entries

variable {entry flag : UInt64} {level : ℕ}

@[simp] theorem userEntry_userEntry : userEntry (userEntry entry) = userEntry entry := by
  rw [userEntry, userEntry, UInt64.or_assoc, UInt64.or_self]

theorem contains_entryFlags (hflag : ~~~addrMask &&& flag = flag) :
    PageTableFlags.contains (entryFlags entry) flag ↔ PageTableFlags.contains entry flag := by
  rw [PageTableFlags.contains, PageTableFlags.contains, entryFlags, UInt64.and_assoc, hflag]

theorem contains_userEntry (hflag : PageTableFlags.USER_ACCESSIBLE &&& flag = 0) :
    PageTableFlags.contains (userEntry entry) flag ↔ PageTableFlags.contains entry flag := by
  rw [PageTableFlags.contains, PageTableFlags.contains, userEntry, or_and_distrib, hflag,
    UInt64.or_zero]

private theorem user_present :
    PageTableFlags.USER_ACCESSIBLE &&& PageTableFlags.PRESENT = 0 := by decide

private theorem user_huge :
    PageTableFlags.USER_ACCESSIBLE &&& PageTableFlags.HUGE_PAGE = 0 := by decide

theorem contains_userEntry_self :
    PageTableFlags.contains (userEntry entry) PageTableFlags.USER_ACCESSIBLE := by
  have habsorb : userEntry entry &&& PageTableFlags.USER_ACCESSIBLE =
      PageTableFlags.USER_ACCESSIBLE := by
    apply UInt64.toBitVec_inj.mp
    ext i
    simp [userEntry, Bool.and_or_distrib_right]
  rw [PageTableFlags.contains, habsorb]
  decide

@[simp] theorem entryAddr_userEntry : entryAddr (userEntry entry) = entryAddr entry := by
  have hmask : PageTableFlags.USER_ACCESSIBLE &&& addrMask = 0 := by decide
  rw [entryAddr, userEntry, or_and_distrib, hmask, UInt64.or_zero, entryAddr]

theorem entryFlags_userEntry :
    entryFlags (userEntry entry) = entryFlags entry ||| PageTableFlags.USER_ACCESSIBLE := by
  have hmask : PageTableFlags.USER_ACCESSIBLE &&& ~~~addrMask = PageTableFlags.USER_ACCESSIBLE := by
    decide
  rw [entryFlags, userEntry, or_and_distrib, hmask, entryFlags]

/-- **Taking an entry apart and putting it together again** with one more flag sets that flag. -/
theorem mkEntry_withUser :
    mkEntry (entryAddr entry) (PageTableFlags.ofEntry entry).withUser = userEntry entry := by
  calc mkEntry (entryAddr entry) (PageTableFlags.ofEntry entry).withUser
      = (entry &&& addrMask) ||| ((entry &&& ~~~addrMask) ||| PageTableFlags.USER_ACCESSIBLE) := by
        rw [mkEntry, entryAddr, UInt64.ofNat_toNat]
        rfl
    _ = userEntry entry := by
        rw [← UInt64.or_assoc, UInt64.and_comm, UInt64.and_comm entry, ← or_and_distrib,
          UInt64.or_not_self, UInt64.neg_one_and, userEntry]

/-- A mark changes nothing that the walk depends on. -/
@[simp] theorem walkMeaning_userEntry : walkMeaning level (userEntry entry) =
    walkMeaning level entry := by
  simp only [walkMeaning, contains_userEntry user_present, contains_userEntry user_huge,
    entryAddr_userEntry]

/-- For the processor, a mark changes the flags of the translations. -/
theorem entryMeaning_userEntry : entryMeaning level (userEntry entry) =
    (entryMeaning level entry).map Leaf.withUser := by
  simp only [entryMeaning, contains_userEntry user_present, contains_userEntry user_huge,
    entryAddr_userEntry, entryFlags_userEntry]
  split_ifs <;> rfl

/-- The walk visits what the processor uses. -/
theorem walkMeaning_ne_absent (h : entryMeaning level entry ≠ .absent) :
    walkMeaning level entry ≠ .absent := by
  intro habsent
  apply h
  rw [walkMeaning] at habsent
  split_ifs at habsent with hp
  rw [entryMeaning, if_pos hp]

/-- The tables of the processor are tables of the walk. -/
theorem walkMeaning_of_table {f : ℕ} (h : entryMeaning level entry = .table f) :
    walkMeaning level entry = .table f := by
  rw [entryMeaning] at h
  split_ifs at h with hp h0 hhuge h3
  rw [walkMeaning, if_neg (not_not.mpr hp), if_neg h0, if_neg (fun hand ↦ hhuge hand.2)]
  exact congrArg _ (Meaning.table.inj h)

theorem walkMeaning_eq_table {f : ℕ} (h : walkMeaning level entry = .table f) :
    entryAddr entry = f * 4096 := by
  rw [walkMeaning] at h
  split_ifs at h
  rw [← Meaning.table.inj h, Nat.div_mul_cancel (dvd_entryAddr entry)]

end Entries

namespace Paging

variable {s s' s'' : Paging} {S S' : ℕ → Fin 512 → Prop}

/-- The address of an entry. -/
def entryAt (s : Paging) (f : ℕ) (i : Fin 512) : ℕ := f * 4096 + s.physMemOffset + 8 * i

/-- From the first state to the second, the entries in `S` have been marked and nothing else has
changed. -/
structure Marked (S : ℕ → Fin 512 → Prop) (s s' : Paging) : Prop where
  offset : s'.physMemOffset = s.physMemOffset
  cr3 : s'.cr3 = s.cr3
  frameAllocator : s'.frameAllocator = s.frameAllocator
  marked : ∀ f i, S f i → s'.tables f i = userEntry (s.tables f i)
  kept : ∀ f i, ¬S f i → s'.tables f i = s.tables f i
  outside : ∀ b, (∀ f i, S f i → b < s.entryAt f i ∨ s.entryAt f i + 8 ≤ b) → s'.mem b = s.mem b

namespace Marked

theorem congr (h : Marked S s s') (hS : ∀ f i, S f i ↔ S' f i) : Marked S' s s' := by
  have hSS : S = S' := funext₂ fun f i ↦ propext (hS f i)
  exact hSS ▸ h

theorem refl (s : Paging) : Marked (fun _ _ ↦ False) s s :=
  ⟨rfl, rfl, rfl, fun _ _ h ↦ h.elim, fun _ _ _ ↦ rfl, fun _ _ ↦ rfl⟩

theorem trans (h : Marked S s s') (h' : Marked S' s' s'') :
    Marked (fun f i ↦ S f i ∨ S' f i) s s'' where
  offset := h'.offset.trans h.offset
  cr3 := h'.cr3.trans h.cr3
  frameAllocator := h'.frameAllocator.trans h.frameAllocator
  marked f i hor := by
    by_cases hS' : S' f i
    · rw [h'.marked f i hS']
      by_cases hS : S f i
      · rw [h.marked f i hS, userEntry_userEntry]
      · rw [h.kept f i hS]
    · rw [h'.kept f i hS', h.marked f i (hor.resolve_right hS')]
  kept f i hnor := by
    rw [not_or] at hnor
    rw [h'.kept f i hnor.2, h.kept f i hnor.1]
  outside b hb := by
    have hat : s'.entryAt = s.entryAt := by
      funext f i
      rw [entryAt, entryAt, h.offset]
    rw [h'.outside b fun f i hS' ↦ hat ▸ hb f i (Or.inr hS'),
      h.outside b fun f i hS ↦ hb f i (Or.inl hS)]

theorem walkMeaning_eq (h : Marked S s s') (k f : ℕ) (i : Fin 512) :
    walkMeaning k (s'.tables f i) = walkMeaning k (s.tables f i) := by
  by_cases hS : S f i
  · rw [h.marked f i hS, walkMeaning_userEntry]
  · rw [h.kept f i hS]

theorem reached_iff (h : Marked S s s') {n root f : ℕ} {i : Fin 512} :
    Reached walkMeaning s'.tables n root f i ↔ Reached walkMeaning s.tables n root f i :=
  reached_congr h.walkMeaning_eq

theorem setAddr {f : ℕ} {i : Fin 512} (hmem : s'.mem = writeU64 s.mem (s.entryAt f i)
    (userEntry (s.tables f i))) (hoffset : s'.physMemOffset = s.physMemOffset)
    (hcr3 : s'.cr3 = s.cr3) (halloc : s'.frameAllocator = s.frameAllocator) :
    Marked (fun g j ↦ g = f ∧ j = i) s s' where
  offset := hoffset
  cr3 := hcr3
  frameAllocator := halloc
  marked g j := by
    rintro ⟨rfl, rfl⟩
    rw [tables_writeU64 hmem hoffset, setEntry_self]
  kept g j hne := by rw [tables_writeU64 hmem hoffset, setEntry_of_ne (not_and_or.mp hne)]
  outside b hb := by
    rw [hmem]
    exact writeLE_outside (hb f i ⟨rfl, rfl⟩)

theorem eq_self (h : Marked S s s') (hS : ∀ f i, S f i → userEntry (s.tables f i) = s.tables f i) :
    s' = s := by
  have htables : ∀ f i, S f i → AgreeOn s'.mem s.mem (s.entryAt f i) 8 := by
    intro f i hmem
    apply agreeOn_of_readU64_eq
    calc readU64 s'.mem (s.entryAt f i) = s'.tables f i := by rw [tables, h.offset, entryAt]
      _ = s.tables f i := by rw [h.marked f i hmem, hS f i hmem]
      _ = readU64 s.mem (s.entryAt f i) := rfl
  have hbytes : s'.mem = s.mem := by
    funext b
    by_cases hb : ∃ f i, S f i ∧ s.entryAt f i ≤ b ∧ b < s.entryAt f i + 8
    · obtain ⟨f, i, hmem, hlo, hhi⟩ := hb
      exact htables f i hmem b hlo hhi
    · refine h.outside b fun f i hmem ↦ ?_
      by_contra hcon
      rw [not_or, Nat.not_lt, Nat.not_le] at hcon
      exact hb ⟨f, i, hmem, hcon⟩
  have hoffset := h.offset
  have hcr3 := h.cr3
  have halloc := h.frameAllocator
  cases s
  cases s'
  subst hoffset hcr3 halloc hbytes
  rfl

end Marked

/-! ## The loops -/

/-- The tables that the walk reaches lie in the bootloader's mapping of physical memory: their
addresses are in range. -/
def Window (s : Paging) (n root : ℕ) : Prop :=
  ∀ p f, RadixTable.tableAt walkMeaning s.tables n root p = some f →
    f * 4096 + s.physMemOffset < 2 ^ 64

theorem Window.root {n root : ℕ} (h : s.Window n root) : root * 4096 + s.physMemOffset < 2 ^ 64 :=
  h [] root (by cases n <;> rfl)

theorem Window.child {n root f : ℕ} {i : Fin 512} (h : s.Window (n + 1) root)
    (hf : walkMeaning n (s.tables root i) = .table f) : s.Window n f := by
  intro p g hg
  exact h (i :: p) g (by rw [tableAt_cons hf, hg])

theorem Marked.window (h : Marked S s s') {n root : ℕ} (hw : s.Window n root) :
    s'.Window n root := by
  intro p f hf
  rw [tableAt_congr_meaning h.walkMeaning_eq] at hf
  rw [h.offset]
  exact hw p f hf

/-- What is done with a marked entry of a table with `n` levels beneath: the entries that are
reached beneath are marked. -/
def MarksBelow (n : ℕ) (below : Paging → PageTableFlags → ℕ → Checked Paging) : Prop :=
  ∀ (s : Paging) (entry : UInt64), walkMeaning n entry ≠ .absent →
    (∀ f, walkMeaning n entry = .table f → s.Window n f) →
    ∃ s', below s (.ofEntry entry) (entryAddr entry) = .ok s' ∧
      Marked (fun g j ↦ ∃ f, walkMeaning n entry = .table f ∧
        Reached walkMeaning s.tables n f g j) s s'

/-- The entries that are reached through the first `k` entries of a table. -/
def ReachedBefore (s : Paging) (n root k f : ℕ) (i : Fin 512) : Prop :=
  ∃ j : Fin 512, j.val < k ∧ (f = root ∧ i = j ∧ walkMeaning n (s.tables root j) ≠ .absent ∨
    ∃ g, walkMeaning n (s.tables root j) = .table g ∧ Reached walkMeaning s.tables n g f i)

theorem reachedBefore_succ {n root k f : ℕ} {i : Fin 512} (hk : k < 512) :
    s.ReachedBefore n root (k + 1) f i ↔ s.ReachedBefore n root k f i ∨
      (f = root ∧ i = ⟨k, hk⟩ ∧ walkMeaning n (s.tables root ⟨k, hk⟩) ≠ .absent ∨
        ∃ g, walkMeaning n (s.tables root ⟨k, hk⟩) = .table g ∧
          Reached walkMeaning s.tables n g f i) := by
  constructor
  · rintro ⟨j, hj, h⟩
    rcases Nat.lt_succ_iff_lt_or_eq.mp hj with hlt | heq
    · exact Or.inl ⟨j, hlt, h⟩
    · obtain rfl : j = ⟨k, hk⟩ := Fin.ext heq
      exact Or.inr h
  · rintro (⟨j, hj, h⟩ | h)
    · exact ⟨j, Nat.lt_succ_of_lt hj, h⟩
    · exact ⟨⟨k, hk⟩, Nat.lt_succ_self k, h⟩

theorem reachedBefore_all {n root f : ℕ} {i : Fin 512} :
    s.ReachedBefore n root 512 f i ↔ Reached walkMeaning s.tables (n + 1) root f i := by
  rw [reached_succ_iff]
  constructor
  · rintro ⟨j, -, ⟨rfl, rfl, h⟩ | ⟨g, hg, hr⟩⟩
    · exact Or.inl ⟨rfl, h⟩
    · exact Or.inr ⟨j, g, hg, hr⟩
  · rintro (⟨rfl, h⟩ | ⟨j, g, hg, hr⟩)
    · exact ⟨i, i.isLt, Or.inl ⟨rfl, rfl, h⟩⟩
    · exact ⟨j, j.isLt, Or.inr ⟨g, hg, hr⟩⟩

variable {below : Paging → PageTableFlags → ℕ → Checked Paging} {n root : ℕ}

/-- **One round of a loop** marks the entry and what is reached beneath it. -/
theorem markEntry_ok (hbelow : MarksBelow n below) (hw : s.Window (n + 1) root) {k : ℕ}
    (hk : k < 512) :
    ∃ s', markEntry below (root * 4096 + s.physMemOffset) s k = .ok s' ∧
      Marked (fun f i ↦ f = root ∧ i = ⟨k, hk⟩ ∧ walkMeaning n (s.tables root ⟨k, hk⟩) ≠ .absent ∨
        ∃ g, walkMeaning n (s.tables root ⟨k, hk⟩) = .table g ∧
          Reached walkMeaning s.tables n g f i) s s' := by
  have hread : readU64 s.mem (root * 4096 + s.physMemOffset + 8 * k) = s.tables root ⟨k, hk⟩ := rfl
  have hchild : ∀ f, walkMeaning n (s.tables root ⟨k, hk⟩) = .table f → s.Window n f :=
    fun f hf ↦ hw.child hf
  rw [markEntry, entryPtr, if_pos hk, Checked.ok_bind]
  dsimp only
  rw [hread]
  generalize hentry : s.tables root ⟨k, hk⟩ = entry at hread hchild
  have hpresent : PageTableFlags.contains (PageTableFlags.ofEntry entry).bits
      PageTableFlags.PRESENT ↔ PageTableFlags.contains entry PageTableFlags.PRESENT :=
    contains_entryFlags (by decide)
  by_cases hp : PageTableFlags.contains entry PageTableFlags.PRESENT
  · have hne : walkMeaning n entry ≠ .absent := by
      rw [walkMeaning, if_neg (not_not.mpr hp)]
      split_ifs
      · exact Meaning.leaf_ne_absent
      · exact Meaning.leaf_ne_absent
      · exact Meaning.table_ne_absent
    let s₁ : Paging := { s with mem := writeU64 s.mem (s.entryAt root ⟨k, hk⟩) (userEntry entry) }
    have hset : s.setAddr (root * 4096 + s.physMemOffset + 8 * k) (entryAddr entry)
        (PageTableFlags.ofEntry entry).withUser = .ok s₁ := by
      rw [setAddr, Checked.ensure, if_pos (dvd_entryAddr entry), mkEntry_withUser]
      rfl
    have hmark : Marked (fun f i ↦ f = root ∧ i = ⟨k, hk⟩) s s₁ :=
      Marked.setAddr (by rw [hentry]) rfl rfl rfl
    -- the walk below the entry meets the tables as the mark has left them
    obtain ⟨s', hrun, hmark'⟩ := hbelow s₁ entry hne fun f hf ↦ hmark.window (hchild f hf)
    rw [if_neg (not_not.mpr (hpresent.mpr hp)), hset, Checked.ok_bind]
    refine ⟨s', hrun, (hmark.trans hmark').congr fun f i ↦ ?_⟩
    simp only [hmark.reached_iff, hne, ne_eq, not_false_eq_true, and_true]
  · have habsent : walkMeaning n entry = .absent := by rw [walkMeaning, if_pos hp]
    rw [if_pos (mt hpresent.mp hp)]
    refine ⟨s, rfl, (Marked.refl s).congr fun f i ↦ ?_⟩
    simp [habsent]

/-- **A loop over a table** marks what is reached from the table. -/
theorem markLoop_ok (hbelow : MarksBelow n below) (hw : s.Window (n + 1) root) :
    ∃ s', (List.range 512).foldlM (markEntry below (root * 4096 + s.physMemOffset)) s = .ok s' ∧
      Marked (Reached walkMeaning s.tables (n + 1) root) s s' := by
  obtain ⟨s', hrun, hmark⟩ := Checked.foldlM_range
    (f := markEntry below (root * 4096 + s.physMemOffset))
    (fun k t ↦ Marked (s.ReachedBefore n root k) s t) (s := s) (n := 512)
    ((Marked.refl s).congr fun f i ↦ iff_of_false id fun ⟨j, hj, _⟩ ↦ Nat.not_lt_zero _ hj)
    fun k hk t ht ↦ by
      obtain ⟨t', hstep, hmark⟩ := markEntry_ok hbelow (ht.window hw) hk
      rw [ht.offset] at hstep
      refine ⟨t', hstep, (ht.trans hmark).congr fun f i ↦ ?_⟩
      simp only [reachedBefore_succ hk, ht.walkMeaning_eq, ht.reached_iff]
  exact ⟨s', hrun, hmark.congr fun f i ↦ reachedBefore_all⟩

/-- `loop` marks what is reached from a table with `n` levels. -/
def MarksTable (n : ℕ) (loop : Paging → ℕ → Checked Paging) : Prop :=
  ∀ (s : Paging) f, s.Window n f → ∃ s', loop s (f * 4096 + s.physMemOffset) = .ok s' ∧
    Marked (Reached walkMeaning s.tables n f) s s'

theorem MarksTable.descend {loop : Paging → ℕ → Checked Paging} (hloop : MarksTable n loop)
    {entry : UInt64} {f : ℕ} (hf : walkMeaning n entry = .table f) (hw : s.Window n f) :
    ∃ s', (do loop s (← s.physToVirt (entryAddr entry))) = .ok s' ∧
      Marked (fun g j ↦ ∃ f, walkMeaning n entry = .table f ∧
        Reached walkMeaning s.tables n f g j) s s' := by
  obtain ⟨s', hrun, hmark⟩ := hloop s f hw
  refine ⟨s', ?_, hmark.congr fun g j ↦ ?_⟩
  · rw [physToVirt, walkMeaning_eq_table hf, Checked.add_of_lt hw.root, Checked.ok_bind, hrun]
  · rw [hf]
    simp

theorem walkMeaning_table {entry : UInt64} {level : ℕ} (h : walkMeaning level entry ≠ .absent)
    (h0 : level ≠ 0) (hhuge : level = 3 ∨ ¬PageTableFlags.contains entry PageTableFlags.HUGE_PAGE) :
    walkMeaning level entry = .table (entryAddr entry / 4096) := by
  by_cases hp : PageTableFlags.contains entry PageTableFlags.PRESENT
  · rw [walkMeaning, if_neg (not_not.mpr hp), if_neg h0, if_neg]
    rintro ⟨h3, hh⟩
    exact hhuge.elim h3 (absurd hh)
  · rw [walkMeaning, if_pos hp] at h
    exact absurd rfl h

theorem marksBelow_l1 : MarksBelow 0 fun s _ _ ↦ return s := by
  intro s entry _ _
  refine ⟨s, rfl, (Marked.refl s).congr fun f i ↦ iff_of_false id ?_⟩
  rintro ⟨g, hg, -⟩
  rw [walkMeaning, if_pos rfl] at hg
  split_ifs at hg

theorem marksTable_markL1 : MarksTable 1 markL1 := fun _ _ hw ↦ markLoop_ok marksBelow_l1 hw

/-- Below an entry of a level 2 or level 3 table there is a table unless it has the huge-page flag.
-/
theorem marksBelow_of_huge {loop : Paging → ℕ → Checked Paging} (h0 : n ≠ 0) (h3 : n ≠ 3)
    (hloop : MarksTable n loop) :
    MarksBelow n (fun s flags addr ↦
      if PageTableFlags.contains flags.bits PageTableFlags.HUGE_PAGE then return s
      else do loop s (← s.physToVirt addr)) := by
  intro s entry hne hw
  have hflags : PageTableFlags.contains (PageTableFlags.ofEntry entry).bits
      PageTableFlags.HUGE_PAGE ↔ PageTableFlags.contains entry PageTableFlags.HUGE_PAGE :=
    contains_entryFlags (by decide)
  dsimp only
  by_cases hhuge : PageTableFlags.contains entry PageTableFlags.HUGE_PAGE
  · rw [if_pos (hflags.mpr hhuge)]
    refine ⟨s, rfl, (Marked.refl s).congr fun f i ↦ iff_of_false id ?_⟩
    rintro ⟨g, hg, -⟩
    rw [walkMeaning] at hg
    split_ifs at hg with _ hleaf
    exact hleaf ⟨h3, hhuge⟩
  · rw [if_neg (mt hflags.mp hhuge)]
    have hf := walkMeaning_table hne h0 (Or.inr hhuge)
    exact hloop.descend hf (hw _ hf)

theorem marksTable_markL2 : MarksTable 2 markL2 := fun _ _ hw ↦
  markLoop_ok (marksBelow_of_huge (by decide) (by decide) marksTable_markL1) hw

theorem marksTable_markL3 : MarksTable 3 markL3 := fun _ _ hw ↦
  markLoop_ok (marksBelow_of_huge (by decide) (by decide) marksTable_markL2) hw

theorem marksTable_markL4 : MarksTable 4 markL4 := by
  have hbelow : MarksBelow 3 (fun s _ addr4 ↦ do s.markL3 (← s.physToVirt addr4)) := by
    intro s entry hne hw
    have hf := walkMeaning_table hne (by decide) (Or.inl rfl)
    exact marksTable_markL3.descend hf (hw _ hf)
  exact fun _ _ hw ↦ markLoop_ok hbelow hw

/-! ## The whole walk -/

/-- The entries that the walk from the level 4 table finds present. -/
def Walked (s : Paging) (f : ℕ) (i : Fin 512) : Prop := Reached walkMeaning s.tables 4 s.cr3 f i

/-- The entries that the processor reads when it translates an address. -/
def pathEntries (s : Paging) (virt : ℕ) : List UInt64 :=
  entries entryMeaning s.tables s.cr3 (pagePath virt)

theorem Marked.walked_iff (h : Marked S s s') {f : ℕ} {i : Fin 512} :
    s'.Walked f i ↔ s.Walked f i := by
  rw [Walked, Walked, h.cr3, h.reached_iff]

theorem markAllUserAccessible_marked (hw : s.Window 4 s.cr3) :
    ∃ s', s.markAllUserAccessible = .ok s' ∧ Marked s.Walked s s' := by
  rw [markAllUserAccessible, activeLevel4Table, physToVirt, Checked.add_of_lt hw.root,
    Checked.ok_bind]
  exact marksTable_markL4 s s.cr3 hw

/-- What the processor finds in use, the walk does. -/
theorem walked_of_reached {f : ℕ} {i : Fin 512}
    (h : Reached entryMeaning s.tables 4 s.cr3 f i) : s.Walked f i :=
  h.mono (fun _ _ ↦ walkMeaning_ne_absent) fun _ _ _ ↦ walkMeaning_of_table

/-- Marking what is walked gives every translation the flag. -/
theorem Marked.translate_eq (h : Marked s.Walked s s') (virt : ℕ) :
    s'.translate virt = (s.translate virt).map Leaf.withUser := by
  rw [translate, h.cr3]
  refine lookup_map (length_pagePath virt) (fun k f i hr ↦ ?_) fun k f i habsent ↦ ?_
  · rw [h.marked f i (walked_of_reached hr), entryMeaning_userEntry]
  · by_cases hS : s.Walked f i
    · rw [h.marked f i hS, entryMeaning_userEntry, habsent]
      rfl
    · rw [h.kept f i hS, habsent]

/-- Marking what is walked makes the pages that are mapped accessible on their whole paths. -/
theorem Marked.forall_mem_pathEntries (h : Marked s.Walked s s') {virt : ℕ} {leaf : Leaf}
    (hleaf : s'.translate virt = some leaf) : ∀ entry ∈ s'.pathEntries virt,
      PageTableFlags.contains entry PageTableFlags.USER_ACCESSIBLE := by
  refine forall_mem_entries (fun f i hr ↦ ?_) (length_pagePath virt) hleaf
  rw [h.marked f i (h.walked_iff.mp (walked_of_reached hr))]
  exact contains_userEntry_self

/-- A second walk changes nothing. -/
theorem Marked.markAllUserAccessible_eq (h : Marked s.Walked s s') (hw : s.Window 4 s.cr3) :
    s'.markAllUserAccessible = .ok s' := by
  have hw' : s'.Window 4 s'.cr3 := by
    rw [h.cr3]
    exact h.window hw
  obtain ⟨s'', hrun, hmark⟩ := markAllUserAccessible_marked hw'
  have hself : s'' = s' := by
    refine hmark.eq_self fun f i hwalked ↦ ?_
    rw [h.marked f i (h.walked_iff.mp hwalked), userEntry_userEntry]
  rw [hrun, hself]

/-- **`mark_all_user_accessible` marks every present entry and nothing else.** Whatever memory
contains, if the tables that the walk reaches lie in the bootloader's mapping of physical memory,
the call returns. Exactly the entries reached have `USER_ACCESSIBLE` set then; the other entries and
all bytes outside of the entries reached are as before. Every address is translated to the same
physical address, with the same flags and `USER_ACCESSIBLE`; the entries on the path of every
address that is translated have `USER_ACCESSIBLE` set; and a second call changes nothing. -/
theorem markAllUserAccessible_correct (hw : s.Window 4 s.cr3) :
    ∃ s', s.markAllUserAccessible = .ok s' ∧
      (s'.physMemOffset = s.physMemOffset ∧ s'.cr3 = s.cr3 ∧
        s'.frameAllocator = s.frameAllocator) ∧
      (∀ f i, s.Walked f i → s'.tables f i = s.tables f i ||| PageTableFlags.USER_ACCESSIBLE) ∧
      (∀ f i, ¬s.Walked f i → s'.tables f i = s.tables f i) ∧
      (∀ b, (∀ f i, s.Walked f i → b < s.entryAt f i ∨ s.entryAt f i + 8 ≤ b) →
        s'.mem b = s.mem b) ∧
      (∀ virt, s'.translate virt = (s.translate virt).map Leaf.withUser) ∧
      (∀ virt leaf, s'.translate virt = some leaf → ∀ entry ∈ s'.pathEntries virt,
        PageTableFlags.contains entry PageTableFlags.USER_ACCESSIBLE) ∧
      s'.markAllUserAccessible = .ok s' := by
  obtain ⟨s', hrun, hmark⟩ := markAllUserAccessible_marked hw
  exact ⟨s', hrun, ⟨hmark.offset, hmark.cr3, hmark.frameAllocator⟩, hmark.marked, hmark.kept,
    hmark.outside, hmark.translate_eq, fun virt leaf ↦ hmark.forall_mem_pathEntries,
    hmark.markAllUserAccessible_eq hw⟩

private theorem frame_lt_of_tableAt {p : List (Fin 512)} {f : ℕ} (hroot : root < 2 ^ 40)
    (hf : RadixTable.tableAt walkMeaning s.tables n root p = some f) : f < 2 ^ 40 := by
  induction p generalizing n root with
  | nil =>
    rw [RadixTable.tableAt, Option.some_inj] at hf
    exact hf ▸ hroot
  | cons i p ih =>
    cases n with
    | zero => cases hf
    | succ n =>
      obtain ⟨g, hg, hf⟩ := tableAt_cons_eq_some.mp hf
      have hlt := entryAddr_lt (s.tables root i)
      rw [walkMeaning_eq_table hg] at hlt
      refine ih ?_ hf
      exact Nat.lt_of_mul_lt_mul_right (a := 4096) hlt

/-- There is room for all tables where all of the physical address space is mapped. -/
theorem window_of_offset (hoffset : s.physMemOffset + 2 ^ 52 ≤ 2 ^ 64) (hcr3 : s.cr3 < 2 ^ 40) :
    s.Window n s.cr3 := by
  intro p f hf
  have hlt := frame_lt_of_tableAt hcr3 hf
  have hpow : f * 4096 < 2 ^ 52 := Nat.mul_lt_mul_of_pos_right hlt (by decide)
  calc f * 4096 + s.physMemOffset < 2 ^ 52 + s.physMemOffset := Nat.add_lt_add_right hpow _
    _ ≤ 2 ^ 64 := by rwa [Nat.add_comm]

/-! ### Four kinds of entries -/

/-- The level 4 table, frame 16, has two entries for one level 3 table, frame 17; that maps a 1 GiB
page and names the level 2 table, frame 18, which maps a 2 MiB page and names the level 1 table,
frame 19, which maps a page. The other entries are not in use. -/
def sharedSpace : Paging where
  physMemOffset := 0x10000000000
  mem := writeWords (writeWords (writeWords (writeWords (fun _ ↦ 0)
    0x10000010000 [0x11003, 0x11003]) 0x10000011000 [0x40000083, 0x12003])
    0x10000012000 [0x200083, 0x13003]) 0x10000013000 [0x5003]
  cr3 := 16
  frameAllocator := none

/-- The walk of `sharedSpace`. -/
theorem markAllUserAccessible_correct_sharedSpace :
    sharedSpace.Window 4 sharedSpace.cr3 ∧ ∃ s', sharedSpace.markAllUserAccessible = .ok s' ∧
      (s'.physMemOffset = sharedSpace.physMemOffset ∧ s'.cr3 = sharedSpace.cr3 ∧
        s'.frameAllocator = sharedSpace.frameAllocator) ∧
      (∀ f i, sharedSpace.Walked f i →
        s'.tables f i = sharedSpace.tables f i ||| PageTableFlags.USER_ACCESSIBLE) ∧
      (∀ f i, ¬sharedSpace.Walked f i → s'.tables f i = sharedSpace.tables f i) ∧
      (∀ b, (∀ f i, sharedSpace.Walked f i →
          b < sharedSpace.entryAt f i ∨ sharedSpace.entryAt f i + 8 ≤ b) →
        s'.mem b = sharedSpace.mem b) ∧
      (∀ virt, s'.translate virt = (sharedSpace.translate virt).map Leaf.withUser) ∧
      (∀ virt leaf, s'.translate virt = some leaf → ∀ entry ∈ s'.pathEntries virt,
        PageTableFlags.contains entry PageTableFlags.USER_ACCESSIBLE) ∧
      s'.markAllUserAccessible = .ok s' :=
  have hw : sharedSpace.Window 4 sharedSpace.cr3 := window_of_offset (by decide) (by decide)
  ⟨hw, markAllUserAccessible_correct hw⟩

/-- The page that both entries of the level 4 table lead to. -/
example : sharedSpace.translate 0x8000000000 = some ⟨2, 0x40000000, 0x83⟩ := by decide

end Paging

end RelizOS
