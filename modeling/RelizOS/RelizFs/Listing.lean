import RelizOS.RelizFs.Image

/-!
# The listing and its reader

The shell's `ls` asks the server for the listing of the root directory, in a buffer of 1024 bytes on
its stack, and prints the buffer up to its first NUL. The server puts a NUL behind the listing if
there is room. A line has at most 64 bytes and there are 16 entries, so the listing always fits, and
leaves room unless every entry has a line of full length.

`ListsWell` says that the shell finds a NUL in the buffer and prints the complete listing. It holds
unless the 16 lines fill the buffer without a NUL (`listsWell_iff`). Then the shell, which looks at
a byte before it compares the position with the length, indexes past the end of the buffer
(`not_listsWell`).
-/

open ByteMemory

namespace RelizOS.RelizFs

/-! ## What a listing says -/

/-- The line of an entry. -/
def lineOf (name : String) (inode : Inode) : String :=
  (if inode.IsDirectory then "[DIR]  " else "[FILE] ") ++ name ++
    (if inode.IsFile then " (" ++ toString inode.size.toNat ++ " bytes)" else "") ++ "\n"

/-- An entry that is listed, with its name. -/
def Names (e : DirectoryEntry) (name : String) : Prop :=
  (e.inodeNum ≠ 0 ∧ 0 < e.nameLen) ∧ e.getName = some name

section

variable (d : Drive)

/-- The line of an entry that is listed. -/
def listed (e : DirectoryEntry) : Option String :=
  if e.inodeNum ≠ 0 ∧ 0 < e.nameLen then
    e.getName.map fun name ↦ lineOf name (inodeAt d e.inodeNum)
  else none

/-- The entries of the root directory. -/
def rootEntries : List DirectoryEntry := entriesOf (block d (inodeAt d 0).firstBlock)

/-- The listing of the root directory. -/
def completeListing : String := String.join ((rootEntries d).filterMap (listed d))

end

/-! ## The shell -/

/-- `fs_buf[len]`. -/
def indexBuf (mem : Mem) (fsBuf len : ℕ) : Checked UInt8 :=
  if len < listSize then .ok (mem (fsBuf + len)) else .error .bounds

/-- The loop that looks for the end of the listing, with a bound on its iterations. -/
def scan (mem : Mem) (fsBuf : ℕ) : ℕ → ℕ → Checked ℕ
  | 0, _ => .error .diverges
  | fuel + 1, len => do
    let b ← indexBuf mem fsBuf len
    if b ≠ 0 ∧ len < listSize then scan mem fsBuf fuel (len + 1) else return len

/-- System call 1: what is printed of `len` bytes, nothing if they are not valid UTF-8. -/
def printString (mem : Mem) (ptr len : ℕ) : Option String := fromUtf8 (readBytes mem ptr len)

/-- `let mut fs_buf = [0u8; 1024]`. -/
def clearBuf (mem : Mem) (fsBuf : ℕ) : Mem := writeBytes mem fsBuf (List.replicate listSize 0)

/-- The command `ls`: what is printed. -/
def shellLs (d : Drive) (mem : Mem) (fsBuf : ℕ) : Checked (Option String) := do
  let (resp, mem) ← fsList d (clearBuf mem fsBuf) fsBuf listSize
  if resp.msgType = 0 then
    let len ← scan mem fsBuf (listSize + 1) 0
    return printString mem fsBuf len
  else
    return some "Error reading directory listing!\n"

/-- The shell finds a NUL inside its buffer, does not panic, and prints the complete listing if no
name has a NUL. -/
structure ListsWell (d : Drive) (mem : Mem) (fsBuf : ℕ) : Prop where
  terminated : ∀ resp mem', fsList d (clearBuf mem fsBuf) fsBuf listSize = .ok (resp, mem') →
    ∃ i < listSize, mem' (fsBuf + i) = 0
  returns : (shellLs d mem fsBuf).Returns
  complete : (∀ e ∈ rootEntries d, ∀ name, Names e name → 0 ∉ bytesOf name) →
    shellLs d mem fsBuf = .ok (some (completeListing d))

/-- The line of an entry has its full length, and no NUL: its name has 27 bytes, and its inode is a
regular file whose size has 20 digits. -/
def LongestLine (d : Drive) (e : DirectoryEntry) : Prop :=
  ∃ name, Names e name ∧ 27 ≤ e.nameLen.toNat ∧ 0 ∉ bytesOf name ∧
    (inodeAt d e.inodeNum).IsFile ∧ 10 ^ 19 ≤ (inodeAt d e.inodeNum).size.toNat

/-- All 16 entries have a line of full length. -/
def FillsBuffer (d : Drive) : Prop := ∀ e ∈ rootEntries d, LongestLine d e

/-! ## The server -/

/-- The loop of the server writes a number in decimal. -/
theorem sizeDigits_eq {k n : ℕ} {digits : List UInt8} (hpos : 0 < n) (hlt : n < 10 ^ k) :
    sizeDigits k n digits = .ok (bytesOf (toString n) ++ digits) := by
  induction k generalizing n digits with
  | zero => omega
  | succ k ih =>
    rw [sizeDigits, if_pos hpos]
    by_cases hn : n < 10
    · have hdone : n / 10 = 0 := by omega
      rw [bytesOf_toString_of_lt hn, hdone, Nat.mod_eq_of_lt hn]
      cases k <;> rfl
    · rw [ih (by omega) (by rw [pow_succ] at hlt; omega),
        bytesOf_toString_of_le (n := n) (by omega), List.append_assoc]
      rfl

theorem sizeText_eq (size : UInt64) : sizeText size = .ok (bytesOf (toString size.toNat)) := by
  rw [sizeText]
  by_cases hzero : size = 0
  · rw [if_pos hzero, hzero]
    with_unfolding_all decide
  · rw [if_neg hzero, sizeDigits_eq, List.append_nil]
    · exact Nat.pos_of_ne_zero fun h ↦ hzero (UInt64.toNat_inj.mp h)
    · exact lt_of_lt_of_le size.toNat_lt (by decide)

theorem append_of_fits {l s : List UInt8} (h : l.length + s.length ≤ listSize) :
    append l s = l ++ s := by
  rw [append, List.take_of_length_le (by omega)]

theorem listEntry_of_fits {l : List UInt8} {name : String} {inode : Inode}
    (h : l.length + (bytesOf (lineOf name inode)).length ≤ listSize) :
    listEntry l name inode = .ok (l ++ bytesOf (lineOf name inode)) := by
  have hempty : bytesOf "" = [] := by with_unfolding_all decide
  rw [lineOf] at h ⊢
  rw [listEntry]
  by_cases hdir : inode.IsDirectory <;> by_cases hfile : inode.IsFile
  all_goals
    simp only [hdir, hfile, if_true, if_false, bytesOf_append, List.length_append, sizeText_eq,
      Checked.ok_bind, Checked.pure_eq_ok, hempty, List.nil_append, List.append_assoc] at h ⊢
    simp (disch := (try simp only [List.length_append]); omega) only [append_of_fits,
      List.append_assoc]

theorem length_lineOf (name : String) (inode : Inode) :
    (bytesOf (lineOf name inode)).length = (bytesOf name).length + 8 +
      if inode.IsFile then (Nat.toDigits 10 inode.size.toNat).length + 9 else 0 := by
  have hdir : (bytesOf "[DIR]  ").length = 7 := by with_unfolding_all decide
  have hfile : (bytesOf "[FILE] ").length = 7 := by with_unfolding_all decide
  have hopen : (bytesOf " (").length = 2 := by with_unfolding_all decide
  have hclose : (bytesOf " bytes)").length = 7 := by with_unfolding_all decide
  have hline : (bytesOf "\n").length = 1 := by with_unfolding_all decide
  have hempty : (bytesOf "").length = 0 := by with_unfolding_all decide
  rw [lineOf, bytesOf_append, bytesOf_append, bytesOf_append]
  simp only [List.length_append]
  split <;> split
  all_goals
    simp only [bytesOf_append, List.length_append, length_bytesOf_toString, hdir, hfile, hopen,
      hclose, hline, hempty]
    omega

theorem listed_eq_some {d : Drive} {e : DirectoryEntry} {line : String} :
    listed d e = some line ↔ ∃ name, Names e name ∧ lineOf name (inodeAt d e.inodeNum) = line := by
  rw [listed]
  by_cases hvalid : e.inodeNum ≠ 0 ∧ 0 < e.nameLen
  · simp [Names, hvalid]
  · simp [Names, hvalid]

theorem length_toDigits_le (size : UInt64) : (Nat.toDigits 10 size.toNat).length ≤ 20 :=
  (Nat.length_toDigits_le_iff (by omega) (by omega)).mpr (lt_of_lt_of_le size.toNat_lt (by decide))

theorem length_listed_le {d : Drive} {e : DirectoryEntry} {line : String}
    (h : listed d e = some line) : (bytesOf line).length ≤ 64 := by
  obtain ⟨name, ⟨-, hname⟩, rfl⟩ := listed_eq_some.mp h
  have hdigits := length_toDigits_le (inodeAt d e.inodeNum).size
  rw [length_lineOf, DirectoryEntry.length_getName hname]
  split
  · omega
  · omega

theorem length_listed_eq {d : Drive} {e : DirectoryEntry} {name : String} (h : Names e name) :
    (bytesOf (lineOf name (inodeAt d e.inodeNum))).length = 64 ↔ 27 ≤ e.nameLen.toNat ∧
      (inodeAt d e.inodeNum).IsFile ∧ 10 ^ 19 ≤ (inodeAt d e.inodeNum).size.toNat := by
  have hdigits := length_toDigits_le (inodeAt d e.inodeNum).size
  have hlarge : 10 ^ 19 ≤ (inodeAt d e.inodeNum).size.toNat ↔
      19 < (Nat.toDigits 10 (inodeAt d e.inodeNum).size.toNat).length := by
    rw [← not_lt, ← Nat.length_toDigits_le_iff (by omega) (by omega), not_le]
  rw [length_lineOf, DirectoryEntry.length_getName h.2, hlarge]
  split
  · next hfile =>
    rw [and_iff_right (a := Inode.IsFile _) hfile]
    omega
  · next hfile =>
    exact iff_of_false (by omega) fun h ↦ hfile h.2.1

theorem listEntries_eq_ok {d : Drive} (hd : Readable d) {entries : List DirectoryEntry}
    {l l' : List UInt8} (hfits : l.length + 64 * entries.length ≤ listSize)
    (h : listEntries d (superblockOf d) entries l = .ok l') :
    l' = l ++ (entries.filterMap (listed d)).flatMap bytesOf := by
  -- what is written grows by a line for each entry, and there is room for the longest of all that
  -- follow
  induction entries generalizing l with
  | nil =>
    rw [← Except.ok.inj h]
    simp
  | cons e entries ih =>
    rw [List.length_cons] at hfits
    rw [listEntries] at h
    by_cases hvalid : e.inodeNum ≠ 0 ∧ 0 < e.nameLen
    · rw [if_pos hvalid] at h
      cases hname : e.getName with
      | none =>
        have hlisted : listed d e = none := by rw [listed, if_pos hvalid, hname, Option.map_none]
        rw [hname] at h
        rw [List.filterMap_cons_none hlisted]
        exact ih (by omega) h
      | some name =>
        have hlisted : listed d e = some (lineOf name (inodeAt d e.inodeNum)) :=
          listed_eq_some.mpr ⟨name, ⟨hvalid, hname⟩, rfl⟩
        have hline := length_listed_le hlisted
        rw [hname] at h
        obtain ⟨o, ho, h⟩ := Checked.bind_eq_ok.mp h
        obtain rfl := entryInode_eq_ok hd ho
        obtain ⟨t, ht, h⟩ := Checked.bind_eq_ok.mp h
        rw [listEntry_of_fits (by omega)] at ht
        obtain rfl := Except.ok.inj ht
        rw [ih (by rw [List.length_append]; omega) h, List.filterMap_cons_some hlisted,
          List.flatMap_cons, List.append_assoc]
    · have hlisted : listed d e = none := by rw [listed, if_neg hvalid]
      rw [if_neg hvalid] at h
      rw [List.filterMap_cons_none hlisted]
      exact ih (by omega) h

theorem length_rootEntries (d : Drive) : (rootEntries d).length = 16 := by
  rw [rootEntries, entriesOf, List.length_map, List.length_range]
  rfl

/-- **The listing is complete.** -/
theorem listing_eq_ok {d : Drive} (hd : Readable d) {l : List UInt8} (h : listing d = .ok l) :
    l = bytesOf (completeListing d) := by
  obtain ⟨o, ho, h⟩ := Checked.bind_eq_ok.mp h
  obtain rfl := rootSector_eq_ok hd ho
  have hlength := length_rootEntries d
  rw [rootEntries] at hlength
  rw [listEntries_eq_ok hd (by rw [hlength]; decide) h, completeListing, bytesOf_join]
  rfl

/-! ## The lengths of listings -/

section

variable {f : DirectoryEntry → Option String} {k : ℕ}

theorem length_flatMap_filterMap_le (hf : ∀ e line, f e = some line → (bytesOf line).length ≤ k)
    (entries : List DirectoryEntry) :
    ((entries.filterMap f).flatMap bytesOf).length ≤ k * entries.length := by
  induction entries with
  | nil => exact Nat.zero_le _
  | cons e entries ih =>
    rw [List.length_cons, Nat.mul_succ]
    cases hline : f e with
    | none =>
      rw [List.filterMap_cons_none hline]
      omega
    | some line =>
      have hle := hf e line hline
      rw [List.filterMap_cons_some hline, List.flatMap_cons, List.length_append]
      omega

/-- Lines of at most `k` bytes fill `k` bytes for each entry only if each entry has a line of `k`
bytes. -/
theorem length_flatMap_filterMap_eq (hf : ∀ e line, f e = some line → (bytesOf line).length ≤ k)
    (hk : 0 < k) {entries : List DirectoryEntry} :
    ((entries.filterMap f).flatMap bytesOf).length = k * entries.length ↔
      ∀ e ∈ entries, ∃ line, f e = some line ∧ (bytesOf line).length = k := by
  induction entries with
  | nil => exact iff_of_true rfl fun e he ↦ (nomatch he)
  | cons e entries ih =>
    have hrest := length_flatMap_filterMap_le hf entries
    rw [List.length_cons, Nat.mul_succ, List.forall_mem_cons, ← ih]
    cases hline : f e with
    | none =>
      rw [List.filterMap_cons_none hline]
      refine iff_of_false (by omega) ?_
      rintro ⟨⟨line, hnone, -⟩, -⟩
      cases hnone
    | some line =>
      have hle := hf e line hline
      rw [List.filterMap_cons_some hline, List.flatMap_cons, List.length_append]
      constructor
      · intro hall
        exact ⟨⟨line, rfl, by omega⟩, by omega⟩
      · rintro ⟨⟨_, ⟨⟩, hlen⟩, hall⟩
        omega

end

theorem length_completeListing_le (d : Drive) :
    (bytesOf (completeListing d)).length ≤ listSize := by
  rw [completeListing, bytesOf_join]
  refine (length_flatMap_filterMap_le (fun _ _ h ↦ length_listed_le h) _).trans ?_
  rw [length_rootEntries, listSize]

theorem zero_mem_lineOf {name : String} {inode : Inode} :
    0 ∈ bytesOf (lineOf name inode) ↔ 0 ∈ bytesOf name := by
  have hdir : 0 ∉ bytesOf "[DIR]  " := by with_unfolding_all decide
  have hfile : 0 ∉ bytesOf "[FILE] " := by with_unfolding_all decide
  have hopen : 0 ∉ bytesOf " (" := by with_unfolding_all decide
  have hclose : 0 ∉ bytesOf " bytes)" := by with_unfolding_all decide
  have hline : 0 ∉ bytesOf "\n" := by with_unfolding_all decide
  have hempty : 0 ∉ bytesOf "" := by with_unfolding_all decide
  rw [lineOf, bytesOf_append, bytesOf_append, bytesOf_append]
  simp only [List.mem_append]
  split <;> split
  all_goals
    simp only [bytesOf_append, List.mem_append, hdir, hfile, hopen, hclose, hline, hempty,
      zero_not_mem_toString, false_or, or_false]

theorem zero_mem_completeListing {d : Drive} : 0 ∈ bytesOf (completeListing d) ↔
    ∃ e ∈ rootEntries d, ∃ name, Names e name ∧ 0 ∈ bytesOf name := by
  rw [completeListing, bytesOf_join]
  simp only [List.mem_flatMap, List.mem_filterMap, listed_eq_some]
  constructor
  · rintro ⟨_, ⟨e, he, name, hname, rfl⟩, hzero⟩
    exact ⟨e, he, name, hname, zero_mem_lineOf.mp hzero⟩
  · rintro ⟨e, he, name, hname, hzero⟩
    exact ⟨_, ⟨e, he, name, hname, rfl⟩, zero_mem_lineOf.mpr hzero⟩

/-- **When the listing fills the buffer** without a NUL. -/
theorem fillsBuffer_iff {d : Drive} : FillsBuffer d ↔
    (bytesOf (completeListing d)).length = listSize ∧ 0 ∉ bytesOf (completeListing d) := by
  have hsize : listSize = 64 * (rootEntries d).length := by rw [length_rootEntries, listSize]
  rw [zero_mem_completeListing, completeListing, bytesOf_join, hsize,
    length_flatMap_filterMap_eq (fun _ _ h ↦ length_listed_le h) (by omega)]
  constructor
  · intro h
    constructor
    · intro e he
      obtain ⟨name, hname, hlen, -, hfile, hsize⟩ := h e he
      exact ⟨_, listed_eq_some.mpr ⟨name, hname, rfl⟩,
        (length_listed_eq hname).mpr ⟨hlen, hfile, hsize⟩⟩
    · rintro ⟨e, he, name, hname, hzero⟩
      obtain ⟨name', hname', -, hnul, -⟩ := h e he
      obtain rfl : name = name' := Option.some.inj (hname.2.symm.trans hname'.2)
      exact hnul hzero
  · rintro ⟨hlines, hnul⟩ e he
    obtain ⟨line, hline, h64⟩ := hlines e he
    obtain ⟨name, hname, rfl⟩ := listed_eq_some.mp hline
    obtain ⟨hlong, hfile, hsize⟩ := (length_listed_eq hname).mp h64
    exact ⟨name, hname, hlong, fun hzero ↦ hnul ⟨e, he, name, hname, hzero⟩, hfile, hsize⟩

/-! ## The buffer of the shell -/

section

variable {mem : Mem} {fsBuf n fuel len : ℕ}

/-- The shell stops at the first NUL. -/
theorem scan_eq_ok (hn : n < listSize) (hend : mem (fsBuf + n) = 0)
    (hbytes : ∀ i < n, mem (fsBuf + i) ≠ 0) (hlen : len ≤ n) (hfuel : n < fuel + len) :
    scan mem fsBuf fuel len = .ok n := by
  induction fuel generalizing len with
  | zero => omega
  | succ fuel ih =>
    rw [scan, indexBuf, if_pos (by omega), Checked.ok_bind]
    by_cases hdone : len = n
    · subst hdone
      rw [if_neg fun h ↦ h.1 hend]
      rfl
    · rw [if_pos ⟨hbytes len (by omega), by omega⟩]
      exact ih (by omega) (by omega)

/-- Without a NUL it indexes past the end. -/
theorem scan_eq_bounds (hbytes : ∀ i < listSize, mem (fsBuf + i) ≠ 0) (hlen : len ≤ listSize)
    (hfuel : listSize < fuel + len) : scan mem fsBuf fuel len = .error .bounds := by
  induction fuel generalizing len with
  | zero => omega
  | succ fuel ih =>
    rw [scan, indexBuf]
    by_cases hdone : len = listSize
    · rw [if_neg (by omega)]
      rfl
    · rw [if_pos (by omega), Checked.ok_bind, if_pos ⟨hbytes len (by omega), by omega⟩]
      exact ih (by omega) (by omega)

variable {d : Drive}

theorem fsList_eq (hd : Readable d) (hlist : (listing d).Returns) (mem : Mem) (fsBuf : ℕ) :
    ∃ mem', fsList d (clearBuf mem fsBuf) fsBuf listSize = .ok (⟨2, 0, 0, 0, 0, 0⟩, mem') ∧
      ∀ i < listSize, mem' (fsBuf + i) = ((bytesOf (completeListing d))[i]?).getD 0 := by
  obtain ⟨l, hl⟩ := hlist
  have hle := length_completeListing_le d
  rw [← listing_eq_ok hd hl] at hle ⊢
  refine ⟨_, Checked.bind_eq_ok.mpr ⟨l, hl, rfl⟩, fun i hi ↦ ?_⟩
  have hclear : clearBuf mem fsBuf (fsBuf + i) = 0 := by
    rw [clearBuf, writeBytes, if_pos (Nat.le_add_right _ _), Nat.add_sub_cancel_left,
      List.getElem?_replicate, if_pos hi, Option.getD_some]
  rw [writeBytes, if_pos (Nat.le_add_right _ _), Nat.add_sub_cancel_left, hclear]
  by_cases hroom : l.length < listSize
  · rw [if_pos hroom, List.take_of_length_le (by
      rw [List.length_append, List.length_singleton]
      omega)]
    rcases Nat.lt_trichotomy i l.length with hlt | rfl | hgt
    · rw [List.getElem?_append_left hlt]
    · simp
    · rw [List.getElem?_eq_none (by rw [List.length_append, List.length_singleton]; omega),
        List.getElem?_eq_none (by omega)]
  · rw [if_neg hroom, List.take_of_length_le hle]

/-- The buffer has a NUL unless the listing fills it. -/
theorem exists_zero_iff : (∃ i < listSize, ((bytesOf (completeListing d))[i]?).getD 0 = 0) ↔
    ¬FillsBuffer d := by
  rw [fillsBuffer_iff]
  have hle := length_completeListing_le d
  generalize bytesOf (completeListing d) = l at hle ⊢
  constructor
  · rintro ⟨i, hi, hzero⟩ ⟨hlen, hnul⟩
    rw [List.getElem?_eq_getElem (by omega), Option.getD_some] at hzero
    exact hnul (hzero ▸ List.getElem_mem _)
  · intro h
    by_cases hlen : l.length = listSize
    · obtain ⟨i, hi, hzero⟩ := List.mem_iff_getElem.mp (not_not.mp fun hnul ↦ h ⟨hlen, hnul⟩)
      exact ⟨i, by omega, by rw [List.getElem?_eq_getElem hi, Option.getD_some, hzero]⟩
    · exact ⟨l.length, by omega, by rw [List.getElem?_eq_none le_rfl, Option.getD_none]⟩

theorem shellLs_of_fillsBuffer (hd : Readable d) (hlist : (listing d).Returns)
    (h : FillsBuffer d) : shellLs d mem fsBuf = .error .bounds := by
  obtain ⟨mem', hmem, hbytes⟩ := fsList_eq hd hlist mem fsBuf
  rw [shellLs, hmem, Checked.ok_bind]
  dsimp only
  rw [if_pos rfl, scan_eq_bounds _ (Nat.zero_le _) (Nat.lt_succ_self _)]
  · rfl
  · intro i hi hzero
    exact exists_zero_iff.mp ⟨i, hi, (hbytes i hi).symm.trans hzero⟩ h

/-- **The shell prints the complete listing** exactly when the lines leave room for a NUL. -/
theorem listsWell_iff (hd : Readable d) (hlist : (listing d).Returns) :
    ListsWell d mem fsBuf ↔ ¬FillsBuffer d := by
  constructor
  · intro h hfills
    obtain ⟨text, htext⟩ := h.returns
    rw [shellLs_of_fillsBuffer hd hlist hfills] at htext
    cases htext
  · intro h
    obtain ⟨mem', hmem, hbytes⟩ := fsList_eq hd hlist mem fsBuf
    have hzero : ∃ i < listSize, mem' (fsBuf + i) = 0 := by
      obtain ⟨i, hi, hzero⟩ := exists_zero_iff.mpr h
      exact ⟨i, hi, (hbytes i hi).trans hzero⟩
    have hprint : ∀ n < listSize, mem' (fsBuf + n) = 0 → (∀ i < n, mem' (fsBuf + i) ≠ 0) →
        shellLs d mem fsBuf = .ok (printString mem' fsBuf n) := by
      intro n hn hend hbefore
      rw [shellLs, hmem, Checked.ok_bind]
      dsimp only
      rw [if_pos rfl, scan_eq_ok hn hend hbefore (Nat.zero_le _) (by omega)]
      rfl
    refine ⟨?_, ?_, fun hnul ↦ ?_⟩
    · intro resp m hm
      obtain ⟨-, rfl⟩ := Prod.mk.inj (Except.ok.inj (hmem.symm.trans hm))
      exact hzero
    · classical
      obtain ⟨hlt, hend⟩ := Nat.find_spec hzero
      exact ⟨_, hprint _ hlt hend fun i hi hzero' ↦ Nat.find_min hzero hi ⟨by omega, hzero'⟩⟩
    · -- without NULs in the names the first one is behind the listing
      have hnot : 0 ∉ bytesOf (completeListing d) := by
        rw [zero_mem_completeListing]
        rintro ⟨e, he, name, hname, hmem⟩
        exact hnul e he name hname hmem
      have hroom : (bytesOf (completeListing d)).length < listSize :=
        lt_of_le_of_ne (length_completeListing_le d) fun hlen ↦
          h (fillsBuffer_iff.mpr ⟨hlen, hnot⟩)
      have htext : fromUtf8 (bytesOf (completeListing d)) = some (completeListing d) :=
        fromUtf8_eq_some.mpr rfl
      generalize bytesOf (completeListing d) = l at hbytes hnot hroom htext
      have hget : ∀ i (hi : i < l.length), mem' (fsBuf + i) = l[i] := by
        intro i hi
        rw [hbytes i (by omega), List.getElem?_eq_getElem hi, Option.getD_some]
      rw [hprint l.length hroom, printString, readBytes_eq hget, htext]
      · rw [hbytes _ hroom, List.getElem?_eq_none le_rfl, Option.getD_none]
      · intro i hi hzero'
        rw [hget i hi] at hzero'
        exact hnot (hzero' ▸ List.getElem_mem hi)

end

/-! ### A directory with one file -/

def oneFile : Drive := fun lba ↦ .ok <|
  match lba with
  | 40002 => sectorWith [(12, [2]), (16, [3])]
  | 40003 => sectorWith [(8, [2, 0, 13]), (64, [5]), (72, [1])]
  | 40013 => sectorWith [(0, [1, 0, 0, 0, 1, 97])]
  | _ => fun _ ↦ 0

theorem completeListing_oneFile : completeListing oneFile = "[FILE] a (5 bytes)\n" := by
  with_unfolding_all decide

theorem listsWell_oneFile : ListsWell oneFile (fun _ ↦ 0) 0 := by
  have hlist : (listing oneFile).Returns :=
    ⟨_, Checked.eq_ok_result (listing oneFile) (by with_unfolding_all decide)⟩
  have hroom : ¬FillsBuffer oneFile := by
    intro h
    have hlen := (fillsBuffer_iff.mp h).1
    rw [completeListing_oneFile] at hlen
    exact absurd hlen (by with_unfolding_all decide)
  exact (listsWell_iff (fun _ ↦ ⟨_, rfl⟩) hlist).mpr hroom

/-! ### A full directory

All 16 entries have a name of 27 bytes and name a file of size `2 ^ 64 - 1`. -/

def fullDirectory : Drive := fun lba ↦ .ok <|
  match lba with
  | 40002 => sectorWith [(12, [2]), (16, [3])]
  | 40003 => sectorWith [(8, [2, 0, 13]), (64, List.replicate 8 255), (72, [1])]
  | 40013 => fun a ↦
    if a % 32 = 0 then 1 else if a % 32 < 4 then 0 else if a % 32 = 4 then 27 else 97
  | _ => fun _ ↦ 0

theorem fullDirectory_readable : Readable fullDirectory := fun _ ↦ ⟨_, rfl⟩

theorem listing_fullDirectory : (listing fullDirectory).Returns :=
  ⟨_, Checked.eq_ok_result (listing fullDirectory) (by decide +kernel)⟩

theorem fullDirectory_fillsBuffer : FillsBuffer fullDirectory := by
  have hentries : ∀ e ∈ rootEntries fullDirectory, ((e.inodeNum ≠ 0 ∧ 0 < e.nameLen) ∧
      e.getName = some "aaaaaaaaaaaaaaaaaaaaaaaaaaa") ∧ 27 ≤ e.nameLen.toNat ∧
      (inodeAt fullDirectory e.inodeNum).IsFile ∧
      10 ^ 19 ≤ (inodeAt fullDirectory e.inodeNum).size.toNat := by
    decide +kernel
  intro e he
  obtain ⟨hname, hlen, hfile, hsize⟩ := hentries e he
  exact ⟨_, hname, hlen, by with_unfolding_all decide, hfile, hsize⟩

/-- **The shell panics** on its listing. -/
theorem not_listsWell :
    ¬∀ (d : Drive) (mem : Mem) (fsBuf : ℕ), Readable d → (listing d).Returns →
      ListsWell d mem fsBuf := by
  intro h
  obtain ⟨text, htext⟩ := (h fullDirectory (fun _ ↦ 0) 0 fullDirectory_readable
    listing_fullDirectory).returns
  rw [shellLs_of_fillsBuffer fullDirectory_readable listing_fullDirectory
    fullDirectory_fillsBuffer] at htext
  cases htext

end RelizOS.RelizFs
