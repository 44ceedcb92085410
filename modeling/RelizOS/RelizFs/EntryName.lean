import RelizOS.RelizFs.Lookup
import RelizOS.RelizFs.Mounting

/-!
# Names of new entries

`DirectoryEntry::new` keeps the first 27 bytes of a name. When they end inside a character, the
entry has no name that can be decoded: the listing does not show it and no look-up finds it. When
they do not, the entry has the name, or as much of it as fits, and it can be seen, unless it is all
zeros like an entry that is not in use (`decodesAndShows_iff`).
-/

open ByteMemory

namespace RelizOS.RelizFs

variable {n : UInt32} {s t : String}

/-! ## Decoding -/

theorem toNat_nameLen_new :
    (DirectoryEntry.new n s).nameLen.toNat = min (bytesOf s).length 27 := by
  rw [DirectoryEntry.new, UInt8.toNat_ofNat_of_lt' (by rw [UInt8.size, maxFilenameLen]; omega),
    maxFilenameLen]

/-- The name of a new entry has the first 27 bytes of the name it was made with. -/
theorem getName_new_eq_some :
    (DirectoryEntry.new n s).getName = some t ↔ bytesOf t = (bytesOf s).take 27 := by
  have hget : ∀ i (hi : i < 27), (DirectoryEntry.new n s).name[i] = ((bytesOf s)[i]?).getD 0 :=
    fun i hi ↦ Vector.getElem_ofFn hi
  have hbytes : (DirectoryEntry.new n s).name.toList.take (min (bytesOf s).length 27) =
      (bytesOf s).take 27 := by
    apply List.ext_getElem
    · simp only [List.length_take, Vector.length_toList]
      omega
    · intro i hi hi'
      rw [List.length_take] at hi'
      simp only [List.getElem_take, Vector.getElem_toList, hget i (by omega)]
      rw [List.getElem?_eq_getElem (by omega), Option.getD_some]
  rw [DirectoryEntry.getName, fromUtf8_eq_some, toNat_nameLen_new, maxFilenameLen, min_assoc,
    min_self, hbytes]

theorem getName_new_of_le (h : (bytesOf s).length ≤ 27) :
    (DirectoryEntry.new n s).getName = some s := by
  rw [getName_new_eq_some, List.take_of_length_le h]

/-- **A new entry has a name** exactly when the name it was made with fits, or has a character that
begins at byte 27. -/
theorem exists_getName_new :
    (∃ t, (DirectoryEntry.new n s).getName = some t) ↔
      (bytesOf s).length ≤ 27 ∨ (⟨27⟩ : String.Pos.Raw).IsValid s := by
  by_cases hlen : (bytesOf s).length ≤ 27
  · exact iff_of_true ⟨s, getName_new_of_le hlen⟩ (Or.inl hlen)
  · simp only [getName_new_eq_some, hlen, false_or]
    exact exists_bytesOf_eq_take (by omega)

theorem exists_append_of_getName_new (h : (DirectoryEntry.new n s).getName = some t) :
    ∃ u, s = t ++ u :=
  exists_append_of_bytesOf_prefix (getName_new_eq_some.mp h ▸ List.take_prefix 27 _)

/-! ## Showing -/

/-- In every directory with the entry, the listing shows its number under a name, and a look-up of
the name finds an entry. -/
def DirectoryEntry.ShownAs (e : DirectoryEntry) (name : String) : Prop :=
  ∀ (r : RelizFsReader) (d : Drive) (dir : Inode), dir.IsDirectory →
    BlocksReadable d dir.directBlocks.toList → e ∈ entriesIn d dir.directBlocks.toList →
      (∀ lines result, r.listDirectory d dir = .ok (lines, result) →
        ∃ l ∈ lines, l.name = name ∧ l.inodeNum = e.inodeNum) ∧
      ∃ inodeNum, (findEntry d dir name).run = .ok (.ok inodeNum)

/-- A directory with one entry. -/
def singleEntry (e : DirectoryEntry) : Drive := fun _ ↦
  .ok (writeBytes (fun _ ↦ 0) 0 ((e :: List.replicate 15 emptyEntry).flatMap DirectoryEntry.bytes))

/-- The inode of the directory. -/
def singleEntryDir : Inode := inodeWith 512 2 1

theorem singleEntryDir_blocks : singleEntryDir.directBlocks.toList = 1 :: List.replicate 9 0 := by
  with_unfolding_all decide

theorem blocksReadable_singleEntry (e : DirectoryEntry) :
    BlocksReadable (singleEntry e) singleEntryDir.directBlocks.toList :=
  blocksReadable_cons singleEntryDir_blocks (by decide) ⟨_, rfl⟩

theorem entriesIn_singleEntry (e : DirectoryEntry) :
    entriesIn (singleEntry e) singleEntryDir.directBlocks.toList =
      e :: List.replicate 15 emptyEntry := by
  have hfilter : (singleEntryDir.directBlocks.toList.filter (· ≠ 0)) = [1] := by
    with_unfolding_all decide
  have hheld : BytesAt (block (singleEntry e) 1) 0
      ((e :: List.replicate 15 emptyEntry).flatMap DirectoryEntry.bytes) :=
    bytesAt_writeBytes (fun _ ↦ 0) 0 _
  rw [entriesIn, hfilter, List.flatMap_singleton]
  exact entriesOf_bytes rfl hheld

/-- **An entry is shown** exactly when it is in use and its name can be decoded. -/
theorem DirectoryEntry.shownAs_iff {e : DirectoryEntry} {name : String} :
    e.ShownAs name ↔ e.Named name := by
  constructor
  · intro h
    have hblocks := blocksReadable_singleEntry e
    have hdir : singleEntryDir.IsDirectory := by with_unfolding_all decide
    obtain ⟨-, hfind⟩ := h ⟨newSuperblock⟩ (singleEntry e) singleEntryDir hdir hblocks
      (by rw [entriesIn_singleEntry]; exact List.mem_cons_self)
    obtain ⟨e', he', hnamed⟩ := (exists_findEntry hdir hblocks).mp hfind
    rw [entriesIn_singleEntry, List.mem_cons] at he'
    -- no other entry of the directory is in use
    obtain rfl | hempty := he'
    · exact hnamed
    · rw [List.eq_of_mem_replicate hempty] at hnamed
      exact absurd hnamed.1 (by decide)
  · intro h r d dir hdir hblocks he
    refine ⟨fun lines result hlist ↦ ?_, (exists_findEntry hdir hblocks).mpr ⟨e, he, h⟩⟩
    have hpair : (name, e.inodeNum) ∈ namedPairs (entriesIn d dir.directBlocks.toList) :=
      List.mem_filterMap.mpr ⟨e, he, namedPair_eq_some.mpr ⟨h, rfl⟩⟩
    rw [RelizFsReader.listDirectory, if_pos hdir, listBlocks_eq hblocks] at hlist
    obtain ⟨lines', hlines, hlist⟩ := Checked.bind_eq_ok.mp hlist
    obtain ⟨rfl, -⟩ := Prod.mk.inj (Except.ok.inj hlist)
    rw [← pair_of_listEntries hlines] at hpair
    obtain ⟨l, hl, hpair⟩ := List.mem_map.mp hpair
    obtain ⟨hname, hnum⟩ := Prod.mk.inj hpair
    exact ⟨l, hl, hname, hnum⟩

/-! ## New entries -/

/-- The entry can be decoded, to its name if that fits and else to the beginning of it, and it is
shown under what is decoded. -/
def DecodesAndShows (n : UInt32) (s : String) : Prop :=
  ∃ t, (DirectoryEntry.new n s).getName = some t ∧ (∃ u, s = t ++ u) ∧
    ((bytesOf s).length ≤ 27 → t = s) ∧ (DirectoryEntry.new n s).ShownAs t

theorem nameLen_new_pos : 0 < (DirectoryEntry.new n s).nameLen ↔ s ≠ "" := by
  have hempty : (bytesOf s).length = 0 ↔ s = "" := by
    rw [length_bytesOf, String.utf8ByteSize_eq_zero_iff]
  rw [UInt8.lt_iff_toNat_lt, toNat_nameLen_new, Ne, ← hempty]
  change 0 < _ ↔ _
  omega

/-- **A new entry decodes and is shown** exactly when the cut is not inside a character and the
entry is not the one of zeros. -/
theorem decodesAndShows_iff :
    DecodesAndShows n s ↔
      ((bytesOf s).length ≤ 27 ∨ (⟨27⟩ : String.Pos.Raw).IsValid s) ∧ (n ≠ 0 ∨ s ≠ "") := by
  have hnum : (DirectoryEntry.new n s).inodeNum = n := rfl
  rw [← exists_getName_new (n := n)]
  constructor
  · rintro ⟨t, hname, -, -, hshown⟩
    refine ⟨⟨t, hname⟩, ?_⟩
    rw [← nameLen_new_pos (n := n), ← hnum]
    exact (DirectoryEntry.shownAs_iff.mp hshown).1
  · rintro ⟨⟨t, hname⟩, huse⟩
    rw [← nameLen_new_pos (n := n), ← hnum] at huse
    refine ⟨t, hname, exists_append_of_getName_new hname, fun hlen ↦ ?_,
      DirectoryEntry.shownAs_iff.mpr ⟨huse, hname⟩⟩
    exact Option.some.inj (hname.symm.trans (getName_new_of_le hlen))

/-- A name of 28 bytes whose bytes 26 and 27 are one character. -/
def accents : String := "éééééééééééééé"

/-- **A name that is cut inside a character** is lost. -/
theorem not_decodesAndShows : ¬∀ n s, DecodesAndShows n s := by
  intro h
  obtain ⟨t, hname, -⟩ := h 1 accents
  have hcut := exists_getName_new.mp ⟨t, hname⟩
  revert hcut
  decide +kernel

end RelizOS.RelizFs
