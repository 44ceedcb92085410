import RelizOS.RelizFs.Agreement
import RelizOS.RelizFs.Formatter
import RelizOS.RelizFs.Panics

/-!
# How much of a file is read

`read_file` goes over the ten direct blocks and stops at the first that is not allocated, at the end
of the file, or when the buffer is full. What it returns is the number of bytes it has copied: the
least of the size of the file, the length of the buffer, and the bytes in the blocks before the
first hole (`readFile_correct`). A file that has more bytes than these blocks is therefore read
short, and the number returned is all that says so (`readFile_reports`): the reader takes no notice
of the indirect blocks, and to it a hole is where the file ends.
-/

open ByteMemory

namespace RelizOS.RelizFs

/-- The direct blocks of an inode before the first that is not allocated. -/
def Inode.leadingBlocks (i : Inode) : List UInt32 := i.directBlocks.toList.takeWhile (· ≠ 0)

/-- What a file has to give to a buffer. -/
def Inode.wanted (i : Inode) (outBuf : List UInt8) : ℕ := min i.size.toNat outBuf.length

variable {d : Drive} {inode : Inode} {outBuf : List UInt8}

theorem length_dataIn (blocks : List UInt32) :
    (dataIn d blocks).length = blockSize * (blocks.takeWhile (· ≠ 0)).length := by
  rw [dataIn, List.length_flatMap]
  simp [mul_comm]

theorem fileFits_of_forall {size pos : ℕ} {blocks : List UInt32}
    (h : ∀ b ∈ blocks.takeWhile (· ≠ 0), AddressFits b.toNat) : FileFits d size blocks pos := by
  induction blocks generalizing pos with
  | nil => trivial
  | cons b blocks ih =>
    by_cases hb : b = 0
    · exact Or.inl hb
    · rw [List.takeWhile_cons_of_pos (by simpa using hb), List.forall_mem_cons] at h
      exact Or.inr (Or.inr ⟨h.1, fun _ ↦ ih h.2⟩)

theorem readFile_eq (hd : Readable d) (hfile : inode.IsFile) {q : Except String (ℕ × List UInt8)}
    (h : (readFile d inode outBuf).run = .ok q) :
    q = .ok (min (inode.wanted outBuf) (blockSize * inode.leadingBlocks.length),
      (dataIn d inode.directBlocks.toList).take (inode.wanted outBuf) ++
        outBuf.drop (min (inode.wanted outBuf) (blockSize * inode.leadingBlocks.length))) := by
  rw [readFile, if_pos hfile, ← Inode.wanted] at h
  rw [readBlocks_eq hd (Nat.zero_le _) (min_le_right _ _) h, Nat.zero_add, length_dataIn,
    Nat.sub_zero, List.take_zero, List.nil_append, ← Inode.leadingBlocks]
  rfl

/-- **`read_file` copies the file** as far as it has a size, the buffer has room and the blocks go
on without a hole, and leaves the rest of the buffer alone. -/
theorem readFile_correct (hd : Readable d) (hfile : inode.IsFile)
    (hfits : ∀ b ∈ inode.leadingBlocks, AddressFits b.toNat) (outBuf : List UInt8) :
    ∃ n buf, (readFile d inode outBuf).run = .ok (.ok (n, buf)) ∧
      n = min (min inode.size.toNat outBuf.length) (512 * inode.leadingBlocks.length) ∧
      buf.take n = (inode.leadingBlocks.flatMap fun b ↦ sectorBytes (block d b) 512).take n ∧
      buf.drop n = outBuf.drop n := by
  obtain ⟨q, hq⟩ := returns_readFile.mpr (fun _ ↦ fileFits_of_forall hfits) outBuf
  obtain rfl := readFile_eq hd hfile hq
  have hlen := length_dataIn (d := d) inode.directBlocks.toList
  have htake : ((dataIn d inode.directBlocks.toList).take (inode.wanted outBuf)).length =
      min (inode.wanted outBuf) (blockSize * inode.leadingBlocks.length) := by
    rw [List.length_take, hlen, Inode.leadingBlocks]
  refine ⟨_, _, hq, rfl, ?_, List.drop_left' htake⟩
  -- taking more than there is takes all
  rw [List.take_left' htake, Inode.leadingBlocks, ← blockSize, ← dataIn, ← hlen,
    List.take_eq_take_iff]
  omega

theorem readFile_correct_smallImage : ∃ n buf,
    (readFile smallImage (inodeAt smallImage 1) [9, 9, 9, 9]).run = .ok (.ok (n, buf)) ∧
      n = 3 ∧ buf.drop 3 = [9] := by
  have hfile : (inodeAt smallImage 1).IsFile := by decide +kernel
  have hblocks : (inodeAt smallImage 1).leadingBlocks = [14] := by decide +kernel
  obtain ⟨n, buf, hrun, hn, -, hdrop⟩ := readFile_correct smallImage_readable hfile
    (by rw [hblocks]; simp [AddressFits, relizfsStartSector]) [9, 9, 9, 9]
  have hthree : n = 3 := hn.trans (by decide +kernel)
  subst hthree
  exact ⟨3, buf, hrun, rfl, hdrop⟩

/-! ## Short reads -/

/-- **A short read** is no error: `read_file` never fails on a regular file, and copies all that is
wanted exactly when the blocks before the first hole have as many bytes; otherwise it copies what
these have. -/
theorem readFile_reports (hd : Readable d) (hfile : inode.IsFile) (outBuf : List UInt8) :
    (∀ e, (readFile d inode outBuf).run ≠ .ok (.error e)) ∧
      ∀ n buf, (readFile d inode outBuf).run = .ok (.ok (n, buf)) →
        n ≤ min inode.size.toNat outBuf.length ∧
        (n = min inode.size.toNat outBuf.length ↔
          min inode.size.toNat outBuf.length ≤ 512 * inode.leadingBlocks.length) ∧
        (n < min inode.size.toNat outBuf.length → n = 512 * inode.leadingBlocks.length) := by
  constructor
  · intro e h
    cases readFile_eq hd hfile h
  · intro n buf h
    obtain ⟨hn, -⟩ := Prod.mk.inj (Except.ok.inj (readFile_eq hd hfile h))
    rw [Inode.wanted, blockSize] at hn
    omega

/-- A regular file of 1500 bytes whose second block is missing. -/
def fileWithHole : Inode :=
  let i := inodeWith 1500 1 14
  { i with directBlocks := i.directBlocks.setIfInBounds 2 13 }

/-- The theorem at this file: a buffer for all of it gets the first block. -/
theorem readFile_reports_fileWithHole : ∃ n buf,
    (readFile smallImage fileWithHole (List.replicate 1500 9)).run = .ok (.ok (n, buf)) ∧
      n = 512 ∧ n < min fileWithHole.size.toNat (List.replicate 1500 (9 : UInt8)).length := by
  have hfile : fileWithHole.IsFile := by decide
  have hblocks : fileWithHole.leadingBlocks = [14] := by decide
  have hsize : min fileWithHole.size.toNat (List.replicate 1500 (9 : UInt8)).length = 1500 := by
    rw [List.length_replicate]
    rfl
  obtain ⟨-, hall⟩ := readFile_reports smallImage_readable hfile (List.replicate 1500 9)
  have hfits : ∀ b ∈ fileWithHole.leadingBlocks, AddressFits b.toNat := by
    rw [hblocks]
    simp [AddressFits, relizfsStartSector]
  obtain ⟨q, hrun⟩ :=
    returns_readFile.mpr (fun _ ↦ fileFits_of_forall hfits) (List.replicate 1500 9)
  obtain rfl := readFile_eq smallImage_readable hfile hrun
  obtain ⟨hle, hwhole, hshort⟩ := hall _ _ hrun
  refine ⟨_, _, hrun, ?_⟩
  rw [hsize, hblocks, List.length_singleton] at *
  omega

/-- A regular file of two bytes without a block. -/
def fileOfHoles : Inode := inodeWith 2 1 0

/-- **It is read as an empty file.** -/
theorem not_readFile_complete :
    ¬∀ (d : Drive) (inode : Inode) (outBuf : List UInt8), Readable d → inode.IsFile →
      ∀ n buf, (readFile d inode outBuf).run = .ok (.ok (n, buf)) →
        n = min inode.size.toNat outBuf.length := by
  intro h
  have hrun : (readFile smallImage fileOfHoles [9, 9]).run = .ok (.ok (0, [9, 9])) := by
    decide +kernel
  have hn := h smallImage fileOfHoles [9, 9] smallImage_readable (by decide +kernel) 0 [9, 9] hrun
  revert hn
  decide +kernel

end RelizOS.RelizFs
