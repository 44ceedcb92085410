import RelizOS.Allocator.Collections
import RelizOS.RelizFs.Listing

/-!
# Memory statistics

The shell's `free` asks for the used memory with system call 5 and shows it beside a total and the
difference. Its total is 1 MiB, whereas the kernel gives the heap 32 MiB, so the difference does not
exist in every state of the heap: `free` panics exactly when the live blocks were requested with
more than 1 MiB together (`free_returns_iff`), which one allocation can bring about
(`not_free_returns`).
-/

namespace RelizOS

open ByteMemory HeapAllocator LabelledRun RelizFs

/-! ## The command -/

/-- `format_num`: the digits of a number, in a buffer of 20 bytes. The loop is the one that the file
system server has for sizes. -/
def formatNum (val : ℕ) : Checked (List UInt8) :=
  if val = 0 then return [48] else sizeDigits 20 val []

/-- `append_out`: the text grows as far as it fits into 128 bytes. -/
def appendOut (output s : List UInt8) : List UInt8 := output ++ s.take (128 - output.length)

/-- System call 5. -/
def getUsedMemory (h : HeapAllocator) : ℕ := h.usedMemory

/-- `total`. -/
def shellTotal : ℕ := 1024 * 1024

/-- The command `free`: the text that is printed. -/
def shellFree (h : HeapAllocator) : Checked (List UInt8) := do
  let usedMem := getUsedMemory h
  let total := shellTotal
  let free ← Checked.sub total usedMem
  let bufTotal ← formatNum total
  let bufUsed ← formatNum usedMem
  let bufFree ← formatNum free
  let output := appendOut [] (bytesOf "Heap Memory Stats:\n  Total size: ")
  let output := appendOut output bufTotal
  let output := appendOut output (bytesOf " bytes\n  Used size:  ")
  let output := appendOut output bufUsed
  let output := appendOut output (bytesOf " bytes\n  Free size:  ")
  let output := appendOut output bufFree
  return appendOut output (bytesOf " bytes\n")

theorem formatNum_eq {val : ℕ} (h : val < 2 ^ 64) :
    formatNum val = .ok (bytesOf (toString val)) := by
  rw [formatNum]
  by_cases hzero : val = 0
  · rw [if_pos hzero, hzero]
    decide +kernel
  · rw [if_neg hzero, sizeDigits_eq (Nat.pos_of_ne_zero hzero), List.append_nil]
    exact h.trans (by norm_num)

/-- The command panics exactly when more is in use than its total. -/
theorem returns_shellFree {h : HeapAllocator} (hused : h.usedMemory < 2 ^ 64) :
    (shellFree h).Returns ↔ h.usedMemory ≤ shellTotal := by
  constructor
  · intro hreturns
    obtain ⟨free, hfree, -⟩ := Checked.returns_bind.mp hreturns
    exact (Checked.sub_eq_ok.mp hfree).1
  · intro hle
    have hfree : shellTotal - h.usedMemory < 2 ^ 64 :=
      lt_of_le_of_lt (Nat.sub_le _ _) (by norm_num [shellTotal])
    rw [shellFree, getUsedMemory]
    dsimp only
    rw [Checked.sub_of_le hle, Checked.ok_bind, formatNum_eq (by norm_num [shellTotal]),
      Checked.ok_bind, formatNum_eq hused, Checked.ok_bind, formatNum_eq hfree, Checked.ok_bind]
    exact ⟨_, rfl⟩

/-! ## Runs of the kernel's heap -/

/-- With the block that is requested, the live blocks have at most the shell's total together. -/
def WithinTotal (c : Client) : HeapOp → Prop
  | .alloc L => c.liveSize + L.size ≤ shellTotal
  | .dealloc _ => True
  | .store _ _ _ => True

section

variable {m : Mem} {start : ℕ} {h : HeapAllocator} {ops : List HeapOp} {c : Client}

theorem liveSize_step {c' : Client} {op : HeapOp} (hle : c.liveSize ≤ shellTotal)
    (hstep : guarded WithinTotal HeapStep c op c') : c'.liveSize ≤ shellTotal := by
  obtain ⟨hwithin, hstep⟩ := hstep
  cases hstep with
  | @alloc L p h hok =>
    rw [WithinTotal] at hwithin
    rw [Client.liveSize]
    dsimp only
    split
    · exact hle
    · rw [List.map_cons, List.sum_cons, add_comm]
      exact hwithin
  | @dealloc b h hb hok =>
    have hsum := ((List.perm_cons_erase hb).map fun b ↦ b.layout.size).sum_eq
    rw [List.map_cons, List.sum_cons] at hsum
    rw [Client.liveSize] at hle ⊢
    dsimp only
    omega
  | @store b i v hb hi => exact hle

theorem returns_shellFree_of_run (htop : start + kernelHeapSize < 2 ^ 64)
    (hinit : (HeapAllocator.new m).init start kernelHeapSize = .ok h)
    (hrun : Run HeapStep ⟨h, []⟩ ops c) :
    (shellFree c.heap).Returns ↔ c.liveSize ≤ shellTotal := by
  obtain ⟨nodes, hinv⟩ := HeapInv.of_run (sixteen_le_of_init hinit) htop hinit hrun
  have hexact := hinv.usedExact htop
  have hle := hexact.le
  rw [Span.len, Nat.add_sub_cancel_left, kernelHeapSize] at hle
  rw [returns_shellFree (by omega), hexact.sum]

/-- **When `free` works**: in every state in which the live blocks have at most 1 MiB together. A
run whose allocations keep to this never makes it panic. -/
theorem free_returns_iff (htop : start + kernelHeapSize < 2 ^ 64)
    (hinit : (HeapAllocator.new m).init start kernelHeapSize = .ok h) :
    (∀ ops c, Run (guarded WithinTotal HeapStep) ⟨h, []⟩ ops c → (shellFree c.heap).Returns) ∧
      ∀ ops c, Run HeapStep ⟨h, []⟩ ops c →
        ((shellFree c.heap).Returns ↔ c.liveSize ≤ shellTotal) := by
  constructor
  · intro ops c hrun
    have hle : c.liveSize ≤ shellTotal :=
      hrun.invariant (P := fun c ↦ c.liveSize ≤ shellTotal) (Nat.zero_le _)
        fun _ _ _ hle hstep ↦ liveSize_step hle hstep
    exact (returns_shellFree_of_run htop hinit (hrun.mono fun _ _ _ hstep ↦ hstep.2)).mpr hle
  · intro ops c hrun
    exact returns_shellFree_of_run htop hinit hrun

end

theorem free_returns_page : ∃ h c,
    (HeapAllocator.new fun _ ↦ 0).init 0x100000 kernelHeapSize = .ok h ∧
      Run (guarded WithinTotal HeapStep) ⟨h, []⟩ [.alloc pageLayout] c ∧
      (shellFree c.heap).Returns := by
  have htop : 0x100000 + kernelHeapSize < 2 ^ 64 := by norm_num [kernelHeapSize]
  have hinit : (HeapAllocator.new fun _ ↦ 0).init 0x100000 kernelHeapSize = .ok _ :=
    init_eq (by norm_num [kernelHeapSize])
  obtain ⟨nodes, hinv⟩ := HeapInv.init (by norm_num [kernelHeapSize]) htop hinit
  obtain ⟨c, hstep⟩ := hinv.exists_alloc (L := pageLayout) htop
    (HeapOp.noWrap_of_lt (by norm_num [kernelHeapSize]) _)
  have hrun : Run (guarded WithinTotal HeapStep) _ [.alloc pageLayout] c :=
    .snoc .nil ⟨by norm_num [WithinTotal, Client.liveSize, pageLayout, shellTotal], hstep⟩
  exact ⟨_, c, hinit, hrun, (free_returns_iff htop hinit).1 _ _ hrun⟩

/-- A layout of 2 MiB. -/
def twoMiB : Layout := ⟨2 * 1024 * 1024, 16, ⟨4, rfl⟩, by norm_num⟩

/-- **One large allocation makes `free` panic.** -/
theorem not_free_returns :
    ¬∀ (m : Mem) (start : ℕ) (h : HeapAllocator) (ops : List HeapOp) (c : Client),
      start + kernelHeapSize < 2 ^ 64 →
      (HeapAllocator.new m).init start kernelHeapSize = .ok h →
      Run HeapStep ⟨h, []⟩ ops c → (shellFree c.heap).Returns := by
  intro hgeneral
  have htop : 0x100000 + kernelHeapSize < 2 ^ 64 := by norm_num [kernelHeapSize]
  have hinit : (HeapAllocator.new fun _ ↦ 0).init 0x100000 kernelHeapSize = .ok _ :=
    init_eq (by norm_num [kernelHeapSize])
  obtain ⟨hinv, hread⟩ :=
    HeapInv.fresh (by norm_num [kernelHeapSize]) (by norm_num) htop hinit
  rcases hinv.alloc_spec (L := twoMiB) htop
    (HeapOp.noWrap_of_lt (by norm_num [kernelHeapSize]) (.alloc twoMiB)) with
    ⟨hnone, -⟩ | ⟨pre, q, post, -, -, -, hne, hok⟩
  · refine hnone 0x100000 List.mem_cons_self ?_
    rw [Fits, hread]
    decide
  · have hrun := Run.nil.snoc (HeapStep.alloc hok)
    have hreturns := hgeneral _ _ _ _ _ htop hinit hrun
    have hle := (returns_shellFree_of_run htop hinit hrun).mp hreturns
    rw [if_neg hne] at hle
    exact absurd hle (by norm_num [Client.liveSize, twoMiB, shellTotal])

end RelizOS
