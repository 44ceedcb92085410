import Mathlib.Tactic.IntervalCases
import RelizOS.Library.ByteMemory
import RelizOS.Library.Checked

/-!
# The heap allocator

The kernel's global allocator is a first-fit free list. Its nodes live in the memory they describe:
a free block starts with a 16-byte `FreeNode` header, and `size` counts the bytes behind the header.
The list head is a static node outside the heap; `initialized` is the flag that makes a second
`init` a no-op.

A block handed out has no header of its own. Sixteen bytes in front of the returned pointer are
reserved, and only `dealloc` turns them into a `FreeNode` again, from the layout it is given.

## Representation

Addresses and sizes are natural numbers, every `usize` operation of the source is a checked one, and
the memory is byte-addressed, since nothing forces a node to an aligned address. The `while` loop of
`alloc` walks a list in memory, which the definition cannot know to be finite; it takes a bound on
the number of visited nodes. The address space has room for `maxNodes` headers and no more, so on a
list whose nodes do not overlap the bound is never met.
-/

namespace RelizOS

open ByteMemory

/-! ## Layouts -/

/-- `core::alloc::Layout`. The alignment is a power of two, and the size rounded up to the alignment
fits in an `isize`. -/
structure Layout where
  /-- The requested number of bytes. -/
  size : ℕ
  /-- The requested alignment. -/
  align : ℕ
  /-- Alignments are powers of two. -/
  align_pow : ∃ k, align = 2 ^ k
  /-- The padded size does not exceed `isize::MAX`. -/
  size_add_align_le : size + align ≤ 2 ^ 63
  deriving DecidableEq

/-- Round `addr` up to a multiple of `align`, for `align` a power of two. -/
def alignUp (addr align : ℕ) : Checked ℕ := do
  let sum ← Checked.add 64 addr align
  let last ← Checked.sub sum 1
  let mask ← Checked.sub align 1
  pure (last &&& Checked.not64 mask)

/-! ## Free nodes -/

/-- The header of a free block. -/
structure FreeNode where
  /-- The number of bytes behind the header. -/
  size : ℕ
  /-- The next free block, or null. -/
  next : ℕ
  deriving DecidableEq

/-- `core::mem::size_of::<FreeNode>()`. -/
def sizeOfFreeNode : ℕ := 16

/-- The `FreeNode` at address `p`. -/
def readNode (m : Mem) (p : ℕ) : FreeNode := ⟨readUsize m p, readUsize m (p + 8)⟩

/-- `ptr::write` of a `FreeNode`. -/
def writeNode (m : Mem) (p : ℕ) (node : FreeNode) : Mem :=
  writeUsize (writeUsize m p node.size) (p + 8) node.next

/-- The allocator, its memory, and the counter `USED_MEMORY`. -/
structure HeapAllocator where
  /-- The static node in front of the list. -/
  head : FreeNode
  /-- Whether `init` has run. -/
  initialized : Bool
  /-- `USED_MEMORY`. -/
  usedMemory : ℕ
  /-- The memory the nodes live in. -/
  mem : Mem

namespace HeapAllocator

/-- The allocator before `init`, over a memory with arbitrary contents. -/
def new (m : Mem) : HeapAllocator :=
  { head := ⟨0, 0⟩, initialized := false, usedMemory := 0, mem := m }

/-- Turn `[start, start + size)` into one free block, the first time it is called. -/
def init (h : HeapAllocator) (start size : ℕ) : Checked HeapAllocator :=
  if h.initialized then pure h
  else do
    let nodeSize ← Checked.sub size sizeOfFreeNode
    pure { h with
      mem := writeNode h.mem start ⟨nodeSize, 0⟩
      head := { h.head with next := start }
      initialized := true }

/-- `(*prev).next = p`, where `prev` is the static head or a node in memory. -/
def setNext (h : HeapAllocator) (prev : Option ℕ) (p : ℕ) : HeapAllocator :=
  match prev with
  | none => { h with head := { h.head with next := p } }
  | some q => { h with mem := writeUsize h.mem (q + 8) p }

/-- Take the chosen node out of the list, or put a new node made of its remaining bytes in its
place when they can hold a header and 16 bytes more. -/
def replaceNode (h : HeapAllocator) (prev : Option ℕ) (nextNode allocStart size remaining : ℕ) :
    Checked HeapAllocator :=
  if sizeOfFreeNode + 16 ≤ remaining then do
    let newNodePtr ← Checked.add 64 allocStart size
    let newSize ← Checked.sub remaining sizeOfFreeNode
    pure (setNext { h with mem := writeNode h.mem newNodePtr ⟨newSize, nextNode⟩ } prev newNodePtr)
  else pure (setNext h prev nextNode)

/-- The number of headers the address space has room for. -/
def maxNodes : ℕ := 2 ^ 60

/-- The search loop of `alloc`: `prev` holds the link to `curr`. -/
def allocLoop (layout : Layout) (size align : ℕ) (h : HeapAllocator) :
    ℕ → Option ℕ → ℕ → Checked (ℕ × HeapAllocator)
  | 0, _, _ => .error .diverges
  | fuel + 1, prev, curr =>
    if curr = 0 then pure (0, h)
    else do
      let node := readNode h.mem curr
      let afterHeader ← Checked.add 64 curr sizeOfFreeNode
      let allocStart ← alignUp afterHeader align
      let padded ← Checked.sub allocStart curr
      let neededSpace ← Checked.add 64 padded size
      let space ← Checked.add 64 node.size sizeOfFreeNode
      if neededSpace ≤ space then do
        let remaining ← Checked.sub space neededSpace
        let h' ← replaceNode h prev node.next allocStart size remaining
        let used ← Checked.add 64 h'.usedMemory layout.size
        pure (allocStart, { h' with usedMemory := used })
      else allocLoop layout size align h fuel (some curr) node.next

/-- `GlobalAlloc::alloc`: the returned pointer, null when no block fits. -/
def alloc (h : HeapAllocator) (layout : Layout) : Checked (ℕ × HeapAllocator) := do
  let size ← alignUp layout.size 16
  let align ← alignUp layout.align 16
  allocLoop layout size align h maxNodes none h.head.next

/-- `GlobalAlloc::dealloc`. -/
def dealloc (h : HeapAllocator) (ptr : ℕ) (layout : Layout) : Checked HeapAllocator := do
  let nodePtr ← Checked.sub ptr sizeOfFreeNode
  let size ← alignUp layout.size 16
  let mem := writeNode h.mem nodePtr ⟨size, h.head.next⟩
  let used ← Checked.sub h.usedMemory layout.size
  pure { h with mem := mem, head := { h.head with next := nodePtr }, usedMemory := used }

end HeapAllocator

/-! ## Rounding

What the masked sum computes, for the powers of two it is called with. -/

/-- The least multiple of `align` that is at least `addr`. -/
def roundUp (addr align : ℕ) : ℕ := (addr + align - 1) / align * align

theorem alignUp_eq {addr k : ℕ} (h : addr + 2 ^ k < 2 ^ 64) :
    alignUp addr (2 ^ k) = .ok (roundUp addr (2 ^ k)) := by
  have hpos : 0 < 2 ^ k := Nat.two_pow_pos k
  have hk : k ≤ 64 := by
    by_contra hk
    have hle : 2 ^ 64 ≤ 2 ^ k := Nat.pow_le_pow_right (by omega) (by omega)
    omega
  rw [alignUp, Checked.add_of_lt h, Checked.ok_bind, Checked.sub_of_le (by omega),
    Checked.ok_bind, Checked.sub_of_le (by omega), Checked.ok_bind, Checked.pure_eq_ok,
    Checked.land_not64 (by omega) hk, roundUp]

theorem dvd_roundUp (addr align : ℕ) : align ∣ roundUp addr align := Dvd.intro_left _ rfl

theorem le_roundUp (addr : ℕ) {align : ℕ} (h : 0 < align) : addr ≤ roundUp addr align := by
  have hdiv := Nat.div_add_mod (addr + align - 1) align
  have hmod := Nat.mod_lt (addr + align - 1) h
  rw [roundUp, mul_comm]
  omega

theorem roundUp_lt (addr : ℕ) {align : ℕ} (h : 0 < align) : roundUp addr align < addr + align := by
  have hdiv := Nat.div_add_mod (addr + align - 1) align
  rw [roundUp, mul_comm]
  omega

theorem roundUp_pow_sixteen (k : ℕ) : roundUp (2 ^ k) 16 = 2 ^ max k 4 := by
  rcases Nat.lt_or_ge k 4 with hk | hk
  · rw [max_eq_right hk.le]
    interval_cases k <;> rfl
  · obtain ⟨j, rfl⟩ := Nat.exists_eq_add_of_le hk
    rw [max_eq_left (by omega), pow_add, roundUp]
    omega

namespace Layout

variable (L : Layout)

/-- The size `alloc` and `dealloc` round the request to. -/
def roundedSize : ℕ := roundUp L.size 16

/-- The alignment `alloc` rounds the request to. -/
def roundedAlign : ℕ := roundUp L.align 16

theorem size_le_roundedSize : L.size ≤ L.roundedSize := le_roundUp _ (by omega)

theorem roundedSize_lt : L.roundedSize < L.size + 16 := roundUp_lt _ (by omega)

/-- The rounded alignment is again a power of two, at least 16, and a multiple of the request. -/
theorem roundedAlign_spec :
    ∃ j, L.roundedAlign = 2 ^ j ∧ 4 ≤ j ∧ j ≤ 63 ∧ L.align ∣ L.roundedAlign := by
  obtain ⟨k, hk⟩ := L.align_pow
  have hle : 2 ^ k ≤ 2 ^ 63 := by
    have := L.size_add_align_le
    omega
  have hk63 : k ≤ 63 := (Nat.pow_le_pow_iff_right (by omega)).mp hle
  refine ⟨max k 4, by rw [roundedAlign, hk, roundUp_pow_sixteen], le_max_right _ _, by omega, ?_⟩
  rw [roundedAlign, hk, roundUp_pow_sixteen]
  exact Nat.pow_dvd_pow 2 (le_max_left _ _)

theorem alignUp_size : alignUp L.size 16 = .ok L.roundedSize :=
  alignUp_eq (k := 4) (by have := L.size_add_align_le; omega)

theorem alignUp_align : alignUp L.align 16 = .ok L.roundedAlign :=
  alignUp_eq (k := 4) (by have := L.size_add_align_le; omega)

end Layout

/-! ## Reading and writing headers -/

@[simp] theorem readNode_size (m : Mem) (p : ℕ) : (readNode m p).size = readUsize m p := rfl

theorem writeNode_outside {m : Mem} {p b : ℕ} {node : FreeNode} (h : b < p ∨ p + 16 ≤ b) :
    writeNode m p node b = m b := by
  rw [writeNode, writeUsize, writeLE_outside (by omega), writeUsize, writeLE_outside (by omega)]

theorem readUsize_writeNode_size {m : Mem} {p : ℕ} {node : FreeNode} (h : node.size < 2 ^ 64) :
    readUsize (writeNode m p node) p = node.size := by
  rw [writeNode, readUsize_writeUsize_of_disjoint (by omega), readUsize_writeUsize_self h]

theorem readUsize_writeNode_next {m : Mem} {p : ℕ} (node : FreeNode) (h : node.next < 2 ^ 64) :
    readUsize (writeNode m p node) (p + 8) = node.next := by
  rw [writeNode, readUsize_writeUsize_self h]

end RelizOS
