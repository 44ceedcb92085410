import RelizOS.Allocator.Safety

/-!
# The counter of used memory

`alloc` adds the requested size of a block to `USED_MEMORY`, and `dealloc` subtracts it. After any
run the counter is the sum of the sizes of the live blocks. Since each of them is at most the length
of its span, and the spans are a packing of the heap, the counter is at most the size of the heap,
and neither operation can wrap (`used_memory`).
-/

namespace RelizOS

open ByteMemory HeapAllocator LabelledRun

/-- The requested sizes of the live blocks, together. -/
def Client.liveSize (c : Client) : ℕ := (c.live.map fun b ↦ b.layout.size).sum

/-- The counter is exact, and bounded by the size of the heap. -/
structure UsedExact (size : ℕ) (c : Client) : Prop where
  sum : c.heap.usedMemory = c.liveSize
  le : c.heap.usedMemory ≤ size
  /-- An allocation that fails does not count. -/
  failed : ∀ L h, c.heap.alloc L = .ok (0, h) → h.usedMemory = c.heap.usedMemory
  /-- When a node fits, there is room for the size in the counter. -/
  add : ∀ nodes, Chain (nextOf c.heap.mem) c.heap.head.next nodes →
    ∀ L, ∀ p ∈ nodes, Fits c.heap.mem L p → c.heap.usedMemory + L.size < 2 ^ 64
  /-- A live block has been counted. -/
  sub : ∀ b ∈ c.live, b.layout.size ≤ c.heap.usedMemory

namespace HeapInv

variable {arena : Span} {c : Client} {nodes : List ℕ}

/-- With a block in a node that fits, the counter would still count part of a packing. -/
theorem used_add_le (hinv : HeapInv arena c nodes) (hhi : arena.hi < 2 ^ 64) {L : Layout} {p : ℕ}
    (hp : p ∈ nodes) (hfit : Fits c.heap.mem L p) : c.heap.usedMemory + L.size ≤ arena.len := by
  obtain ⟨pre, post, rfl⟩ := List.append_of_mem hp
  exact (hinv.alloc_carve hhi hfit).used_le

theorem usedExact (hinv : HeapInv arena c nodes) (hhi : arena.hi < 2 ^ 64) :
    UsedExact arena.len c where
  sum := hinv.used
  le := hinv.used_le
  failed L h hok := by
    rcases hinv.alloc_ok hhi hok with ⟨-, rfl, -⟩ | ⟨pre, q, post, -, -, -, -, hne, -⟩
    · rfl
    · exact absurd rfl hne
  add nodes' hchain L p hp hfit := by
    obtain rfl := hchain.unique hinv.chain
    have hle := hinv.used_add_le hhi hp hfit
    rw [Span.len] at hle
    omega
  sub b hb := by
    rw [hinv.used]
    exact List.le_sum_of_mem (List.mem_map_of_mem hb)

end HeapInv

theorem HeapInv.exists_alloc {arena : Span} {c : Client} {nodes : List ℕ}
    (hinv : HeapInv arena c nodes) (hhi : arena.hi < 2 ^ 64) {L : Layout}
    (hL : HeapOp.NoWrap arena.hi (.alloc L)) : ∃ c', HeapStep c (.alloc L) c' := by
  rcases hinv.alloc_spec hhi hL with ⟨-, hok⟩ | ⟨pre, q, post, -, -, -, -, hok⟩
  · exact ⟨_, .alloc hok⟩
  · exact ⟨_, .alloc hok⟩

theorem HeapInv.of_run {m : Mem} {start size : ℕ} {h : HeapAllocator} (hsize : 16 ≤ size)
    (htop : start + size < 2 ^ 64) (hinit : (HeapAllocator.new m).init start size = .ok h)
    {ops : List HeapOp} {c : Client} (hrun : Run HeapStep ⟨h, []⟩ ops c) :
    ∃ nodes, HeapInv ⟨start, start + size⟩ c nodes :=
  HeapInv.run htop (HeapInv.init hsize htop hinit) hrun

/-- `init` panics on a heap without room for a header. -/
theorem sixteen_le_of_init {m : Mem} {start size : ℕ} {h : HeapAllocator}
    (hinit : (HeapAllocator.new m).init start size = .ok h) : 16 ≤ size := by
  rw [HeapAllocator.init, if_neg (by simp [HeapAllocator.new])] at hinit
  obtain ⟨nodeSize, hsub, -⟩ := Checked.bind_eq_ok.mp hinit
  exact (Checked.sub_eq_ok.mp hsub).1

/-- **`USED_MEMORY` counts what is in use**, after any run from a fresh heap. -/
theorem used_memory {m : Mem} {start size : ℕ} {h : HeapAllocator}
    (htop : start + size < 2 ^ 64) (hinit : (HeapAllocator.new m).init start size = .ok h)
    {ops : List HeapOp} {c : Client} (hrun : Run HeapStep ⟨h, []⟩ ops c) : UsedExact size c := by
  obtain ⟨nodes, hinv⟩ := HeapInv.of_run (sixteen_le_of_init hinit) htop hinit hrun
  have hexact := hinv.usedExact htop
  rwa [Span.len, Nat.add_sub_cancel_left] at hexact

/-- A layout of one page. -/
def pageLayout : Layout := ⟨4096, 4096, ⟨12, rfl⟩, by norm_num⟩

theorem used_memory_page : ∃ h c,
    (HeapAllocator.new fun _ ↦ 0).init 0x10000 (32 * 1024 * 1024) = .ok h ∧
      Run HeapStep ⟨h, []⟩ [.alloc pageLayout] c ∧ UsedExact (32 * 1024 * 1024) c := by
  have htop : 0x10000 + 32 * 1024 * 1024 < 2 ^ 64 := by norm_num
  have hinit : (HeapAllocator.new fun _ ↦ 0).init 0x10000 (32 * 1024 * 1024) = .ok _ :=
    init_eq (by norm_num)
  obtain ⟨nodes, hinv⟩ := HeapInv.init (by norm_num) htop hinit
  obtain ⟨c, hstep⟩ := hinv.exists_alloc htop (HeapOp.noWrap_of_lt (by norm_num) _)
  exact ⟨_, c, hinit, .snoc .nil hstep, used_memory htop hinit (.snoc .nil hstep)⟩

end RelizOS
