import RelizOS.Allocator.Search
import RelizOS.Library.LabelledRun

/-!
# The heap under a client

The allocator is run by a client that keeps a list of the blocks it holds. The client may allocate
with any layout, free any block it holds with the layout it was allocated with, and write any byte
of a block it holds. `HeapInv` is what survives every such run: the free list is a chain, and the
free nodes and the live blocks, each with the sixteen bytes in front of it, are a packing of the
arena passed to `init`.

Alignment padding and remainders below 32 bytes belong to no span of the packing. They are lost to
the heap, which is why the invariant speaks of a packing and not of a partition.
-/

namespace RelizOS

open ByteMemory HeapAllocator LabelledRun

/-! ## Clients -/

/-- A block handed out by `alloc`. -/
structure Block where
  /-- The pointer returned. -/
  ptr : ℕ
  /-- The layout it was requested with. -/
  layout : Layout
  deriving DecidableEq

/-- The bytes a live block occupies: the room for its header, and the rounded size. -/
def Block.span (b : Block) : Span := ⟨b.ptr - sizeOfFreeNode, b.ptr + b.layout.roundedSize⟩

/-- The heap together with the blocks its client holds. -/
structure Client where
  /-- The allocator. -/
  heap : HeapAllocator
  /-- The blocks allocated and not yet freed. -/
  live : List Block

/-- What a client can do. -/
inductive HeapOp where
  /-- Allocate with a layout. -/
  | alloc (L : Layout)
  /-- Free a block. -/
  | dealloc (b : Block)
  /-- Write the byte `v` at offset `i` of a block. -/
  | store (b : Block) (i : ℕ) (v : UInt8)

/-- One step of a client that keeps to the contract of `GlobalAlloc`. -/
inductive HeapStep : Client → HeapOp → Client → Prop
  | alloc {c : Client} {L : Layout} {p : ℕ} {h : HeapAllocator}
      (ok : c.heap.alloc L = .ok (p, h)) :
      HeapStep c (.alloc L) ⟨h, if p = 0 then c.live else ⟨p, L⟩ :: c.live⟩
  | dealloc {c : Client} {b : Block} {h : HeapAllocator} (held : b ∈ c.live)
      (ok : c.heap.dealloc b.ptr b.layout = .ok h) :
      HeapStep c (.dealloc b) ⟨h, c.live.erase b⟩
  | store {c : Client} {b : Block} {i : ℕ} {v : UInt8} (held : b ∈ c.live)
      (inside : i < b.layout.size) :
      HeapStep c (.store b i v)
        ⟨{ c.heap with mem := Function.update c.heap.mem (b.ptr + i) v }, c.live⟩

/-- The spans of the free nodes and of the live blocks. -/
def Client.spans (c : Client) (nodes : List ℕ) : List Span :=
  nodes.map (nodeSpan c.heap.mem) ++ c.live.map Block.span

/-- **The heap invariant**, with the addresses of the free nodes in list order. -/
structure HeapInv (arena : Span) (c : Client) (nodes : List ℕ) : Prop where
  /-- The list in memory visits the nodes and ends. -/
  chain : Chain (nextOf c.heap.mem) c.heap.head.next nodes
  /-- Nodes and blocks lie in the arena, pairwise apart. -/
  packed : Span.Packed arena (c.spans nodes)
  /-- Every block has room for its header, and is aligned as requested. -/
  placed : ∀ b ∈ c.live, sizeOfFreeNode < b.ptr ∧ b.layout.align ∣ b.ptr
  /-- `USED_MEMORY` counts the requested sizes. -/
  used : c.heap.usedMemory = (c.live.map fun b ↦ b.layout.size).sum

namespace HeapInv

variable {arena : Span} {c : Client} {nodes : List ℕ}

/-! ## Consequences -/

theorem within_node (hinv : HeapInv arena c nodes) {p : ℕ} (hp : p ∈ nodes) :
    (nodeSpan c.heap.mem p).Within arena :=
  hinv.packed.within _ (List.mem_append_left _ (List.mem_map_of_mem hp))

theorem within_block (hinv : HeapInv arena c nodes) {b : Block} (hb : b ∈ c.live) :
    b.span.Within arena :=
  hinv.packed.within _ (List.mem_append_right _ (List.mem_map_of_mem hb))

theorem node_apart_block (hinv : HeapInv arena c nodes) {p : ℕ} {b : Block} (hp : p ∈ nodes)
    (hb : b ∈ c.live) : (nodeSpan c.heap.mem p).Apart b.span :=
  (List.pairwise_append.mp hinv.packed.apart).2.2 _ (List.mem_map_of_mem hp) _
    (List.mem_map_of_mem hb)

theorem nodes_pairwise (hinv : HeapInv arena c nodes) :
    nodes.Pairwise fun p q ↦ (nodeSpan c.heap.mem p).Apart (nodeSpan c.heap.mem q) :=
  List.pairwise_map.mp (List.pairwise_append.mp hinv.packed.apart).1

theorem node_end_le (hinv : HeapInv arena c nodes) {p : ℕ} (hp : p ∈ nodes) :
    p + sizeOfFreeNode + readUsize c.heap.mem p ≤ arena.hi := (hinv.within_node hp).2

theorem inRoom (hinv : HeapInv arena c nodes) {L : Layout}
    (hL : arena.hi + L.roundedAlign < 2 ^ 64) {p : ℕ} (hp : p ∈ nodes) :
    InRoom c.heap.mem L p := by
  have hend := hinv.node_end_le hp
  rw [InRoom]
  omega

theorem length_lt (hinv : HeapInv arena c nodes) (hhi : arena.hi < 2 ^ 64) :
    nodes.length < maxNodes := by
  have hlen : (c.spans nodes).length * 16 ≤ arena.len := by
    refine hinv.packed.length_mul_le fun s hs ↦ ?_
    rcases List.mem_append.mp hs with hs | hs
    · obtain ⟨p, -, rfl⟩ := List.mem_map.mp hs
      simp only [Span.len, nodeSpan, sizeOfFreeNode]
      omega
    · obtain ⟨b, hb, rfl⟩ := List.mem_map.mp hs
      have hptr := (hinv.placed b hb).1
      simp only [Span.len, Block.span, sizeOfFreeNode] at hptr ⊢
      omega
  rw [Client.spans, List.length_append, List.length_map, Span.len] at hlen
  rw [maxNodes]
  omega

/-- The counter never exceeds the arena: the blocks are part of a packing of it. -/
theorem used_le (hinv : HeapInv arena c nodes) : c.heap.usedMemory ≤ arena.len := by
  have hsum := hinv.packed.sum_len_le
  rw [Client.spans, List.map_append, List.sum_append, List.map_map] at hsum
  have hle : (c.live.map fun b ↦ b.layout.size).sum
      ≤ (c.live.map (Span.len ∘ Block.span)).sum := by
    refine List.sum_le_sum fun b hb ↦ ?_
    have hsize := b.layout.size_le_roundedSize
    simp only [Function.comp_apply, Span.len, Block.span]
    omega
  rw [List.map_map] at hsum
  rw [hinv.used]
  omega

/-- The first node lies in the arena, so its address fits in a link. -/
theorem head_next_lt (hinv : HeapInv arena c nodes) (hhi : arena.hi < 2 ^ 64) :
    c.heap.head.next < 2 ^ 64 := by
  have hchain := hinv.chain
  cases nodes with
  | nil => rw [Chain.nil_iff.mp hchain]; omega
  | cons p nodes =>
    have hend := hinv.node_end_le (p := p) List.mem_cons_self
    rw [hchain.1]
    omega

theorem congr (hinv : HeapInv arena c nodes) {m : Mem}
    (hm : ∀ p ∈ nodes, AgreeOn m c.heap.mem p 16) :
    HeapInv arena ⟨{ c.heap with mem := m }, c.live⟩ nodes where
  chain := hinv.chain.congr fun p hp ↦ readUsize_congr ((hm p hp).mono (by omega) (by omega))
  packed := by
    have hspan : ∀ p ∈ nodes, nodeSpan m p = nodeSpan c.heap.mem p := fun p hp ↦ by
      rw [nodeSpan, nodeSpan, readUsize_congr ((hm p hp).mono (by omega) (by omega))]
    have hpacked := hinv.packed
    rw [Client.spans] at hpacked ⊢
    rwa [List.map_congr_left hspan]
  placed := hinv.placed
  used := hinv.used

end HeapInv

end RelizOS
