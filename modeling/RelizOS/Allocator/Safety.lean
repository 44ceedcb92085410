import RelizOS.Allocator.Invariant

/-!
# Every run of the heap keeps the invariant

One lemma per operation. `alloc` replaces the span of the chosen node by the span of the block and,
when it splits, the span of the remainder: a refinement of the packing. `dealloc` turns the span of
a block into the span of a node, which is the same span. A client's store changes no header.

The memory argument is the same in all three: whatever is written lies in one span of the packing,
or in the link field of the predecessor, and every other header lies in a span apart from it.
-/

namespace RelizOS

open ByteMemory HeapAllocator LabelledRun

namespace HeapAllocator

variable {m : Mem} {h : HeapAllocator} {L : Layout} {p q : ℕ} {pre post : List ℕ}

/-! ## The memory after carving -/

theorem splits_tail (hs : Splits m L q) (hfit : Fits m L q) :
    tailIn L q + 2 * sizeOfFreeNode ≤ q + sizeOfFreeNode + readUsize m q := by
  have htail := tailIn_eq L q
  rw [Splits, remainingIn] at hs
  rw [Fits] at hfit
  simp only [sizeOfFreeNode] at *
  omega

theorem header_le_tailIn (L : Layout) (q : ℕ) : q + sizeOfFreeNode ≤ tailIn L q :=
  (header_le_startIn L q).trans (Nat.le_add_right _ _)

theorem carveMem_outside (hfit : Fits m L q) {a : ℕ}
    (ha : a < q + sizeOfFreeNode ∨ q + sizeOfFreeNode + readUsize m q ≤ a) :
    carveMem m L q a = m a := by
  by_cases hs : Splits m L q
  · have hin := splits_tail hs hfit
    have hhead := header_le_tailIn L q
    rw [carveMem_of_splits hs]
    refine writeNode_outside ?_
    simp only [sizeOfFreeNode] at *
    omega
  · rw [carveMem_of_not_splits hs]

theorem setNext_mem_outside {prev : Option ℕ} {x a : ℕ}
    (ha : ∀ r, prev = some r → a < r + 8 ∨ r + 16 ≤ a) : (setNext h prev x).mem a = h.mem a := by
  cases prev with
  | none => rfl
  | some r =>
    have hr := ha r rfl
    exact writeLE_outside (by omega)

/-- Carving changes only the node, and the link field of its predecessor. -/
theorem carve_mem_outside (hfit : Fits h.mem L q) {prev : Option ℕ} {a : ℕ}
    (ha : ¬(nodeSpan h.mem q).Holds a) (hprev : ∀ r, prev = some r → a < r + 8 ∨ r + 16 ≤ a) :
    (carve h L prev q).mem a = h.mem a := by
  have hout : a < q ∨ q + sizeOfFreeNode + readUsize h.mem q ≤ a := by
    simp only [Span.Holds, nodeSpan] at ha
    omega
  have hset : (carve h L prev q).mem a = carveMem h.mem L q a := setNext_mem_outside hprev
  rw [hset]
  exact carveMem_outside hfit (by omega)

/-- Carving keeps the header of every node apart from the chosen one, except for the link of the
predecessor. -/
private theorem carve_agreeOn (hfit : Fits h.mem L q) {prev : Option ℕ} {n : ℕ}
    (hapart : (nodeSpan h.mem p).Apart (nodeSpan h.mem q)) (hn : n ≤ 16)
    (hprev : ∀ r, prev = some r → p + n ≤ r + 8 ∨ r + 16 ≤ p) :
    AgreeOn (carve h L prev q).mem h.mem p n := by
  intro a h1 h2
  refine carve_mem_outside hfit (hapart.not_holds ?_) fun r hr ↦ ?_
  · simp only [Span.Holds, nodeSpan, sizeOfFreeNode]
    omega
  · have := hprev r hr
    omega

private theorem carve_tail (hfit : Fits h.mem L q) (hs : Splits h.mem L q)
    (hend : q + sizeOfFreeNode + readUsize h.mem q < 2 ^ 64) {prev : Option ℕ}
    (hprev : ∀ r, prev = some r → (nodeSpan h.mem r).Apart (nodeSpan h.mem q)) :
    readUsize (carve h L prev q).mem (tailIn L q) = remainingIn h.mem L q - sizeOfFreeNode ∧
      nextOf (carve h L prev q).mem (tailIn L q) = nextOf h.mem q := by
  have hin := splits_tail hs hfit
  have hhead := header_le_tailIn L q
  have hagree : AgreeOn (carve h L prev q).mem (carveMem h.mem L q) (tailIn L q) 16 := by
    intro a h1 h2
    refine setNext_mem_outside fun r hr ↦ ?_
    have hap := hprev r hr
    simp only [Span.Apart, nodeSpan, sizeOfFreeNode] at hap hin hhead
    omega
  rw [carveMem_of_splits hs] at hagree
  constructor
  · rw [readUsize_congr (hagree.mono le_rfl (by omega))]
    refine readUsize_writeNode_size ?_
    rw [remainingIn]
    dsimp only
    omega
  · rw [nextOf, readUsize_congr (hagree.mono (by omega) le_rfl)]
    exact readUsize_writeNode_next _ (readUsize_lt _ _)

theorem carve_mem_some {r : ℕ} : (carve h L (some r) q).mem
    = writeUsize (carveMem h.mem L q) (r + 8) (carveLink h.mem L q) := rfl

theorem carveLink_lt (hfit : Fits m L q) (hend : q + sizeOfFreeNode + readUsize m q < 2 ^ 64) :
    carveLink m L q < 2 ^ 64 := by
  by_cases hs : Splits m L q
  · have hin := splits_tail hs hfit
    rw [carveLink_of_splits hs]
    omega
  · rw [carveLink_of_not_splits hs]
    exact readUsize_lt _ _

end HeapAllocator

namespace HeapInv

variable {arena : Span} {c : Client} {nodes pre post : List ℕ} {L : Layout} {q : ℕ}

/-! ## Allocation -/

private theorem apart_chosen (hinv : HeapInv arena c (pre ++ q :: post)) {p : ℕ}
    (hp : p ∈ pre ∨ p ∈ post) : (nodeSpan c.heap.mem p).Apart (nodeSpan c.heap.mem q) := by
  obtain ⟨-, hcons, hcross⟩ := List.pairwise_append.mp hinv.nodes_pairwise
  rcases hp with hp | hp
  · exact hcross p hp q List.mem_cons_self
  · exact ((List.pairwise_cons.mp hcons).1 p hp).symm

private theorem header_apart_prev (hinv : HeapInv arena c (pre ++ q :: post)) {p r : ℕ}
    (hr : pre.getLast? = some r) (hp : p ∈ pre ∨ p ∈ post) (hne : p ≠ r) :
    p + 16 ≤ r + 8 ∨ r + 16 ≤ p := by
  obtain ⟨init, rfl⟩ := List.getLast?_eq_some_iff.mp hr
  obtain ⟨hpre, -, hcross⟩ := List.pairwise_append.mp hinv.nodes_pairwise
  have hap : (nodeSpan c.heap.mem p).Apart (nodeSpan c.heap.mem r) := by
    rcases hp with hp | hp
    · rcases List.mem_append.mp hp with hp | hp
      · exact (List.pairwise_append.mp hpre).2.2 p hp r List.mem_cons_self
      · exact absurd (List.mem_singleton.mp hp) hne
    · exact (hcross r (by simp) p (List.mem_cons_of_mem _ hp)).symm
  simp only [Span.Apart, nodeSpan, sizeOfFreeNode] at hap
  omega

theorem carve_size (hinv : HeapInv arena c (pre ++ q :: post)) (hfit : Fits c.heap.mem L q)
    {p : ℕ} (hp : p ∈ pre ∨ p ∈ post) :
    readUsize (carve c.heap L pre.getLast? q).mem p = readUsize c.heap.mem p := by
  refine readUsize_congr (carve_agreeOn hfit (hinv.apart_chosen hp) (by omega) fun r hr ↦ ?_)
  by_cases hne : p = r
  · omega
  · have := hinv.header_apart_prev hr hp hne
    omega

private theorem carve_next (hinv : HeapInv arena c (pre ++ q :: post)) (hfit : Fits c.heap.mem L q)
    {p : ℕ} (hp : p ∈ pre ∨ p ∈ post) (hne : ∀ r, pre.getLast? = some r → p ≠ r) :
    nextOf (carve c.heap L pre.getLast? q).mem p = nextOf c.heap.mem p :=
  readUsize_congr ((carve_agreeOn hfit (hinv.apart_chosen hp) le_rfl fun r hr ↦
    hinv.header_apart_prev hr hp (hne r hr)).mono (by omega) (by omega))

private theorem chosen_end_lt (hinv : HeapInv arena c (pre ++ q :: post))
    (hhi : arena.hi < 2 ^ 64) : q + sizeOfFreeNode + readUsize c.heap.mem q < 2 ^ 64 :=
  (hinv.node_end_le (by simp)).trans_lt hhi

private theorem prev_apart (hinv : HeapInv arena c (pre ++ q :: post)) {r : ℕ}
    (hr : pre.getLast? = some r) : (nodeSpan c.heap.mem r).Apart (nodeSpan c.heap.mem q) :=
  hinv.apart_chosen (Or.inl (List.mem_of_getLast? hr))

/-- From the new link on, the list is the remainder, if any, and the nodes behind the chosen one. -/
private theorem chain_carved (hinv : HeapInv arena c (pre ++ q :: post)) (hhi : arena.hi < 2 ^ 64)
    (hfit : Fits c.heap.mem L q) :
    Chain (nextOf (carve c.heap L pre.getLast? q).mem) (carveLink c.heap.mem L q)
      (carveNodes c.heap.mem L q ++ post) := by
  have hnodup := hinv.chain.nodup
  have hrest : Chain (nextOf (carve c.heap L pre.getLast? q).mem) (nextOf c.heap.mem q) post := by
    refine (Chain.suffix hinv.chain).2.2.congr fun p hp ↦
      hinv.carve_next hfit (Or.inr hp) fun r hr hpr ↦ ?_
    -- a node behind the chosen one is not its predecessor, since the list has no repetition
    subst hpr
    exact (List.disjoint_of_nodup_append hnodup) (List.mem_of_getLast? hr)
      (List.mem_cons_of_mem _ hp)
  by_cases hs : Splits c.heap.mem L q
  · rw [carveLink_of_splits hs, carveNodes_of_splits hs]
    refine ⟨rfl, ?_, ?_⟩
    · have := header_le_tailIn L q
      rw [sizeOfFreeNode] at this
      omega
    · rw [(carve_tail hfit hs (hinv.chosen_end_lt hhi) fun r hr ↦ hinv.prev_apart hr).2]
      exact hrest
  · rw [carveLink_of_not_splits hs, carveNodes_of_not_splits hs]
    exact hrest

private theorem chain_carve (hinv : HeapInv arena c (pre ++ q :: post)) (hhi : arena.hi < 2 ^ 64)
    (hfit : Fits c.heap.mem L q) :
    Chain (nextOf (carve c.heap L pre.getLast? q).mem) (carve c.heap L pre.getLast? q).head.next
      (pre ++ (carveNodes c.heap.mem L q ++ post)) := by
  have hcarved := hinv.chain_carved hhi hfit
  have hlink := carveLink_lt hfit (hinv.chosen_end_lt hhi)
  have hchain := hinv.chain
  -- the link that is rewritten is the head, or that of the last node before the chosen one
  cases hr : pre.getLast? with
  | none =>
    obtain rfl := List.getLast?_eq_none_iff.mp hr
    exact hcarved
  | some r =>
    obtain ⟨init, hpre⟩ := List.getLast?_eq_some_iff.mp hr
    have hnodup : (init ++ [r]).Nodup := by
      rw [← hpre]
      exact (List.nodup_append.mp hchain.nodup).1
    have hkeep : ∀ p ∈ init, nextOf (carve c.heap L (some r) q).mem p = nextOf c.heap.mem p := by
      intro p hp
      rw [← hr]
      refine hinv.carve_next hfit (Or.inl (by rw [hpre]; exact List.mem_append_left _ hp)) ?_
      intro r' hr' hpr
      rw [hr, Option.some.injEq] at hr'
      exact (List.disjoint_of_nodup_append hnodup) hp (by rw [hpr, hr']; exact List.mem_cons_self)
    have hlinked : nextOf (carve c.heap L (some r) q).mem r = carveLink c.heap.mem L q := by
      rw [carve_mem_some, nextOf, readUsize_writeUsize_self hlink]
    rw [hr] at hcarved
    rw [hpre, List.append_assoc, List.singleton_append] at hchain ⊢
    exact hchain.splice hkeep (by rw [hlinked]; exact hcarved)

theorem nodeSpan_tail (hinv : HeapInv arena c (pre ++ q :: post)) (hhi : arena.hi < 2 ^ 64)
    (hfit : Fits c.heap.mem L q) (hs : Splits c.heap.mem L q) :
    nodeSpan (carve c.heap L pre.getLast? q).mem (tailIn L q) =
      ⟨tailIn L q, q + sizeOfFreeNode + readUsize c.heap.mem q⟩ := by
  have htail := tailIn_eq L q
  have hsize := (carve_tail hfit hs (hinv.chosen_end_lt hhi) fun r hr ↦ hinv.prev_apart hr).1
  have hin := splits_tail hs hfit
  have hlarge : sizeOfFreeNode + 16 ≤ remainingIn c.heap.mem L q := hs
  rw [nodeSpan, hsize, Span.mk.injEq]
  rw [remainingIn] at hlarge ⊢
  omega

private theorem packed_parts (hinv : HeapInv arena c (pre ++ q :: post)) (hhi : arena.hi < 2 ^ 64)
    (hfit : Fits c.heap.mem L q) :
    Span.Packed (nodeSpan c.heap.mem q) (Block.span ⟨startIn L q, L⟩ ::
      (carveNodes c.heap.mem L q).map (nodeSpan (carve c.heap L pre.getLast? q).mem)) := by
  have hhead := header_le_startIn L q
  have htail := tailIn_eq L q
  have hblock : (Block.span ⟨startIn L q, L⟩).Within (nodeSpan c.heap.mem q) := by
    rw [Fits] at hfit
    rw [tailIn] at htail
    simp only [Span.Within, Block.span, nodeSpan]
    omega
  by_cases hs : Splits c.heap.mem L q
  · rw [carveNodes_of_splits hs, List.map_singleton, hinv.nodeSpan_tail hhi hfit hs]
    refine ⟨List.pairwise_pair.mpr (Or.inl le_rfl), ?_⟩
    have hge := header_le_tailIn L q
    simp only [List.forall_mem_cons, List.not_mem_nil, false_implies, implies_true, and_true]
    exact ⟨hblock, by simp only [nodeSpan]; omega, le_rfl⟩
  · rw [carveNodes_of_not_splits hs, List.map_nil]
    exact ⟨List.pairwise_singleton _ _, by simpa using hblock⟩

/-- The spans of the other nodes and of the blocks. -/
def restSpans (c : Client) (pre post : List ℕ) : List Span :=
  pre.map (nodeSpan c.heap.mem) ++ (post.map (nodeSpan c.heap.mem) ++ c.live.map Block.span)

theorem spans_perm (c : Client) (pre post : List ℕ) (q : ℕ) :
    (c.spans (pre ++ q :: post)).Perm (nodeSpan c.heap.mem q :: restSpans c pre post) := by
  rw [Client.spans, List.map_append, List.map_cons, List.append_assoc, List.cons_append, restSpans]
  exact List.perm_middle

/-- After carving, the chosen node has given way to the block and the remainder. -/
theorem spans_carve_perm (hinv : HeapInv arena c (pre ++ q :: post)) (hfit : Fits c.heap.mem L q) :
    (Client.spans ⟨carve c.heap L pre.getLast? q, ⟨startIn L q, L⟩ :: c.live⟩
      (pre ++ (carveNodes c.heap.mem L q ++ post))).Perm
      (Block.span ⟨startIn L q, L⟩ ::
        (carveNodes c.heap.mem L q).map (nodeSpan (carve c.heap L pre.getLast? q).mem) ++
          restSpans c pre post) := by
  have hkeep : ∀ p, p ∈ pre ∨ p ∈ post →
      nodeSpan (carve c.heap L pre.getLast? q).mem p = nodeSpan c.heap.mem p := fun p hp ↦ by
    rw [nodeSpan, nodeSpan, hinv.carve_size hfit hp]
  rw [Client.spans, List.map_append, List.map_append, List.map_cons,
    List.map_congr_left fun p hp ↦ hkeep p (Or.inl hp),
    List.map_congr_left fun p hp ↦ hkeep p (Or.inr hp), List.perm_iff_count]
  intro s
  simp only [restSpans, List.count_append, List.count_cons]
  omega

theorem packed_carve (hinv : HeapInv arena c (pre ++ q :: post)) (hhi : arena.hi < 2 ^ 64)
    (hfit : Fits c.heap.mem L q) :
    Span.Packed arena (Client.spans ⟨carve c.heap L pre.getLast? q, ⟨startIn L q, L⟩ :: c.live⟩
      (pre ++ (carveNodes c.heap.mem L q ++ post))) :=
  ((hinv.packed.perm (spans_perm c pre post q)).refine (hinv.packed_parts hhi hfit)).perm
    (hinv.spans_carve_perm hfit).symm

theorem alloc_carve (hinv : HeapInv arena c (pre ++ q :: post)) (hhi : arena.hi < 2 ^ 64)
    (hfit : Fits c.heap.mem L q) :
    HeapInv arena ⟨carve c.heap L pre.getLast? q, ⟨startIn L q, L⟩ :: c.live⟩
      (pre ++ (carveNodes c.heap.mem L q ++ post)) where
  chain := hinv.chain_carve hhi hfit
  packed := hinv.packed_carve hhi hfit
  placed := by
    have hne : q ≠ 0 := hinv.chain.ne_zero_of_mem (by simp)
    have hhead := header_le_startIn L q
    intro b hb
    rcases List.mem_cons.mp hb with rfl | hb
    · exact ⟨by dsimp only; omega, align_dvd_startIn L q⟩
    · exact hinv.placed b hb
  used := by
    have hused := hinv.used
    rw [List.map_cons, List.sum_cons, ← hused, add_comm]
    rfl

/-- **What `alloc` does to a heap that satisfies the invariant**, when no sum of the search wraps.
The counter cannot overflow: with the new block it still counts part of a packing. -/
theorem alloc_spec (hinv : HeapInv arena c nodes) (hhi : arena.hi < 2 ^ 64) {L : Layout}
    (hL : arena.hi + L.roundedAlign < 2 ^ 64) :
    ((∀ p ∈ nodes, ¬Fits c.heap.mem L p) ∧ c.heap.alloc L = .ok (0, c.heap)) ∨
      ∃ pre q post, nodes = pre ++ q :: post ∧ (∀ p ∈ pre, ¬Fits c.heap.mem L p) ∧
        Fits c.heap.mem L q ∧ startIn L q ≠ 0 ∧
        c.heap.alloc L = .ok (startIn L q, carve c.heap L pre.getLast? q) := by
  have hused : ∀ q ∈ nodes, Fits c.heap.mem L q → c.heap.usedMemory + L.size < 2 ^ 64 := by
    intro q hq hfit
    obtain ⟨pre, post, rfl⟩ := List.append_of_mem hq
    have hle : c.heap.usedMemory + L.size ≤ arena.len := (hinv.alloc_carve hhi hfit).used_le
    rw [Span.len] at hle
    omega
  rcases alloc_cases hinv.chain (fun p hp ↦ hinv.inRoom hL hp) (hinv.length_lt hhi) hused with
    hnone | ⟨pre, q, post, hsplit, hskip, hfit, hok⟩
  · exact Or.inl hnone
  · have hhead := header_le_startIn L q
    rw [sizeOfFreeNode] at hhead
    exact Or.inr ⟨pre, q, post, hsplit, hskip, hfit, by omega, hok⟩

/-! ## Deallocation -/

section Release

variable {b : Block}

theorem release_mem_outside (hinv : HeapInv arena c nodes) (hb : b ∈ c.live) {a : ℕ}
    (ha : ¬b.span.Holds a) : (c.heap.release b.ptr b.layout).mem a = c.heap.mem a := by
  have hptr := (hinv.placed b hb).1
  refine writeNode_outside ?_
  simp only [Span.Holds, Block.span, sizeOfFreeNode] at ha hptr ⊢
  omega

theorem release_agreeOn (hinv : HeapInv arena c nodes) (hb : b ∈ c.live) {p : ℕ}
    (hp : p ∈ nodes) : AgreeOn (c.heap.release b.ptr b.layout).mem c.heap.mem p 16 := by
  intro a h1 h2
  refine hinv.release_mem_outside hb ((hinv.node_apart_block hp hb).not_holds ?_)
  simp only [Span.Holds, nodeSpan, sizeOfFreeNode]
  omega

theorem spans_release_perm (hinv : HeapInv arena c nodes) (hhi : arena.hi < 2 ^ 64)
    (hb : b ∈ c.live) :
    (Client.spans ⟨c.heap.release b.ptr b.layout, c.live.erase b⟩
      ((b.ptr - sizeOfFreeNode) :: nodes)).Perm (c.spans nodes) := by
  have hptr := (hinv.placed b hb).1
  have hspan := (hinv.within_block hb).2
  simp only [Block.span] at hspan
  have hnode : nodeSpan (c.heap.release b.ptr b.layout).mem (b.ptr - sizeOfFreeNode) = b.span := by
    rw [nodeSpan, Block.span, release, readUsize_writeNode_size (by dsimp only; omega),
      Nat.sub_add_cancel hptr.le]
  have hkeep : ∀ p ∈ nodes,
      nodeSpan (c.heap.release b.ptr b.layout).mem p = nodeSpan c.heap.mem p := fun p hp ↦ by
    rw [nodeSpan, nodeSpan,
      readUsize_congr ((hinv.release_agreeOn hb hp).mono le_rfl (by omega))]
  rw [Client.spans, Client.spans, List.map_cons, hnode, List.map_congr_left hkeep, List.cons_append]
  refine List.Perm.trans ?_ ((List.perm_cons_erase hb).map Block.span |>.symm.append_left _)
  rw [List.map_cons]
  exact List.perm_middle.symm

/-- **What `dealloc` does to a live block.** The node it writes is the block's own span. -/
theorem dealloc_spec (hinv : HeapInv arena c nodes) (hhi : arena.hi < 2 ^ 64) (hb : b ∈ c.live) :
    c.heap.dealloc b.ptr b.layout = .ok (c.heap.release b.ptr b.layout) ∧
      HeapInv arena ⟨c.heap.release b.ptr b.layout, c.live.erase b⟩
        ((b.ptr - sizeOfFreeNode) :: nodes) := by
  have hptr := (hinv.placed b hb).1
  have hsum : c.heap.usedMemory
      = b.layout.size + ((c.live.erase b).map fun b ↦ b.layout.size).sum := by
    rw [hinv.used, ((List.perm_cons_erase hb).map _).sum_eq, List.map_cons, List.sum_cons]
  have hnext : nextOf (c.heap.release b.ptr b.layout).mem (b.ptr - sizeOfFreeNode) =
      c.heap.head.next :=
    readUsize_writeNode_next ⟨b.layout.roundedSize, c.heap.head.next⟩ (hinv.head_next_lt hhi)
  refine ⟨dealloc_eq hptr.le (by omega), ⟨rfl, by omega, ?_⟩,
    hinv.packed.perm (hinv.spans_release_perm hhi hb).symm,
    fun b' hb' ↦ hinv.placed b' (List.mem_of_mem_erase hb'), ?_⟩
  · dsimp only
    rw [hnext]
    exact hinv.chain.congr fun p hp ↦
      readUsize_congr ((hinv.release_agreeOn hb hp).mono (by omega) (by omega))
  · dsimp only [release]
    omega

end Release

/-! ## Stores of the client -/

theorem store_agreeOn (hinv : HeapInv arena c nodes) {b : Block} (hb : b ∈ c.live) {i : ℕ}
    (hi : i < b.layout.size) (v : UInt8) {p : ℕ} (hp : p ∈ nodes) :
    AgreeOn (Function.update c.heap.mem (b.ptr + i) v) c.heap.mem p 16 := by
  intro a h1 h2
  refine Function.update_of_ne ?_ _ _
  rintro rfl
  refine (hinv.node_apart_block hp hb).not_holds (a := b.ptr + i) ?_ ?_
  · simp only [Span.Holds, nodeSpan, sizeOfFreeNode]
    omega
  · have := b.layout.size_le_roundedSize
    simp only [Span.Holds, Block.span]
    omega

theorem store_spec (hinv : HeapInv arena c nodes) {b : Block} (hb : b ∈ c.live) {i : ℕ}
    (hi : i < b.layout.size) (v : UInt8) :
    HeapInv arena ⟨{ c.heap with mem := Function.update c.heap.mem (b.ptr + i) v }, c.live⟩
      nodes :=
  hinv.congr fun _ hp ↦ hinv.store_agreeOn hb hi v hp

end HeapInv

/-! ## Runs

An allocation is admitted while no sum of its search can leave 64 bits, which for a heap that ends
below `2 ^ 63` is every allocation. -/

/-- No sum the operation computes wraps, in an arena that ends at `top`. -/
def HeapOp.NoWrap (top : ℕ) : HeapOp → Prop
  | .alloc L => top + L.roundedAlign < 2 ^ 64
  | .dealloc _ => True
  | .store _ _ _ => True

theorem HeapOp.noWrap_of_lt {top : ℕ} (h : top < 2 ^ 63) (op : HeapOp) : op.NoWrap top := by
  cases op with
  | alloc L =>
    obtain ⟨j, hj, -, hj63, -⟩ := L.roundedAlign_spec
    have hle : 2 ^ j ≤ 2 ^ 63 := Nat.pow_le_pow_right (by omega) hj63
    rw [HeapOp.NoWrap, hj]
    omega
  | dealloc b => trivial
  | store b i v => trivial

/-- A client's steps while no sum wraps. -/
def HeapStepIn (arena : Span) : Client → HeapOp → Client → Prop :=
  guarded (fun _ op ↦ op.NoWrap arena.hi) HeapStep

/-- **What `alloc` has done if it returns.** -/
theorem HeapInv.alloc_ok {arena : Span} {c : Client} {nodes : List ℕ} {L : Layout} {p : ℕ}
    {h : HeapAllocator} (hinv : HeapInv arena c nodes) (hhi : arena.hi < 2 ^ 64)
    (hok : c.heap.alloc L = .ok (p, h)) :
    (p = 0 ∧ h = c.heap ∧ ∀ q ∈ nodes, ¬Fits c.heap.mem L q) ∨
      ∃ pre q post, nodes = pre ++ q :: post ∧ (∀ r ∈ pre, ¬Fits c.heap.mem L r) ∧
        Fits c.heap.mem L q ∧ p = startIn L q ∧ p ≠ 0 ∧ h = carve c.heap L pre.getLast? q := by
  rcases alloc_ok_cases hinv.chain (fun q hq ↦ (hinv.node_end_le hq).trans_lt hhi) hok with
    hnone | ⟨pre, q, post, hsplit, hskip, hfit, rfl, rfl⟩
  · exact Or.inl hnone
  · have hhead := header_le_startIn L q
    rw [sizeOfFreeNode] at hhead
    exact Or.inr ⟨pre, q, post, hsplit, hskip, hfit, rfl, by omega, rfl⟩

/-- **The step lemma.** -/
theorem HeapInv.step {arena : Span} {c c' : Client} {nodes : List ℕ} {op : HeapOp}
    (hinv : HeapInv arena c nodes) (hhi : arena.hi < 2 ^ 64) (hstep : HeapStep c op c') :
    ∃ nodes', HeapInv arena c' nodes' := by
  cases hstep with
  | @alloc L p h hok =>
    rcases hinv.alloc_ok hhi hok with ⟨rfl, rfl, -⟩ | ⟨pre, q, post, rfl, -, hfit, rfl, hne, rfl⟩
    · exact ⟨nodes, by rw [if_pos rfl]; exact hinv⟩
    · exact ⟨_, by rw [if_neg hne]; exact hinv.alloc_carve hhi hfit⟩
  | @dealloc b h hb hok =>
    obtain ⟨hok', hinv'⟩ := hinv.dealloc_spec hhi hb
    rw [hok, Except.ok.injEq] at hok'
    subst hok'
    exact ⟨_, hinv'⟩
  | @store b i v hb hi => exact ⟨nodes, hinv.store_spec hb hi v⟩

theorem init_eq {m : Mem} {start size : ℕ} (hsize : 16 ≤ size) :
    (HeapAllocator.new m).init start size = .ok { HeapAllocator.new m with
      mem := writeNode m start ⟨size - sizeOfFreeNode, 0⟩
      head := ⟨0, start⟩
      initialized := true } := by
  have hsub : Checked.sub size sizeOfFreeNode = .ok (size - sizeOfFreeNode) :=
    Checked.sub_of_le hsize
  rw [HeapAllocator.init, HeapAllocator.new, if_neg (by simp), hsub]
  rfl

/-- The heap right after `init` is one free node, whatever the memory held. -/
theorem HeapInv.fresh {m : Mem} {start size : ℕ} {h : HeapAllocator} (hsize : 16 ≤ size)
    (hstart : start ≠ 0) (hhi : start + size < 2 ^ 64)
    (hok : (HeapAllocator.new m).init start size = .ok h) :
    HeapInv ⟨start, start + size⟩ ⟨h, []⟩ [start] ∧
      readUsize h.mem start = size - sizeOfFreeNode := by
  rw [init_eq hsize, Except.ok.injEq] at hok
  subst hok
  have hread : readUsize (writeNode m start ⟨size - sizeOfFreeNode, 0⟩) start =
      size - sizeOfFreeNode :=
    readUsize_writeNode_size (by dsimp only; omega)
  refine ⟨⟨⟨rfl, hstart, readUsize_writeNode_next _ (by simp)⟩,
    ⟨List.pairwise_singleton _ _, ?_⟩, by simp, rfl⟩, hread⟩
  intro s hs
  obtain rfl := List.mem_singleton.mp hs
  rw [nodeSpan, hread]
  simp only [Span.Within, sizeOfFreeNode]
  omega

theorem HeapInv.init {m : Mem} {start size : ℕ} {h : HeapAllocator} (hsize : 16 ≤ size)
    (hhi : start + size < 2 ^ 64) (hok : (HeapAllocator.new m).init start size = .ok h) :
    ∃ nodes, HeapInv ⟨start, start + size⟩ ⟨h, []⟩ nodes := by
  by_cases hstart : start = 0
  · rw [init_eq hsize, Except.ok.injEq] at hok
    subst hok hstart
    exact ⟨[], rfl, ⟨List.Pairwise.nil, by simp [Client.spans]⟩, by simp, rfl⟩
  · exact ⟨[start], (HeapInv.fresh hsize hstart hhi hok).1⟩

/-- **The run lemma.** -/
theorem HeapInv.run {arena : Span} {c₀ c : Client} {ops : List HeapOp} (hhi : arena.hi < 2 ^ 64)
    (h0 : ∃ nodes, HeapInv arena c₀ nodes) (hrun : Run HeapStep c₀ ops c) :
    ∃ nodes, HeapInv arena c nodes :=
  hrun.invariant (P := fun c ↦ ∃ nodes, HeapInv arena c nodes) h0
    fun _ _ _ ⟨_, hinv⟩ hstep ↦ hinv.step hhi hstep

/-- What a client may rely on in one state of the heap. -/
structure HeapSafe (arena : Span) (c : Client) : Prop where
  /-- The free list ends and visits no node twice; the free nodes, and the live blocks with the room
  for their headers, are pairwise apart inside the heap. -/
  list : ∃ nodes, Chain (nextOf c.heap.mem) c.heap.head.next nodes ∧ nodes.Nodup ∧
    Span.Packed arena (c.spans nodes)
  /-- Live blocks are aligned as requested. -/
  aligned : ∀ b ∈ c.live, b.layout.align ∣ b.ptr
  /-- A call of `alloc` ends; a non-null result is aligned; no live block is written. -/
  alloc : ∀ L : Layout, HeapOp.NoWrap arena.hi (.alloc L) →
    ∃ p h, c.heap.alloc L = .ok (p, h) ∧ (p ≠ 0 → L.align ∣ p) ∧
      ∀ b ∈ c.live, ∀ a, b.span.Holds a → h.mem a = c.heap.mem a
  /-- A live block can be freed, and no other live block is written. -/
  dealloc : ∀ b ∈ c.live, ∃ h, c.heap.dealloc b.ptr b.layout = .ok h ∧
    ∀ b' ∈ c.live.erase b, ∀ a, b'.span.Holds a → h.mem a = c.heap.mem a

theorem HeapInv.safe {arena : Span} {c : Client} {nodes : List ℕ} (hinv : HeapInv arena c nodes)
    (hhi : arena.hi < 2 ^ 64) : HeapSafe arena c where
  list := ⟨nodes, hinv.chain, hinv.chain.nodup, hinv.packed⟩
  aligned b hb := (hinv.placed b hb).2
  alloc L hL := by
    rcases hinv.alloc_spec hhi hL with ⟨-, hok⟩ | ⟨pre, q, post, rfl, -, hfit, -, hok⟩
    · exact ⟨_, _, hok, fun hne ↦ absurd rfl hne, fun _ _ _ _ ↦ rfl⟩
    · refine ⟨_, _, hok, fun _ ↦ align_dvd_startIn L q, fun b hb a ha ↦ ?_⟩
      -- a carve writes into the chosen node and its predecessor, both apart from every block
      refine carve_mem_outside hfit
        ((hinv.node_apart_block (by simp) hb).symm.not_holds ha) fun r hr ↦ ?_
      have hap := (hinv.node_apart_block (p := r)
        (List.mem_append_left _ (List.mem_of_getLast? hr)) hb).symm.not_holds ha
      simp only [Span.Holds, nodeSpan, sizeOfFreeNode] at hap
      omega
  dealloc b hb := by
    refine ⟨_, (hinv.dealloc_spec hhi hb).1, fun b' hb' a ha ↦ hinv.release_mem_outside hb ?_⟩
    have hperm := (List.perm_cons_erase hb).map Block.span
    have hpacked := (hinv.packed.perm List.perm_append_comm).perm (hperm.append_right _)
    exact (hpacked.apart_head (List.mem_append_left _ (List.mem_map_of_mem hb'))).symm.not_holds ha

/-- **Safety of the heap**, after any run from a fresh heap. -/
theorem heap_safe (m : Mem) {start size : ℕ} (hsize : 16 ≤ size) (htop : start + size < 2 ^ 64) :
    ∃ h, (HeapAllocator.new m).init start size = .ok h ∧
      ∀ ops c, Run (HeapStepIn ⟨start, start + size⟩) ⟨h, []⟩ ops c →
        HeapSafe ⟨start, start + size⟩ c := by
  refine ⟨_, init_eq hsize, fun ops c hrun ↦ ?_⟩
  obtain ⟨nodes, hinv⟩ := HeapInv.run htop (HeapInv.init hsize htop (init_eq hsize))
    (hrun.mono fun _ _ _ hstep ↦ hstep.2)
  exact hinv.safe htop

/-- The same at a heap of 32 MiB, the size the kernel reserves. -/
theorem heap_safe_kernel : 16 ≤ 32 * 1024 * 1024 ∧ 0x10000 + 32 * 1024 * 1024 < 2 ^ 64 ∧
    ∃ h, (HeapAllocator.new fun _ ↦ 0).init 0x10000 (32 * 1024 * 1024) = .ok h ∧
      ∀ ops c, Run (HeapStepIn ⟨0x10000, 0x10000 + 32 * 1024 * 1024⟩) ⟨h, []⟩ ops c →
        HeapSafe ⟨0x10000, 0x10000 + 32 * 1024 * 1024⟩ c :=
  ⟨by decide, by decide, heap_safe (fun _ ↦ 0) (by decide) (by decide)⟩

end RelizOS
