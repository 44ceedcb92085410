import RelizOS.Allocator.FirstFit

/-!
# Fragmentation

`alloc` cuts nodes up, and `dealloc` puts a block back as a node of its own: adjacent nodes are
never joined. So over a run the pieces of the heap, free nodes and live blocks alike, only become
smaller. Each lies inside a piece of every earlier state (`run_refines`), also where the client has
freed all that it had allocated in between.

Whether a request can be satisfied at some later time is therefore decided by the pieces there are
now (`fails_forever_iff`): if none of them has room, `alloc` returns null from now on, whatever the
client frees; and if one has, the client only has to free it. A heap can so be free to the last byte
and useless for anything but small blocks (`fails_forever_freed`).
-/

namespace RelizOS

open ByteMemory HeapAllocator LabelledRun

namespace HeapAllocator

/-- The span can hold a header and the aligned block. -/
def FitsIn (L : Layout) (s : Span) : Prop := tailIn L s.lo ≤ s.hi

instance (L : Layout) (s : Span) : Decidable (FitsIn L s) := inferInstanceAs (Decidable (_ ≤ _))

variable {m : Mem} {L : Layout} {p q : ℕ} {s t : Span}

theorem fits_iff_fitsIn : Fits m L p ↔ FitsIn L (nodeSpan m p) := by
  rw [Fits, FitsIn, nodeSpan, tailIn_eq]
  dsimp only
  omega

theorem startIn_mono (L : Layout) (h : p ≤ q) : startIn L p ≤ startIn L q :=
  Nat.mul_le_mul_right _ (Nat.div_le_div_right (by omega))

theorem FitsIn.mono (h : FitsIn L s) (hwithin : s.Within t) : FitsIn L t :=
  calc
    tailIn L t.lo ≤ tailIn L s.lo := Nat.add_le_add_right (startIn_mono L hwithin.1) _
    _ ≤ s.hi := h
    _ ≤ t.hi := hwithin.2

end HeapAllocator

namespace HeapInv

variable {arena : Span} {c c' : Client} {nodes : List ℕ} {L : Layout} {op : HeapOp}
  {ops : List HeapOp}

/-! ## Pieces only become smaller -/

theorem refines_carve {pre post : List ℕ} {q : ℕ} (hinv : HeapInv arena c (pre ++ q :: post))
    (hhi : arena.hi < 2 ^ 64) (hfit : Fits c.heap.mem L q) :
    Span.Refines (Client.spans ⟨carve c.heap L pre.getLast? q, ⟨startIn L q, L⟩ :: c.live⟩
      (pre ++ (carveNodes c.heap.mem L q ++ post))) (c.spans (pre ++ q :: post)) := by
  have hhead := header_le_startIn L q
  have hnode : nodeSpan c.heap.mem q ∈ c.spans (pre ++ q :: post) :=
    (spans_perm c pre post q).symm.subset List.mem_cons_self
  intro s hs
  rcases List.mem_append.mp ((hinv.spans_carve_perm hfit).subset hs) with hs | hs
  · refine ⟨_, hnode, ?_⟩
    rcases List.mem_cons.mp hs with rfl | hs
    · have hin : tailIn L q ≤ q + sizeOfFreeNode + readUsize c.heap.mem q :=
        fits_iff_fitsIn.mp hfit
      exact ⟨Nat.le_sub_of_add_le hhead, hin⟩
    · obtain ⟨p, hp, rfl⟩ := List.mem_map.mp hs
      by_cases hsplits : Splits c.heap.mem L q
      · rw [carveNodes_of_splits hsplits, List.mem_singleton] at hp
        rw [hp, hinv.nodeSpan_tail hhi hfit hsplits]
        exact ⟨(Nat.le_add_right _ _).trans (header_le_tailIn L q), le_rfl⟩
      · rw [carveNodes_of_not_splits hsplits] at hp
        cases hp
  · exact ⟨s, (spans_perm c pre post q).symm.subset (List.mem_cons_of_mem _ hs), .refl s⟩

/-- **A step** only cuts pieces up. -/
theorem step_refines (hinv : HeapInv arena c nodes) (hhi : arena.hi < 2 ^ 64)
    (hstep : HeapStep c op c') :
    ∃ nodes', HeapInv arena c' nodes' ∧ Span.Refines (c'.spans nodes') (c.spans nodes) := by
  cases hstep with
  | @alloc L p h hok =>
    rcases hinv.alloc_ok hhi hok with ⟨rfl, rfl, -⟩ | ⟨pre, q, post, rfl, -, hfit, rfl, hne, rfl⟩
    · rw [if_pos rfl]
      exact ⟨nodes, hinv, .of_subset (List.Subset.refl _)⟩
    · rw [if_neg hne]
      exact ⟨_, hinv.alloc_carve hhi hfit, hinv.refines_carve hhi hfit⟩
  | @dealloc b h hb hok =>
    obtain ⟨hok', hinv'⟩ := hinv.dealloc_spec hhi hb
    obtain rfl := Except.ok.inj (hok'.symm.trans hok)
    exact ⟨_, hinv', .of_subset (hinv.spans_release_perm hhi hb).subset⟩
  | @store b i v hb hi =>
    have hspan : ∀ p ∈ nodes, nodeSpan (Function.update c.heap.mem (b.ptr + i) v) p =
        nodeSpan c.heap.mem p := by
      intro p hp
      rw [nodeSpan, nodeSpan,
        readUsize_congr ((hinv.store_agreeOn hb hi v hp).mono le_rfl (by omega))]
    refine ⟨nodes, hinv.store_spec hb hi v, .of_subset ?_⟩
    rw [Client.spans, Client.spans, List.map_congr_left hspan]
    exact List.Subset.refl _

/-- **A run** only cuts pieces up. -/
theorem run_refines (hinv : HeapInv arena c nodes) (hhi : arena.hi < 2 ^ 64)
    (hrun : Run HeapStep c ops c') :
    ∃ nodes', HeapInv arena c' nodes' ∧ Span.Refines (c'.spans nodes') (c.spans nodes) := by
  refine hrun.invariant (P := fun c' ↦
    ∃ nodes', HeapInv arena c' nodes' ∧ Span.Refines (c'.spans nodes') (c.spans nodes))
    ⟨nodes, hinv, .of_subset (List.Subset.refl _)⟩ ?_
  rintro c₁ op c₂ ⟨nodes₁, hinv₁, hrefines₁⟩ hstep
  obtain ⟨nodes₂, hinv₂, hrefines₂⟩ := hinv₁.step_refines hhi hstep
  exact ⟨nodes₂, hinv₂, hrefines₂.trans hrefines₁⟩

/-! ## Requests that fail for ever -/

theorem alloc_null_iff (hinv : HeapInv arena c nodes) (hL : arena.hi + L.roundedAlign < 2 ^ 64) :
    c.heap.alloc L = .ok (0, c.heap) ↔ ∀ p ∈ nodes, ¬FitsIn L (nodeSpan c.heap.mem p) := by
  simp only [← fits_iff_fitsIn]
  rcases hinv.alloc_spec (by omega) hL with ⟨hnone, hok⟩ | ⟨pre, q, post, rfl, -, hfit, hne, hok⟩
  · exact iff_of_true hok hnone
  · refine iff_of_false (fun hnull ↦ hne ?_) fun hnone ↦ hnone q (by simp) hfit
    exact (Prod.mk.inj (Except.ok.inj (hok.symm.trans hnull))).1

/-- A piece with room can be allocated from, after it has been freed. -/
theorem exists_run_alloc (hinv : HeapInv arena c nodes) (hL : arena.hi + L.roundedAlign < 2 ^ 64)
    {s : Span} (hs : s ∈ c.spans nodes) (hfit : FitsIn L s) :
    ∃ ops c', Run HeapStep c ops c' ∧ c'.heap.alloc L ≠ .ok (0, c'.heap) := by
  have hhi : arena.hi < 2 ^ 64 := by omega
  rcases List.mem_append.mp hs with hs | hs
  · obtain ⟨p, hp, rfl⟩ := List.mem_map.mp hs
    exact ⟨[], c, .nil, fun hnull ↦ (hinv.alloc_null_iff hL).mp hnull p hp hfit⟩
  · obtain ⟨b, hb, rfl⟩ := List.mem_map.mp hs
    obtain ⟨hok, hinv'⟩ := hinv.dealloc_spec hhi hb
    refine ⟨_, _, Run.nil.snoc (.dealloc hb hok), fun hnull ↦ ?_⟩
    have hspan :
        nodeSpan (c.heap.release b.ptr b.layout).mem (b.ptr - sizeOfFreeNode) = b.span := by
      rw [nodeSpan, hinv.freed_size hhi hb, Block.span, Nat.sub_add_cancel (hinv.placed b hb).1.le]
    refine (hinv'.alloc_null_iff hL).mp hnull _ List.mem_cons_self ?_
    rwa [hspan]

end HeapInv

/-- **When a request fails for ever.** In every state that a client reaches, no later `alloc` with
the layout succeeds, whatever is freed before, exactly if no free node and no live block has room
for it; for the pieces of each later state are parts of those there are now. -/
theorem fails_forever_iff {m : Mem} {start size : ℕ} {h : HeapAllocator} {L : Layout}
    (htop : start + size + L.roundedAlign < 2 ^ 64)
    (hinit : (HeapAllocator.new m).init start size = .ok h)
    {ops : List HeapOp} {c : Client} (hrun : Run HeapStep ⟨h, []⟩ ops c) :
    ∃ nodes, Chain (nextOf c.heap.mem) c.heap.head.next nodes ∧
      ((∀ ops' c', Run HeapStep c ops' c' → c'.heap.alloc L = .ok (0, c'.heap)) ↔
        ∀ s ∈ c.spans nodes, ¬FitsIn L s) ∧
      ∀ ops' c', Run HeapStep c ops' c' → ∃ nodes',
        Chain (nextOf c'.heap.mem) c'.heap.head.next nodes' ∧
          Span.Refines (c'.spans nodes') (c.spans nodes) := by
  have hhi : start + size < 2 ^ 64 := by omega
  obtain ⟨nodes, hinv⟩ := HeapInv.of_run (sixteen_le_of_init hinit) hhi hinit hrun
  refine ⟨nodes, hinv.chain, ⟨fun hnull s hs hfit ↦ ?_, fun hnone ops' c' hrun' ↦ ?_⟩,
    fun ops' c' hrun' ↦ ?_⟩
  · obtain ⟨ops', c', hrun', hne⟩ := hinv.exists_run_alloc htop hs hfit
    exact hne (hnull ops' c' hrun')
  · obtain ⟨nodes', hinv', hrefines⟩ := hinv.run_refines hhi hrun'
    refine (hinv'.alloc_null_iff htop).mpr fun p hp hfit ↦ ?_
    -- the node is a part of a piece of now, which has no room
    obtain ⟨t, ht, hwithin⟩ := hrefines _ (List.mem_append_left _ (List.mem_map_of_mem hp))
    exact hnone t ht (hfit.mono hwithin)
  · obtain ⟨nodes', hinv', hrefines⟩ := hinv.run_refines hhi hrun'
    exact ⟨nodes', hinv'.chain, hrefines⟩

/-- A layout of 32 bytes. -/
def thirtyTwoBytes : Layout := ⟨32, 8, ⟨3, rfl⟩, by norm_num⟩

/-- From a heap of 64 bytes, 16 bytes have been allocated and freed again. -/
theorem exists_freed : ∃ h ops c nodes,
    (HeapAllocator.new fun _ ↦ 0).init 0x10000 64 = .ok h ∧ FitsIn thirtyTwoBytes
      (nodeSpan h.mem h.head.next) ∧ Run HeapStep ⟨h, []⟩ ops c ∧ c.live = [] ∧
        HeapInv ⟨0x10000, 0x10040⟩ c nodes ∧
          (c.spans nodes).Perm [⟨0x10000, 0x10020⟩, ⟨0x10020, 0x10040⟩] := by
  have hhi : (⟨0x10000, 0x10040⟩ : Span).hi < 2 ^ 64 := by norm_num
  obtain ⟨h, hinit⟩ : ∃ h, (HeapAllocator.new fun _ ↦ 0).init 0x10000 64 = .ok h :=
    ⟨_, init_eq (by norm_num)⟩
  obtain ⟨hinv, hread⟩ := HeapInv.fresh (by norm_num) (by norm_num) hhi hinit
  have hfresh : HeapInv ⟨0x10000, 0x10040⟩ ⟨h, []⟩ ([] ++ 0x10000 :: []) := hinv
  have hread : readUsize h.mem 0x10000 = 48 := hread
  have hfit : Fits h.mem (sixteenBytes 4) 0x10000 := by
    rw [Fits, hread]
    decide
  have hsplits : Splits h.mem (sixteenBytes 4) 0x10000 := by
    rw [Splits, remainingIn, hread]
    decide
  -- the first step takes the node apart, and the second one gives the block back
  have hinv₁ := hfresh.alloc_carve hhi hfit
  have halloc : HeapStep ⟨h, []⟩ (.alloc (sixteenBytes 4)) ⟨carve h (sixteenBytes 4) none 0x10000,
      [⟨startIn (sixteenBytes 4) 0x10000, sixteenBytes 4⟩]⟩ := by
    rcases hfresh.alloc_spec (L := sixteenBytes 4) hhi (by decide) with
      ⟨hnone, -⟩ | ⟨pre, q, post, hl, hskip, hfit', hne, hok⟩
    · exact absurd hfit (hnone _ (by simp))
    · obtain ⟨rfl, rfl, rfl⟩ :=
        first_unique hl (fun p hp ↦ absurd hp List.not_mem_nil) hfit hskip hfit'
      have hstep : HeapStep ⟨h, []⟩ _ _ := .alloc hok
      rwa [if_neg hne] at hstep
  obtain ⟨hok₂, hinv₂⟩ := hinv₁.dealloc_spec hhi List.mem_cons_self
  have hpieces : Block.span ⟨startIn (sixteenBytes 4) 0x10000, sixteenBytes 4⟩ ::
      (carveNodes h.mem (sixteenBytes 4) 0x10000).map
        (nodeSpan (carve h (sixteenBytes 4) none 0x10000).mem) ++ HeapInv.restSpans ⟨h, []⟩ [] [] =
          [⟨0x10000, 0x10020⟩, ⟨0x10020, 0x10040⟩] := by
    have htail := hfresh.nodeSpan_tail hhi hfit hsplits
    dsimp only [List.getLast?_nil] at htail
    rw [carveNodes_of_splits hsplits, List.map_singleton, htail, hread]
    rfl
  refine ⟨h, _, _, _, hinit, ?_, (Run.nil.snoc halloc).snoc (.dealloc List.mem_cons_self hok₂),
    by simp, hinv₂, ?_⟩
  · rw [hinv.chain.1, nodeSpan, hread]
    decide
  · rw [← hpieces]
    exact (hinv₁.spans_release_perm hhi List.mem_cons_self).trans (hfresh.spans_carve_perm hfit)

/-- **A free heap without room**: 16 bytes have been allocated from a heap of 64 bytes and freed
again. Nothing is lost and nothing is in use, but there are two nodes of 16 bytes now, and 32 bytes,
for which there was room at the start, can never be allocated again. -/
theorem fails_forever_freed : ∃ h ops c,
    (HeapAllocator.new fun _ ↦ 0).init 0x10000 64 = .ok h ∧
      FitsIn thirtyTwoBytes (nodeSpan h.mem h.head.next) ∧ Run HeapStep ⟨h, []⟩ ops c ∧
        c.live = [] ∧ Conserved ⟨0x10000, 0x10040⟩ c ∧
          ∀ ops' c', Run HeapStep c ops' c' → c'.heap.alloc thirtyTwoBytes = .ok (0, c'.heap) := by
  obtain ⟨h, ops, c, nodes, hinit, hroom, hrun, hlive, hinv, hspans⟩ := exists_freed
  refine ⟨h, ops, c, hinit, hroom, hrun, hlive, ?_, ?_⟩
  · rw [hinv.conserved_iff_total, Client.total, (hspans.map Span.len).sum_eq]
    decide
  · obtain ⟨nodes', hchain, hiff, -⟩ :=
      fails_forever_iff (L := thirtyTwoBytes) (by decide) hinit hrun
    obtain rfl := hchain.unique hinv.chain
    have hpieces : ∀ s ∈ [(⟨0x10000, 0x10020⟩ : Span), ⟨0x10020, 0x10040⟩],
        ¬FitsIn thirtyTwoBytes s := by decide
    exact hiff.mpr fun s hs ↦ hpieces s (hspans.subset hs)

end RelizOS
