import RelizOS.Allocator.Conservation

/-!
# First fit, and its undoing

A free list is a list of addresses and sizes; `HeapAllocator.Lists` says that it is the one in
memory. In these terms `alloc` replaces the first node that can hold the aligned block by its tail,
or removes it, or returns null (`FirstFit`), and `dealloc` followed by `alloc` with the same layout
gives the list back (`Undoes`): the node that `dealloc` puts in front holds the block exactly, since
the block is aligned to the rounded alignment.

Both hold in every state that a client can reach, as long as the search can compute where an aligned
block would start. `align_up` adds the alignment to the address without a check of its own, and
where this leaves 64 bits `alloc` panics instead of going on to the next node or returning null
(`allocExact_iff`, `not_allocExact`).
-/

namespace RelizOS

open ByteMemory HeapAllocator LabelledRun

/-! ## Free lists -/

/-- A node of the free list: its address, and the number of bytes behind its header. -/
structure FreeBlock where
  addr : ℕ
  size : ℕ
  deriving DecidableEq

namespace FreeBlock

variable (b : FreeBlock) (L : Layout)

/-- The node can hold the aligned block. -/
def HasRoom : Prop := neededIn L b.addr ≤ b.size + sizeOfFreeNode

/-- What is left of it behind the block. -/
def remaining : ℕ := b.size + sizeOfFreeNode - neededIn L b.addr

/-- The node that replaces it, if there is enough left. -/
def tail : List FreeBlock :=
  if 32 ≤ b.remaining L then [⟨tailIn L b.addr, b.remaining L - sizeOfFreeNode⟩] else []

end FreeBlock

/-- The list in memory consists of the nodes of `l`. -/
structure HeapAllocator.Lists (h : HeapAllocator) (l : List FreeBlock) : Prop where
  chain : Chain (nextOf h.mem) h.head.next (l.map FreeBlock.addr)
  sizes : ∀ b ∈ l, readUsize h.mem b.addr = b.size

/-- **First fit**: null is returned exactly when no node can hold the block, and then nothing
changes; otherwise the first node that can is replaced by its tail. -/
structure FirstFit (h : HeapAllocator) (l : List FreeBlock) (L : Layout) : Prop where
  null_iff : (∃ h', h.alloc L = .ok (0, h')) ↔ ∀ b ∈ l, ¬b.HasRoom L
  unchanged : ∀ h', h.alloc L = .ok (0, h') → h' = h
  first : ∀ pre b post, l = pre ++ b :: post → (∀ a ∈ pre, ¬a.HasRoom L) → b.HasRoom L →
    ∃ h', h.alloc L = .ok (startIn L b.addr, h') ∧ h'.Lists (pre ++ b.tail L ++ post)

/-- Freeing a block and allocating it again returns the same pointer, and gives the free list and
the counter back. -/
def Undoes (h : HeapAllocator) (l : List FreeBlock) (p : ℕ) (L : Layout) : Prop :=
  ∃ h₁ h₂, h.dealloc p L = .ok h₁ ∧ h₁.alloc L = .ok (p, h₂) ∧ h₂.Lists l ∧
    h₂.usedMemory = h.usedMemory

/-- What is said of `alloc` with one layout in one state of the heap. -/
structure AllocExact (c : Client) (l : List FreeBlock) (L : Layout) : Prop where
  firstFit : FirstFit c.heap l L
  undoes : ∀ b ∈ c.live, b.layout = L → Undoes c.heap l b.ptr L

/-- The alignment can be added to the address behind the header of every node that the search looks
at, and to every block with the layout. -/
structure AlignsInRoom (c : Client) (l : List FreeBlock) (L : Layout) : Prop where
  searched : ∀ pre b post, l = pre ++ b :: post → (∀ a ∈ pre, ¬a.HasRoom L) →
    b.addr + sizeOfFreeNode + L.roundedAlign < 2 ^ 64
  live : ∀ b ∈ c.live, b.layout = L → b.ptr + L.roundedAlign < 2 ^ 64

/-- The nodes at some addresses. -/
def freeBlocks (m : Mem) (nodes : List ℕ) : List FreeBlock :=
  nodes.map fun p ↦ ⟨p, readUsize m p⟩

theorem map_addr_freeBlocks (m : Mem) (nodes : List ℕ) :
    (freeBlocks m nodes).map FreeBlock.addr = nodes := by
  rw [freeBlocks, List.map_map]
  exact List.map_id nodes

theorem freeBlocks_congr {m m' : Mem} {nodes : List ℕ}
    (h : ∀ p ∈ nodes, readUsize m' p = readUsize m p) :
    freeBlocks m' nodes = freeBlocks m nodes := by
  apply List.map_congr_left
  intro p hp
  rw [h p hp]

theorem freeBlocks_eq_append {m : Mem} {nodes : List ℕ} {pre post : List FreeBlock} {b : FreeBlock}
    (h : freeBlocks m nodes = pre ++ b :: post) : ∃ pre' post', nodes = pre' ++ b.addr :: post' ∧
      pre = freeBlocks m pre' ∧ b = ⟨b.addr, readUsize m b.addr⟩ ∧ post = freeBlocks m post' := by
  obtain ⟨pre', rest, rfl, rfl, hrest⟩ := List.map_eq_append_iff.mp h
  obtain ⟨q, post', rfl, rfl, rfl⟩ := List.map_eq_cons_iff.mp hrest
  exact ⟨pre', post', rfl, rfl, rfl, rfl⟩

theorem HeapAllocator.Lists.unique {h : HeapAllocator} {l l' : List FreeBlock} (hl : h.Lists l)
    (hl' : h.Lists l') : l = l' := by
  have hfree : ∀ {l}, h.Lists l → freeBlocks h.mem (l.map FreeBlock.addr) = l := by
    intro l hl
    rw [freeBlocks, List.map_map]
    refine (List.map_congr_left fun b hb ↦ ?_).trans (List.map_id l)
    rw [Function.comp_apply, hl.sizes b hb]
    rfl
  rw [← hfree hl, ← hfree hl', hl.chain.unique hl'.chain]

theorem tail_of_splits {m : Mem} {L : Layout} {q : ℕ} (h : Splits m L q) :
    FreeBlock.tail ⟨q, readUsize m q⟩ L = [⟨tailIn L q, remainingIn m L q - sizeOfFreeNode⟩] := by
  have hlarge : 32 ≤ FreeBlock.remaining ⟨q, readUsize m q⟩ L := h
  exact if_pos hlarge

theorem tail_of_not_splits {m : Mem} {L : Layout} {q : ℕ} (h : ¬Splits m L q) :
    FreeBlock.tail ⟨q, readUsize m q⟩ L = [] := by
  have hsmall : ¬32 ≤ FreeBlock.remaining ⟨q, readUsize m q⟩ L := h
  exact if_neg hsmall

theorem forall_mem_freeBlocks {m : Mem} {L : Layout} {nodes : List ℕ} :
    (∀ b ∈ freeBlocks m nodes, ¬b.HasRoom L) ↔ ∀ p ∈ nodes, ¬Fits m L p :=
  List.forall_mem_map

namespace HeapInv

variable {arena : Span} {c : Client} {nodes pre post : List ℕ} {L : Layout} {q : ℕ}

theorem lists (hinv : HeapInv arena c nodes) : c.heap.Lists (freeBlocks c.heap.mem nodes) where
  chain := by
    rw [map_addr_freeBlocks]
    exact hinv.chain
  sizes b hb := by
    obtain ⟨p, -, rfl⟩ := List.mem_map.mp hb
    rfl

/-! ## Allocation -/

theorem returns_alloc (hinv : HeapInv arena c nodes) (hhi : arena.hi < 2 ^ 64) :
    Checked.Returns (c.heap.alloc L) ↔
      ∀ q ∈ visited c.heap.mem L nodes, q + sizeOfFreeNode + L.roundedAlign < 2 ^ 64 := by
  refine HeapAllocator.returns_alloc hinv.chain
    (fun q hq ↦ (hinv.node_end_le hq).trans_lt hhi) (fun q hq hfit ↦ ?_) (hinv.length_lt hhi)
  have hle := hinv.used_add_le hhi hq hfit
  rw [Span.len] at hle
  omega

theorem freeBlocks_carve (hinv : HeapInv arena c (pre ++ q :: post)) (hhi : arena.hi < 2 ^ 64)
    (hfit : Fits c.heap.mem L q) :
    freeBlocks (carve c.heap L pre.getLast? q).mem (pre ++ (carveNodes c.heap.mem L q ++ post)) =
      freeBlocks c.heap.mem pre ++ FreeBlock.tail ⟨q, readUsize c.heap.mem q⟩ L ++
        freeBlocks c.heap.mem post := by
  have hpre := freeBlocks_congr fun p (hp : p ∈ pre) ↦ hinv.carve_size hfit (Or.inl hp)
  have hpost := freeBlocks_congr fun p (hp : p ∈ post) ↦ hinv.carve_size hfit (Or.inr hp)
  have htail : freeBlocks (carve c.heap L pre.getLast? q).mem (carveNodes c.heap.mem L q) =
      FreeBlock.tail ⟨q, readUsize c.heap.mem q⟩ L := by
    by_cases hs : Splits c.heap.mem L q
    · have hspan := congrArg Span.hi (hinv.nodeSpan_tail hhi hfit hs)
      have heq := tailIn_eq L q
      have hin := splits_tail hs hfit
      have hsize : readUsize (carve c.heap L pre.getLast? q).mem (tailIn L q) =
          remainingIn c.heap.mem L q - sizeOfFreeNode := by
        rw [remainingIn]
        simp only [nodeSpan] at hspan
        omega
      rw [carveNodes_of_splits hs, tail_of_splits hs, freeBlocks, List.map_singleton, hsize]
    · rw [carveNodes_of_not_splits hs, tail_of_not_splits hs]
      rfl
  rw [freeBlocks, List.map_append, List.map_append, ← List.append_assoc]
  exact congrArg₂ _ (congrArg₂ _ hpre htail) hpost

theorem lists_carve (hinv : HeapInv arena c (pre ++ q :: post)) (hhi : arena.hi < 2 ^ 64)
    (hfit : Fits c.heap.mem L q) : (carve c.heap L pre.getLast? q).Lists
      (freeBlocks c.heap.mem pre ++ FreeBlock.tail ⟨q, readUsize c.heap.mem q⟩ L ++
        freeBlocks c.heap.mem post) := by
  rw [← hinv.freeBlocks_carve hhi hfit]
  exact (hinv.alloc_carve hhi hfit).lists

end HeapInv

theorem FirstFit.returns {h : HeapAllocator} {l : List FreeBlock} {L : Layout}
    (hfirst : FirstFit h l L) : Checked.Returns (h.alloc L) := by
  classical
  cases hfind : l.find? fun b ↦ decide (b.HasRoom L) with
  | none =>
    obtain ⟨h', hok⟩ := hfirst.null_iff.mpr (by simpa using hfind)
    exact ⟨_, hok⟩
  | some b =>
    obtain ⟨hb, pre, post, rfl, hpre⟩ := List.find?_eq_some_iff_append.mp hfind
    obtain ⟨h', hok, -⟩ := hfirst.first pre b post rfl (by simpa using hpre) (by simpa using hb)
    exact ⟨_, hok⟩

namespace HeapInv

variable {arena : Span} {c : Client} {nodes : List ℕ} {L : Layout}

/-- **`alloc` is first fit** when it returns. -/
theorem firstFit_of_returns (hinv : HeapInv arena c nodes) (hhi : arena.hi < 2 ^ 64)
    (hreturns : Checked.Returns (c.heap.alloc L)) :
    FirstFit c.heap (freeBlocks c.heap.mem nodes) L := by
  obtain ⟨⟨p, h⟩, hok⟩ := hreturns
  rcases hinv.alloc_ok hhi hok with
    ⟨rfl, rfl, hnone⟩ | ⟨pre, q, post, rfl, hskip, hfit, rfl, hne, rfl⟩
  · refine ⟨iff_of_true ⟨_, hok⟩ (forall_mem_freeBlocks.mpr hnone), fun h' hok' ↦ ?_, ?_⟩
    · exact (Prod.mk.inj (Except.ok.inj (hok'.symm.trans hok))).2
    · intro pre b post hl _ hb
      obtain ⟨pre', post', rfl, -, hsize, -⟩ := freeBlocks_eq_append hl
      rw [hsize] at hb
      exact absurd hb (hnone b.addr (by simp))
  · have hnull : ∀ h', c.heap.alloc L ≠ .ok (0, h') := by
      intro h' hok'
      exact hne (Prod.mk.inj (Except.ok.inj (hok.symm.trans hok'))).1
    refine ⟨iff_of_false (fun ⟨h', hok'⟩ ↦ hnull h' hok') ?_, fun h' hok' ↦
      absurd hok' (hnull h'), ?_⟩
    · rw [forall_mem_freeBlocks]
      exact fun hnone ↦ hnone q (by simp) hfit
    · intro pre' b post' hl hpre' hb
      obtain ⟨pre'', post'', hnodes, rfl, hsize, rfl⟩ := freeBlocks_eq_append hl
      rw [hsize] at hb
      obtain ⟨rfl, rfl, rfl⟩ :=
        first_unique hnodes hskip hfit (forall_mem_freeBlocks.mp hpre') hb
      refine ⟨_, hok, ?_⟩
      rw [hsize]
      exact hinv.lists_carve hhi hfit

theorem firstFit_iff (hinv : HeapInv arena c nodes) (hhi : arena.hi < 2 ^ 64) :
    FirstFit c.heap (freeBlocks c.heap.mem nodes) L ↔
      ∀ pre b post, freeBlocks c.heap.mem nodes = pre ++ b :: post →
        (∀ a ∈ pre, ¬a.HasRoom L) → b.addr + sizeOfFreeNode + L.roundedAlign < 2 ^ 64 := by
  have hreturns : FirstFit c.heap (freeBlocks c.heap.mem nodes) L ↔
      ∀ q ∈ visited c.heap.mem L nodes, q + sizeOfFreeNode + L.roundedAlign < 2 ^ 64 :=
    ⟨fun hfirst ↦ (hinv.returns_alloc hhi).mp hfirst.returns, fun hall ↦
      hinv.firstFit_of_returns hhi ((hinv.returns_alloc hhi).mpr hall)⟩
  rw [hreturns]
  constructor
  · intro h pre b post hl hpre
    obtain ⟨pre', post', hnodes, rfl, -, -⟩ := freeBlocks_eq_append hl
    exact h b.addr (mem_visited.mpr ⟨pre', post', hnodes, forall_mem_freeBlocks.mp hpre⟩)
  · intro h q hq
    obtain ⟨pre, post, rfl, hpre⟩ := mem_visited.mp hq
    exact h _ ⟨q, readUsize c.heap.mem q⟩ _ List.map_append (forall_mem_freeBlocks.mpr hpre)

/-! ## Freeing a block and allocating it again -/

section

variable {b : Block}

/-- The node that freeing a block puts in front holds the block exactly. -/
theorem startIn_freed (hinv : HeapInv arena c nodes) (hb : b ∈ c.live)
    (hal : b.layout.roundedAlign ∣ b.ptr) :
    startIn b.layout (b.ptr - sizeOfFreeNode) = b.ptr ∧
      neededIn b.layout (b.ptr - sizeOfFreeNode) = b.layout.roundedSize + sizeOfFreeNode := by
  have hptr := (hinv.placed b hb).1
  have hheader : b.ptr - sizeOfFreeNode + sizeOfFreeNode = b.ptr := Nat.sub_add_cancel hptr.le
  have hstart : startIn b.layout (b.ptr - sizeOfFreeNode) = b.ptr := by
    rw [(startIn_eq_iff _ _).mpr (by rwa [hheader]), hheader]
  refine ⟨hstart, ?_⟩
  rw [neededIn, hstart]
  omega

theorem freed_size (hinv : HeapInv arena c nodes) (hhi : arena.hi < 2 ^ 64) (hb : b ∈ c.live) :
    readUsize (c.heap.release b.ptr b.layout).mem (b.ptr - sizeOfFreeNode) =
      b.layout.roundedSize := by
  have hspan := (hinv.within_block hb).2
  simp only [Block.span] at hspan
  exact readUsize_writeNode_size (by dsimp only; omega)

/-- **Allocating a block again** that was just freed gives it back, if it returns. -/
theorem undoes_of_returns (hinv : HeapInv arena c nodes) (hhi : arena.hi < 2 ^ 64)
    (hb : b ∈ c.live) (hal : b.layout.roundedAlign ∣ b.ptr)
    (hreturns : Checked.Returns ((c.heap.release b.ptr b.layout).alloc b.layout)) :
    Undoes c.heap (freeBlocks c.heap.mem nodes) b.ptr b.layout := by
  obtain ⟨hdealloc, hinv'⟩ := hinv.dealloc_spec hhi hb
  obtain ⟨hstart, hneeded⟩ := hinv.startIn_freed hb hal
  have hsize := hinv.freed_size hhi hb
  have hfit : Fits (c.heap.release b.ptr b.layout).mem b.layout (b.ptr - sizeOfFreeNode) := by
    rw [Fits, hneeded, hsize]
  have hsplit : ¬Splits (c.heap.release b.ptr b.layout).mem b.layout
      (b.ptr - sizeOfFreeNode) := by
    rw [Splits, remainingIn, hneeded, hsize, Nat.sub_self]
    exact Nat.not_succ_le_zero _
  obtain ⟨⟨p, h₂⟩, hok⟩ := hreturns
  rcases hinv'.alloc_ok hhi hok with
    ⟨-, -, hnone⟩ | ⟨pre, q, post, hl, hskip, hfit', rfl, -, rfl⟩
  · exact absurd hfit (hnone _ List.mem_cons_self)
  -- the search stops at the node in front, which is taken out whole
  have hfront : HeapInv arena ⟨c.heap.release b.ptr b.layout, c.live.erase b⟩
    ([] ++ (b.ptr - sizeOfFreeNode) :: nodes) := hinv'
  obtain ⟨rfl, rfl, rfl⟩ := first_unique (List.nil_append _ |>.trans hl)
    (fun r hr ↦ absurd hr List.not_mem_nil) hfit hskip hfit'
  have hlists := hfront.lists_carve hhi hfit
  have hkeep : freeBlocks (c.heap.release b.ptr b.layout).mem nodes =
      freeBlocks c.heap.mem nodes := freeBlocks_congr fun p hp ↦
    readUsize_congr ((hinv.release_agreeOn hb hp).mono le_rfl (by omega))
  rw [tail_of_not_splits hsplit, hkeep] at hlists
  refine ⟨_, _, hdealloc, by rw [hok, hstart], hlists, ?_⟩
  exact Nat.sub_add_cancel ((hinv.usedExact hhi).sub b hb)

/-- Allocating it again panics exactly when adding the alignment wraps. -/
theorem undoes_iff (hinv : HeapInv arena c nodes) (hhi : arena.hi < 2 ^ 64)
    (hb : b ∈ c.live) (hal : b.layout.roundedAlign ∣ b.ptr) :
    Undoes c.heap (freeBlocks c.heap.mem nodes) b.ptr b.layout ↔
      b.ptr + b.layout.roundedAlign < 2 ^ 64 := by
  obtain ⟨hdealloc, hinv'⟩ := hinv.dealloc_spec hhi hb
  have hfit : Fits (c.heap.release b.ptr b.layout).mem b.layout (b.ptr - sizeOfFreeNode) := by
    rw [Fits, (hinv.startIn_freed hb hal).2, hinv.freed_size hhi hb]
  have hreturns : Checked.Returns ((c.heap.release b.ptr b.layout).alloc b.layout) ↔
      b.ptr + b.layout.roundedAlign < 2 ^ 64 := by
    rw [hinv'.returns_alloc hhi, visited, if_pos hfit, List.forall_mem_singleton,
      Nat.sub_add_cancel (hinv.placed b hb).1.le]
  rw [← hreturns]
  constructor
  · rintro ⟨h₁, h₂, hdealloc', hok, -⟩
    obtain rfl := Except.ok.inj (hdealloc.symm.trans hdealloc')
    exact ⟨_, hok⟩
  · exact hinv.undoes_of_returns hhi hb hal

end

end HeapInv

/-! ## Runs -/

/-- Live blocks are aligned to the rounded alignment, and not only as requested. -/
def Client.Aligned (c : Client) : Prop := ∀ b ∈ c.live, b.layout.roundedAlign ∣ b.ptr

theorem HeapInv.aligned_step {arena : Span} {c c' : Client} {nodes : List ℕ} {op : HeapOp}
    (hinv : HeapInv arena c nodes) (hhi : arena.hi < 2 ^ 64) (hal : c.Aligned)
    (hstep : HeapStep c op c') : c'.Aligned := by
  cases hstep with
  | @alloc L p h hok =>
    intro b hb
    dsimp only at hb
    split at hb
    · exact hal b hb
    · next hne =>
      rcases List.mem_cons.mp hb with rfl | hb
      · rcases hinv.alloc_ok hhi hok with ⟨rfl, -⟩ | ⟨pre, q, post, -, -, -, rfl, -⟩
        · exact absurd rfl hne
        · exact dvd_roundUp _ _
      · exact hal b hb
  | @dealloc b h hb hok => exact fun b' hb' ↦ hal b' (List.mem_of_mem_erase hb')
  | @store b i v hb hi => exact hal

theorem HeapInv.of_run_aligned {m : Mem} {start size : ℕ} {h : HeapAllocator}
    (htop : start + size < 2 ^ 64) (hinit : (HeapAllocator.new m).init start size = .ok h)
    {ops : List HeapOp} {c : Client} (hrun : Run HeapStep ⟨h, []⟩ ops c) :
    ∃ nodes, HeapInv ⟨start, start + size⟩ c nodes ∧ c.Aligned := by
  obtain ⟨nodes₀, hinv₀⟩ := HeapInv.init (sixteen_le_of_init hinit) htop hinit
  refine hrun.invariant
    (P := fun c ↦ ∃ nodes, HeapInv ⟨start, start + size⟩ c nodes ∧ c.Aligned)
    ⟨nodes₀, hinv₀, fun b hb ↦ absurd hb List.not_mem_nil⟩ ?_
  rintro c op c' ⟨nodes, hinv, hal⟩ hstep
  obtain ⟨nodes', hinv'⟩ := hinv.step htop hstep
  exact ⟨nodes', hinv', hinv.aligned_step htop hal hstep⟩

theorem HeapInv.exact_iff {arena : Span} {c : Client} {nodes : List ℕ}
    (hinv : HeapInv arena c nodes) (hhi : arena.hi < 2 ^ 64) (hal : c.Aligned) (L : Layout) :
    AllocExact c (freeBlocks c.heap.mem nodes) L ↔
      AlignsInRoom c (freeBlocks c.heap.mem nodes) L := by
  constructor
  · rintro ⟨hfirst, hundoes⟩
    refine ⟨(hinv.firstFit_iff hhi).mp hfirst, fun b hb hL ↦ ?_⟩
    subst hL
    exact (hinv.undoes_iff hhi hb (hal b hb)).mp (hundoes b hb rfl)
  · rintro ⟨hsearched, hlive⟩
    refine ⟨(hinv.firstFit_iff hhi).mpr hsearched, fun b hb hL ↦ ?_⟩
    subst hL
    exact (hinv.undoes_iff hhi hb (hal b hb)).mpr (hlive b hb rfl)

/-- **`alloc` is exactly first fit, and undoes `dealloc`**, in every state that a client reaches,
where no alignment wraps. -/
theorem allocExact_iff {m : Mem} {start size : ℕ} {h : HeapAllocator}
    (htop : start + size < 2 ^ 64) (hinit : (HeapAllocator.new m).init start size = .ok h)
    {ops : List HeapOp} {c : Client} (hrun : Run HeapStep ⟨h, []⟩ ops c) :
    ∃ l, c.heap.Lists l ∧ ∀ L, AllocExact c l L ↔ AlignsInRoom c l L := by
  obtain ⟨nodes, hinv, hal⟩ := HeapInv.of_run_aligned htop hinit hrun
  exact ⟨_, hinv.lists, hinv.exact_iff htop hal⟩

theorem HeapInv.alignsInRoom {arena : Span} {c : Client} {nodes : List ℕ} {L : Layout}
    (hinv : HeapInv arena c nodes) (hL : arena.hi + L.roundedAlign < 2 ^ 64) :
    AlignsInRoom c (freeBlocks c.heap.mem nodes) L where
  searched pre b post hl _ := by
    obtain ⟨pre', post', rfl, -, -, -⟩ := freeBlocks_eq_append hl
    have hend := hinv.node_end_le (p := b.addr) (by simp)
    omega
  live b hb _ := by
    have hend := (hinv.within_block hb).2
    simp only [Block.span] at hend
    omega

theorem allocExact_page : ∃ h c l,
    (HeapAllocator.new fun _ ↦ 0).init 0x10000 (32 * 1024 * 1024) = .ok h ∧
      Run HeapStep ⟨h, []⟩ [.alloc pageLayout] c ∧ c.heap.Lists l ∧ ∀ L, AllocExact c l L := by
  have htop : 0x10000 + 32 * 1024 * 1024 < 2 ^ 64 := by norm_num
  have hinit : (HeapAllocator.new fun _ ↦ 0).init 0x10000 (32 * 1024 * 1024) = .ok _ :=
    init_eq (by norm_num)
  obtain ⟨nodes₀, hinv₀⟩ := HeapInv.init (by norm_num) htop hinit
  obtain ⟨c, hstep⟩ := hinv₀.exists_alloc htop (HeapOp.noWrap_of_lt (by norm_num) _)
  obtain ⟨l, hl, hiff⟩ := allocExact_iff htop hinit (.snoc .nil hstep)
  obtain ⟨nodes, hinv⟩ := HeapInv.of_run (by norm_num) htop hinit (.snoc .nil hstep)
  obtain rfl := hl.unique hinv.lists
  refine ⟨_, c, _, hinit, .snoc .nil hstep, hl, fun L ↦ (hiff L).mpr (hinv.alignsInRoom ?_)⟩
  exact HeapOp.noWrap_of_lt (by norm_num) (.alloc L)

/-- **`alloc` panics instead of returning null** in a heap in the upper half of the address space,
when 16 bytes are requested at an alignment of `2 ^ 62`. -/
theorem not_allocExact :
    ¬∀ (m : Mem) (start size : ℕ) (h : HeapAllocator) (ops : List HeapOp) (c : Client),
      start + size < 2 ^ 64 → (HeapAllocator.new m).init start size = .ok h →
      Run HeapStep ⟨h, []⟩ ops c → ∃ l, c.heap.Lists l ∧ ∀ L, AllocExact c l L := by
  intro hgeneral
  have htop : 0xFFFF800000000000 + 32 * 1024 * 1024 < 2 ^ 64 := by norm_num
  have hinit : (HeapAllocator.new fun _ ↦ 0).init 0xFFFF800000000000 (32 * 1024 * 1024) = .ok _ :=
    init_eq (by norm_num)
  obtain ⟨hinv, -⟩ := HeapInv.fresh (by norm_num) (by norm_num) htop hinit
  obtain ⟨l, -, hexact⟩ := hgeneral _ _ _ _ [] _ htop hinit .nil
  have hreturns := (hexact ⟨16, 2 ^ 62, ⟨62, rfl⟩, by norm_num⟩).firstFit.returns
  have hroom := (hinv.returns_alloc htop).mp hreturns _
    (mem_visited.mpr ⟨[], [], rfl, fun r hr ↦ absurd hr List.not_mem_nil⟩)
  exact absurd hroom (by decide)

end RelizOS
