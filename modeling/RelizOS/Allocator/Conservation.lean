import RelizOS.Allocator.UsedMemory

/-!
# Lost memory

`dealloc` rebuilds a node from the layout alone, so the heap gets back the sixteen bytes in front of
a block and its rounded size, and nothing else of the node that the block was cut from. `alloc`
gives two kinds of bytes away for good: the padding in front of an aligned block, and a remainder
that is too small for a node.

The total length of all spans of the packing measures this. No step increases it, and an allocation
keeps it exactly when the chosen node begins with an aligned block and has the right size
(`Lossless`). A run therefore conserves the heap exactly when all its allocations are lossless
(`conserved_iff`); what one of them loses is never found again.
-/

namespace RelizOS

open ByteMemory HeapAllocator LabelledRun

/-- The free nodes and the ranges of the live blocks cover the heap; with no live blocks, the free
nodes have all of it. -/
def Conserved (arena : Span) (c : Client) : Prop :=
  ∃ nodes, Chain (nextOf c.heap.mem) c.heap.head.next nodes ∧
    (∀ a, arena.Holds a → ∃ s ∈ c.spans nodes, s.Holds a) ∧
    (c.live = [] →
      (nodes.map fun p ↦ sizeOfFreeNode + readUsize c.heap.mem p).sum = arena.len)

/-- The first node with room for the request, if there is one, has an aligned block right behind its
header, and is as large as the block or at least 32 bytes larger. -/
def Lossless (c : Client) : HeapOp → Prop
  | .alloc L => ∀ pre q post, Chain (nextOf c.heap.mem) c.heap.head.next (pre ++ q :: post) →
      (∀ p ∈ pre, ¬Fits c.heap.mem L p) → Fits c.heap.mem L q →
        L.roundedAlign ∣ q + sizeOfFreeNode ∧
          (readUsize c.heap.mem q = L.roundedSize ∨ L.roundedSize + 32 ≤ readUsize c.heap.mem q)
  | .dealloc _ => True
  | .store _ _ _ => True

/-- The bytes in free nodes and live blocks, with their headers. -/
def Client.total (c : Client) (nodes : List ℕ) : ℕ := ((c.spans nodes).map Span.len).sum

namespace HeapInv

variable {arena : Span} {c : Client} {nodes pre post : List ℕ} {L : Layout} {q : ℕ}

theorem conserved_iff_total (hinv : HeapInv arena c nodes) :
    Conserved arena c ↔ c.total nodes = arena.len := by
  constructor
  · rintro ⟨nodes', hchain, hcovers, -⟩
    obtain rfl := hchain.unique hinv.chain
    exact hinv.packed.covers_iff.mp hcovers
  · intro htotal
    have hlen : ∀ p ∈ nodes,
        sizeOfFreeNode + readUsize c.heap.mem p = (Span.len ∘ nodeSpan c.heap.mem) p := by
      intro p _
      simp only [Function.comp_apply, Span.len, nodeSpan]
      omega
    refine ⟨nodes, hinv.chain, hinv.packed.covers_iff.mpr htotal, fun hnone ↦ ?_⟩
    rw [← htotal, Client.total, Client.spans, hnone, List.map_nil, List.append_nil, List.map_map,
      List.map_congr_left hlen]

/-! ## One allocation -/

theorem startIn_eq_iff (L : Layout) (q : ℕ) :
    startIn L q = q + sizeOfFreeNode ↔ L.roundedAlign ∣ q + sizeOfFreeNode := by
  obtain ⟨j, hj, -, -, -⟩ := L.roundedAlign_spec
  have hpos : 0 < L.roundedAlign := by rw [hj]; exact Nat.two_pow_pos j
  constructor
  · intro hstart
    rw [← hstart]
    exact dvd_roundUp _ _
  · rintro ⟨k, hk⟩
    have hsum : L.roundedAlign * k + L.roundedAlign - 1 =
        L.roundedAlign - 1 + L.roundedAlign * k := by omega
    rw [startIn, roundUp, hk, hsum, Nat.add_mul_div_left _ _ hpos,
      Nat.div_eq_of_lt (by omega), zero_add, mul_comm]

/-- What becomes of the node at `q`: the block, and the remainder if there is one. They have all of
the node's bytes, or fewer. -/
theorem parts_len (hfit : Fits c.heap.mem L q) :
    L.roundedSize + sizeOfFreeNode +
        (if Splits c.heap.mem L q then remainingIn c.heap.mem L q else 0) ≤
      sizeOfFreeNode + readUsize c.heap.mem q ∧
    (L.roundedSize + sizeOfFreeNode +
        (if Splits c.heap.mem L q then remainingIn c.heap.mem L q else 0) =
      sizeOfFreeNode + readUsize c.heap.mem q ↔ L.roundedAlign ∣ q + sizeOfFreeNode ∧
        (readUsize c.heap.mem q = L.roundedSize ∨
          L.roundedSize + 32 ≤ readUsize c.heap.mem q)) := by
  have hhead := header_le_startIn L q
  rw [← startIn_eq_iff]
  rw [Fits, neededIn] at hfit
  by_cases hs : Splits c.heap.mem L q
  · rw [if_pos hs]
    rw [Splits, remainingIn, neededIn] at hs
    rw [remainingIn, neededIn]
    simp only [sizeOfFreeNode] at *
    omega
  · rw [if_neg hs]
    rw [Splits, remainingIn, neededIn] at hs
    simp only [sizeOfFreeNode] at *
    omega

theorem total_eq (c : Client) (pre post : List ℕ) (q : ℕ) :
    c.total (pre ++ q :: post) =
      sizeOfFreeNode + readUsize c.heap.mem q + ((restSpans c pre post).map Span.len).sum := by
  have hlen : (nodeSpan c.heap.mem q).len = sizeOfFreeNode + readUsize c.heap.mem q := by
    simp only [Span.len, nodeSpan]
    omega
  rw [Client.total, ((spans_perm c pre post q).map Span.len).sum_eq, List.map_cons, List.sum_cons,
    hlen]

theorem total_carve (hinv : HeapInv arena c (pre ++ q :: post)) (hhi : arena.hi < 2 ^ 64)
    (hfit : Fits c.heap.mem L q) :
    Client.total ⟨carve c.heap L pre.getLast? q, ⟨startIn L q, L⟩ :: c.live⟩
        (pre ++ (carveNodes c.heap.mem L q ++ post)) =
      L.roundedSize + sizeOfFreeNode +
        (if Splits c.heap.mem L q then remainingIn c.heap.mem L q else 0) +
          ((restSpans c pre post).map Span.len).sum := by
  have hhead := header_le_startIn L q
  have hblock : (Block.span ⟨startIn L q, L⟩).len = L.roundedSize + sizeOfFreeNode := by
    simp only [Span.len, Block.span]
    omega
  have htail : (((carveNodes c.heap.mem L q).map
      (nodeSpan (carve c.heap L pre.getLast? q).mem)).map Span.len).sum =
        if Splits c.heap.mem L q then remainingIn c.heap.mem L q else 0 := by
    by_cases hs : Splits c.heap.mem L q
    · have htail := tailIn_eq L q
      rw [Fits] at hfit
      rw [carveNodes_of_splits hs, if_pos hs, List.map_singleton, hinv.nodeSpan_tail hhi hfit hs,
        List.map_singleton, List.sum_singleton, Span.len, remainingIn]
      dsimp only
      omega
    · rw [carveNodes_of_not_splits hs, if_neg hs]
      rfl
  rw [Client.total, ((hinv.spans_carve_perm hfit).map Span.len).sum_eq, List.cons_append,
    List.map_cons, List.sum_cons, List.map_append, List.sum_append, hblock, htail,
    ← add_assoc]

/-- The first node of the list with room for the request is unique. -/
theorem lossless_alloc_iff (hchain : Chain (nextOf c.heap.mem) c.heap.head.next (pre ++ q :: post))
    (hskip : ∀ p ∈ pre, ¬Fits c.heap.mem L p) (hfit : Fits c.heap.mem L q) :
    Lossless c (.alloc L) ↔ L.roundedAlign ∣ q + sizeOfFreeNode ∧
      (readUsize c.heap.mem q = L.roundedSize ∨ L.roundedSize + 32 ≤ readUsize c.heap.mem q) := by
  constructor
  · intro hlossless
    exact hlossless pre q post hchain hskip hfit
  · intro hq pre' q' post' hchain' hskip' hfit'
    obtain ⟨-, rfl, -⟩ := first_unique (hchain.unique hchain') hskip hfit hskip' hfit'
    exact hq

/-! ## Steps and runs -/

/-- **The step lemma.** The total never grows, and only a lossless step keeps it. -/
theorem step_total {c' : Client} {op : HeapOp} (hinv : HeapInv arena c nodes)
    (hhi : arena.hi < 2 ^ 64) (hstep : HeapStep c op c') :
    ∃ nodes', HeapInv arena c' nodes' ∧ c'.total nodes' ≤ c.total nodes ∧
      (c'.total nodes' = c.total nodes ↔ Lossless c op) := by
  cases hstep with
  | @alloc L p h hok =>
    rcases hinv.alloc_ok hhi hok with
      ⟨rfl, rfl, hnone⟩ | ⟨pre, q, post, rfl, hskip, hfit, rfl, hne, rfl⟩
    · rw [if_pos rfl]
      refine ⟨nodes, hinv, le_rfl, iff_of_true rfl fun pre q post hchain _ hfit ↦ ?_⟩
      -- no node fits, so there is no first one that does
      exact absurd hfit (hnone q (by rw [hinv.chain.unique hchain]; simp))
    · rw [if_neg hne]
      have hparts := parts_len hfit
      refine ⟨_, hinv.alloc_carve hhi hfit, ?_, ?_⟩
      · rw [hinv.total_carve hhi hfit, total_eq]
        exact Nat.add_le_add_right hparts.1 _
      · rw [hinv.total_carve hhi hfit, total_eq, Nat.add_right_cancel_iff, hparts.2,
          lossless_alloc_iff hinv.chain hskip hfit]
  | @dealloc b h hb hok =>
    obtain ⟨hok', hinv'⟩ := hinv.dealloc_spec hhi hb
    rw [hok, Except.ok.injEq] at hok'
    subst hok'
    have htotal := ((hinv.spans_release_perm hhi hb).map Span.len).sum_eq
    exact ⟨_, hinv', htotal.le, iff_of_true htotal trivial⟩
  | @store b i v hb hi =>
    have hspan : ∀ p ∈ nodes, nodeSpan (Function.update c.heap.mem (b.ptr + i) v) p =
        nodeSpan c.heap.mem p := fun p hp ↦ by
      rw [nodeSpan, nodeSpan,
        readUsize_congr ((hinv.store_agreeOn hb hi v hp).mono le_rfl (by omega))]
    have htotal : Client.total
        ⟨{ c.heap with mem := Function.update c.heap.mem (b.ptr + i) v }, c.live⟩ nodes =
          c.total nodes := by
      rw [Client.total, Client.total, Client.spans, Client.spans, List.map_congr_left hspan]
    exact ⟨nodes, hinv.store_spec hb hi v, htotal.le, iff_of_true htotal trivial⟩

/-- What is missing from the total at one time is missing ever after. -/
theorem run_total_le {c₀ : Client} {nodes₀ : List ℕ} {ops : List HeapOp} (hhi : arena.hi < 2 ^ 64)
    (h0 : HeapInv arena c₀ nodes₀) (hrun : Run HeapStep c₀ ops c) :
    ∃ nodes, HeapInv arena c nodes ∧ c.total nodes ≤ c₀.total nodes₀ ∧
      (c.total nodes = c₀.total nodes₀ → Run (guarded Lossless HeapStep) c₀ ops c) := by
  induction hrun with
  | nil => exact ⟨nodes₀, h0, le_rfl, fun _ ↦ .nil⟩
  | @snoc es c₁ c₂ e hrun hstep ih =>
    obtain ⟨nodes₁, hinv₁, hle₁, hlossless₁⟩ := ih
    obtain ⟨nodes₂, hinv₂, hle₂, hiff⟩ := hinv₁.step_total hhi hstep
    refine ⟨nodes₂, hinv₂, hle₂.trans hle₁, fun heq ↦ ?_⟩
    have heq₁ : c₁.total nodes₁ = c₀.total nodes₀ := hle₁.antisymm (heq.ge.trans hle₂)
    exact .snoc (hlossless₁ heq₁) ⟨hiff.mp (heq.trans heq₁.symm), hstep⟩

theorem run_total_eq {c₀ : Client} {nodes₀ : List ℕ} {ops : List HeapOp} (hhi : arena.hi < 2 ^ 64)
    (h0 : HeapInv arena c₀ nodes₀) (hrun : Run (guarded Lossless HeapStep) c₀ ops c) :
    ∃ nodes, HeapInv arena c nodes ∧ c.total nodes = c₀.total nodes₀ := by
  induction hrun with
  | nil => exact ⟨nodes₀, h0, rfl⟩
  | snoc hrun hstep ih =>
    obtain ⟨nodes₁, hinv₁, heq₁⟩ := ih
    obtain ⟨nodes₂, hinv₂, -, hiff⟩ := hinv₁.step_total hhi hstep.2
    exact ⟨nodes₂, hinv₂, (hiff.mpr hstep.1).trans heq₁⟩

/-- A fresh heap has nothing missing, unless it begins at the null address. -/
theorem fresh_total {m : Mem} {start size : ℕ} {h : HeapAllocator} (htop : start + size < 2 ^ 64)
    (hinit : (HeapAllocator.new m).init start size = .ok h) :
    ∃ nodes, HeapInv ⟨start, start + size⟩ ⟨h, []⟩ nodes ∧
      (Client.total ⟨h, []⟩ nodes = size ↔ start ≠ 0) ∧ Client.total ⟨h, []⟩ nodes ≤ size := by
  have hsize := sixteen_le_of_init hinit
  by_cases hstart : start = 0
  · obtain ⟨nodes, hinv⟩ := HeapInv.init hsize htop hinit
    have hnodes : nodes = [] := by
      -- the head holds the null address, which ends the list
      rw [init_eq hsize, Except.ok.injEq] at hinit
      subst hinit
      exact hinv.chain.unique hstart
    subst hnodes
    have htotal : Client.total ⟨h, []⟩ [] = 0 := rfl
    exact ⟨[], hinv, by rw [htotal]; omega, by rw [htotal]; omega⟩
  · obtain ⟨hinv, hread⟩ := HeapInv.fresh hsize hstart htop hinit
    have htotal : Client.total ⟨h, []⟩ [start] = size := by
      rw [Client.total, Client.spans, List.map_singleton, List.map_nil, List.append_nil,
        List.map_singleton, List.sum_singleton, Span.len, nodeSpan]
      dsimp only
      rw [hread, sizeOfFreeNode]
      omega
    exact ⟨[start], hinv, by rw [htotal]; exact iff_of_true rfl hstart, htotal.le⟩

end HeapInv

/-- **No memory is lost** exactly as long as every allocation is lossless, in a heap that does not
begin at the null address. -/
theorem conserved_iff {m : Mem} {start size : ℕ} {h : HeapAllocator}
    (htop : start + size < 2 ^ 64) (hinit : (HeapAllocator.new m).init start size = .ok h)
    {ops : List HeapOp} {c : Client} (hrun : Run HeapStep ⟨h, []⟩ ops c) :
    Conserved ⟨start, start + size⟩ c ↔
      start ≠ 0 ∧ Run (guarded Lossless HeapStep) ⟨h, []⟩ ops c := by
  obtain ⟨nodes₀, hinv₀, hfresh, hle₀⟩ := HeapInv.fresh_total htop hinit
  obtain ⟨nodes, hinv, hle, hlossless⟩ := HeapInv.run_total_le htop hinv₀ hrun
  rw [hinv.conserved_iff_total, Span.len, Nat.add_sub_cancel_left]
  constructor
  · intro htotal
    have htotal₀ : Client.total ⟨h, []⟩ nodes₀ = size := hle₀.antisymm (htotal ▸ hle)
    exact ⟨hfresh.mp htotal₀, hlossless (htotal.trans htotal₀.symm)⟩
  · rintro ⟨hstart, hguarded⟩
    obtain ⟨nodes', hinv', heq⟩ := HeapInv.run_total_eq htop hinv₀ hguarded
    rw [hinv.chain.unique hinv'.chain, heq, hfresh.mpr hstart]

/-- A layout of 16 bytes, aligned to a power of two up to 64. -/
def sixteenBytes (k : Fin 7) : Layout :=
  ⟨16, 2 ^ k.val, ⟨k, rfl⟩, by
    have hle : 2 ^ k.val ≤ 2 ^ 6 := Nat.pow_le_pow_right (by omega) (by omega)
    omega⟩

theorem exists_alloc_sixteenBytes (k : Fin 7) : ∃ h c,
    (HeapAllocator.new fun _ ↦ 0).init 0x10000 (32 * 1024 * 1024) = .ok h ∧
      HeapInv ⟨0x10000, 0x10000 + 32 * 1024 * 1024⟩ ⟨h, []⟩ [0x10000] ∧
      readUsize h.mem 0x10000 = 32 * 1024 * 1024 - 16 ∧
      HeapStep ⟨h, []⟩ (.alloc (sixteenBytes k)) c := by
  have htop : 0x10000 + 32 * 1024 * 1024 < 2 ^ 64 := by norm_num
  have hinit : (HeapAllocator.new fun _ ↦ 0).init 0x10000 (32 * 1024 * 1024) = .ok _ :=
    init_eq (by norm_num)
  obtain ⟨hinv, hread⟩ := HeapInv.fresh (by norm_num) (by norm_num) htop hinit
  obtain ⟨c, hstep⟩ := hinv.exists_alloc htop (HeapOp.noWrap_of_lt (by norm_num) _)
  exact ⟨_, c, hinit, hinv, hread, hstep⟩

theorem conserved_sixteenBytes : ∃ h c,
    (HeapAllocator.new fun _ ↦ 0).init 0x10000 (32 * 1024 * 1024) = .ok h ∧
      Run HeapStep ⟨h, []⟩ [.alloc (sixteenBytes 4)] c ∧
      Conserved ⟨0x10000, 0x10000 + 32 * 1024 * 1024⟩ c := by
  obtain ⟨h, c, hinit, hinv, hread, hstep⟩ := exists_alloc_sixteenBytes 4
  have hlossless : Lossless ⟨h, []⟩ (.alloc (sixteenBytes 4)) := by
    refine (@HeapInv.lossless_alloc_iff _ [] [] _ _ hinv.chain ?_ ?_).mpr ?_
    · exact fun p hp ↦ absurd hp List.not_mem_nil
    · rw [Fits, hread]
      decide
    · rw [hread]
      decide
  refine ⟨h, c, hinit, .snoc .nil hstep, ?_⟩
  exact (conserved_iff (by norm_num) hinit (.snoc .nil hstep)).mpr
    ⟨by norm_num, .snoc .nil ⟨hlossless, hstep⟩⟩

/-- **A padded block loses its padding.** A block of 16 bytes aligned to 64, from a heap that begins
at an aligned address, starts 48 bytes behind the header of its node. -/
theorem not_conserved :
    ¬∀ (m : Mem) (start size : ℕ) (h : HeapAllocator) (ops : List HeapOp) (c : Client),
      start ≠ 0 → start + size < 2 ^ 64 → (HeapAllocator.new m).init start size = .ok h →
      Run HeapStep ⟨h, []⟩ ops c → Conserved ⟨start, start + size⟩ c := by
  intro hgeneral
  obtain ⟨h, c, hinit, hinv, hread, hstep⟩ := exists_alloc_sixteenBytes 6
  have hrun := Run.nil.snoc hstep
  have hconserved := hgeneral _ _ _ _ _ _ (by norm_num) (by norm_num) hinit hrun
  obtain ⟨nodes, hinv', -, hiff⟩ := hinv.step_total (by norm_num) hstep
  obtain ⟨nodes₀, hinv₀, hfresh, -⟩ := HeapInv.fresh_total (by norm_num) hinit
  rw [hinv'.conserved_iff_total] at hconserved
  have htotal := hfresh.mpr (by norm_num)
  rw [hinv₀.chain.unique hinv.chain] at htotal
  have hlossless := hiff.mp (hconserved.trans (by rw [htotal, Span.len]; norm_num))
  have hnot := (@HeapInv.lossless_alloc_iff _ [] [] _ _ hinv.chain
    (fun p hp ↦ absurd hp List.not_mem_nil) (by rw [Fits, hread]; decide)).mp hlossless
  exact absurd hnot.1 (by decide)

end RelizOS
