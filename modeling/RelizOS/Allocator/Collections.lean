import RelizOS.Allocator.FirstFit

/-!
# Boxes and vectors

`Box` and `Vec` take their memory from the heap, and where `alloc` returns null the code panics in
`alloc_error_handler`. First fit is a function of the free list (`firstFit`), so a sequence of
allocations can be followed on lists of addresses and sizes: `Client.Has` says that a heap is in
order and has a certain free list, and each operation has one lemma that says what the list becomes.

`kernel_main` gives the heap 32 MiB and tests it with a vector and a box, which it frees. Nodes are
never joined, so the test leaves two nodes of 16 bytes in front of the rest (`kernelHeap_has`).
-/

namespace RelizOS

open ByteMemory HeapAllocator

/-! ## The code -/

namespace HeapAllocator

/-- `alloc` with the `alloc_error_handler` behind it. -/
def allocate (h : HeapAllocator) (L : Layout) : Checked (ℕ × HeapAllocator) := do
  let (p, h) ← h.alloc L
  if p = 0 then .error .memory
  else return (p, h)

end HeapAllocator

/-- The layout of an array of `n` elements of `size` bytes, at an alignment of `2 ^ k`. -/
def Layout.array (size k n : ℕ) (h : size * n + 2 ^ k ≤ 2 ^ 63) : Layout :=
  ⟨size * n, 2 ^ k, ⟨k, rfl⟩, h⟩

namespace HeapAllocator

/-- `Vec::with_capacity`. Where there are no bytes to allocate the pointer dangles. -/
def withCapacity (h : HeapAllocator) (size k n : ℕ) : Checked (ℕ × HeapAllocator) :=
  if size * n = 0 then return (2 ^ k, h)
  else if hle : size * n + 2 ^ k ≤ 2 ^ 63 then h.allocate (Layout.array size k n hle)
  else .error .overflow

/-- The first `push` on a `Vec::new()`, which makes room for four elements. -/
def firstPush (h : HeapAllocator) (size k : ℕ) : Checked (ℕ × HeapAllocator) :=
  h.withCapacity size k 4

/-- The vector of the heap test: its elements are of type `i32`. -/
def testVec : Layout := Layout.array 4 2 4 (by norm_num)

/-- The box of the heap test. -/
def testBox : Layout := Layout.array 4 2 1 (by norm_num)

/-- The heap test of `kernel_main`. The second `push` finds room, and variables are dropped in the
reverse order of their declarations. -/
def heapTest (h : HeapAllocator) : Checked HeapAllocator := do
  let (v, h) ← h.firstPush 4 2
  let (b, h) ← h.allocate testBox
  let h ← h.dealloc b testBox
  h.dealloc v testVec

end HeapAllocator

/-- The size that `kernel_main` passes to `init`. -/
def kernelHeapSize : ℕ := 32 * 1024 * 1024

/-- The heap as `kernel_main` leaves it. -/
def kernelHeap (m : Mem) (start : ℕ) : Checked HeapAllocator := do
  let h ← (HeapAllocator.new m).init start kernelHeapSize
  h.heapTest

/-! ## First fit on a free list -/

instance (b : FreeBlock) (L : Layout) : Decidable (b.HasRoom L) :=
  inferInstanceAs (Decidable (_ ≤ _))

/-- The pointer, and the free list that is left. -/
def firstFit (L : Layout) : List FreeBlock → Option (ℕ × List FreeBlock)
  | [] => none
  | b :: l =>
    if b.HasRoom L then some (startIn L b.addr, b.tail L ++ l)
    else (firstFit L l).map fun r ↦ (r.1, b :: r.2)

section

variable {L : Layout} {b : FreeBlock} {l l' pre post : List FreeBlock} {p : ℕ}

theorem firstFit_cons_of_hasRoom (h : b.HasRoom L) :
    firstFit L (b :: l) = some (startIn L b.addr, b.tail L ++ l) := if_pos h

theorem firstFit_cons_of_not (h : ¬b.HasRoom L) :
    firstFit L (b :: l) = (firstFit L l).map fun r ↦ (r.1, b :: r.2) := if_neg h

theorem firstFit_eq_none (h : ∀ b ∈ l, ¬b.HasRoom L) : firstFit L l = none := by
  induction l with
  | nil => rfl
  | cons b l ih =>
    rw [firstFit_cons_of_not (h b List.mem_cons_self),
      ih fun a ha ↦ h a (List.mem_cons_of_mem b ha)]
    rfl

theorem firstFit_append (hpre : ∀ a ∈ pre, ¬a.HasRoom L) (hb : b.HasRoom L) :
    firstFit L (pre ++ b :: post) = some (startIn L b.addr, pre ++ b.tail L ++ post) := by
  induction pre with
  | nil => exact firstFit_cons_of_hasRoom hb
  | cons a pre ih =>
    rw [List.cons_append, firstFit_cons_of_not (hpre a List.mem_cons_self),
      ih fun a' ha' ↦ hpre a' (List.mem_cons_of_mem a ha')]
    rfl

end

/-! ## Heaps with a free list -/

/-- The heap is in order, and its free list is `l`. -/
def Client.Has (arena : Span) (c : Client) (l : List FreeBlock) : Prop :=
  ∃ nodes, HeapInv arena c nodes ∧ freeBlocks c.heap.mem nodes = l

namespace Client.Has

variable {arena : Span} {c : Client} {l l' : List FreeBlock} {L : Layout} {p : ℕ} {b : Block}

/-- **`alloc` is first fit on the free list.** -/
theorem alloc (h : c.Has arena l) (hL : arena.hi + L.roundedAlign < 2 ^ 64) :
    (firstFit L l = none ∧ c.heap.alloc L = .ok (0, c.heap)) ∨
      ∃ p l' heap, firstFit L l = some (p, l') ∧ p ≠ 0 ∧ c.heap.alloc L = .ok (p, heap) ∧
        Client.Has arena ⟨heap, ⟨p, L⟩ :: c.live⟩ l' := by
  have hhi : arena.hi < 2 ^ 64 := by omega
  obtain ⟨nodes, hinv, rfl⟩ := h
  rcases hinv.alloc_spec hhi hL with
    ⟨hnone, hok⟩ | ⟨pre, q, post, rfl, hskip, hfit, hne, hok⟩
  · exact Or.inl ⟨firstFit_eq_none (forall_mem_freeBlocks.mpr hnone), hok⟩
  · have hlist : freeBlocks c.heap.mem (pre ++ q :: post) = freeBlocks c.heap.mem pre ++
        ⟨q, readUsize c.heap.mem q⟩ :: freeBlocks c.heap.mem post := List.map_append
    refine Or.inr ⟨_, _, _, ?_, hne, hok, _, hinv.alloc_carve hhi hfit,
      hinv.freeBlocks_carve hhi hfit⟩
    have hroom : FreeBlock.HasRoom ⟨q, readUsize c.heap.mem q⟩ L := hfit
    rw [hlist, firstFit_append (forall_mem_freeBlocks.mpr hskip) hroom]

theorem allocate_eq_ok (h : c.Has arena l) (hL : arena.hi + L.roundedAlign < 2 ^ 64)
    (hfit : firstFit L l = some (p, l')) :
    ∃ heap, c.heap.allocate L = .ok (p, heap) ∧
      Client.Has arena ⟨heap, ⟨p, L⟩ :: c.live⟩ l' := by
  rcases h.alloc hL with ⟨hnone, -⟩ | ⟨p', l'', heap, hsome, hne, hok, h'⟩
  · rw [hfit] at hnone
    cases hnone
  · rw [hfit] at hsome
    obtain ⟨rfl, rfl⟩ := Prod.mk.inj (Option.some.inj hsome)
    refine ⟨heap, ?_, h'⟩
    rw [HeapAllocator.allocate, hok, Checked.ok_bind]
    exact if_neg hne

theorem allocate_eq_error (h : c.Has arena l) (hL : arena.hi + L.roundedAlign < 2 ^ 64)
    (hfit : firstFit L l = none) : c.heap.allocate L = .error .memory := by
  rcases h.alloc hL with ⟨-, hok⟩ | ⟨p', l'', heap, hsome, -⟩
  · rw [HeapAllocator.allocate, hok, Checked.ok_bind]
    exact if_pos rfl
  · rw [hfit] at hsome
    cases hsome

theorem exists_allocate_iff (h : c.Has arena l) (hL : arena.hi + L.roundedAlign < 2 ^ 64) :
    (∃ p heap, c.heap.allocate L = .ok (p, heap)) ↔ (firstFit L l).isSome := by
  cases hfit : firstFit L l with
  | none =>
    rw [h.allocate_eq_error hL hfit]
    exact iff_of_false (fun ⟨_, _, hok⟩ ↦ nomatch hok) Bool.false_ne_true
  | some r =>
    obtain ⟨heap, hok, -⟩ := h.allocate_eq_ok hL hfit
    exact iff_of_true ⟨_, _, hok⟩ rfl

theorem dealloc (h : c.Has arena l) (hhi : arena.hi < 2 ^ 64) (hb : b ∈ c.live) :
    ∃ heap, c.heap.dealloc b.ptr b.layout = .ok heap ∧
      Client.Has arena ⟨heap, c.live.erase b⟩
        (⟨b.ptr - sizeOfFreeNode, b.layout.roundedSize⟩ :: l) := by
  obtain ⟨nodes, hinv, rfl⟩ := h
  obtain ⟨hok, hinv'⟩ := hinv.dealloc_spec hhi hb
  have hkeep : freeBlocks (c.heap.release b.ptr b.layout).mem nodes =
      freeBlocks c.heap.mem nodes := freeBlocks_congr fun p hp ↦
    readUsize_congr ((hinv.release_agreeOn hb hp).mono le_rfl (by omega))
  refine ⟨_, hok, _, hinv', ?_⟩
  rw [← hkeep, ← hinv.freed_size hhi hb]
  rfl

end Client.Has

/-! ## Blocks at the least alignment

`alloc` aligns every block to 16 bytes at least, and no collection here asks for more. -/

section

variable {L : Layout} {b : FreeBlock}

theorem roundedAlign_array {size k n : ℕ} {h : size * n + 2 ^ k ≤ 2 ^ 63} (hk : k ≤ 4) :
    (Layout.array size k n h).roundedAlign = 16 := by
  have hround := roundUp_pow_sixteen k
  rwa [max_eq_right hk] at hround

theorem roundUp_of_dvd {a : ℕ} (h : 16 ∣ a) : roundUp a 16 = a := by
  rw [roundUp]
  omega

theorem startIn_eq (hL : L.roundedAlign = 16) (a : ℕ) : startIn L a = roundUp a 16 + 16 := by
  rw [startIn, hL, roundUp, roundUp, sizeOfFreeNode]
  omega

theorem neededIn_eq (hL : L.roundedAlign = 16) (a : ℕ) :
    a + neededIn L a = roundUp a 16 + 16 + L.roundedSize := by
  have hle := le_roundUp a (show 0 < 16 by omega)
  rw [neededIn, startIn_eq hL]
  omega

theorem hasRoom_iff (hL : L.roundedAlign = 16) :
    b.HasRoom L ↔ roundUp b.addr 16 + L.roundedSize ≤ b.addr + b.size := by
  have hneeded := neededIn_eq hL b.addr
  rw [FreeBlock.HasRoom, sizeOfFreeNode]
  omega

theorem tail_of_le (hL : L.roundedAlign = 16)
    (hroom : roundUp b.addr 16 + L.roundedSize + 32 ≤ b.addr + b.size) :
    b.tail L = [⟨roundUp b.addr 16 + 16 + L.roundedSize,
      b.addr + b.size - (roundUp b.addr 16 + L.roundedSize + 16)⟩] := by
  have hneeded := neededIn_eq hL b.addr
  have hsize : b.size + 16 - neededIn L b.addr - 16 =
      b.addr + b.size - (roundUp b.addr 16 + L.roundedSize + 16) := by omega
  rw [FreeBlock.tail, FreeBlock.remaining, sizeOfFreeNode, if_pos (by omega), tailIn_eq, hneeded,
    hsize]

theorem tail_of_lt (hL : L.roundedAlign = 16)
    (hroom : b.addr + b.size < roundUp b.addr 16 + L.roundedSize + 32) : b.tail L = [] := by
  have hneeded := neededIn_eq hL b.addr
  rw [FreeBlock.tail, FreeBlock.remaining, sizeOfFreeNode, if_neg (by omega)]

end

/-! ## The heap that the kernel leaves -/

/-- The free list behind the heap test: two nodes of 16 bytes, and the rest up to `e`. -/
def testedBlocks (s e : ℕ) : List FreeBlock := [⟨s, 16⟩, ⟨s + 32, 16⟩, ⟨s + 64, e - (s + 80)⟩]

section

variable {L : Layout} {b : FreeBlock}

theorem firstFit_singleton (hL : L.roundedAlign = 16)
    (hroom : roundUp b.addr 16 + L.roundedSize ≤ b.addr + b.size) :
    firstFit L [b] = some (roundUp b.addr 16 + 16, b.tail L) := by
  rw [firstFit_cons_of_hasRoom ((hasRoom_iff hL).mpr hroom), startIn_eq hL, List.append_nil]

theorem firstFit_singleton_of_lt (hL : L.roundedAlign = 16)
    (hroom : b.addr + b.size < roundUp b.addr 16 + L.roundedSize) : firstFit L [b] = none := by
  rw [firstFit_cons_of_not ((hasRoom_iff hL).not.mpr (by omega))]
  rfl

/-- Requests of more than 16 bytes pass over the nodes of the heap test. -/
theorem firstFit_tested {s : ℕ} (hs : 16 ∣ s) (hL : L.roundedAlign = 16)
    (hsize : 16 < L.roundedSize) (l : List FreeBlock) :
    firstFit L (⟨s, 16⟩ :: ⟨s + 32, 16⟩ :: l) =
      (firstFit L l).map fun r ↦ (r.1, ⟨s, 16⟩ :: ⟨s + 32, 16⟩ :: r.2) := by
  have hfirst : ¬FreeBlock.HasRoom ⟨s, 16⟩ L := by
    rw [hasRoom_iff hL, roundUp_of_dvd hs]
    dsimp only
    omega
  have hsecond : ¬FreeBlock.HasRoom ⟨s + 32, 16⟩ L := by
    rw [hasRoom_iff hL, roundUp_of_dvd (by dsimp only; omega)]
    dsimp only
    omega
  rw [firstFit_cons_of_not hfirst, firstFit_cons_of_not hsecond, Option.map_map]
  rfl

end

theorem withCapacity_eq {h : HeapAllocator} {size k n : ℕ} (hpos : size * n ≠ 0)
    (hle : size * n + 2 ^ k ≤ 2 ^ 63) :
    h.withCapacity size k n = h.allocate (Layout.array size k n hle) := by
  rw [withCapacity, if_neg hpos, dif_pos hle]

theorem firstPush_testVec (h : HeapAllocator) : h.firstPush 4 2 = h.allocate testVec :=
  withCapacity_eq (by decide) (by norm_num)

/-- **The heap test** cuts a vector and a box from the front of the only node, and puts them in
front of the rest when it frees them. -/
theorem Client.Has.heapTest {h : HeapAllocator} {lo s size e : ℕ}
    (h₀ : Client.Has ⟨lo, e⟩ ⟨h, []⟩ [⟨lo, size⟩]) (hs : roundUp lo 16 = s)
    (hsize : lo + size + 16 = e) (hroom : s + 112 ≤ e) (htop : e + 16 < 2 ^ 64) :
    ∃ h', h.heapTest = .ok h' ∧ Client.Has ⟨lo, e⟩ ⟨h', []⟩ (testedBlocks s e) := by
  have hdvd := dvd_roundUp lo 16
  rw [hs] at hdvd
  have hvec : testVec.roundedAlign = 16 := roundedAlign_array (by omega)
  have hbox : testBox.roundedAlign = 16 := roundedAlign_array (by omega)
  have hvec' : testVec.roundedSize = 16 := rfl
  have hbox' : testBox.roundedSize = 16 := rfl
  obtain ⟨h₁, hpush, h₁'⟩ := h₀.allocate_eq_ok (L := testVec) (by dsimp only; omega)
    (firstFit_singleton hvec (by dsimp only; omega))
  dsimp only at hpush h₁'
  rw [tail_of_le hvec (by dsimp only; omega), hs, hvec'] at h₁'
  rw [hs] at hpush
  have hsecond : roundUp (s + 16 + 16) 16 = s + 16 + 16 := roundUp_of_dvd (by omega)
  obtain ⟨h₂, hnew, h₂'⟩ := h₁'.allocate_eq_ok (L := testBox) (by dsimp only; omega)
    (firstFit_singleton hbox (by dsimp only; omega))
  dsimp only at hnew h₂'
  rw [tail_of_le hbox (by dsimp only; omega)] at h₂'
  dsimp only at h₂'
  rw [hsecond, hbox'] at h₂'
  rw [hsecond] at hnew
  -- the box is dropped first
  obtain ⟨h₃, hdrop, h₃'⟩ := h₂'.dealloc (b := ⟨s + 16 + 16 + 16, testBox⟩) (by dsimp only; omega)
    List.mem_cons_self
  dsimp only at hdrop h₃'
  rw [List.erase_cons_head] at h₃'
  obtain ⟨h₄, hfree, h₄'⟩ := h₃'.dealloc (b := ⟨s + 16, testVec⟩) (by dsimp only; omega)
    List.mem_cons_self
  dsimp only at hfree h₄'
  rw [List.erase_cons_head] at h₄'
  refine ⟨h₄, ?_, ?_⟩
  · rw [HeapAllocator.heapTest, firstPush_testVec]
    exact Checked.bind_eq_ok.mpr ⟨_, hpush, Checked.bind_eq_ok.mpr ⟨_, hnew,
      Checked.bind_eq_ok.mpr ⟨_, hdrop, hfree⟩⟩⟩
  · convert h₄' using 1
    rw [testedBlocks, hvec', hbox']
    simp only [List.cons.injEq, FreeBlock.mk.injEq, sizeOfFreeNode, and_true, true_and]
    omega

/-- **The heap of the kernel** after its test. -/
theorem kernelHeap_has {m : Mem} {start : ℕ} (hstart : start ≠ 0)
    (htop : start + kernelHeapSize + 16 < 2 ^ 64) : ∃ h, kernelHeap m start = .ok h ∧
      Client.Has ⟨start, start + kernelHeapSize⟩ ⟨h, []⟩
        (testedBlocks (roundUp start 16) (start + kernelHeapSize)) := by
  have hlt := roundUp_lt start (show 0 < 16 by omega)
  have hsize : kernelHeapSize = 33554432 := rfl
  obtain ⟨h₀, hinit⟩ : ∃ h, (HeapAllocator.new m).init start kernelHeapSize = .ok h :=
    ⟨_, init_eq (by omega)⟩
  obtain ⟨hinv, hread⟩ := HeapInv.fresh (by omega) hstart (by omega) hinit
  have h₀' : Client.Has ⟨start, start + kernelHeapSize⟩ ⟨h₀, []⟩
      [⟨start, kernelHeapSize - 16⟩] :=
    ⟨_, hinv, by rw [freeBlocks, List.map_singleton, hread]; rfl⟩
  obtain ⟨h, htest, hhas⟩ := h₀'.heapTest rfl (by omega) (by omega) htop
  refine ⟨h, ?_, hhas⟩
  rw [kernelHeap, hinit, Checked.ok_bind]
  exact htest

/-- The list of windows, once the first is opened. -/
def windowList : Layout := Layout.array 40 3 4 (by norm_num)

theorem firstPush_windowList (h : HeapAllocator) : h.firstPush 40 3 = h.allocate windowList :=
  withCapacity_eq (by decide) (by norm_num)

/-- The list of windows is cut from what the vector has left. -/
theorem isSome_firstFit_tail {L : Layout} {s e : ℕ} (hs : 16 ∣ s) (hL : L.roundedAlign = 16)
    (hdvd : 16 ∣ L.roundedSize) (hroom : s + 80 + L.roundedSize ≤ e) :
    (firstFit windowList (FreeBlock.tail ⟨s + 64, e - (s + 80)⟩ L)).isSome ↔
      s + 256 + L.roundedSize ≤ e := by
  have hlist : windowList.roundedAlign = 16 := roundedAlign_array (by omega)
  have hlist' : windowList.roundedSize = 160 := rfl
  have hrest : roundUp (s + 64) 16 = s + 64 := roundUp_of_dvd (by omega)
  by_cases hsplit : s + 112 + L.roundedSize ≤ e
  · have hnode : roundUp (s + 64 + 16 + L.roundedSize) 16 = s + 64 + 16 + L.roundedSize :=
      roundUp_of_dvd (by omega)
    rw [tail_of_le hL (by dsimp only; omega)]
    dsimp only
    rw [hrest]
    by_cases hfit : s + 256 + L.roundedSize ≤ e
    · rw [firstFit_singleton hlist (by dsimp only; omega)]
      exact iff_of_true rfl hfit
    · rw [firstFit_singleton_of_lt hlist (by dsimp only; omega)]
      exact iff_of_false Bool.false_ne_true hfit
  · rw [tail_of_lt hL (by dsimp only; omega)]
    exact iff_of_false Bool.false_ne_true (by omega)

/-- **Room for the desktop**: a vector of `n` elements of 4 bytes, and then a list of four elements
of 40 bytes. -/
theorem Client.Has.desktop_iff {c : Client} {lo s e n : ℕ}
    (hc : c.Has ⟨lo, e⟩ (testedBlocks s e)) (hs : 16 ∣ s) (hn : 4 < n) (hlen : e ≤ s + 2 ^ 62)
    (hhi : e + 16 < 2 ^ 64) :
    (∃ p h₁ q h₂, c.heap.withCapacity 4 2 n = .ok (p, h₁) ∧ h₁.firstPush 40 3 = .ok (q, h₂)) ↔
      s + 256 + roundUp (4 * n) 16 ≤ e := by
  by_cases hmax : 4 * n + 2 ^ 2 ≤ 2 ^ 63
  · have hbuffer : (Layout.array 4 2 n hmax).roundedAlign = 16 := roundedAlign_array (by omega)
    have hlist : windowList.roundedAlign = 16 := roundedAlign_array (by omega)
    have hlist' : windowList.roundedSize = 160 := rfl
    have hrest : roundUp (s + 64) 16 = s + 64 := roundUp_of_dvd (by omega)
    have hsize : (Layout.array 4 2 n hmax).roundedSize = roundUp (4 * n) 16 := rfl
    have hlarge : 16 < (Layout.array 4 2 n hmax).roundedSize := by
      rw [hsize, roundUp]
      omega
    have hdvd := dvd_roundUp (4 * n) 16
    rw [withCapacity_eq (by omega) hmax]
    generalize Layout.array 4 2 n hmax = L at hbuffer hlarge hsize
    rw [← hsize] at hdvd ⊢
    have hfirst := firstFit_tested hs hbuffer hlarge [⟨s + 64, e - (s + 80)⟩]
    by_cases hroom : s + 80 + L.roundedSize ≤ e
    · rw [firstFit_singleton hbuffer (by dsimp only; omega), Option.map_some] at hfirst
      obtain ⟨h₁, hok, h₁'⟩ := hc.allocate_eq_ok (by dsimp only; omega) hfirst
      dsimp only at hok h₁'
      rw [hrest] at hok
      have hsecond : (∃ q h₂, h₁.firstPush 40 3 = .ok (q, h₂)) ↔ s + 256 + L.roundedSize ≤ e := by
        rw [firstPush_windowList, h₁'.exists_allocate_iff (by rw [hlist]; exact hhi),
          firstFit_tested hs hlist (by omega), Option.isSome_map]
        exact isSome_firstFit_tail hs hbuffer hdvd hroom
      rw [← hsecond]
      constructor
      · rintro ⟨p, h, q, h₂, hok', hpush⟩
        obtain ⟨-, rfl⟩ := Prod.mk.inj (Except.ok.inj (hok.symm.trans hok'))
        exact ⟨q, h₂, hpush⟩
      · rintro ⟨q, h₂, hpush⟩
        exact ⟨_, h₁, q, h₂, hok, hpush⟩
    · rw [firstFit_singleton_of_lt hbuffer (by dsimp only; omega), Option.map_none] at hfirst
      rw [hc.allocate_eq_error (by dsimp only; omega) hfirst]
      refine iff_of_false ?_ (by omega)
      rintro ⟨p, h₁, q, h₂, hok, -⟩
      cases hok
  · have hle := le_roundUp (4 * n) (show 0 < 16 by omega)
    rw [withCapacity, if_neg (by omega), dif_neg hmax]
    refine iff_of_false ?_ (by omega)
    rintro ⟨p, h₁, q, h₂, hok, -⟩
    cases hok

end RelizOS
