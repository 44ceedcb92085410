import RelizOS.Allocator.Basic
import RelizOS.Library.Fallible
import RelizOS.Library.LinkedChain
import RelizOS.Library.Span

/-!
# What one call of the allocator does

The loop of `alloc` is a first-fit search. This file says once what a call can do, under the
assumption that the list is a chain whose nodes lie low enough for no sum to wrap: either no node
fits and nothing changes, or the first node that fits is *carved*, and the result is `carve`.
Nothing later unfolds the loop again.
-/

namespace RelizOS

open ByteMemory

namespace HeapAllocator

/-- The link stored in the node at `p`. -/
def nextOf (m : Mem) (p : ℕ) : ℕ := readUsize m (p + 8)

/-- The bytes of the free node at `p`: its header and the bytes behind it. -/
def nodeSpan (m : Mem) (p : ℕ) : Span := ⟨p, p + sizeOfFreeNode + readUsize m p⟩

/-- The pointer `alloc` returns when it takes the node at `p`. -/
def startIn (L : Layout) (p : ℕ) : ℕ := roundUp (p + sizeOfFreeNode) L.roundedAlign

/-- The bytes such an allocation takes from the node, the header included. -/
def neededIn (L : Layout) (p : ℕ) : ℕ := startIn L p - p + L.roundedSize

/-- The node at `p` can hold the aligned block. -/
def Fits (m : Mem) (L : Layout) (p : ℕ) : Prop := neededIn L p ≤ readUsize m p + sizeOfFreeNode

instance (m : Mem) (L : Layout) (p : ℕ) : Decidable (Fits m L p) :=
  inferInstanceAs (Decidable (_ ≤ _))

/-- What is left of the node behind the block. -/
def remainingIn (m : Mem) (L : Layout) (p : ℕ) : ℕ :=
  readUsize m p + sizeOfFreeNode - neededIn L p

/-- The node at `p` ends low enough that no sum of the loop leaves 64 bits. -/
def InRoom (m : Mem) (L : Layout) (p : ℕ) : Prop :=
  p + sizeOfFreeNode + readUsize m p + L.roundedAlign < 2 ^ 64

/-- The node has enough bytes left behind the block for a node of its own. -/
def Splits (m : Mem) (L : Layout) (p : ℕ) : Prop := sizeOfFreeNode + 16 ≤ remainingIn m L p

instance (m : Mem) (L : Layout) (p : ℕ) : Decidable (Splits m L p) :=
  inferInstanceAs (Decidable (_ ≤ _))

/-- The address behind the block, where a remainder becomes a node. -/
def tailIn (L : Layout) (p : ℕ) : ℕ := startIn L p + L.roundedSize

/-- The memory with the header of the remainder in place. -/
def carveMem (m : Mem) (L : Layout) (p : ℕ) : Mem :=
  if Splits m L p then
    writeNode m (tailIn L p) ⟨remainingIn m L p - sizeOfFreeNode, nextOf m p⟩
  else m

/-- The nodes that replace the node at `p`. -/
def carveNodes (m : Mem) (L : Layout) (p : ℕ) : List ℕ :=
  if Splits m L p then [tailIn L p] else []

/-- The link that replaces the link to `p`. -/
def carveLink (m : Mem) (L : Layout) (p : ℕ) : ℕ :=
  if Splits m L p then tailIn L p else nextOf m p

/-- The heap after `alloc` has taken the node at `p`, whose link is held by `prev`. -/
def carve (h : HeapAllocator) (L : Layout) (prev : Option ℕ) (p : ℕ) : HeapAllocator :=
  { setNext { h with mem := carveMem h.mem L p } prev (carveLink h.mem L p) with
    usedMemory := h.usedMemory + L.size }

section Carve

variable {m : Mem} {L : Layout} {p : ℕ}

theorem carveMem_of_splits (h : Splits m L p) : carveMem m L p
    = writeNode m (tailIn L p) ⟨remainingIn m L p - sizeOfFreeNode, nextOf m p⟩ := if_pos h

theorem carveMem_of_not_splits (h : ¬Splits m L p) : carveMem m L p = m := if_neg h

theorem carveNodes_of_splits (h : Splits m L p) : carveNodes m L p = [tailIn L p] := if_pos h

theorem carveNodes_of_not_splits (h : ¬Splits m L p) : carveNodes m L p = [] := if_neg h

theorem carveLink_of_splits (h : Splits m L p) : carveLink m L p = tailIn L p := if_pos h

theorem carveLink_of_not_splits (h : ¬Splits m L p) : carveLink m L p = nextOf m p := if_neg h

end Carve

/-! ## Where the block lies in its node -/

theorem header_le_startIn (L : Layout) (p : ℕ) : p + sizeOfFreeNode ≤ startIn L p := by
  obtain ⟨j, hj, -, -, -⟩ := L.roundedAlign_spec
  exact le_roundUp _ (by rw [hj]; exact Nat.two_pow_pos j)

theorem align_dvd_startIn (L : Layout) (p : ℕ) : L.align ∣ startIn L p := by
  obtain ⟨-, -, -, -, hdvd⟩ := L.roundedAlign_spec
  exact hdvd.trans (dvd_roundUp _ _)

theorem tailIn_eq (L : Layout) (p : ℕ) : tailIn L p = p + neededIn L p := by
  have := header_le_startIn L p
  rw [tailIn, neededIn]
  omega

/-! ## The checked operations succeed -/

private theorem alignUp_startIn {L : Layout} {p : ℕ}
    (hal : p + sizeOfFreeNode + L.roundedAlign < 2 ^ 64) :
    alignUp (p + sizeOfFreeNode) L.roundedAlign = .ok (startIn L p) := by
  obtain ⟨j, hj, -, -, -⟩ := L.roundedAlign_spec
  rw [hj] at hal
  rw [startIn, hj, alignUp_eq hal]

/-- The distance from the node to the end of the block stays below `2 ^ 64`, even for a request no
node can satisfy. -/
private theorem neededIn_lt (L : Layout) (p : ℕ) : neededIn L p < 2 ^ 64 := by
  obtain ⟨j, hj, -, hj63, -⟩ := L.roundedAlign_spec
  have hstart := roundUp_lt (p + sizeOfFreeNode) (Nat.two_pow_pos j)
  have hle : 2 ^ j ≤ 2 ^ 63 := Nat.pow_le_pow_right (by omega) hj63
  have hsize := L.roundedSize_lt
  have hpad := L.size_add_align_le
  have halign : L.roundedAlign < L.align + 16 := roundUp_lt _ (by omega)
  rw [← hj] at hstart hle
  rw [neededIn, startIn]
  simp only [sizeOfFreeNode] at *
  omega

/-! ## The loop, one node at a time -/

variable {h : HeapAllocator} {L : Layout} {fuel p : ℕ} {prev : Option ℕ}

private theorem allocLoop_zero :
    allocLoop L L.roundedSize L.roundedAlign h (fuel + 1) prev 0 = .ok (0, h) := by
  rw [allocLoop, if_pos rfl, Checked.pure_eq_ok]

/-- The part of the loop body before the comparison. -/
private theorem allocLoop_succ (hp : p ≠ 0)
    (hend : p + sizeOfFreeNode + readUsize h.mem p < 2 ^ 64)
    (hal : p + sizeOfFreeNode + L.roundedAlign < 2 ^ 64) :
    allocLoop L L.roundedSize L.roundedAlign h (fuel + 1) prev p =
      if neededIn L p ≤ readUsize h.mem p + sizeOfFreeNode then do
        let remaining ← Checked.sub (readUsize h.mem p + sizeOfFreeNode) (neededIn L p)
        let h' ← replaceNode h prev (nextOf h.mem p) (startIn L p) L.roundedSize remaining
        let used ← Checked.add 64 h'.usedMemory L.size
        pure (startIn L p, { h' with usedMemory := used })
      else allocLoop L L.roundedSize L.roundedAlign h fuel (some p) (nextOf h.mem p) := by
  have hhead := header_le_startIn L p
  have hneed := neededIn_lt L p
  have hstart := alignUp_startIn hal
  rw [allocLoop, if_neg hp, Checked.add_of_lt (by omega), Checked.ok_bind, hstart,
    Checked.ok_bind, Checked.sub_of_le (by omega), Checked.ok_bind,
    Checked.add_of_lt (by rw [neededIn] at hneed; exact hneed), Checked.ok_bind,
    Checked.add_of_lt (by rw [readNode_size]; omega), Checked.ok_bind]
  rfl

private theorem allocLoop_skip (hp : p ≠ 0)
    (hend : p + sizeOfFreeNode + readUsize h.mem p < 2 ^ 64)
    (hal : p + sizeOfFreeNode + L.roundedAlign < 2 ^ 64) (hfit : ¬Fits h.mem L p) :
    allocLoop L L.roundedSize L.roundedAlign h (fuel + 1) prev p
      = allocLoop L L.roundedSize L.roundedAlign h fuel (some p) (nextOf h.mem p) := by
  rw [allocLoop_succ hp hend hal]
  exact if_neg hfit

@[simp] theorem setNext_usedMemory (h : HeapAllocator) (prev : Option ℕ) (p : ℕ) :
    (setNext h prev p).usedMemory = h.usedMemory := by
  cases prev <;> rfl

private theorem allocLoop_fits (hp : p ≠ 0)
    (hend : p + sizeOfFreeNode + readUsize h.mem p < 2 ^ 64)
    (hal : p + sizeOfFreeNode + L.roundedAlign < 2 ^ 64) (hfit : Fits h.mem L p) :
    allocLoop L L.roundedSize L.roundedAlign h (fuel + 1) prev p =
      Checked.add 64 h.usedMemory L.size >>= fun used ↦
        pure (startIn L p, { carve h L prev p with usedMemory := used }) := by
  have htail := tailIn_eq L p
  have hfit' := hfit
  rw [Fits] at hfit'
  rw [tailIn] at htail
  rw [allocLoop_succ hp hend hal, if_pos hfit', Checked.sub_of_le hfit', Checked.ok_bind,
    replaceNode, carve, ← remainingIn]
  by_cases hsplit : Splits h.mem L p
  · have hlarge : sizeOfFreeNode + 16 ≤ remainingIn h.mem L p := hsplit
    rw [if_pos hlarge, Checked.add_of_lt (by omega), Checked.ok_bind, Checked.sub_of_le (by omega),
      Checked.ok_bind, Checked.pure_eq_ok, Checked.ok_bind, setNext_usedMemory,
      carveMem_of_splits hsplit, carveLink_of_splits hsplit, tailIn]
  · have hsmall : ¬sizeOfFreeNode + 16 ≤ remainingIn h.mem L p := hsplit
    rw [if_neg hsmall, Checked.pure_eq_ok, Checked.ok_bind, setNext_usedMemory,
      carveMem_of_not_splits hsplit, carveLink_of_not_splits hsplit]

private theorem allocLoop_take (hp : p ≠ 0)
    (hend : p + sizeOfFreeNode + readUsize h.mem p < 2 ^ 64)
    (hal : p + sizeOfFreeNode + L.roundedAlign < 2 ^ 64) (hfit : Fits h.mem L p)
    (hused : h.usedMemory + L.size < 2 ^ 64) :
    allocLoop L L.roundedSize L.roundedAlign h (fuel + 1) prev p
      = .ok (startIn L p, carve h L prev p) := by
  rw [allocLoop_fits hp hend hal hfit, Checked.add_of_lt hused]
  rfl

private theorem allocLoop_wraps (hp : p ≠ 0)
    (hal : ¬p + sizeOfFreeNode + L.roundedAlign < 2 ^ 64) :
    ∃ e, allocLoop L L.roundedSize L.roundedAlign h (fuel + 1) prev p = .error e := by
  refine ⟨.overflow, ?_⟩
  have halign : alignUp (p + sizeOfFreeNode) L.roundedAlign = .error .overflow := by
    rw [alignUp, Checked.add, if_neg hal]
    rfl
  rw [allocLoop, if_neg hp, Checked.add]
  split
  · rw [Checked.ok_bind, halign]
    rfl
  · rfl

/-! ## The whole search -/

private theorem allocLoop_none {l : List ℕ} (hchain : Chain (nextOf h.mem) p l)
    (hroom : ∀ q ∈ l, InRoom h.mem L q) (hfit : ∀ q ∈ l, ¬Fits h.mem L q)
    (hfuel : l.length < fuel) :
    allocLoop L L.roundedSize L.roundedAlign h fuel prev p = .ok (0, h) := by
  induction l generalizing p prev fuel with
  | nil =>
    obtain ⟨fuel, rfl⟩ : ∃ k, fuel = k + 1 := ⟨fuel - 1, by rw [List.length_nil] at hfuel; omega⟩
    rw [Chain.nil_iff.mp hchain]
    exact allocLoop_zero
  | cons q l ih =>
    rw [List.length_cons] at hfuel
    obtain ⟨fuel, rfl⟩ : ∃ k, fuel = k + 1 := ⟨fuel - 1, by omega⟩
    obtain ⟨rfl, hne, hrest⟩ := hchain
    have hr := hroom _ List.mem_cons_self
    rw [InRoom] at hr
    rw [allocLoop_skip hne (by omega) (by omega) (hfit _ List.mem_cons_self)]
    exact ih hrest (fun r hr ↦ hroom r (List.mem_cons_of_mem _ hr))
      (fun r hr ↦ hfit r (List.mem_cons_of_mem _ hr)) (by omega)

/-- The link to the node behind `pre` is held by the last node of `pre`, if there is one. -/
private theorem allocLoop_found {pre post : List ℕ} {q : ℕ}
    (hchain : Chain (nextOf h.mem) p (pre ++ q :: post))
    (hroom : ∀ r ∈ pre ++ q :: post, InRoom h.mem L r) (hskip : ∀ r ∈ pre, ¬Fits h.mem L r)
    (hfit : Fits h.mem L q) (hused : h.usedMemory + L.size < 2 ^ 64) (hfuel : pre.length < fuel) :
    allocLoop L L.roundedSize L.roundedAlign h fuel prev p
      = .ok (startIn L q, carve h L (pre.getLast?.or prev) q) := by
  induction pre generalizing p prev fuel with
  | nil =>
    obtain ⟨fuel, rfl⟩ : ∃ k, fuel = k + 1 := ⟨fuel - 1, by rw [List.length_nil] at hfuel; omega⟩
    obtain ⟨rfl, hne, -⟩ := hchain
    have hr := hroom _ List.mem_cons_self
    rw [InRoom] at hr
    rw [allocLoop_take hne (by omega) (by omega) hfit hused]
    rfl
  | cons r pre ih =>
    rw [List.length_cons] at hfuel
    obtain ⟨fuel, rfl⟩ : ∃ k, fuel = k + 1 := ⟨fuel - 1, by omega⟩
    obtain ⟨rfl, hne, hrest⟩ := hchain
    have hr := hroom _ List.mem_cons_self
    rw [InRoom] at hr
    rw [allocLoop_skip hne (by omega) (by omega) (hskip _ List.mem_cons_self),
      ih hrest (fun s hs ↦ hroom s (List.mem_cons_of_mem _ hs))
        (fun s hs ↦ hskip s (List.mem_cons_of_mem _ hs)) (by omega), List.getLast?_cons]
    cases pre.getLast? <;> rfl

/-- What a search has done that returns. -/
private theorem allocLoop_ok {l : List ℕ} {r : ℕ} {h' : HeapAllocator}
    (hchain : Chain (nextOf h.mem) p l)
    (hend : ∀ q ∈ l, q + sizeOfFreeNode + readUsize h.mem q < 2 ^ 64)
    (hok : allocLoop L L.roundedSize L.roundedAlign h fuel prev p = .ok (r, h')) :
    (r = 0 ∧ h' = h ∧ ∀ q ∈ l, ¬Fits h.mem L q) ∨
      ∃ pre q post, l = pre ++ q :: post ∧ (∀ r ∈ pre, ¬Fits h.mem L r) ∧ Fits h.mem L q ∧
        r = startIn L q ∧ h' = carve h L (pre.getLast?.or prev) q := by
  -- the loop goes down the chain one node a turn, so the induction is on the nodes that are left
  induction l generalizing p prev fuel with
  | nil =>
    cases fuel with
    | zero => cases hok
    | succ fuel =>
      rw [Chain.nil_iff.mp hchain, allocLoop_zero] at hok
      obtain ⟨rfl, rfl⟩ := Prod.mk.inj (Except.ok.inj hok)
      exact Or.inl ⟨rfl, rfl, fun q hq ↦ (nomatch hq)⟩
  | cons q l ih =>
    cases fuel with
    | zero => cases hok
    | succ fuel =>
      obtain ⟨rfl, hne, hrest⟩ := hchain
      by_cases hal : p + sizeOfFreeNode + L.roundedAlign < 2 ^ 64
      · have hq := hend p List.mem_cons_self
        by_cases hfit : Fits h.mem L p
        · rw [allocLoop_fits hne hq hal hfit] at hok
          obtain ⟨used, hused, hok⟩ := Checked.bind_eq_ok.mp hok
          obtain ⟨-, rfl⟩ := Checked.add_eq_ok.mp hused
          obtain ⟨rfl, rfl⟩ := Prod.mk.inj (Except.ok.inj hok)
          exact Or.inr ⟨[], p, l, rfl, fun r hr ↦ (nomatch hr), hfit, rfl, rfl⟩
        · rw [allocLoop_skip hne hq hal hfit] at hok
          rcases ih hrest (fun r hr ↦ hend r (List.mem_cons_of_mem _ hr)) hok with
            ⟨rfl, rfl, hnone⟩ | ⟨pre, q, post, rfl, hskip, hfit', rfl, rfl⟩
          · exact Or.inl ⟨rfl, rfl, List.forall_mem_cons.mpr ⟨hfit, hnone⟩⟩
          · refine Or.inr ⟨p :: pre, q, post, rfl, List.forall_mem_cons.mpr ⟨hfit, hskip⟩, hfit',
              rfl, ?_⟩
            rw [List.getLast?_cons]
            cases pre.getLast? <;> rfl
      · obtain ⟨e, he⟩ : ∃ e, allocLoop L L.roundedSize L.roundedAlign h (fuel + 1) prev p =
            .error e := allocLoop_wraps hne hal
        rw [he] at hok
        cases hok

/-- The nodes that a search looks at, up to the first that fits. -/
def visited (m : Mem) (L : Layout) : List ℕ → List ℕ
  | [] => []
  | p :: l => if Fits m L p then [p] else p :: visited m L l

/-- A search returns exactly when no node that it looks at lies so high that aligning wraps. -/
private theorem returns_allocLoop {l : List ℕ} (hchain : Chain (nextOf h.mem) p l)
    (hend : ∀ q ∈ l, q + sizeOfFreeNode + readUsize h.mem q < 2 ^ 64)
    (hused : ∀ q ∈ l, Fits h.mem L q → h.usedMemory + L.size < 2 ^ 64) (hfuel : l.length < fuel) :
    Checked.Returns (allocLoop L L.roundedSize L.roundedAlign h fuel prev p) ↔
      ∀ q ∈ visited h.mem L l, q + sizeOfFreeNode + L.roundedAlign < 2 ^ 64 := by
  induction l generalizing p prev fuel with
  | nil =>
    obtain ⟨fuel, rfl⟩ : ∃ k, fuel = k + 1 := ⟨fuel - 1, by rw [List.length_nil] at hfuel; omega⟩
    rw [Chain.nil_iff.mp hchain]
    exact iff_of_true ⟨_, allocLoop_zero⟩ fun q hq ↦ absurd hq List.not_mem_nil
  | cons q l ih =>
    rw [List.length_cons] at hfuel
    obtain ⟨fuel, rfl⟩ : ∃ k, fuel = k + 1 := ⟨fuel - 1, by omega⟩
    obtain ⟨rfl, hne, hrest⟩ := hchain
    have hp := hend p List.mem_cons_self
    rw [visited]
    by_cases hal : p + sizeOfFreeNode + L.roundedAlign < 2 ^ 64
    · by_cases hfit : Fits h.mem L p
      · rw [if_pos hfit, List.forall_mem_singleton]
        exact iff_of_true ⟨_, allocLoop_take hne hp hal hfit (hused p List.mem_cons_self hfit)⟩ hal
      · rw [if_neg hfit, List.forall_mem_cons, allocLoop_skip hne hp hal hfit,
          ih hrest (fun r hr ↦ hend r (List.mem_cons_of_mem _ hr))
            (fun r hr ↦ hused r (List.mem_cons_of_mem _ hr)) (by omega)]
        exact (and_iff_right hal).symm
    · -- the search looks at the first node in any case
      have hmem : p ∈ if Fits h.mem L p then [p] else p :: visited h.mem L l := by
        split
        · exact List.mem_singleton_self p
        · exact List.mem_cons_self
      refine iff_of_false ?_ fun hall ↦ hal (hall p hmem)
      rintro ⟨q, hq⟩
      obtain ⟨e, he⟩ : ∃ e, allocLoop L L.roundedSize L.roundedAlign h (fuel + 1) prev p =
          .error e := allocLoop_wraps hne hal
      rw [he] at hq
      cases hq

/-- **When `alloc` returns**, on a chain `l` of nodes in the address space. -/
theorem returns_alloc {l : List ℕ} (hchain : Chain (nextOf h.mem) h.head.next l)
    (hend : ∀ q ∈ l, q + sizeOfFreeNode + readUsize h.mem q < 2 ^ 64)
    (hused : ∀ q ∈ l, Fits h.mem L q → h.usedMemory + L.size < 2 ^ 64)
    (hlen : l.length < maxNodes) : Checked.Returns (h.alloc L) ↔
      ∀ q ∈ visited h.mem L l, q + sizeOfFreeNode + L.roundedAlign < 2 ^ 64 := by
  rw [alloc, L.alignUp_size, Checked.ok_bind, L.alignUp_align, Checked.ok_bind]
  exact returns_allocLoop hchain hend hused hlen

/-- **What `alloc` has done if it returns**, on a chain `l` of nodes in the address space. -/
theorem alloc_ok_cases {l : List ℕ} {r : ℕ} {h' : HeapAllocator}
    (hchain : Chain (nextOf h.mem) h.head.next l)
    (hend : ∀ q ∈ l, q + sizeOfFreeNode + readUsize h.mem q < 2 ^ 64)
    (hok : h.alloc L = .ok (r, h')) :
    (r = 0 ∧ h' = h ∧ ∀ q ∈ l, ¬Fits h.mem L q) ∨
      ∃ pre q post, l = pre ++ q :: post ∧ (∀ r ∈ pre, ¬Fits h.mem L r) ∧ Fits h.mem L q ∧
        r = startIn L q ∧ h' = carve h L pre.getLast? q := by
  rw [alloc, L.alignUp_size, Checked.ok_bind, L.alignUp_align, Checked.ok_bind] at hok
  have hcases := allocLoop_ok hchain hend hok
  simp only [Option.or_none] at hcases
  exact hcases

/-- **What `alloc` can do**, on a chain `l` of nodes: nothing, when no node fits; else carve the
first node that fits. -/
theorem alloc_cases {l : List ℕ} (hchain : Chain (nextOf h.mem) h.head.next l)
    (hroom : ∀ q ∈ l, InRoom h.mem L q) (hlen : l.length < maxNodes)
    (hused : ∀ q ∈ l, Fits h.mem L q → h.usedMemory + L.size < 2 ^ 64) :
    ((∀ q ∈ l, ¬Fits h.mem L q) ∧ h.alloc L = .ok (0, h)) ∨
      ∃ pre q post, l = pre ++ q :: post ∧ (∀ r ∈ pre, ¬Fits h.mem L r) ∧ Fits h.mem L q ∧
        h.alloc L = .ok (startIn L q, carve h L pre.getLast? q) := by
  have hloop : h.alloc L
      = allocLoop L L.roundedSize L.roundedAlign h maxNodes none h.head.next := by
    rw [alloc, L.alignUp_size, Checked.ok_bind, L.alignUp_align, Checked.ok_bind]
  cases hfind : l.find? fun q ↦ decide (Fits h.mem L q) with
  | none =>
    have hnone : ∀ q ∈ l, ¬Fits h.mem L q := by simpa using hfind
    exact Or.inl ⟨hnone, hloop.trans (allocLoop_none hchain hroom hnone hlen)⟩
  | some q =>
    obtain ⟨hq, pre, post, rfl, hpre⟩ := List.find?_eq_some_iff_append.mp hfind
    have hfit : Fits h.mem L q := by simpa using hq
    have hskip : ∀ r ∈ pre, ¬Fits h.mem L r := by simpa using hpre
    refine Or.inr ⟨pre, q, post, rfl, hskip, hfit, ?_⟩
    rw [hloop, allocLoop_found hchain hroom hskip hfit (hused q (by simp) hfit)
      (by rw [List.length_append] at hlen; omega), Option.or_none]

theorem first_unique {α : Type} {P : α → Prop} {pre pre' post post' : List α} {a a' : α}
    (h : pre ++ a :: post = pre' ++ a' :: post') (hpre : ∀ x ∈ pre, ¬P x) (ha : P a)
    (hpre' : ∀ x ∈ pre', ¬P x) (ha' : P a') : pre = pre' ∧ a = a' ∧ post = post' := by
  induction pre generalizing pre' with
  | nil =>
    cases pre' with
    | nil => exact ⟨rfl, List.cons.inj h⟩
    | cons x pre' =>
      obtain ⟨rfl, -⟩ := List.cons.inj h
      exact absurd ha (hpre' a List.mem_cons_self)
  | cons x pre ih =>
    cases pre' with
    | nil =>
      obtain ⟨rfl, -⟩ := List.cons.inj h
      exact absurd ha' (hpre x List.mem_cons_self)
    | cons y pre' =>
      obtain ⟨rfl, htail⟩ := List.cons.inj h
      obtain ⟨rfl, rest⟩ := ih htail (fun z hz ↦ hpre z (List.mem_cons_of_mem _ hz))
        fun z hz ↦ hpre' z (List.mem_cons_of_mem _ hz)
      exact ⟨rfl, rest⟩

theorem mem_visited {m : Mem} {l : List ℕ} {q : ℕ} : q ∈ visited m L l ↔
    ∃ pre post, l = pre ++ q :: post ∧ ∀ r ∈ pre, ¬Fits m L r := by
  induction l with
  | nil => exact iff_of_false List.not_mem_nil fun ⟨pre, post, hl, _⟩ ↦ by simp at hl
  | cons p l ih =>
    rw [visited]
    constructor
    · intro hq
      by_cases hfit : Fits m L p
      · rw [if_pos hfit, List.mem_singleton] at hq
        exact ⟨[], l, by rw [hq]; rfl, fun r hr ↦ absurd hr List.not_mem_nil⟩
      · rw [if_neg hfit] at hq
        rcases List.mem_cons.mp hq with rfl | hq
        · exact ⟨[], l, rfl, fun r hr ↦ absurd hr List.not_mem_nil⟩
        · obtain ⟨pre, post, rfl, hpre⟩ := ih.mp hq
          exact ⟨p :: pre, post, rfl, List.forall_mem_cons.mpr ⟨hfit, hpre⟩⟩
    · rintro ⟨pre, post, hl, hpre⟩
      cases pre with
      | nil =>
        obtain ⟨rfl, -⟩ := List.cons.inj hl
        split
        · exact List.mem_singleton_self p
        · exact List.mem_cons_self
      | cons r pre =>
        obtain ⟨rfl, rfl⟩ := List.cons.inj hl
        rw [List.forall_mem_cons] at hpre
        rw [if_neg hpre.1]
        exact List.mem_cons_of_mem _ (ih.mpr ⟨pre, post, rfl, hpre.2⟩)

/-- The heap after a block has been freed. -/
def release (h : HeapAllocator) (ptr : ℕ) (L : Layout) : HeapAllocator :=
  { h with
    mem := writeNode h.mem (ptr - sizeOfFreeNode) ⟨L.roundedSize, h.head.next⟩
    head := { h.head with next := ptr - sizeOfFreeNode }
    usedMemory := h.usedMemory - L.size }

/-- **What `dealloc` does** to a block whose header lies in the address space. -/
theorem dealloc_eq {ptr : ℕ} (hptr : sizeOfFreeNode ≤ ptr) (hused : L.size ≤ h.usedMemory) :
    h.dealloc ptr L = .ok (h.release ptr L) := by
  rw [dealloc, Checked.sub_of_le hptr, Checked.ok_bind, L.alignUp_size, Checked.ok_bind,
    Checked.sub_of_le hused, Checked.ok_bind, Checked.pure_eq_ok, release]

end HeapAllocator

end RelizOS
