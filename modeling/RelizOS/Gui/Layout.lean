import Mathlib.Data.List.Infix
import Mathlib.Data.List.InsertIdx
import Mathlib.Data.List.Nodup
import Mathlib.Tactic.Ring
import RelizOS.Library.Checked

/-!
# Tiling windows

`LayoutManager` keeps the open windows in the order in which they were opened, and after every
change computes their rectangles anew: one window takes the workspace, of several the first takes
the left half and the others share the right half, one below the other, with gaps of ten pixels.

`tile` is the intended rectangle of the `i`-th of `n` windows. Rectangles of different windows are
apart and inside the workspace (`tile_apart`, `tile_inside`), and the manager assigns exactly these
(`recalculate_eq`). So the layout is a function of the list of ids (`laidOut`), and two histories
that lead to the same ids lead to the same layout (`layout_run`).
-/

namespace RelizOS.Gui

/-! ## The layout manager -/

/-- `WindowInfo`. -/
structure WindowInfo where
  id : UInt64
  x : ℕ
  y : ℕ
  w : ℕ
  h : ℕ
  deriving DecidableEq, Repr

/-- `LayoutManager`. -/
structure LayoutManager where
  screenW : ℕ
  screenH : ℕ
  dockH : ℕ
  windows : List WindowInfo
  deriving DecidableEq, Repr

namespace LayoutManager

/-- `LayoutManager::new`. -/
def new (screenW screenH : ℕ) : LayoutManager where
  screenW := screenW
  screenH := screenH
  dockH := 60
  windows := []

/-- `gaps`. -/
def gaps : ℕ := 10

/-- The loop over the windows of the stack, from the `i`-th on. -/
def placeStack (stackX stackW cellH : ℕ) : ℕ → List WindowInfo → Checked (List WindowInfo)
  | _, [] => return []
  | i, win :: stack => do
    let above ← Checked.sub i 1
    let pitch ← Checked.add 64 cellH gaps
    let offset ← Checked.mul 64 above pitch
    let y ← Checked.add 64 gaps offset
    let stack ← placeStack stackX stackW cellH (i + 1) stack
    return { win with x := stackX, y := y, w := stackW, h := cellH } :: stack

/-- `recalculate`. -/
def recalculate (m : LayoutManager) : Checked LayoutManager :=
  match m.windows with
  | [] => return m
  | [win] => do
    let usableH ← Checked.sub m.screenH m.dockH
    let w ← Checked.sub m.screenW (gaps * 2)
    let h ← Checked.sub usableH (gaps * 2)
    return { m with windows := [{ win with x := gaps, y := gaps, w := w, h := h }] }
  | master :: stack => do
    let usableH ← Checked.sub m.screenH m.dockH
    let half ← Checked.sub (m.screenW / 2) gaps
    let masterW ← Checked.sub half (gaps / 2)
    let masterH ← Checked.sub usableH (gaps * 2)
    let stackX ← Checked.add 64 (m.screenW / 2) (gaps / 2)
    let stackW ← Checked.sub half (gaps / 2)
    let stackCount := stack.length
    let totalGapsHeight ← Checked.mul 64 (stackCount - 1) gaps
    let totalUsableStackH ← Checked.sub masterH totalGapsHeight
    let cellH := totalUsableStackH / stackCount
    let stack ← placeStack stackX stackW cellH 1 stack
    return { m with
      windows := { master with x := gaps, y := gaps, w := masterW, h := masterH } :: stack }

/-- `add_window`. -/
def addWindow (m : LayoutManager) (id : UInt64) : Checked LayoutManager :=
  if m.windows.any fun w ↦ w.id = id then return m
  else recalculate { m with windows := m.windows ++ [⟨id, 0, 0, 0, 0⟩] }

/-- `remove_window`. -/
def removeWindow (m : LayoutManager) (id : UInt64) : Checked LayoutManager :=
  match m.windows.findIdx? fun w ↦ w.id = id with
  | some pos => recalculate { m with windows := m.windows.eraseIdx pos }
  | none => return m

/-- The ids of the windows. -/
def ids (m : LayoutManager) : List UInt64 := m.windows.map WindowInfo.id

end LayoutManager

/-- An operation on the manager. -/
inductive Op where
  | add (id : UInt64)
  | remove (id : UInt64)
  deriving DecidableEq, Repr

/-- Carry out an operation. -/
def LayoutManager.step (m : LayoutManager) : Op → Checked LayoutManager
  | .add id => m.addWindow id
  | .remove id => m.removeWindow id

/-- Carry out operations one after the other. -/
def LayoutManager.run (m : LayoutManager) (ops : List Op) : Checked LayoutManager :=
  ops.foldlM LayoutManager.step m

/-! ## The intended layout -/

/-- A rectangle. -/
structure Rect where
  x : ℕ
  y : ℕ
  w : ℕ
  h : ℕ
  deriving DecidableEq, Repr

/-- The rectangle of the `i`-th of `n` windows. -/
def tile (screenW screenH n i : ℕ) : Rect :=
  if n = 1 then ⟨10, 10, screenW - 20, screenH - 80⟩
  else if i = 0 then ⟨10, 10, screenW / 2 - 15, screenH - 80⟩
  else
    let cellH := (screenH - 80 - (n - 2) * 10) / (n - 1)
    ⟨screenW / 2 + 5, 10 + (i - 1) * (cellH + 10), screenW / 2 - 15, cellH⟩

/-- At least ten pixels lie between two rectangles, in `x` or in `y`. -/
def Rect.Apart (a b : Rect) : Prop :=
  a.x + a.w + 10 ≤ b.x ∨ b.x + b.w + 10 ≤ a.x ∨ a.y + a.h + 10 ≤ b.y ∨ b.y + b.h + 10 ≤ a.y

/-- A rectangle lies in `[10, screen_w - 10] x [10, screen_h - dock_h - 10]`. -/
def Rect.Inside (screenW screenH dockH : ℕ) (a : Rect) : Prop :=
  10 ≤ a.x ∧ a.x + a.w + 10 ≤ screenW ∧ 10 ≤ a.y ∧ a.y + a.h + dockH + 10 ≤ screenH

/-- The gaps of the stack fit on the screen. -/
def Fits (screenH n : ℕ) : Prop := (n - 2) * 10 ≤ screenH - 80

section

variable {screenW screenH n i j : ℕ}

theorem cells_fit (hn : 2 ≤ n) (hfits : Fits screenH n) :
    (n - 1) * ((screenH - 80 - (n - 2) * 10) / (n - 1)) + (n - 2) * 10 ≤ screenH - 80 := by
  have hdiv := Nat.mul_div_le (screenH - 80 - (n - 2) * 10) (n - 1)
  rw [Fits] at hfits
  omega

theorem cell_bottom_le {c : ℕ} (hi : 1 ≤ i) (hin : i < n) :
    (i - 1) * (c + 10) + c ≤ (n - 1) * c + (n - 2) * 10 := by
  have hmono : (i - 1) * (c + 10) ≤ (n - 2) * (c + 10) := Nat.mul_le_mul_right _ (by omega)
  have hlast : (n - 2) * (c + 10) + c = (n - 1) * c + (n - 2) * 10 := by
    obtain ⟨k, rfl⟩ : ∃ k, n = k + 2 := ⟨n - 2, by omega⟩
    simp only [Nat.add_sub_cancel, Nat.add_succ_sub_one]
    ring
  omega

/-- **Every window lies in the workspace.** -/
theorem tile_inside (hw : 30 ≤ screenW) (hh : 80 ≤ screenH) (hfits : Fits screenH n) (hi : i < n) :
    (tile screenW screenH n i).Inside screenW screenH 60 := by
  rw [tile]
  by_cases hone : n = 1
  · rw [if_pos hone]
    refine ⟨le_rfl, ?_, le_rfl, ?_⟩ <;> dsimp only <;> omega
  rw [if_neg hone]
  by_cases hzero : i = 0
  · rw [if_pos hzero]
    refine ⟨le_rfl, ?_, le_rfl, ?_⟩ <;> dsimp only <;> omega
  · rw [if_neg hzero]
    dsimp only
    have hfit := cells_fit (by omega) hfits
    generalize (screenH - 80 - (n - 2) * 10) / (n - 1) = c at hfit ⊢
    have hbottom := cell_bottom_le (c := c) (by omega) hi
    refine ⟨?_, ?_, Nat.le_add_right _ _, ?_⟩ <;> dsimp only <;> omega

/-- **Two windows are apart.** -/
theorem tile_apart (hw : 30 ≤ screenW) (hij : i < j) (hj : j < n) :
    (tile screenW screenH n i).Apart (tile screenW screenH n j) := by
  have hone : n ≠ 1 := by omega
  have hjzero : j ≠ 0 := by omega
  rw [tile, tile, if_neg hone, if_neg hone, if_neg hjzero]
  by_cases hzero : i = 0
  · -- the master is left of the stack
    rw [if_pos hzero]
    left
    dsimp only
    omega
  · rw [if_neg hzero]
    right; right; left
    dsimp only
    generalize (screenH - 80 - (n - 2) * 10) / (n - 1) = c
    have hstep : (i - 1 + 1) * (c + 10) ≤ (j - 1) * (c + 10) := Nat.mul_le_mul_right _ (by omega)
    rw [Nat.succ_mul] at hstep
    omega

end

/-! ## The manager computes it -/

/-- The rectangle of a window. -/
def WindowInfo.rect (win : WindowInfo) : Rect := ⟨win.x, win.y, win.w, win.h⟩

/-- A window in a rectangle. -/
def place (id : UInt64) (r : Rect) : WindowInfo := ⟨id, r.x, r.y, r.w, r.h⟩

/-- The windows with given ids in their rectangles. -/
def laidOut (screenW screenH : ℕ) (ids : List UInt64) : List WindowInfo :=
  ids.mapIdx fun i id ↦ place id (tile screenW screenH ids.length i)

/-- The manager after its windows have been laid out. -/
def layoutOf (screenW screenH : ℕ) (ids : List UInt64) : LayoutManager where
  screenW := screenW
  screenH := screenH
  dockH := 60
  windows := laidOut screenW screenH ids

section

variable {screenW screenH : ℕ} {ids : List UInt64}

theorem length_laidOut : (laidOut screenW screenH ids).length = ids.length := List.length_mapIdx

theorem map_id_laidOut (screenW screenH : ℕ) (ids : List UInt64) :
    (laidOut screenW screenH ids).map WindowInfo.id = ids := by
  apply List.ext_getElem
  · rw [List.length_map, length_laidOut]
  · intro i hi hi'
    simp only [laidOut, List.getElem_map, List.getElem_mapIdx, place]

theorem windows_layoutOf :
    (layoutOf screenW screenH ids).windows = laidOut screenW screenH ids := rfl

@[simp] theorem ids_layoutOf : (layoutOf screenW screenH ids).ids = ids :=
  map_id_laidOut screenW screenH ids

theorem placeStack_eq {stackX stackW c i : ℕ} {wins : List WindowInfo} (hi : 1 ≤ i)
    (hfits : (i - 1 + wins.length) * (c + 10) < 2 ^ 64) :
    LayoutManager.placeStack stackX stackW c i wins =
      .ok (wins.mapIdx fun k win ↦
        place win.id ⟨stackX, 10 + (i + k - 1) * (c + 10), stackW, c⟩) := by
  induction wins generalizing i with
  | nil => rfl
  | cons win wins ih =>
    rw [List.length_cons, ← add_assoc, Nat.succ_mul] at hfits
    have hmono : (i - 1) * (c + 10) ≤ (i - 1 + wins.length) * (c + 10) :=
      Nat.mul_le_mul_right _ (Nat.le_add_right _ _)
    have hrest := ih (i := i + 1) (by omega) (by
      have : i + 1 - 1 + wins.length = i - 1 + wins.length + 1 := by omega
      rw [this, Nat.succ_mul]
      exact hfits)
    rw [LayoutManager.placeStack, Checked.sub_of_le hi, Checked.ok_bind, LayoutManager.gaps,
      Checked.add_of_lt (by omega), Checked.ok_bind, Checked.mul, if_pos (by omega),
      Checked.ok_bind, Checked.add_of_lt (by omega), Checked.ok_bind, hrest, List.mapIdx_cons]
    simp only [Checked.ok_bind, Checked.pure_eq_ok, place, Nat.add_zero, Except.ok.injEq,
      List.cons.injEq, true_and]
    apply List.mapIdx_eq_mapIdx_iff.mpr
    intro k hk
    rw [show i + 1 + k = i + (k + 1) by omega]

/-- A master beside a stack, up to the gaps of the stack. -/
theorem recalculate_stack (hw : 30 ≤ screenW) (hh : 80 ≤ screenH) (hw' : screenW < 2 ^ 64)
    (master win : WindowInfo) (stack : List WindowInfo) :
    LayoutManager.recalculate ⟨screenW, screenH, 60, master :: win :: stack⟩ = do
      let totalGapsHeight ← Checked.mul 64 stack.length 10
      let totalUsableStackH ← Checked.sub (screenH - 80) totalGapsHeight
      let stack ← LayoutManager.placeStack (screenW / 2 + 5) (screenW / 2 - 15)
        (totalUsableStackH / (stack.length + 1)) 1 (win :: stack)
      return ⟨screenW, screenH, 60,
        { master with x := 10, y := 10, w := screenW / 2 - 15, h := screenH - 80 } :: stack⟩ := by
  have hheight : screenH - 60 - 20 = screenH - 80 := by omega
  have hwidth : screenW / 2 - 10 - 5 = screenW / 2 - 15 := by omega
  rw [LayoutManager.recalculate]
  · simp only [LayoutManager.gaps, List.length_cons, Nat.reduceMul, Nat.reduceDiv,
      Nat.add_sub_cancel]
    rw [Checked.sub_of_le (by omega), Checked.ok_bind, Checked.sub_of_le (by omega),
      Checked.ok_bind, Checked.sub_of_le (by omega), Checked.ok_bind,
      Checked.sub_of_le (by omega), Checked.ok_bind, Checked.add_of_lt (by omega),
      Checked.ok_bind, Checked.ok_bind, hheight, hwidth]

/-- **The rectangles that the manager assigns.** -/
theorem recalculate_eq (hw : 30 ≤ screenW) (hh : 80 ≤ screenH) (hw' : screenW < 2 ^ 64)
    (hh' : screenH < 2 ^ 64) {wins : List WindowInfo} (hfits : Fits screenH wins.length) :
    LayoutManager.recalculate ⟨screenW, screenH, 60, wins⟩ =
      .ok (layoutOf screenW screenH (wins.map WindowInfo.id)) := by
  -- no window, a single one, or a master beside a stack
  match wins with
  | [] => rfl
  | [win] =>
    have hheight : screenH - 60 - 20 = screenH - 80 := by omega
    rw [LayoutManager.recalculate]
    simp only [LayoutManager.gaps, Nat.reduceMul]
    rw [Checked.sub_of_le (by omega), Checked.ok_bind, Checked.sub_of_le (by omega),
      Checked.ok_bind, Checked.sub_of_le (by omega), Checked.ok_bind, hheight]
    rfl
  | master :: win :: stack =>
    simp only [List.length_cons] at hfits
    have hgaps : stack.length * 10 ≤ screenH - 80 := hfits
    have hfit : (stack.length + 1) * ((screenH - 80 - stack.length * 10) / (stack.length + 1)) +
        stack.length * 10 ≤ screenH - 80 := cells_fit (n := stack.length + 2) (by omega) hfits
    rw [recalculate_stack hw hh hw', Checked.mul, if_pos (by omega), Checked.ok_bind,
      Checked.sub_of_le hgaps, Checked.ok_bind]
    generalize hcell : (screenH - 80 - stack.length * 10) / (stack.length + 1) = c at hfit ⊢
    -- the heights of the stack do not pass the bottom of the screen, so no sum wraps on the way
    rw [placeStack_eq le_rfl]
    · rw [Checked.ok_bind, Checked.pure_eq_ok, layoutOf]
      congr 2
      apply List.ext_getElem
      · simp [laidOut]
      rintro (_ | i) hi hi'
      · simp [laidOut, place, tile]
      · simp only [laidOut, List.getElem_cons_succ, List.getElem_mapIdx, List.getElem_map]
        simp [place, tile, hcell]
    · rw [List.length_cons, Nat.sub_self, Nat.zero_add, Nat.mul_add]
      omega

end

/-! ## Histories -/

/-- The ids after an operation: a new one goes to the end. -/
def idsAfter (ids : List UInt64) : Op → List UInt64
  | .add id => if id ∈ ids then ids else ids ++ [id]
  | .remove id => ids.erase id

/-- The ids after a history. -/
def history (ops : List Op) : List UInt64 := ops.foldl idsAfter []

/-- The number of windows is never too large for the screen. -/
def Keeps (screenH : ℕ) (ops : List Op) : Prop :=
  ∀ pre, pre <+: ops → Fits screenH (history pre).length

section

variable {screenW screenH : ℕ} {ids : List UInt64}

/-- **One operation.** -/
theorem step_layoutOf (hw : 30 ≤ screenW) (hh : 80 ≤ screenH) (hw' : screenW < 2 ^ 64)
    (hh' : screenH < 2 ^ 64) {op : Op} (hfits : Fits screenH (idsAfter ids op).length) :
    (layoutOf screenW screenH ids).step op = .ok (layoutOf screenW screenH (idsAfter ids op)) := by
  -- both operations look the window up by its id, which the layout keeps
  cases op with
  | add id =>
    have hany : (layoutOf screenW screenH ids).windows.any (fun w ↦ w.id = id) = true ↔
        id ∈ ids := by
      conv_rhs => rw [← map_id_laidOut screenW screenH ids]
      simp [layoutOf]
    rw [idsAfter] at hfits ⊢
    rw [LayoutManager.step, LayoutManager.addWindow]
    by_cases hid : id ∈ ids
    · rw [if_pos (hany.mpr hid), if_pos hid]
      rfl
    · rw [if_neg hid] at hfits
      rw [if_neg (hany.not.mpr hid), if_neg hid, layoutOf,
        recalculate_eq hw hh hw' hh' (by simpa [length_laidOut] using hfits), List.map_append,
        map_id_laidOut]
      rfl
  | remove id =>
    have hfind : (layoutOf screenW screenH ids).windows.findIdx? (fun w ↦ w.id = id) =
        ids.idxOf? id := by
      conv_rhs => rw [← map_id_laidOut screenW screenH ids]
      rw [List.idxOf?, List.findIdx?_map]
      rfl
    rw [idsAfter, List.erase_eq_eraseIdx] at hfits ⊢
    rw [LayoutManager.step, LayoutManager.removeWindow, hfind]
    cases hidx : ids.idxOf? id with
    | none => rfl
    | some pos =>
      rw [hidx] at hfits
      dsimp only at hfits ⊢
      rw [layoutOf, recalculate_eq hw hh hw' hh', ← List.eraseIdx_map, map_id_laidOut]
      rw [← map_id_laidOut screenW screenH ids,
        List.eraseIdx_map, List.length_map] at hfits
      exact hfits

/-- **A whole history.** -/
theorem run_layoutOf (hw : 30 ≤ screenW) (hh : 80 ≤ screenH) (hw' : screenW < 2 ^ 64)
    (hh' : screenH < 2 ^ 64) {ops : List Op}
    (hkeeps : ∀ pre, pre <+: ops → Fits screenH (pre.foldl idsAfter ids).length) :
    (layoutOf screenW screenH ids).run ops =
      .ok (layoutOf screenW screenH (ops.foldl idsAfter ids)) := by
  induction ops generalizing ids with
  | nil => rfl
  | cons op ops ih =>
    have hfirst := hkeeps [op] (List.prefix_append [op] ops)
    rw [LayoutManager.run, List.foldlM_cons, step_layoutOf hw hh hw' hh' hfirst, Checked.ok_bind]
    exact ih fun pre hpre ↦ hkeeps (op :: pre) (List.cons_prefix_cons.mpr ⟨rfl, hpre⟩)

theorem nodup_idsAfter {op : Op} (h : ids.Nodup) : (idsAfter ids op).Nodup := by
  cases op with
  | add id =>
    rw [idsAfter]
    split
    · exact h
    · next hid => exact List.nodup_append_comm.mp (List.nodup_cons.mpr ⟨hid, h⟩)
  | remove id => exact h.erase id

theorem nodup_history (ops : List Op) : (history ops).Nodup := by
  rw [history]
  exact List.foldlRecOn ops idsAfter List.nodup_nil fun _ h _ _ ↦ nodup_idsAfter h

/-- The manager has windows with given ids, all different, in rectangles that lie in the workspace,
are apart, and depend only on the position and the number of windows. -/
structure WellLaid (screenW screenH : ℕ) (m : LayoutManager) (ids : List UInt64) : Prop where
  ids_eq : m.ids = ids
  nodup : m.ids.Nodup
  inside : ∀ win ∈ m.windows, win.rect.Inside screenW screenH m.dockH
  apart : m.windows.Pairwise fun a b ↦ a.rect.Apart b.rect
  geometry : ∀ i (h : i < m.windows.length),
    m.windows[i].rect = tile screenW screenH m.windows.length i

theorem wellLaid_layoutOf (hw : 30 ≤ screenW) (hh : 80 ≤ screenH) (hfits : Fits screenH ids.length)
    (hnodup : ids.Nodup) : WellLaid screenW screenH (layoutOf screenW screenH ids) ids := by
  have hgeometry : ∀ i (h : i < (laidOut screenW screenH ids).length),
      (laidOut screenW screenH ids)[i].rect = tile screenW screenH ids.length i := by
    intro i hi
    simp only [laidOut, List.getElem_mapIdx, place, WindowInfo.rect]
  refine ⟨ids_layoutOf, by rwa [ids_layoutOf], ?_, ?_, ?_⟩
  · intro win hwin
    obtain ⟨i, hi, hget⟩ := List.mem_iff_getElem.mp (windows_layoutOf ▸ hwin)
    rw [← hget, hgeometry i hi]
    exact tile_inside hw hh hfits (length_laidOut ▸ hi)
  · rw [windows_layoutOf, List.pairwise_iff_getElem]
    intro i j hi hj hij
    rw [hgeometry i hi, hgeometry j hj]
    exact tile_apart hw hij (length_laidOut ▸ hj)
  · rw [windows_layoutOf]
    intro i hi
    rw [hgeometry i hi, length_laidOut]

/-- **The layout after any history** is well laid and a function of the ids: any other history with
the same ids leads to the same layout, and so does opening a new window and closing it. -/
theorem layout_run (hw : 30 ≤ screenW) (hh : 80 ≤ screenH) (hw' : screenW < 2 ^ 64)
    (hh' : screenH < 2 ^ 64) {ops : List Op} (hkeeps : Keeps screenH ops) :
    ∃ m, (LayoutManager.new screenW screenH).run ops = .ok m ∧
      WellLaid screenW screenH m (history ops) ∧
      (∀ ops', Keeps screenH ops' → history ops' = history ops →
        (LayoutManager.new screenW screenH).run ops' = .ok m) ∧
      ∀ id ∉ m.ids, Fits screenH (m.ids.length + 1) →
        m.run [.add id, .remove id] = .ok m := by
  have hrun : ∀ ops', Keeps screenH ops' → (LayoutManager.new screenW screenH).run ops' =
      .ok (layoutOf screenW screenH (history ops')) :=
    fun ops' h ↦ @run_layoutOf screenW screenH [] hw hh hw' hh' ops' h
  refine ⟨_, hrun ops hkeeps, ?_, ?_, ?_⟩
  · exact wellLaid_layoutOf hw hh (hkeeps ops (List.prefix_refl ops)) (nodup_history ops)
  · intro ops' hkeeps' hsame
    rw [hrun ops' hkeeps', hsame]
  · intro id hid hfits
    rw [ids_layoutOf] at hid hfits
    have hadd : idsAfter (history ops) (.add id) = history ops ++ [id] := if_neg hid
    have hremove : idsAfter (history ops ++ [id]) (.remove id) = history ops := by
      rw [idsAfter, List.erase_append_right _ hid, List.erase_cons_head, List.append_nil]
    rw [run_layoutOf hw hh hw' hh', List.foldl_cons, List.foldl_cons, List.foldl_nil, hadd, hremove]
    intro pre hpre
    -- the prefixes are the layout itself, the one with the new window, and the layout again
    rcases pre with _ | ⟨op, _ | ⟨op', pre⟩⟩
    · exact hkeeps ops (List.prefix_refl ops)
    · obtain ⟨rfl, -⟩ := List.cons_prefix_cons.mp hpre
      rw [List.foldl_cons, List.foldl_nil, hadd, List.length_append]
      exact hfits
    · obtain ⟨rfl, htail⟩ := List.cons_prefix_cons.mp hpre
      obtain ⟨rfl, hnil⟩ := List.cons_prefix_cons.mp htail
      obtain rfl := List.prefix_nil.mp hnil
      rw [List.foldl_cons, List.foldl_cons, List.foldl_nil, hadd, hremove]
      exact hkeeps ops (List.prefix_refl ops)

theorem layout_run_threeWindows : ∃ m,
    (LayoutManager.new 800 600).run [.add 1, .add 2, .add 3, .remove 1] = .ok m ∧
      WellLaid 800 600 m [2, 3] := by
  have hkeeps : Keeps 600 [.add 1, .add 2, .add 3, .remove 1] := by
    have hinits : ∀ pre ∈ [Op.add 1, .add 2, .add 3, .remove 1].inits,
        (history pre).length ≤ 3 := by
      decide
    intro pre hpre
    have := hinits pre ((List.mem_inits _ _).mpr hpre)
    rw [Fits]
    omega
  have hw : 30 ≤ 800 := by omega
  obtain ⟨m, hrun, hwell, -⟩ := layout_run hw (by omega) (by omega) (by omega) hkeeps
  exact ⟨m, hrun, hwell⟩

end

end RelizOS.Gui
