import Mathlib.Data.List.Induction
import RelizOS.Gui.Layout

/-!
# How many windows fit

`recalculate` subtracts the gaps between the windows of the stack from their height, without asking
whether there is so much height. With 768 rows the gaps of 71 windows are too high, and opening the
71st panics (`not_staysInside`). Nothing else can go wrong: the stack is never empty when its height
is divided among its windows, and as long as the gaps fit every window is in the workspace. So a
history goes well exactly when it never has too many windows open (`staysInside_iff`).
-/

namespace RelizOS.Gui

/-- At every point of a history the manager has not panicked and has its windows in the workspace,
above the dock. -/
def StaysInside (screenW screenH : ℕ) (ops : List Op) : Prop :=
  ∀ pre, pre <+: ops → ∃ m, (LayoutManager.new screenW screenH).run pre = .ok m ∧
    ∀ win ∈ m.windows, win.rect.Inside screenW screenH m.dockH

section

variable {screenW screenH : ℕ} {ids : List UInt64}

theorem Fits.mono {n n' : ℕ} (h : Fits screenH n) (hle : n' ≤ n) : Fits screenH n' := by
  rw [Fits] at *
  omega

/-- **Too many windows** make `recalculate` panic. -/
theorem recalculate_overflow {wins : List WindowInfo} (hw : 30 ≤ screenW) (hh : 80 ≤ screenH)
    (hw' : screenW < 2 ^ 64) (hfits : ¬Fits screenH wins.length) :
    LayoutManager.recalculate ⟨screenW, screenH, 60, wins⟩ = .error .overflow := by
  match wins with
  | [] => exact absurd (Nat.zero_le _) hfits
  | [win] => exact absurd (Nat.zero_le _) hfits
  | master :: win :: stack =>
    have hgaps : ¬stack.length * 10 ≤ screenH - 80 := hfits
    rw [recalculate_stack hw hh hw']
    -- the product of the gaps may already leave 64 bits
    cases hmul : Checked.mul 64 stack.length 10 with
    | error e =>
      rw [Checked.mul] at hmul
      split at hmul
      · cases hmul
      · rw [← Except.error.inj hmul]
        rfl
    | ok total =>
      obtain ⟨-, rfl⟩ := Checked.mul_eq_ok.mp hmul
      rw [Checked.ok_bind, Checked.sub, if_neg hgaps]
      rfl

theorem step_overflow (hw : 30 ≤ screenW) (hh : 80 ≤ screenH) (hw' : screenW < 2 ^ 64) {op : Op}
    (hbefore : Fits screenH ids.length) (hafter : ¬Fits screenH (idsAfter ids op).length) :
    (layoutOf screenW screenH ids).step op = .error .overflow := by
  cases op with
  | remove id => exact absurd (hbefore.mono (List.erase_sublist.length_le)) hafter
  | add id =>
    rw [idsAfter] at hafter
    by_cases hid : id ∈ ids
    · rw [if_pos hid] at hafter
      exact absurd hbefore hafter
    · rw [if_neg hid, List.length_append] at hafter
      have hany : ¬(layoutOf screenW screenH ids).windows.any (fun w ↦ w.id = id) = true := by
        rw [← map_id_laidOut screenW screenH ids] at hid
        simpa [layoutOf] using hid
      rw [LayoutManager.step, LayoutManager.addWindow, if_neg hany]
      refine recalculate_overflow hw hh hw' ?_
      rwa [List.length_append, windows_layoutOf, length_laidOut]

/-- **A history that has not panicked** has never had too many windows open. -/
theorem keeps_of_run (hw : 30 ≤ screenW) (hh : 80 ≤ screenH) (hw' : screenW < 2 ^ 64)
    (hh' : screenH < 2 ^ 64) {ops : List Op} {m : LayoutManager}
    (h : (LayoutManager.new screenW screenH).run ops = .ok m) : Keeps screenH ops := by
  induction ops using List.reverseRecOn generalizing m with
  | nil =>
    intro pre hpre
    rw [List.prefix_nil.mp hpre]
    exact Nat.zero_le _
  | append_singleton ops op ih =>
    rw [LayoutManager.run, List.foldlM_append, Checked.bind_eq_ok] at h
    obtain ⟨m', hrun, hstep⟩ := h
    rw [List.foldlM_cons, Checked.bind_eq_ok] at hstep
    obtain ⟨m'', hstep, -⟩ := hstep
    have hkeeps := ih hrun
    have hlaid : (LayoutManager.new screenW screenH).run ops =
        .ok (layoutOf screenW screenH (history ops)) :=
      @run_layoutOf screenW screenH [] hw hh hw' hh' ops hkeeps
    obtain rfl : layoutOf screenW screenH (history ops) = m' :=
      Except.ok.inj (hlaid.symm.trans hrun)
    intro pre hpre
    rcases List.prefix_concat_iff.mp hpre with rfl | hpre
    · by_contra hfits
      rw [history, List.foldl_append] at hfits
      rw [step_overflow hw hh hw' (hkeeps ops (List.prefix_refl ops)) hfits] at hstep
      cases hstep
    · exact hkeeps pre hpre

/-! ## Screens that are too low -/

/-- The manager has not changed the sides of the screen, and has windows only where there are rows
for them. -/
structure SidesKept (W H : ℕ) (m : LayoutManager) : Prop where
  screenW : m.screenW = W
  screenH : m.screenH = H
  dockH : m.dockH = 60
  rows : m.windows ≠ [] → 80 ≤ H

theorem sidesKept_recalculate {wins : List WindowInfo} {m : LayoutManager}
    (h : LayoutManager.recalculate ⟨screenW, screenH, 60, wins⟩ = .ok m) :
    SidesKept screenW screenH m := by
  match wins with
  | [] =>
    obtain rfl := Except.ok.inj h
    exact ⟨rfl, rfl, rfl, fun hne ↦ absurd rfl hne⟩
  | [win] =>
    obtain ⟨usableH, husable, h⟩ := Checked.bind_eq_ok.mp h
    obtain ⟨_, -, h⟩ := Checked.bind_eq_ok.mp h
    obtain ⟨_, hheight, h⟩ := Checked.bind_eq_ok.mp h
    obtain rfl := Except.ok.inj h
    obtain ⟨hdock, rfl⟩ := Checked.sub_eq_ok.mp husable
    have hgaps : 20 ≤ screenH - 60 := (Checked.sub_eq_ok.mp hheight).1
    exact ⟨rfl, rfl, rfl, fun _ ↦ by omega⟩
  | master :: win :: stack =>
    obtain ⟨usableH, husable, h⟩ := Checked.bind_eq_ok.mp h
    obtain ⟨_, -, h⟩ := Checked.bind_eq_ok.mp h
    obtain ⟨_, -, h⟩ := Checked.bind_eq_ok.mp h
    obtain ⟨_, hheight, h⟩ := Checked.bind_eq_ok.mp h
    obtain ⟨_, -, h⟩ := Checked.bind_eq_ok.mp h
    obtain ⟨_, -, h⟩ := Checked.bind_eq_ok.mp h
    obtain ⟨_, -, h⟩ := Checked.bind_eq_ok.mp h
    obtain ⟨_, -, h⟩ := Checked.bind_eq_ok.mp h
    obtain ⟨_, -, h⟩ := Checked.bind_eq_ok.mp h
    obtain rfl := Except.ok.inj h
    obtain ⟨hdock, rfl⟩ := Checked.sub_eq_ok.mp husable
    have hgaps : 20 ≤ screenH - 60 := (Checked.sub_eq_ok.mp hheight).1
    exact ⟨rfl, rfl, rfl, fun _ ↦ by omega⟩

theorem SidesKept.step {m m' : LayoutManager} (hm : SidesKept screenW screenH m) {op : Op}
    (h : m.step op = .ok m') : SidesKept screenW screenH m' := by
  obtain ⟨_, _, _, wins⟩ := m
  obtain ⟨rfl, rfl, rfl, -⟩ := id hm
  cases op with
  | add id =>
    rw [LayoutManager.step, LayoutManager.addWindow] at h
    split at h
    · obtain rfl := Except.ok.inj h
      exact hm
    · exact sidesKept_recalculate h
  | remove id =>
    rw [LayoutManager.step, LayoutManager.removeWindow] at h
    split at h
    · exact sidesKept_recalculate h
    · obtain rfl := Except.ok.inj h
      exact hm

theorem sidesKept_of_run {ops : List Op} {m : LayoutManager}
    (h : (LayoutManager.new screenW screenH).run ops = .ok m) : SidesKept screenW screenH m := by
  induction ops using List.reverseRecOn generalizing m with
  | nil =>
    obtain rfl := Except.ok.inj h
    exact ⟨rfl, rfl, rfl, fun hne ↦ absurd rfl hne⟩
  | append_singleton ops op ih =>
    rw [LayoutManager.run, List.foldlM_append, Checked.bind_eq_ok] at h
    obtain ⟨m', hrun, h⟩ := h
    rw [List.foldlM_cons, Checked.bind_eq_ok] at h
    obtain ⟨m'', hstep, h⟩ := h
    obtain rfl := Except.ok.inj h
    exact (ih hrun).step hstep

/-- **Every layout that is reached** is the intended one, also where no window can be opened. -/
theorem layoutOf_of_run (hw : 30 ≤ screenW) (hw' : screenW < 2 ^ 64) (hh' : screenH < 2 ^ 64)
    {ops : List Op} {m : LayoutManager}
    (h : (LayoutManager.new screenW screenH).run ops = .ok m) :
    ∃ ids, m = layoutOf screenW screenH ids ∧ Fits screenH ids.length ∧
      (ids ≠ [] → 80 ≤ screenH) := by
  have hsides := sidesKept_of_run h
  by_cases hwindows : m.windows = []
  · obtain ⟨_, _, _, wins⟩ := m
    obtain ⟨rfl, rfl, rfl, -⟩ := hsides
    obtain rfl : wins = [] := hwindows
    exact ⟨[], rfl, Nat.zero_le _, fun hne ↦ absurd rfl hne⟩
  · have hhigh := hsides.rows hwindows
    have hkeeps := keeps_of_run hw hhigh hw' hh' h
    have hlaid : (LayoutManager.new screenW screenH).run ops =
        .ok (layoutOf screenW screenH (history ops)) :=
      @run_layoutOf screenW screenH [] hw hhigh hw' hh' ops hkeeps
    exact ⟨history ops, Except.ok.inj (h.symm.trans hlaid), hkeeps ops (List.prefix_refl ops),
      fun _ ↦ hhigh⟩

/-! ## When windows stay in the workspace -/

/-- **Windows stay in the workspace** exactly when there are never too many of them. -/
theorem staysInside_iff (hw : 1024 ≤ screenW) (hh : 768 ≤ screenH) (hw' : screenW < 2 ^ 64)
    (hh' : screenH < 2 ^ 64) (ops : List Op) :
    StaysInside screenW screenH ops ↔ Keeps screenH ops := by
  constructor
  · intro h
    obtain ⟨m, hrun, -⟩ := h ops (List.prefix_refl ops)
    exact keeps_of_run (by omega) (by omega) hw' hh' hrun
  · intro hkeeps pre hpre
    have hrun : (LayoutManager.new screenW screenH).run pre =
        .ok (layoutOf screenW screenH (history pre)) :=
      @run_layoutOf screenW screenH [] (by omega) (by omega) hw' hh' pre
        fun pre' hpre' ↦ hkeeps pre' (hpre'.trans hpre)
    exact ⟨_, hrun, (wellLaid_layoutOf (by omega) (by omega) (hkeeps pre hpre)
      (nodup_history pre)).inside⟩

end

theorem staysInside_threeWindows : StaysInside 1024 768 [.add 1, .add 2, .add 3, .remove 1] := by
  have hinits : ∀ pre ∈ [Op.add 1, .add 2, .add 3, .remove 1].inits,
      (history pre).length ≤ 3 := by
    decide
  refine (staysInside_iff le_rfl le_rfl (by omega) (by omega) _).mpr fun pre hpre ↦ ?_
  have hle := hinits pre ((List.mem_inits _ _).mpr hpre)
  rw [Fits]
  omega

/-- Windows with the ids up to a number are opened. -/
def openWindows (n : ℕ) : List Op := (List.range n).map fun i ↦ .add (UInt64.ofNat i)

/-- **The 71st window** of a screen with 768 rows is one too many. -/
theorem not_staysInside :
    ¬∀ (screenW screenH : ℕ) (ops : List Op), 1024 ≤ screenW → 768 ≤ screenH →
      screenW < 2 ^ 64 → screenH < 2 ^ 64 → StaysInside screenW screenH ops := by
  intro h
  have hinside := h 1024 768 (openWindows 71) le_rfl le_rfl (by omega) (by omega)
  obtain ⟨m, hrun, -⟩ := hinside _ (List.prefix_refl _)
  have hfits := keeps_of_run (by omega) (by omega) (by omega) (by omega) hrun _
    (List.prefix_refl _)
  have hlength : (history (openWindows 71)).length = 71 := by decide +kernel
  rw [hlength, Fits] at hfits
  omega

end RelizOS.Gui
