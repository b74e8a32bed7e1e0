import IhsWl.Lib.Runs
import IhsWl.Server.Dialogs
import IhsWl.Server.Handlers

/-!
# Dialogs stay inside the view

Dialogs are placed inside the view where they fit it, over their parents where there is room, and no sum overflows.
-/

namespace IhsWl

/-! ## An axis -/

/-- A side of a window. -/
def IsSide (n : Int) : Prop := 0 ≤ n ∧ n ≤ i32Max

/-- A side of a view that was laid out. -/
def IsBound (n : Int) : Prop := 1 ≤ n ∧ n ≤ i32Max

/-- Within the bounds, or at their start where it does not fit. -/
structure InsideAxis (bounds size origin : Int) : Prop where
  start : 0 ≤ origin
  within : size ≤ bounds → origin + size ≤ bounds
  tooLarge : bounds < size → origin = 0

/-- Inside, and over the middle of the parent if that is. -/
structure PlacedAxis (bounds base parent size origin : Int) : Prop where
  inside : InsideAxis bounds size origin
  centered : InsideAxis bounds size (base + (parent - size).tdiv 2) → origin = base + (parent - size).tdiv 2

variable {bounds base parent size origin n : Int}

theorem InsideAxis.far (h : InsideAxis bounds size origin) : origin + size ≤ max bounds size := by
  rcases le_or_gt size bounds with hfits | hlarge
  · exact (h.within hfits).trans (le_max_left ..)
  · rw [h.tooLarge hlarge]
    omega

theorem half_bounds (n : Int) : n - 1 ≤ 2 * n.tdiv 2 ∧ 2 * n.tdiv 2 ≤ n + 1 := by
  rcases Int.le_total 0 n with h | h
  · rw [Int.tdiv_eq_ediv_of_nonneg h]
    omega
  · have hpos := Int.tdiv_eq_ediv_of_nonneg (b := 2) (Int.neg_nonneg_of_nonpos h)
    rw [Int.neg_tdiv] at hpos
    omega

theorem i32_of_mem (hlo : i32Min ≤ n) (hhi : n ≤ i32Max) : i32 n = some n := Round.checked_of_mem hlo hhi

theorem clamp_placed (h : origin = Round.clamp 0 (max (bounds - size) 0) (base + (parent - size).tdiv 2)) :
    PlacedAxis bounds base parent size origin := by
  have hlast : origin ≤ max (bounds - size) 0 := h ▸ Round.clamp_le (le_max_right ..)
  have hstart : 0 ≤ origin := h ▸ Round.le_clamp
  refine ⟨⟨hstart, fun hfits => ?_, fun hlarge => ?_⟩, fun hinside => ?_⟩
  · rw [max_eq_left (by omega)] at hlast
    omega
  · rw [max_eq_right (by omega)] at hlast
    omega
  · rw [h, Round.clamp_of_mem hinside.start]
    rcases le_or_gt size bounds with hfits | hlarge
    · exact le_max_of_le_left (Int.le_sub_right_of_add_le (hinside.within hfits))
    · rw [hinside.tooLarge hlarge]
      exact le_max_right ..

theorem placeAxis_placed (hbounds : IsBound bounds) (hparent : IsSide parent) (hsize : IsSide size)
    (hbase : InsideAxis bounds parent base) :
    ∃ origin, placeAxis bounds base parent size = some origin ∧ PlacedAxis bounds base parent size origin := by
  obtain ⟨hview, hviewMax⟩ := hbounds
  obtain ⟨hparent, hparentMax⟩ := hparent
  obtain ⟨hsize, hsizeMax⟩ := hsize
  have hmin : i32Min = -i32Max - 1 := by decide
  have hhalf := half_bounds (parent - size)
  have hstart := hbase.start
  have hfar : base + parent ≤ i32Max := hbase.far.trans (max_le hviewMax hparentMax)
  have hroom : i32 (parent - size) = some (parent - size) := i32_of_mem (by omega) (by omega)
  have hmiddle : i32 (base + (parent - size).tdiv 2) = some (base + (parent - size).tdiv 2) :=
    i32_of_mem (by omega) (by omega)
  have hlast : i32 (bounds - size) = some (bounds - size) := i32_of_mem (by omega) (by omega)
  refine ⟨_, ?_, clamp_placed rfl⟩
  simp only [placeAxis, hroom, hmiddle, hlast, Option.bind_eq_bind, Option.bind_some, clampI32, le_max_right, if_true]

/-! ## A scene -/

namespace State

variable {s : State} {g : WindowSizes} {root : WlSurface} {view : Int × Int} {windows windows' : List Window}
  {window : Window} {t : ToplevelEntry}

/-- A dialog of `windows`, over the window of its parent. -/
def OverParent (s : State) (g : WindowSizes) (view : Int × Int) (windows : List Window) (window : Window) : Prop :=
  ∃ parent base, (s.surfaces window.1).parent = some parent ∧
    (windows.find? fun w => w.1 = s.toplevelOf parent) = some (s.toplevelOf parent, base) ∧
    PlacedAxis view.1 base.1 (g.windowSize (s.toplevelOf parent)).1 (g.windowSize window.1).1 window.2.1 ∧
    PlacedAxis view.2 base.2 (g.windowSize (s.toplevelOf parent)).2 (g.windowSize window.1).2 window.2.2

/-- The toplevel at the view's origin, then dialogs over their parents, all inside. -/
structure Arranged (s : State) (g : WindowSizes) (root : WlSurface) (view : Int × Int) (windows : List Window) :
    Prop where
  inside : ∀ window ∈ windows, InsideAxis view.1 (g.windowSize window.1).1 window.2.1 ∧
    InsideAxis view.2 (g.windowSize window.1).2 window.2.2
  dialogs : ∃ dialogs, windows = (root, (0, 0)) :: dialogs ∧ ∀ window ∈ dialogs, OverParent s g view windows window

theorem arranged_root (s : State) (g : WindowSizes) (root : WlSurface) (view : Int × Int) :
    Arranged s g root view [(root, (0, 0))] := by
  have hzero (bounds size : Int) : InsideAxis bounds size 0 := ⟨le_rfl, fun h => by omega, fun _ => rfl⟩
  refine ⟨fun window hw => ?_, [], rfl, fun _ hw => absurd hw (List.not_mem_nil)⟩
  obtain rfl := List.mem_singleton.mp hw
  exact ⟨hzero .., hzero ..⟩

theorem OverParent.append (h : OverParent s g view windows window) (windows' : List Window) :
    OverParent s g view (windows ++ windows') window := by
  obtain ⟨parent, base, hparent, hfind, hplaced⟩ := h
  exact ⟨parent, base, hparent, by rw [List.find?_append, hfind]; rfl, hplaced⟩

theorem Arranged.append (h : Arranged s g root view windows) (hdialog : OverParent s g view windows window) :
    Arranged s g root view (windows ++ [window]) := by
  obtain ⟨dialogs, hdialogs, hall⟩ := h.dialogs
  have hsides := hdialog
  obtain ⟨_, _, -, -, hx, hy⟩ := hsides
  refine ⟨fun w hw => ?_, dialogs ++ [window], by rw [hdialogs]; rfl, fun w hw => ?_⟩
  · rcases List.mem_append.mp hw with hw | hw
    · exact h.inside w hw
    · obtain rfl := List.mem_singleton.mp hw
      exact ⟨hx.inside, hy.inside⟩
  · rcases List.mem_append.mp hw with hw | hw
    · exact (hall w hw).append [window]
    · obtain rfl := List.mem_singleton.mp hw
      exact hdialog.append [w]

theorem placeDialog_arranged (hsizes : ∀ x, IsSide (g.windowSize x).1 ∧ IsSide (g.windowSize x).2)
    (hview : IsBound view.1 ∧ IsBound view.2) (h : Arranged s g root view windows) (t : ToplevelEntry) :
    ∃ windows', s.placeDialog g root view windows t = some windows' ∧ Arranged s g root view windows' := by
  unfold placeDialog
  cases hparent : (s.surfaces t.surface).parent with
  | none => exact ⟨windows, rfl, h⟩
  | some parent =>
      dsimp only
      split
      · exact ⟨windows, rfl, h⟩
      · cases hfind : windows.find? fun window => window.1 = s.toplevelOf parent with
        | none => exact ⟨windows, rfl, h⟩
        | some found =>
            have hname : found.1 = s.toplevelOf parent := by simpa using List.find?_some hfind
            obtain ⟨hinx, hiny⟩ := h.inside found (List.mem_of_find?_eq_some hfind)
            rw [hname] at hinx hiny
            obtain ⟨x, hx, hplacedx⟩ := placeAxis_placed hview.1 (hsizes _).1 (hsizes t.surface).1 hinx
            obtain ⟨y, hy, hplacedy⟩ := placeAxis_placed hview.2 (hsizes _).2 (hsizes t.surface).2 hiny
            refine ⟨windows ++ [(t.surface, (x, y))], by simp only [hx, hy, Option.bind_eq_bind, Option.bind_some], ?_⟩
            exact h.append ⟨parent, found.2, hparent, hname ▸ hfind, hplacedx, hplacedy⟩

/-- Dialogs are placed inside the view, over their parents where there is room, and nothing overflows. -/
theorem placedWindows_inside (s : State) (g : WindowSizes) (v : ViewId) (ts : List ToplevelEntry)
    (hsizes : ∀ x, IsSide (g.windowSize x).1 ∧ IsSide (g.windowSize x).2)
    (hview : ∀ root, s.viewRoot v = some root → IsBound (g.bounds v root).1 ∧ IsBound (g.bounds v root).2) :
    ∃ windows, s.placedWindows g v ts = some windows ∧
      ∀ root, s.viewRoot v = some root → Arranged s g root (g.bounds v root) windows := by
  unfold placedWindows
  cases hroot : s.viewRoot v with
  | none => exact ⟨[], rfl, fun _ h => (nomatch h)⟩
  | some root =>
      obtain ⟨windows, hplaced, h⟩ := Runs.succeeds (fun _ t h => placeDialog_arranged hsizes (hview root hroot) h t) ts
        (arranged_root s g root (g.bounds v root))
      exact ⟨windows, hplaced, fun _ h' => Option.some.inj h' ▸ h⟩

/-- The windows placed are those the view shows. -/
theorem placeDialog_surfaces (h : s.placeDialog g root view windows t = some windows') :
    windows'.map Prod.fst = s.addDialog root (windows.map Prod.fst) t := by
  unfold placeDialog at h
  unfold addDialog
  cases hparent : (s.surfaces t.surface).parent with
  | none =>
      simp only [hparent, Option.some.injEq] at h
      rw [h]
  | some parent =>
      simp only [hparent] at h ⊢
      split at h
      · rename_i hskip
        rw [if_pos hskip, Option.some.inj h]
      · rename_i hdialog
        rw [if_neg hdialog]
        cases hfind : windows.find? fun window => window.1 = s.toplevelOf parent with
        | none =>
            simp only [hfind, Option.some.injEq] at h
            have hnone : s.toplevelOf parent ∉ windows.map Prod.fst := fun hmem => by
              obtain ⟨window, hw, hname⟩ := List.mem_map.mp hmem
              exact List.find?_eq_none.mp hfind window hw (decide_eq_true hname)
            rw [if_neg hnone, h]
        | some found =>
            have hmem : s.toplevelOf parent ∈ windows.map Prod.fst := by
              have hname : found.1 = s.toplevelOf parent := by simpa using List.find?_some hfind
              exact hname ▸ List.mem_map_of_mem (List.mem_of_find?_eq_some hfind)
            simp only [hfind, Option.bind_eq_bind, Option.bind_eq_some_iff, Option.some.injEq] at h
            obtain ⟨x, -, y, -, rfl⟩ := h
            rw [if_pos hmem, List.map_append]
            rfl

theorem placedWindows_surfaces {v : ViewId}
    (h : s.placedWindows g v (s.toplevels.byId.keys.filterMap s.toplevel) = some windows) :
    windows.map Prod.fst = s.viewWindows v := by
  unfold placedWindows at h
  unfold viewWindows
  cases hroot : s.viewRoot v with
  | none =>
      simp only [hroot, Option.some.injEq] at h
      rw [← h]
      rfl
  | some root =>
      simp only [hroot] at h ⊢
      exact Runs.seen_through (List.map Prod.fst) (fun _ _ _ hstep => placeDialog_surfaces hstep) h

/-- A toplevel and a dialog over it. -/
def dialogRun : List Event :=
  [.newToplevel 10, .commit { main := { surface := 10 } }, .cmd (.viewCreated { uid := 0, id := 1 }),
    .newToplevel 11, .setParent 11 (some 10), .commit { main := { surface := 11 } }]

/-- Their sizes, and that of the view. -/
def dialogSizes : WindowSizes where
  geometry x := if x = 10 then some (200, 100) else none
  bbox _ := (100, 50)
  clientSize _ := some (400, 300)

def dialogScene : State := run World.granting 1 dialogRun

theorem placedWindows_inside_pair : ∃ windows,
    dialogScene.placedWindows dialogSizes 1 (dialogScene.toplevels.byId.keys.filterMap dialogScene.toplevel) =
      some windows ∧
    ∀ root, dialogScene.viewRoot 1 = some root →
      Arranged dialogScene dialogSizes root (dialogSizes.bounds 1 root) windows := by
  have hview : IsBound 400 ∧ IsBound 300 := ⟨⟨by decide, by decide⟩, by decide, by decide⟩
  have hwindow : IsSide 200 ∧ IsSide 100 := ⟨⟨by decide, by decide⟩, by decide, by decide⟩
  have hdialog : IsSide 100 ∧ IsSide 50 := ⟨⟨by decide, by decide⟩, by decide, by decide⟩
  refine placedWindows_inside dialogScene dialogSizes 1 _ (fun x => ?_) fun _ _ => hview
  by_cases hx : x = 10
  · subst hx
    exact hwindow
  · simp only [dialogSizes, WindowSizes.windowSize, if_neg hx, Option.getD_none]
    exact hdialog

example : dialogScene.placedWindows dialogSizes 1
    (dialogScene.toplevels.byId.keys.filterMap dialogScene.toplevel) = some [(10, (0, 0)), (11, (50, 25))] := by
  decide +kernel

end State

end IhsWl
