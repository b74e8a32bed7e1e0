import IhsWl.Lib.OnePass
import IhsWl.Server.Lemmas.Sound

/-!
# The windows of a view

A view's windows are what one pass over the toplevels gathers above the toplevel it shows.
-/

namespace IhsWl

open State

variable {w : World} {s : State}

/-! ## Toplevels are the tops of their trees -/

theorem mem_of_subParent {x p : WlSurface} (h : s.subParent x = some p) : (x, p) ∈ s.subsurfaces := by
  obtain ⟨l₁, l₂, hl, -⟩ := List.lookup_eq_some_iff.mp h
  rw [hl]
  simp

/-- The roots of trees are under nothing. -/
theorem Sound.subParent_root (h : Sound s) {root : WlSurface}
    (hroot : (s.surfaces root).role = some .toplevel ∨ (s.surfaces root).role = some .popup) : s.subParent root = none := by
  cases hp : s.subParent root with
  | none => rfl
  | some p =>
      have hsubsurface := h.subsurfaces _ (mem_of_subParent hp)
      rcases hroot with h | h <;> rw [h] at hsubsurface <;> cases hsubsurface

/-- The toplevel's surface is the top of its own tree. -/
theorem Sound.toplevelOf_window (h : Sound s) {x : WlSurface} (hx : (s.surfaces x).role = some .toplevel) :
    s.toplevelOf x = x := by
  have hroot : s.rootOf x = x := Climb.climb_top (h.subParent_root (Or.inl hx)) _
  rw [State.toplevelOf, hroot, if_neg (by simp [hx])]

/-- No toplevel shown in a view has a parent. -/
def Rooted (s : State) : Prop :=
  ∀ id te, s.toplevel id = some te → te.view.isSome = true → (s.surfaces te.surface).parent = none

/-! ## One pass over the toplevels -/

namespace State

/-- Whether the toplevel is a mapped dialog of a window over `root`. -/
def isDialog (s : State) (root : WlSurface) (t : ToplevelEntry) : Bool :=
  t.mapped && (s.surfaces t.surface).parent.isSome && s.windowRoot t.surface == root

/-- The mapped dialogs of the windows over `root`, by id. -/
def dialogs (s : State) (root : WlSurface) : List WlSurface :=
  s.toplevels.byId.keys.filterMap fun id =>
    ((s.toplevel id).filter (s.isDialog root)).map ToplevelEntry.surface

/-- How late the surface's toplevel was made. -/
def age (s : State) (x : WlSurface) : Nat := (s.idOf x).getD 0

theorem mem_dialogs {root x : WlSurface} : x ∈ s.dialogs root ↔
    ∃ id te, s.toplevel id = some te ∧ s.isDialog root te = true ∧ te.surface = x := by
  simp only [dialogs, List.mem_filterMap, Option.map_eq_some_iff, Option.filter_eq_some_iff, Table.mem_keys]
  constructor
  · rintro ⟨id, -, te, ⟨hte, hd⟩, hx⟩
    exact ⟨id, te, hte, hd, hx⟩
  · rintro ⟨id, te, hte, hd, hx⟩
    refine ⟨id, ?_, te, ⟨hte, hd⟩, hx⟩
    rw [show s.toplevels.byId[id]? = some te from hte]
    rfl

end State

/-- A mapped toplevel's window is above those of its dialogs. -/
theorem Sound.windowAbove (h : Sound s) {id : ToplevelId} {te : ToplevelEntry} (hte : s.toplevel id = some te)
    (hm : te.mapped = true) : s.windowAbove te.surface = (s.surfaces te.surface).parent.map s.toplevelOf := by
  rw [State.windowAbove, h.mapped id te hte hm, Option.bind_some, hte, Option.bind_some]

/-- The pass of `view_windows` is a pass over the dialogs. -/
theorem Sound.windowsOver (h : Sound s) (root : WlSurface) :
    s.windowsOver root = OnePass.pass s.windowAbove root (s.dialogs root) := by
  have hfold : ∀ (ids : List ToplevelId) (ws : List WlSurface),
      (ids.filterMap s.toplevel).foldl (s.addDialog root) ws =
        (ids.filterMap fun id => ((s.toplevel id).filter (s.isDialog root)).map ToplevelEntry.surface).foldl
          (OnePass.join s.windowAbove) ws := by
    intro ids
    induction ids with
    | nil => exact fun _ => rfl
    | cons id ids ih =>
        intro ws
        cases hte : s.toplevel id with
        | none => simp only [List.filterMap_cons, hte, Option.filter_none, Option.map_none, ih]
        | some te =>
            rw [List.filterMap_cons_some hte, List.foldl_cons, ih]
            cases hd : s.isDialog root te with
            | false =>
                have hnot : s.addDialog root ws te = ws := by
                  unfold addDialog
                  split
                  · rfl
                  · rename_i parent hparent
                    simp only [isDialog, hparent, Option.isSome_some, Bool.and_true, Bool.and_eq_false_iff] at hd
                    rw [if_pos]
                    simpa using hd
                simp [hte, Option.filter, hd, hnot]
            | true =>
                simp only [isDialog, Bool.and_eq_true, beq_iff_eq] at hd
                obtain ⟨⟨hm, hsome⟩, hroot⟩ := hd
                obtain ⟨parent, hparent⟩ := Option.isSome_iff_exists.mp hsome
                have hjoin : s.addDialog root ws te = OnePass.join s.windowAbove ws te.surface := by
                  unfold addDialog OnePass.join
                  rw [h.windowAbove hte hm, hparent]
                  simp [hm, hroot]
                have hdialog : s.isDialog root te = true := by simp [isDialog, hm, hsome, hroot]
                simp [hte, Option.filter, hdialog, hjoin]
  exact hfold _ _

theorem Sound.mem_windowsOver (h : Sound s) {root x : WlSurface} (hx : x ∈ s.windowsOver root) :
    x = root ∨ ∃ id te, s.toplevel id = some te ∧ s.isDialog root te = true ∧ te.surface = x := by
  rw [h.windowsOver] at hx
  rcases List.mem_cons.mp ((OnePass.pass_sublist _).subset hx) with hx | hx
  · exact Or.inl hx
  · exact Or.inr (mem_dialogs.mp hx)

/-- The dialogs are gone through by age. -/
theorem Sound.dialogs_sorted (h : Sound s) (root : WlSurface) :
    (s.dialogs root).Pairwise fun x y => s.age x < s.age y := by
  refine List.pairwise_filterMap.mpr (Std.TreeMap.ordered_keys.imp fun {a b} hlt x hx y hy => ?_)
  simp only [Option.map_eq_some_iff, Option.filter_eq_some_iff] at hx hy
  obtain ⟨tx, ⟨htx, hdx⟩, rfl⟩ := hx
  obtain ⟨ty, ⟨hty, hdy⟩, rfl⟩ := hy
  simp only [isDialog, Bool.and_eq_true] at hdx hdy
  rw [age, age, h.mapped a tx htx hdx.1.1, h.mapped b ty hty hdy.1.1]
  exact compare_lt_iff_lt.mp hlt

/-! ## Shown toplevels -/

/-- What the toplevel a view shows is. -/
theorem viewRoot_spec (hsound : Sound s) (hr : Rooted s) (hp : Paired s) {v : ViewId} {root : WlSurface}
    (h : s.viewRoot v = some root) : ∃ id te, s.toplevel id = some te ∧ te.surface = root ∧ te.view = some v ∧
      s.idOf root = some id ∧ (s.surfaces root).parent = none ∧ (s.surfaces root).role = some .toplevel := by
  obtain ⟨te, hte, rfl⟩ := Option.map_eq_some_iff.mp h
  obtain ⟨id, hid, hte⟩ := Option.bind_eq_some_iff.mp hte
  have hview : te.view = some v := by
    have hs := (hp v id).mp hid
    rw [shownIn, hte] at hs
    exact hs
  have hsome : te.view.isSome = true := by rw [hview]; rfl
  exact ⟨id, te, hte, rfl, hview, hsound.mapped id te hte (hsound.bound id te hte hsome), hr id te hte hsome,
    hsound.windows id te hte⟩

/-- The toplevel that shows nothing over it is above nothing. -/
theorem windowAbove_root (hsound : Sound s) (hr : Rooted s) (hp : Paired s) {root : WlSurface} {v : ViewId}
    (h : s.viewRoot v = some root) : s.windowAbove root = none := by
  obtain ⟨id, te, hte, hsurface, -, hid, hparent, -⟩ := viewRoot_spec hsound hr hp h
  rw [windowAbove, hid, Option.bind_some, hte, Option.bind_some, hsurface, hparent]
  rfl

theorem viewWindows_eq {v : ViewId} {root : WlSurface} (hroot : s.viewRoot v = some root) :
    s.viewWindows v = s.windowsOver root := by
  rw [viewWindows, hroot]

theorem exists_viewRoot {v : ViewId} {x : WlSurface} (hx : x ∈ s.viewWindows v) :
    ∃ root, s.viewRoot v = some root ∧ x ∈ s.windowsOver root := by
  unfold viewWindows at hx
  cases hroot : s.viewRoot v with
  | none => simp [hroot] at hx
  | some root =>
      rw [hroot] at hx
      exact ⟨root, rfl, hx⟩

/-- The windows of a view are routed to the toplevel it shows. -/
theorem windowRoot_of_mem (hsound : Sound s) (hr : Rooted s) (hp : Paired s) {v : ViewId} {root x : WlSurface}
    (hroot : s.viewRoot v = some root) (hx : x ∈ s.windowsOver root) : s.windowRoot x = root := by
  rcases hsound.mem_windowsOver hx with rfl | ⟨id', te', hte', hd, rfl⟩
  · obtain ⟨-, -, -, -, -, -, -, hrole⟩ := viewRoot_spec hsound hr hp hroot
    rw [windowRoot, hsound.toplevelOf_window hrole]
    exact Climb.climb_top (windowAbove_root hsound hr hp hroot) _
  · simp only [isDialog, Bool.and_eq_true, beq_iff_eq] at hd
    exact hd.2

/-- No window is shown by two views. -/
theorem window_unique (hsound : Sound s) (hr : Rooted s) (hp : Paired s) {v v' : ViewId} {x : WlSurface}
    (hx : x ∈ s.viewWindows v) (hx' : x ∈ s.viewWindows v') : v = v' := by
  obtain ⟨root, hroot, hx⟩ := exists_viewRoot hx
  obtain ⟨root', hroot', hx'⟩ := exists_viewRoot hx'
  have heq := (windowRoot_of_mem hsound hr hp hroot hx).symm.trans (windowRoot_of_mem hsound hr hp hroot' hx')
  obtain ⟨id, te, hte, -, hview, hid, -⟩ := viewRoot_spec hsound hr hp hroot
  obtain ⟨id', te', hte', -, hview', hid', -⟩ := viewRoot_spec hsound hr hp hroot'
  rw [heq] at hid
  cases hid.symm.trans hid'
  cases hte.symm.trans hte'
  exact Option.some.inj (hview.symm.trans hview')

/-- The windows of a view are toplevels. -/
theorem Sound.window_role (h : Sound s) {v : ViewId} {x : WlSurface} (hx : x ∈ s.viewWindows v) :
    (s.surfaces x).role = some .toplevel := by
  obtain ⟨root, hroot, hx⟩ := exists_viewRoot hx
  rcases h.mem_windowsOver hx with rfl | ⟨id, te, hte, -, rfl⟩
  · obtain ⟨te, hte, rfl⟩ := Option.map_eq_some_iff.mp hroot
    obtain ⟨id, -, hte⟩ := Option.bind_eq_some_iff.mp hte
    exact h.windows id te hte
  · exact h.windows id te hte

/-- The trees of a scene are its windows and their popups. -/
theorem mem_viewTrees {v : ViewId} {x : WlSurface} : x ∈ s.viewTrees v ↔
    x ∈ s.viewWindows v ∨ ∃ p ∈ s.popups, p.surface = x ∧ p.root ∈ s.viewWindows v := by
  simp only [viewTrees, popupsOf, List.mem_flatMap, List.mem_cons, List.mem_map, List.mem_filter,
    decide_eq_true_eq]
  refine ⟨?_, ?_⟩
  · rintro ⟨y, hy, rfl | ⟨p, ⟨hp, rfl⟩, hx⟩⟩
    · exact Or.inl hy
    · exact Or.inr ⟨p, hp, hx, hy⟩
  · rintro (hx | ⟨p, hp, hx, hroot⟩)
    · exact ⟨x, hx, Or.inl rfl⟩
    · exact ⟨p.root, hroot, Or.inr ⟨p, ⟨hp, rfl⟩, hx⟩⟩

/-- No surface is the root of a tree in two scenes. -/
theorem tree_unique (hsound : Sound s) (hr : Rooted s) (hp : Paired s) {v v' : ViewId} {x : WlSurface}
    (hx : x ∈ s.viewTrees v) (hx' : x ∈ s.viewTrees v') : v = v' := by
  have hwindow {v : ViewId} (h : x ∈ s.viewWindows v) {p : Popup} (hpop : p ∈ s.popups) (hpx : p.surface = x) :
      False := by
    have hrole := hsound.window_role h
    rw [← hpx, (hsound.popups p hpop).1] at hrole
    cases hrole
  rcases mem_viewTrees.mp hx with hx | ⟨p, hpop, hpx, hpr⟩ <;>
    rcases mem_viewTrees.mp hx' with hx' | ⟨p', hpop', hpx', hpr'⟩
  · exact window_unique hsound hr hp hx hx'
  · exact (hwindow hx hpop' hpx').elim
  · exact (hwindow hx' hpop hpx).elim
  · have heq : p = p' := List.inj_on_of_nodup_map hsound.once hpop hpop' (hpx.trans hpx'.symm)
    exact window_unique hsound hr hp hpr (heq ▸ hpr')

end IhsWl
