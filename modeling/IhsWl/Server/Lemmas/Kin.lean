import IhsWl.Server.Lemmas.Windows

/-!
# One client's surfaces

Surfaces are linked within a client only, so everything a view shows is of one client.
-/

namespace IhsWl

open State

variable {w : World} {guard : State → Event → Prop} {s s' : State}

/-- Every link between surfaces stays within a client. -/
structure Kin (w : World) (s : State) : Prop where
  parents : ∀ x p, (s.surfaces x).parent = some p → w.client p = w.client x
  subsurfaces : ∀ q ∈ s.subsurfaces, w.client q.2 = w.client q.1
  popupRoots : ∀ x r, (s.surfaces x).popupRoot = some r → w.client r = w.client x
  popups : ∀ p ∈ s.popups, w.client p.root = w.client p.surface

namespace Kin

theorem empty : Kin w {} := by
  constructor <;> simp

theorem of_desk (h : Kin w s) (hd : SameDesk s s') : Kin w s' := by
  refine ⟨?_, ?_, ?_, ?_⟩
  · rw [hd.surfaces]; exact h.parents
  · rw [hd.subsurfaces]; exact h.subsurfaces
  · rw [hd.surfaces]; exact h.popupRoots
  · rw [hd.popups]; exact h.popups

/-- Surfaces whose parents were dropped or kept, and some subsurfaces and popups gone. -/
theorem of_less (h : Kin w s) (hsub : ∀ q ∈ s'.subsurfaces, q ∈ s.subsurfaces) (hpop : ∀ p ∈ s'.popups, p ∈ s.popups)
    (hparent : ∀ x p, (s'.surfaces x).parent = some p → (s.surfaces x).parent = some p)
    (hroot : ∀ x r, (s'.surfaces x).popupRoot = some r → (s.surfaces x).popupRoot = some r) : Kin w s' :=
  ⟨fun x p hp => h.parents x p (hparent x p hp), fun q hq => h.subsurfaces q (hsub q hq),
    fun x r hr => h.popupRoots x r (hroot x r hr), fun p hp => h.popups p (hpop p hp)⟩

theorem act (h : Kin w s) (ha : Act w guard s s') : Kin w s' := by
  cases ha with
  | same _ hl => exact h.of_desk hl.toSameDesk
  | unlinked v => exact h.of_desk (letGo_desk s v _)
  | parentSet x parent hx hp hg =>
      refine ⟨fun y p hpar => ?_, h.subsurfaces, fun y r hr => ?_, h.popups⟩
      · simp only [setParent] at hpar
        split at hpar
        · rename_i hxy
          rw [hxy]
          exact (hp p hpar).2
        · exact h.parents y p hpar
      · exact h.popupRoots y r ((field_update Surface.popupRoot (by rfl) y).symm.trans hr)
  | popupMade x parent hpop hr hc hl =>
      have hroot : w.client (if (s.surfaces parent).role = some .popup then ((s.surfaces parent).popupRoot).getD parent
          else parent) = w.client x := by
        split
        · cases hpr : (s.surfaces parent).popupRoot with
          | none => exact hc
          | some r => exact (h.popupRoots parent r hpr).trans hc
        · exact hc
      refine ⟨fun y p hpar => ?_, h.subsurfaces, fun y r hyr => ?_, fun p hp => ?_⟩
      · exact h.parents y p ((field_update Surface.parent (by rfl) y).symm.trans hpar)
      · simp only [newPopup] at hyr
        split at hyr
        · rename_i hxy
          cases hyr
          rw [hxy]
          exact hroot
        · exact h.popupRoots y r hyr
      · simp only [newPopup, List.mem_append, List.mem_singleton] at hp
        rcases hp with hp | rfl
        · exact h.popups p hp
        · exact hroot
  | subsurfaceMade x parent hc hsub hr =>
      refine ⟨fun y p hpar => ?_, fun q hq => ?_, fun y r hyr => ?_, h.popups⟩
      · exact h.parents y p ((field_update Surface.parent (by rfl) y).symm.trans hpar)
      · simp only [getSubsurface, List.mem_append, List.mem_singleton] at hq
        rcases hq with hq | rfl
        · exact h.subsurfaces q hq
        · exact hc
      · exact h.popupRoots y r ((field_update Surface.popupRoot (by rfl) y).symm.trans hyr)
  | made | named =>
      refine h.of_less (fun _ hq => hq) (fun _ hp => hp) (fun y p hpar => ?_) fun y r hyr => ?_
      · exact (field_update Surface.parent (by rfl) y).symm.trans hpar
      · exact (field_update Surface.popupRoot (by rfl) y).symm.trans hyr
  | reset =>
      refine h.of_less (fun _ hq => hq) (fun _ hp => hp) (fun y p hpar => ?_) fun y r hyr => ?_
      · simp only [resetToplevel] at hpar
        split at hpar
        · cases hpar
        · exact hpar
      · exact (field_update Surface.popupRoot (by rfl) y).symm.trans hyr
  | untracked x =>
      refine h.of_less (fun _ hq => hq) (fun p hp => (List.mem_filter.mp hp).1) (fun y p hpar => ?_) fun y r hyr => ?_
      · exact (field_update Surface.parent (by rfl) y).symm.trans hpar
      · simp only [untrackPopup] at hyr
        split at hyr
        · cases hyr
        · exact hyr
  | dismissed v => exact h.of_less (fun _ hq => hq) (fun p hp => (List.mem_filter.mp hp).1) (fun _ _ h => h) fun _ _ h => h
  | subsurfaceGone x =>
      exact h.of_less (fun q hq => (List.mem_filter.mp hq).1) (fun _ hp => hp) (fun _ _ h => h) fun _ _ h => h
  | surfaceGone x hx =>
      refine h.of_less (fun q hq => (List.mem_filter.mp hq).1) (fun _ hp => hp) (fun y p hpar => ?_) fun y r hyr => ?_
      · exact (field_update Surface.parent (by rfl) y).symm.trans hpar
      · exact (field_update Surface.popupRoot (by rfl) y).symm.trans hyr
  | _ => exact ⟨h.parents, h.subsurfaces, h.popupRoots, h.popups⟩

/-! ## Trees and scenes -/

theorem rootOf (h : Kin w s) (x : WlSurface) : w.client (s.rootOf x) = w.client x :=
  Climb.climb_keeps (P := fun y => w.client y = w.client x)
    (fun y p hy hp => (h.subsurfaces (y, p) (mem_of_subParent hp)).trans hy) rfl _

/-- A tree is of one client. -/
theorem tree (h : Kin w s) {root x : WlSurface} (hx : x ∈ s.tree root) : w.client x = w.client root := by
  rcases List.mem_cons.mp hx with rfl | hx
  · rfl
  · have hroot := (List.mem_filter.mp hx).2
    simp only [decide_eq_true_eq] at hroot
    rw [← hroot.2, h.rootOf x]

theorem toplevelOf (h : Kin w s) (x : WlSurface) : w.client (s.toplevelOf x) = w.client x := by
  unfold State.toplevelOf
  dsimp only
  split
  · split
    · rename_i p hp
      have hsurface : p.surface = s.rootOf x := by simpa using List.find?_some hp
      rw [h.popups p (List.mem_of_find?_eq_some hp), hsurface, h.rootOf x]
    · exact h.rootOf x
  · exact h.rootOf x

theorem windowsOver (h : Kin w s) {root x : WlSurface} (hx : x ∈ s.windowsOver root) : w.client x = w.client root := by
  suffices hfold : ∀ (ts : List ToplevelEntry) (ws : List WlSurface), (∀ y ∈ ws, w.client y = w.client root) →
      ∀ y ∈ ts.foldl (s.addDialog root) ws, w.client y = w.client root from
    hfold _ [root] (by simp) x hx
  intro ts
  induction ts with
  | nil => exact fun _ hws => hws
  | cons t ts ih =>
      intro ws hws
      refine ih _ fun y hy => ?_
      unfold addDialog at hy
      split at hy
      · exact hws y hy
      · rename_i parent hparent
        split at hy
        · exact hws y hy
        · split at hy
          · rename_i hmem
            rcases List.mem_append.mp hy with hy | hy
            · exact hws y hy
            · rw [List.mem_singleton.mp hy, ← h.parents _ parent hparent, ← h.toplevelOf parent]
              exact hws _ hmem
          · exact hws y hy

/-- All a view shows is of the client of its toplevel. -/
theorem viewTrees (h : Kin w s) {v : ViewId} {root r : WlSurface} (hroot : s.viewRoot v = some root)
    (hr : r ∈ s.viewTrees v) : w.client r = w.client root := by
  obtain ⟨window, hwindow, hr⟩ := List.mem_flatMap.mp hr
  rw [viewWindows_eq hroot] at hwindow
  rcases List.mem_cons.mp hr with rfl | hr
  · exact h.windowsOver hwindow
  · obtain ⟨p, hp, rfl⟩ := List.mem_map.mp hr
    have hpop := List.mem_filter.mp hp
    rw [← h.popups p hpop.1, show p.root = window by simpa using hpop.2]
    exact h.windowsOver hwindow

end Kin

end IhsWl
