import IhsWl.Lib.Runs
import IhsWl.Widget.Lemmas.Attached

/-!
# What an app's views are told, whatever it does

The ops come in any order, and the module answers as it likes. The app gives a controller to one view at a time, and a
create is answered while Flutter has the view still.
-/

namespace IhsWl

namespace App

open Runs

variable {α : Type} {client : Nat → ViewId → Option ClientId} {a : App α}

/-- No other view has the controller. -/
def Free (a : App α) (w : Nat) (controller : Option Nat) : Prop :=
  ∀ c k s, controller = some c → k ≠ w → a.views k = some s → s.held ≠ some c

def Orderly (a : App α) : AppOp α → Prop
  | .createState w widget | .didUpdateWidget w widget => a.Free w widget.controller
  | .created w => ∀ s, a.views w = some s → s.mounted = true
  | _ => True

theorem synced_new : ({} : App α).Synced := by
  refine ⟨⟨⟨?_, ?_, ?_, ?_⟩, ⟨?_, ?_, ?_⟩, ⟨?_, ?_⟩, fun _ => WaylandToplevelController.honest_new⟩, ⟨?_, ?_⟩⟩
  all_goals simp

variable [DecidableEq α]

theorem Synced.step (h : a.Synced) {op : AppOp α} (hop : a.Orderly op) : (a.step client op).Synced := by
  cases op with
  | windowState c value =>
      simp only [App.step]
      split
      · exact h
      · have hhonest := h.settled.honest c
        refine h.set c (f := fun c => { c with state := value })
          (m := fun v => .windowState v ((a.modifyController c fun c => { c with state := value }).controllers c).stateBits)
          rfl rfl ⟨hhonest.notified, hhonest.client⟩ (fun v size => ?_) fun u v view hne => if_neg hne
        simp [ModuleView.hear, grants, modifyController, WaylandToplevelController.capabilityBits]
  | windowCapabilities c value =>
      simp only [App.step]
      split
      · exact h
      · have hhonest := h.settled.honest c
        refine h.set c (f := fun c => { c with capabilities := value })
          (m := fun v => .capabilities v ((a.modifyController c fun c => { c with capabilities := value }).controllers c).capabilityBits)
          rfl rfl ⟨hhonest.notified, hhonest.client⟩ (fun v size => ?_) fun u v view hne => if_neg hne
        simp [ModuleView.hear, grants, modifyController, WaylandToplevelController.stateBits]
  | close c =>
      simp only [App.step]
      split
      · exact h
      · rename_i v _
        have hclose : (a.tell (.close v)).Synced := by
          refine ⟨h.settled.tell _, ⟨fun w s u hs hu => ?_, fun w s u hs hm hu => ?_⟩⟩
          · rw [moduleView_tell]
            exact h.told.known w s u hs hu
          · rw [moduleView_tell]
            exact h.told.told w s u hs hm hu
        split
        · exact hclose
        · exact h
  | createState w widget =>
      simp only [App.step]
      split
      · exact h
      · rename_i hnone
        exact h.createState (by simpa using hnone) hop
  | createView w =>
      simp only [App.step]
      split
      · exact h
      · rename_i s hmounted
        obtain ⟨hs, hm⟩ := mounted_iff.mp hmounted
        split
        · exact h
        · rename_i hnone
          exact h.createView hs hm (by simpa using hnone)
  | created w =>
      simp only [App.step]
      split
      · exact h
      · rename_i s hs
        split
        · rename_i v hv hnone
          exact h.created hs (hop s hs) hv
        · exact h
  | didUpdateWidget w widget =>
      simp only [App.step]
      split
      · exact h
      · rename_i s hmounted
        obtain ⟨hs, hm⟩ := mounted_iff.mp hmounted
        exact h.didUpdateWidget hs hm hop
  | onLayout w size =>
      simp only [App.step]
      split
      · exact h
      · rename_i s hmounted
        obtain ⟨hs, hm⟩ := mounted_iff.mp hmounted
        exact h.onLayout hs hm size
  | dispatch v event =>
      simp only [App.step]
      split
      · exact h
      · rename_i w hw
        obtain ⟨s, hs, hm, hv⟩ := (h.settled.registered.watched v w).mp hw
        simp only [hs]
        exact h.onViewEvent hs hm hv event
  | dispose w =>
      simp only [App.step]
      split
      · exact h
      · rename_i s hmounted
        obtain ⟨hs, hm⟩ := mounted_iff.mp hmounted
        exact h.dispose hs hm

/-- A view gets a controller, which goes to another once its first toplevel is shown. -/
def handover (size : Size α) : List (AppOp α) :=
  [.createState 0 { controller := some 0 }, .createView 0, .windowState 0 {.maximized}, .created 0, .dispatch 0 (.event .bound),
    .didUpdateWidget 0 { controller := none }, .createState 1 { controller := some 0, requestedSize := some size },
    .createView 1, .windowCapabilities 0 {.fullscreen}, .created 1, .dispatch 1 (.event .bound)]

theorem handover_orderly (size : Size α) : Meets (App.step fun _ v => some (v.toNat + 7)) Orderly {} (handover size) := by
  refine ⟨?_, trivial, trivial, ?_, trivial, ?_, ?_, trivial, trivial, ?_, trivial, trivial⟩
  · intro c k s _ _ hs
    cases hs
  · intro s hs
    cases hs
    rfl
  · intro c k s hc
    cases hc
  · intro c k s _ hk hs
    match k with
    | 0 =>
        cases hs
        simp [WaylandToplevelViewState.held]
    | 1 => exact absurd rfl hk
    | k + 2 => cases hs
  · intro s hs
    cases hs
    rfl

theorem run_synced {ops : List (AppOp α)} (h : Meets (App.step client) Orderly {} ops) : (run client ops).Synced :=
  h.keeps (fun _ _ hop hs => hs.step hop) synced_new

/-! ## What the module has of each view -/

/-- The module has the capabilities and the state a view's controller sets, the defaults without one, and the size the app
asks for. They are those of the controller it has now, whichever it was created with. -/
theorem run_tells {ops : List (AppOp α)} {w : Nat} {s : WaylandToplevelViewState α} {v : ViewId}
    (h : Meets (App.step client) Orderly {} ops) (hs : (run client ops).mounted w = some s) (hv : s.viewId = some v) :
    moduleView (run client ops).told v = some ⟨(run client ops).grants s.widget.controller, s.askedSize⟩ := by
  obtain ⟨hviews, hm⟩ := mounted_iff.mp hs
  exact (run_synced h).told.told w s v hviews hm hv

theorem run_tells_handover : moduleView (run (fun _ v => some (v.toNat + 7)) (handover ⟨800, 600⟩)).told 1 =
    some ⟨⟨4, 1⟩, some (⟨800, 600⟩ : Size Nat)⟩ :=
  run_tells (w := 1) (s := { widget := ⟨some 0, some ⟨800, 600⟩, true⟩, viewId := some 1, watchedId := some 1, bound := true })
    (handover_orderly _) rfl rfl

/-! ## What each controller says -/

/-- A controller's view is the one that has it, and it says a toplevel is shown as the events handed to that view last
did. Its listeners know what it says, and it names a client of a toplevel shown only. -/
theorem run_says {ops : List (AppOp α)} (h : Meets (App.step client) Orderly {} ops) (c : Nat) :
    (∀ w s, (run client ops).mounted w = some s → s.widget.controller = some c →
      ((run client ops).controllers c).viewId = s.viewId ∧
      ((run client ops).controllers c).bound = s.watchedId.any fun v => boundAfter (run client ops).taken v) ∧
    ((∀ w s, (run client ops).mounted w = some s → s.widget.controller ≠ some c) →
      ((run client ops).controllers c).viewId = none ∧ ((run client ops).controllers c).bound = false) ∧
    ((run client ops).controllers c).notified.getLastD (false, none) =
      (((run client ops).controllers c).bound, ((run client ops).controllers c).client) ∧
    (((run client ops).controllers c).bound = false ∨ ((run client ops).controllers c).viewId = none →
      ((run client ops).controllers c).client = none) := by
  obtain ⟨⟨-, hattached, hlistened, hhonest⟩, -⟩ := run_synced h
  refine ⟨fun w s hs hc => ?_, fun hnone => ?_, (hhonest c).notified, (hhonest c).client⟩
  · obtain ⟨hviews, hm⟩ := mounted_iff.mp hs
    obtain ⟨hid, hbound⟩ := hattached.attached w s c hviews ((held_of_mounted hm).mpr hc)
    exact ⟨hid, hbound.trans (hlistened.bound w s hviews)⟩
  · refine hattached.detached c fun w s hviews hheld => ?_
    by_cases hm : s.mounted = true
    · exact hnone w s (mounted_iff.mpr ⟨hviews, hm⟩) ((held_of_mounted hm).mp hheld)
    · simp [WaylandToplevelViewState.held, hm] at hheld

theorem run_says_handover :
    ((run (fun _ v => some (v.toNat + 7)) (handover (⟨800, 600⟩ : Size Nat))).controllers 0).viewId = some 1 ∧
      ((run (fun _ v => some (v.toNat + 7)) (handover (⟨800, 600⟩ : Size Nat))).controllers 0).bound = true := by
  obtain ⟨hheld, -⟩ := run_says (handover_orderly (⟨800, 600⟩ : Size Nat)) 0
  exact hheld 1 { widget := ⟨some 0, some ⟨800, 600⟩, true⟩, viewId := some 1, watchedId := some 1, bound := true } rfl rfl

end App

end IhsWl
