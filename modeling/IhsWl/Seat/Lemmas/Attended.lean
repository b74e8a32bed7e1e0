import IhsWl.Seat.Handlers
import IhsWl.Seat.Lemmas.Acts

/-!
# Which view has the focus

A view gets the focus when it is given to it and loses it when it is taken or the view is disposed. Nothing else moves
it, however much is bound, unbound and let through in between.
-/

namespace IhsWl

open State

variable {w : SeatWorld} {frees : Frees}

namespace Seat

/-- The focus stays where it is. -/
def Stays (frees : Frees) : Prop := ∀ c, (frees c).state.focusedView = c.state.focusedView

theorem submitView_focusedView (hf : Stays frees) (v : ViewId) (c : Seat) :
    (c.submitView frees v).state.focusedView = c.state.focusedView := by
  unfold submitView
  split
  · rfl
  · exact hf c

theorem tryBindView_focusedView (hf : Stays frees) (c : Seat) (v : ViewId) :
    (c.tryBindView w frees v).state.focusedView = c.state.focusedView := by
  unfold tryBindView
  split
  · rfl
  · split
    · rfl
    · split
      · rfl
      · rw [submitView_focusedView hf, refreshKeyboardFocus_state, configureView_state]
        rfl

theorem foldl_focusedView {α : Type} {f : Seat → α → Seat} (hf : ∀ c a, (f c a).state.focusedView = c.state.focusedView)
    (as : List α) (c : Seat) : (as.foldl f c).state.focusedView = c.state.focusedView := by
  induction as generalizing c with
  | nil => rfl
  | cons a as ih => rw [List.foldl_cons, ih, hf]

theorem bindWaitingViews_focusedView (hf : Stays frees) (c : Seat) :
    (c.bindWaitingViews w frees).state.focusedView = c.state.focusedView :=
  foldl_focusedView (fun c v => tryBindView_focusedView hf c v) _ c

theorem toplevelCommit_focusedView (hf : Stays frees) (x : WlSurface) (c : Seat) :
    (c.toplevelCommit w frees x).state.focusedView = c.state.focusedView := by
  unfold toplevelCommit
  split
  · rfl
  · split
    · rfl
    · dsimp only
      split
      · rfl
      · rw [refreshKeyboardFocus_state, bindWaitingViews_focusedView hf]
        rfl

theorem commit_focusedView (hf : Stays frees) (sync : Bool) (x : WlSurface) (c : Seat) :
    (c.commit w frees sync x).state.focusedView = c.state.focusedView := by
  unfold commit
  split
  · rfl
  · dsimp only
    split
    · rw [submitView_focusedView hf, toplevelCommit_focusedView hf]
    · rw [hf, toplevelCommit_focusedView hf]

theorem applyCommit_focusedView (hf : Stays frees) (main : Commit) (sync : Bool) (c : Seat) (of : Commit) :
    (c.applyCommit w frees main sync of).state.focusedView = c.state.focusedView := by
  unfold applyCommit
  split
  · exact commit_focusedView hf _ _ _
  · rfl

theorem applyUpdate_focusedView (hf : Stays frees) (u : Update) (c : Seat) :
    (c.applyUpdate w frees u).state.focusedView = c.state.focusedView := by
  rw [applyUpdate, applyCommit_focusedView hf, foldl_focusedView fun c a => applyCommit_focusedView hf _ _ _ _]

theorem lets_stays (w : SeatWorld) (depth : Nat) : Stays (lets w depth) := by
  induction depth with
  | zero => exact fun _ => rfl
  | succ depth ih =>
      intro c
      rw [lets, foldl_focusedView fun c u => applyUpdate_focusedView ih u c]
      rfl

theorem unlink_focusedView (v : ViewId) (s : State) : (s.unlink v).focusedView = s.focusedView := by
  unfold State.unlink
  split
  · rfl
  · dsimp only
    split <;> rfl

theorem unbindView_focusedView (hf : Stays frees) (v : ViewId) (c : Seat) :
    (c.unbindView w frees v).state.focusedView = c.state.focusedView := by
  have hdrop (c : Seat) : (c.dropFrames frees v).state.focusedView = c.state.focusedView := by
    unfold dropFrames
    split
    · rfl
    · exact hf c
  unfold unbindView
  dsimp only
  split
  · exact hdrop _
  · rw [refreshKeyboardFocus_state]
    exact (unlink_focusedView v _).trans (hdrop _)

theorem viewCreated_focusedView (hf : Stays frees) (view : ViewHandle) (c : Seat) :
    (c.viewCreated w frees view).state.focusedView = c.state.focusedView := by
  unfold viewCreated
  dsimp only
  rw [tryBindView_focusedView hf]
  change (if _ then _ else _ : Seat).state.focusedView = _
  split
  · exact unbindView_focusedView hf _ c
  · rfl

theorem viewDisposed_focusedView (hf : Stays frees) (v : ViewId) (c : Seat) :
    (c.viewDisposed w frees v).state.focusedView = if c.state.focusedView = some v then none else c.state.focusedView := by
  change (if (c.unbindView w frees v).state.focusedView = some v then none else (c.unbindView w frees v).state.focusedView) = _
  rw [unbindView_focusedView hf]

theorem viewResized_focusedView (hf : Stays frees) (v : ViewId) (size : Int × Int) (c : Seat) :
    (c.viewResized w frees v size).state.focusedView = c.state.focusedView := by
  unfold viewResized
  split
  · rfl
  · dsimp only
    split
    · rw [refitView, submitView_focusedView hf, configureView_state]
      rfl
    · rw [configureView_state]
      rfl

theorem viewRequestSize_focusedView (hf : Stays frees) (v : ViewId) (size : Option (Int × Int)) (c : Seat) :
    (c.viewRequestSize w frees v size).state.focusedView = c.state.focusedView := by
  unfold viewRequestSize
  split
  · rfl
  · split
    · rfl
    · rw [refitView, submitView_focusedView hf, configureView_state]
      rfl

theorem grant_focusedView (v : ViewId) (f : Grants → Grants) (c : Seat) :
    (c.grant w v f).state.focusedView = c.state.focusedView := by
  rw [(grant_tells w v f c).state]

theorem viewSuspended_focusedView (hf : Stays frees) (v : ViewId) (suspended : Bool) (c : Seat) :
    (c.viewSuspended w frees v suspended).state.focusedView = c.state.focusedView := by
  unfold viewSuspended
  split
  · rfl
  · dsimp only
    rw [hf]
    split <;> rfl

theorem focusInput_focusedView (v : ViewId) (focused : Bool) (c : Seat) :
    (c.focusInput w v focused).state.focusedView =
      if focused then some v else if c.state.focusedView = some v then none else c.state.focusedView := by
  unfold focusInput
  cases focused with
  | true =>
      simp only [if_true]
      split
      · rename_i h
        exact h
      · rw [refreshKeyboardFocus_state]
        rfl
  | false =>
      simp only [Bool.false_eq_true, if_false]
      split
      · rw [refreshKeyboardFocus_state]
        rfl
      · rfl

theorem unbindToplevel_focusedView (hf : Stays frees) (id : ToplevelId) (c : Seat) :
    (c.unbindToplevel w frees id).state.focusedView = c.state.focusedView := by
  unfold unbindToplevel
  split
  · rfl
  · exact unbindView_focusedView hf _ c

theorem toplevelDestroyed_focusedView (hf : Stays frees) (x : WlSurface) (c : Seat) :
    (c.toplevelDestroyed w frees x).state.focusedView = c.state.focusedView := by
  unfold toplevelDestroyed
  split
  · rfl
  · rename_i id hid
    have hgone : ((c.unbindToplevel w frees id).onState (State.removeToplevel id)).state.focusedView = c.state.focusedView :=
      unbindToplevel_focusedView hf id c
    dsimp only
    split
    · exact hgone
    · rw [refreshKeyboardFocus_state, submitView_focusedView hf, hgone]

theorem parentChanged_focusedView (hf : Stays frees) (c : Seat) :
    (c.parentChanged w frees).state.focusedView = c.state.focusedView := by
  rw [parentChanged, refreshKeyboardFocus_state]
  refine foldl_focusedView (fun c v => ?_) _ c
  split
  · exact submitView_focusedView hf v c
  · rfl

theorem popupDestroyed_focusedView (hf : Stays frees) (x : WlSurface) (c : Seat) :
    (c.popupDestroyed frees x).state.focusedView = c.state.focusedView := by
  have huntracked : (c.onState (State.untrackPopup x)).state.focusedView = c.state.focusedView := rfl
  unfold popupDestroyed
  dsimp only
  split
  · exact huntracked
  · rw [submitView_focusedView hf, huntracked]

theorem requestActivation_focusedView (hf : Stays frees) (x : WlSurface) (token : Token) (c : Seat) :
    (c.requestActivation w frees x token).state.focusedView = c.state.focusedView := by
  unfold requestActivation
  split
  · rfl
  · split
    · rfl
    · split
      · rfl
      · dsimp only
        split
        · rw [bindWaitingViews_focusedView hf]
          rfl
        · split
          · rfl
          · split
            · rfl
            · rw [bindWaitingViews_focusedView hf, unbindView_focusedView hf]
              rfl

/-- What has the focus after an op of the seat. -/
def attends (o : Option ViewId) : SeatOp → Option ViewId
  | .event (.cmd (.focus v focused)) => if focused then some v else if o = some v then none else o
  | .event (.cmd (.viewDisposed v)) => if o = some v then none else o
  | _ => o

theorem handle_focusedView (hf : Stays frees) (e : Event) (c : Seat) :
    (c.handle w frees e).state.focusedView = attends c.state.focusedView (.event e) := by
  cases e with
  | cmd cmd =>
      cases cmd with
      | viewCreated view => exact viewCreated_focusedView hf view c
      | viewDisposed v => exact viewDisposed_focusedView hf v c
      | viewResized v size => exact viewResized_focusedView hf v size c
      | viewRequestSize v size => exact viewRequestSize_focusedView hf v size c
      | presented v r => exact hf c
      | viewSuspended v suspended =>
          change ((c.viewSuspended w frees v suspended).refreshKeyboardFocus w).state.focusedView = _
          rw [refreshKeyboardFocus_state, viewSuspended_focusedView hf]
          rfl
      | focus v focused => exact focusInput_focusedView v focused c
      | issueToken => rfl
  | commit u => exact applyUpdate_focusedView hf u c
  | target x deadline => exact hf c
  | destroyToplevel x => exact toplevelDestroyed_focusedView hf x c
  | setParent x parent => exact parentChanged_focusedView hf _
  | destroyPopup x => exact popupDestroyed_focusedView hf x c
  | activate x value =>
      simp only [Seat.handle]
      split
      · rfl
      · exact requestActivation_focusedView hf x _ c
  | tick => exact hf c
  | _ => rfl

theorem step_focusedView (w : SeatWorld) (depth : Nat) (op : SeatOp) (c : Seat) :
    (c.step w depth op).state.focusedView = attends c.state.focusedView op := by
  cases op with
  | event e =>
      unfold Seat.step
      dsimp only
      split
      · exact handle_focusedView (lets_stays w depth) e c
      · rename_i hv
        cases e with
        | cmd cmd => exact absurd rfl hv
        | _ => rfl
  | viewState v state => exact grant_focusedView v _ c
  | viewCapabilities v capabilities => exact grant_focusedView v _ c
  | scanoutHint v hint => rfl

end Seat

end IhsWl
