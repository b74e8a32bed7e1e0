import IhsWl.Server.Lemmas.Logs
import IhsWl.Server.Lemmas.Missing

/-!
# Commands and the views that sent them

A command names a view by its id alone, and ids are used again. What a command does to a view that took
its sender's place.
-/

namespace IhsWl

open State

/-- An event as it was sent: `sender` is the identity of the view a command was sent for. -/
structure Sent where
  sender : Nat
  event : Event
  deriving DecidableEq, Repr

/-- The views there should be after `m`: one disposed itself is gone. -/
def expected (views : ViewId → Option ViewHandle) (m : Sent) : ViewId → Option ViewHandle :=
  match m.event with
  | .cmd (.viewCreated view) => fun v => if v = view.id then some view else views v
  | .cmd (.viewDisposed id) => fun v => if v = id ∧ (views id).any (·.uid == m.sender) then none else views v
  | _ => views

/-- The newest view created under each id, unless it was disposed. -/
def newest (sent : List Sent) : ViewId → Option ViewHandle := sent.foldl expected fun _ => none

/-- The state once all of it was handled. -/
def runSent (w : World) (depth : Nat) (sent : List Sent) : State := run w depth (sent.map Sent.event)

/-- The views there are. -/
def State.handles (s : State) (v : ViewId) : Option ViewHandle := (s.view v).map ViewEntry.handle

variable {w : World} {s s' t : State} {v : ViewId}

/-! ## What is spared -/

/-- View `v` is still there, shows what it showed, and was given no buffer back. -/
structure Spares (v : ViewId) (s s' : State) : Prop where
  handle : s'.handles v = s.handles v
  shows : ∀ t, s.shows v = some t → s'.shows v = some t
  holds : Logs (fun x => ∀ b, x ≠ .gaveBack v b .shown ∧ x ≠ .gaveBack v b .cleared) s s'

namespace Spares

theorem refl : Spares v s s := ⟨rfl, fun _ h => h, .none rfl⟩

theorem trans (h : Spares v s s') (h' : Spares v s' t) : Spares v s t :=
  ⟨h'.handle.trans h.handle, fun id => h'.shows id ∘ h.shows id, h.holds.trans h'.holds⟩

theorem of_settles {D E : Set Debt} (h : Settles w s D s' E) : Spares v s s' := by
  obtain ⟨es, he, hes⟩ := h.commits
  refine ⟨h.later.handles v, h.later.shows v, es, he, fun x hx b => ?_⟩
  have hcommits := hes x hx
  constructor <;> rintro rfl <;> cases hcommits

theorem of_quiet (h : Quiet s s') : Spares v s s' :=
  of_settles (Pace.settles (w := World.granting) (D := ∅) (.quiet _ _ h) free_sub)

end Spares

/-- A report with nothing to give back to `v` leaves it alone. -/
theorem takeReport_spares {e : ViewEntry} {r : Report} (hv : s.view v = some e)
    (hnone : e.holds.unfenced.all (fun h => r.seq ≤ h.1) = true) : Spares v s (s.takeReport v r).2 := by
  have hlater := (takeReport_links s v r).later
  refine ⟨hlater.handles v, hlater.shows v, ?_⟩
  have hempty : e.holds.unfenced.filter (fun u => decide (u.1 < r.seq)) = [] := by
    rw [List.filter_eq_nil_iff]
    intro u hu
    have := List.all_eq_true.mp hnone u hu
    simp only [decide_eq_true_eq] at this ⊢
    omega
  unfold takeReport
  rw [hv]
  refine ⟨_, rfl, fun x hx b => ?_⟩
  simp only [Holds.presented, hempty, List.map_nil, List.nil_append] at hx
  have hqueued := FramesOp.queued_call e.frames (.presented r) x hx
  constructor <;> rintro rfl <;> cases hqueued

theorem sendViewCallbacks_spares (v' : ViewId) (ustNs : Nat) : Spares v s (s.sendViewCallbacks w v' ustNs) := by
  have hlater := (sendViewCallbacks_links w s v' ustNs).later
  exact ⟨hlater.handles v, hlater.shows v, sendViewCallbacks_logs (fun cb time => by simp) v' ustNs⟩

section

variable {u : Unblock} (hu : Wakes w u)

include hu

theorem framePresented_spares {r : Report}
    (hnone : ∀ e, s.view v = some e → e.holds.unfenced.all (fun h => r.seq ≤ h.1) = true) :
    Spares v s (s.framePresented w u v r) := by
  have hclock : Spares v s { s with clock := s.clock.update r.ustNs r.refreshNs } := ⟨rfl, fun _ h => h, .none rfl⟩
  unfold framePresented
  dsimp only
  split
  · exact hclock
  · rename_i e hv
    refine (hclock.trans (takeReport_spares hv (hnone e hv))).trans (.trans ?_ (.of_settles (woken_settles hu (D := ∅) _ _)))
    exact sendViewCallbacks_spares v r.ustNs

theorem submitView_spares (v' : ViewId) : Spares v s (s.submitView w u v') :=
  .of_settles ((Debts.Settles.more (Set.empty_subset _)).trans (submitView_settles hu (D := ∅) v'))

theorem refitView_spares : Spares v s (s.refitView w u v) := by
  unfold refitView
  split
  · exact .refl
  · split
    · exact submitView_spares hu v
    · exact .refl

theorem viewResized_spares (size : Int × Int) : Spares v s (s.viewResized w u v size) := by
  have hsize : Spares v s (s.modifyView v fun e => { e with size := some size }) :=
    .of_quiet (.modifyView v fun _ => rfl)
  unfold viewResized
  split
  · exact .refl
  · dsimp only
    split
    · exact hsize.trans (refitView_spares hu)
    · exact hsize

theorem viewRequestSize_spares (size : Option (Int × Int)) : Spares v s (s.viewRequestSize w u v size) := by
  have hsize : Spares v s (s.modifyView v fun e => { e with requested := size }) :=
    .of_quiet (.modifyView v fun _ => rfl)
  unfold viewRequestSize
  split
  · exact .refl
  · split
    · exact .refl
    · exact hsize.trans (refitView_spares hu)

theorem scheduleTick_spares (atNs : Nat) : Spares v s (s.scheduleTick w u atNs) :=
  .of_settles ((Debts.Settles.more (Set.empty_subset _)).trans (scheduleTick_settles hu (D := ∅) atNs))

theorem viewSuspended_spares (suspended : Bool) : Spares v s (s.viewSuspended w u v suspended) := by
  have hset : Spares v s (s.setSuspended w v suspended) := by
    have hlater := (setSuspended_links (w := w) s v suspended).later
    exact ⟨hlater.handles v, hlater.shows v, .none rfl⟩
  unfold viewSuspended
  split
  · exact .refl
  · dsimp only
    refine hset.trans ?_
    generalize s.setSuspended w v suspended = r
    have hdismissed : Spares v r (if suspended then r.dismissPopups v else r) := by
      split
      · exact ⟨rfl, fun _ h => h, .none rfl⟩
      · exact .refl
    refine hdismissed.trans ?_
    generalize (if suspended then r.dismissPopups v else r) = q
    split
    · exact .refl
    · split
      · split
        · exact .refl
        · exact scheduleTick_spares hu _
      · have hresumed : Spares v q (q.ask.log [.resumed v (w.now q.asked)]) :=
          ⟨rfl, fun _ h => h, .log (by simp)⟩
        refine hresumed.trans ?_
        split
        · exact .refl
        · exact scheduleTick_spares hu _

end

/-! ## Who is there -/

/-- The view a command is about; a new view is about none there is. -/
def Cmd.about : Cmd → Option ViewId
  | .viewDisposed v | .viewResized v _ | .viewRequestSize v _ | .presented v _ | .viewSuspended v _ | .focus v _ =>
      some v
  | .viewCreated _ | .issueToken => none

/-- A dispose comes for the view its id now names, and a report of an older view finds no buffer the newer
one submitted in an earlier frame than the report's. -/
def forItself (s : State) (m : Sent) : Bool :=
  match m.event with
  | .cmd (.viewDisposed v) => (s.view v).all fun e => e.handle.uid == m.sender
  | .cmd (.presented v r) => (s.view v).all fun e =>
      e.handle.uid == m.sender || e.holds.unfenced.all fun h => r.seq ≤ h.1
  | _ => true

/-- Whether the event leaves the views there as they are. -/
def keepsViews : Event → Bool
  | .cmd (.viewCreated _) | .cmd (.viewDisposed _) => false
  | _ => true

theorem Deed.handles {paid taken : Set Debt} (h : Deed w (fun _ e => keepsViews e = true) s paid taken s') :
    s'.handles = s.handles := by
  have hlinks {s s' : State} (hl : SameLinks s s') : s'.handles = s.handles := funext hl.later.handles
  cases h with
  | move hm => exact funext hm.later.handles
  | inserted s₀ view hv hg => cases hg
  | erased s₀ v hv hg => cases hg
  | unlinked v => exact funext (handle_unlink s v)
  | called v ustNs => exact hlinks (sendViewCallbacks_links w s v ustNs)
  | framesCleared v => exact hlinks (clearFrames_links s v)
  | reported v r => exact hlinks (takeReport_links s v r)
  | suspendedSet _ v suspended => exact hlinks (setSuspended_links s v suspended)
  | targeted x => exact hlinks (addTimed_links s x)
  | ticked hg =>
      have hdisarm : SameLinks s s.disarm := .of_data rfl
      exact hlinks (hdisarm.trans (sweep_links _ _))
  | _ => rfl

theorem viewCreated_handles {u : Unblock} (hu : Wakes w u) (view : ViewHandle) :
    (s.viewCreated w u view).handles = fun v => if v = view.id then some view else s.handles v := by
  have hbound (r : State) (hr : ∀ v ≠ view.id, r.handles v = s.handles v) :
      ((r.insertView view).tryBindView w u view.id).handles = fun v => if v = view.id then some view else s.handles v := by
    funext v
    refine ((tryBindView_settles hu (D := ∅) view.id).later.handles v).trans ?_
    simp only [insertView, State.view, Table.get_insert]
    split
    · rfl
    · rename_i hne
      exact hr v hne
  unfold viewCreated
  dsimp only
  split
  · exact hbound _ fun v _ => (SameFaces.unbindView hu s view.id).handle v
  · exact hbound s fun _ _ => rfl

theorem viewDisposed_handles {u : Unblock} (hu : Wakes w u) (v : ViewId) :
    (s.viewDisposed w u v).handles = fun v' => if v' = v then none else s.handles v' := by
  funext v'
  rw [viewDisposed, eraseView, handles, State.view, Table.get_erase]
  split
  · rfl
  · exact (SameFaces.unbindView hu s v).handle v'

theorem step_handles {depth : Nat} (hp : Paired s) {m : Sent} (hok : forItself s m = true) :
    (step w depth s m.event).handles = expected s.handles m := by
  have hkept (hk : keepsViews m.event = true) : (step w depth s m.event).handles = s.handles := by
    have hdeeds : Deeds w (fun _ e => keepsViews e = true) s ∅ (step w depth s m.event) _ := step_deeds hp hk
    exact hdeeds.invariant (P := fun r => r.handles = s.handles) (fun hd h => hd.handles.trans h) rfl
  obtain ⟨sender, e⟩ := m
  unfold expected
  cases e with
  | cmd c =>
      cases c with
      | viewCreated view => exact viewCreated_handles (unblock_wakes w depth) view
      | viewDisposed v =>
          refine (viewDisposed_handles (unblock_wakes w depth) v).trans (funext fun v' => ?_)
          simp only [forItself] at hok
          by_cases hvv : v' = v
          · subst hvv
            cases hv : s.view v' with
            | none => simp [handles, hv]
            | some e =>
                rw [hv, Option.all_some] at hok
                simp [handles, hv, hok]
          · simp [hvv]
      | _ => exact hkept rfl
  | _ => exact hkept rfl

/-- What `m`, sent for an older view, leaves alone. -/
theorem step_spares {depth : Nat} {m : Sent} (hok : forItself s m = true) {c : Cmd} (hm : m.event = .cmd c)
    (hv : c.about = some v) {handle : ViewHandle} (hh : s.handles v = some handle) (hne : handle.uid ≠ m.sender) :
    Spares v s (step w depth s m.event) := by
  have hu := unblock_wakes w depth
  obtain ⟨e, he, rfl⟩ := Option.map_eq_some_iff.mp hh
  obtain ⟨sender, event⟩ := m
  subst hm
  cases c with
  | viewCreated view => cases hv
  | issueToken => cases hv
  | viewDisposed v =>
      cases hv
      simp only [forItself, he, Option.all_some, beq_iff_eq] at hok
      exact absurd hok hne
  | viewResized v size => cases hv; exact viewResized_spares hu size
  | viewRequestSize v size => cases hv; exact viewRequestSize_spares hu size
  | presented v r =>
      cases hv
      refine framePresented_spares hu fun e' he' => ?_
      cases he.symm.trans he'
      simp only [forItself, he, Option.all_some, Bool.or_eq_true, beq_iff_eq] at hok
      exact hok.resolve_left hne
  | viewSuspended v suspended => cases hv; exact viewSuspended_spares hu suspended
  | focus v focused =>
      cases hv
      change Spares v s (s.focusInput v focused)
      unfold focusInput
      split
      · exact ⟨rfl, fun _ h => h, .none rfl⟩
      · split
        · exact ⟨rfl, fun _ h => h, .none rfl⟩
        · exact .refl

/-! ## Runs -/

/-- Commands act on the views they were sent for: each id names the newest view created under it, and no
command sent for an older one takes that view, its toplevel or a buffer from it. -/
structure Apart (w : World) (depth : Nat) (sent : List Sent) : Prop where
  newest : (runSent w depth sent).handles = newest sent
  spared : ∀ pre m post c v handle, sent = pre ++ m :: post → m.event = .cmd c → c.about = some v →
    (runSent w depth pre).handles v = some handle → handle.uid ≠ m.sender →
    Spares v (runSent w depth pre) (runSent w depth (pre ++ [m]))

theorem runSent_append (w : World) (depth : Nat) (pre : List Sent) (m : Sent) :
    runSent w depth (pre ++ [m]) = step w depth (runSent w depth pre) m.event := by
  rw [runSent, List.map_append, List.map_singleton, run_concat, runSent]

theorem run_apart (w : World) (depth : Nat) (sent : List Sent)
    (hok : Runs.Meets (fun s (m : Sent) => step w depth s m.event) (fun s m => forItself s m = true) {} sent) :
    Apart w depth sent := by
  have hrun (pre : List Sent) : pre.foldl (fun s (m : Sent) => step w depth s m.event) {} = runSent w depth pre := by
    rw [runSent, run, List.foldl_map]
  refine ⟨?_, fun pre m post c v handle hsplit hm hv hh hne => ?_⟩
  · induction sent using List.reverseRecOn with
    | nil =>
        funext v
        simp [runSent, run, handles, State.view, newest]
    | append_singleton pre m ih =>
        have hlast := hok.last
        rw [hrun] at hlast
        have hp : Paired (runSent w depth pre) := (run_sound w depth _).1
        rw [runSent_append, step_handles hp hlast, ih hok.left, newest, newest, List.foldl_append]
        rfl
  · rw [hsplit, List.append_cons] at hok
    have hlast := hok.left.last
    rw [hrun] at hlast
    rw [runSent_append]
    exact step_spares hlast hm hv hh hne

/-- A view, and one that takes its id. -/
def older : ViewHandle := { uid := 0, id := 1 }

def newer : ViewHandle := { uid := 1, id := 1 }

/-- The older view is disposed in time, and is reported a frame once the newer one is there. -/
theorem run_apart_disposedFirst : Apart World.granting 1
    [⟨0, .cmd (.viewCreated older)⟩, ⟨0, .cmd (.viewDisposed 1)⟩, ⟨1, .cmd (.viewCreated newer)⟩,
      ⟨0, .cmd (.presented 1 ⟨3, 0, 0, 0, 0⟩)⟩] :=
  run_apart World.granting 1 _ (by decide +kernel)

/-- The older view's dispose comes after the newer one took its id: the newer one is gone. -/
theorem not_apart : ¬∀ (w : World) (depth : Nat) (sent : List Sent), Apart w depth sent := by
  intro h
  have hnewest := congrFun (h World.granting 1
    [⟨0, .cmd (.viewCreated older)⟩, ⟨1, .cmd (.viewCreated newer)⟩, ⟨0, .cmd (.viewDisposed 1)⟩]).newest 1
  revert hnewest
  decide +kernel

end IhsWl
