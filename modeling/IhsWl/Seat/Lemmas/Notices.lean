import IhsWl.Seat.Lemmas.Acts
import IhsWl.Seat.Requests

/-!
# What a window is told

All that ever changes what a window is configured to, whatever handler it happens in.
-/

namespace IhsWl

open State

variable {w : SeatWorld} {c c' c'' : Seat} {frees : Frees}

/-- View `v` shows the toplevel `id`. -/
structure Shows (s : State) (v : ViewId) (e : ViewEntry) (id : ToplevelId) (te : ToplevelEntry) : Prop where
  view : s.view v = some e
  toplevel : e.toplevel = some id
  entry : s.toplevel id = some te

theorem Shows.shows {s : State} {v : ViewId} {e : ViewEntry} {id : ToplevelId} {te : ToplevelEntry}
    (h : Shows s v e id te) : s.shows v = some id := by
  rw [State.shows, h.view]
  exact h.toplevel

/-- The fields of a pending state only `configure_view` writes. -/
def Pending.fitted (p : Pending) : Option (Int × Int) × List WmCapability × Bool × Bool × Bool :=
  (p.size, p.capabilities, p.tiled, p.maximized, p.fullscreen)

theorem Paired.turn {s s' : State} (hp : Paired s) (ha : Act w.toWorld (fun _ _ => True) s s') : Paired s' := hp.act ha

namespace Seat

theorem Freed.paired (h : Freed w.toWorld (fun _ _ => True) c c') (hp : Paired c.state) : Paired c'.state := h.acts.paired hp

/-- What a configure of a view reads is as before, or the view shows nothing any more; `but` are those left out. -/
structure Rests (w : SeatWorld) (but : ViewId → Prop) (c c' : Seat) : Prop where
  showing : ∀ {v e' id te'}, ¬but v → Shows c'.state v e' id te' → ∃ e te, Shows c.state v e id te ∧
    clientSize w e = clientSize w e' ∧ te.surface = te'.surface ∧ c'.grants v = c.grants v
  windows : c'.windows = c.windows

/-- A notice: a view's toplevel is sized anew, or a window is told what does not size it. -/
inductive Notice (w : SeatWorld) : Seat → Seat → Prop
  | rest (c c' : Seat) : Rests w (fun _ => False) c c' → Notice w c c'
  | made (c : Seat) (x) : Paired c.state → Notice w c (c.newToplevel x)
  | told (c : Seat) (id f) : (∀ p, (f p).fitted = p.fitted) → Notice w c (c.withPending id f)
  | sent (c : Seat) (id) : Notice w c (c.sendInitial id)
  | answered (c : Seat) (id) : Notice w c (c.sendConfigure id)
  | sized (c c' : Seat) (v) : Rests w (· = v) c c' → Paired c'.state → Notice w c (c'.configureView w v)

abbrev Notices (w : SeatWorld) : Seat → Seat → Prop := Relation.ReflTransGen (Notice w)

namespace Rests

variable {but : ViewId → Prop}

theorem of_same (hviews : ∀ v, (c'.state.view v).map (fun e => (e.toplevel, clientSize w e)) =
      (c.state.view v).map fun e => (e.toplevel, clientSize w e))
    (htoplevels : ∀ id, (c'.state.toplevel id).map ToplevelEntry.surface = (c.state.toplevel id).map ToplevelEntry.surface)
    (hgrants : c'.grants = c.grants) (hwindows : c'.windows = c.windows) : Rests w but c c' := by
  refine ⟨fun {v e' id te'} _ h => ?_, hwindows⟩
  have hview := hviews v
  have hentry := htoplevels id
  rw [h.view, Option.map_some, eq_comm, Option.map_eq_some_iff] at hview
  rw [h.entry, Option.map_some, eq_comm, Option.map_eq_some_iff] at hentry
  obtain ⟨e, he, hfits⟩ := hview
  obtain ⟨te, hte, hsurface⟩ := hentry
  rw [Prod.mk.injEq] at hfits
  exact ⟨e, te, ⟨he, hfits.1.trans h.toplevel, hte⟩, hfits.2, hsurface, by rw [hgrants]⟩

theorem of_rest (htoplevels : c'.state.toplevels = c.state.toplevels) (hviews : c'.state.views = c.state.views)
    (hgrants : c'.grants = c.grants) (hwindows : c'.windows = c.windows) : Rests w but c c' := by
  refine of_same (fun v => ?_) (fun id => ?_) hgrants hwindows
  · rw [State.view, State.view, hviews]
  · rw [State.toplevel, State.toplevel, htoplevels]

end Rests

theorem Notice.modifyView {v : ViewId} {f : ViewEntry → ViewEntry}
    (hf : ∀ e, (f e).toplevel = e.toplevel ∧ clientSize w (f e) = clientSize w e) :
    Notice w c (c.onState (State.modifyView · v f)) := by
  refine .rest _ _ (.of_same (fun u => ?_) (fun _ => rfl) rfl rfl)
  rw [onState_state, view_modifyView]
  split
  · rename_i hu
    rw [hu, Option.map_map]
    exact congrArg (Option.map · _) (funext fun e => Prod.ext (hf e).1 (hf e).2)
  · rfl

theorem Notice.onState {f : State → State} (htoplevels : (f c.state).toplevels = c.state.toplevels)
    (hviews : (f c.state).views = c.state.views) : Notice w c (c.onState f) :=
  .rest _ _ (.of_rest htoplevels hviews rfl rfl)

/-! ## What is told -/

theorem syncToplevel_notices (c : Seat) (id : ToplevelId) : Notices w c (c.syncToplevel id) := by
  unfold syncToplevel
  split
  · exact .refl
  · exact .single (.told c id _ fun _ => rfl)

theorem refreshKeyboardFocus_notices (w : SeatWorld) (c : Seat) : Notices w c (c.refreshKeyboardFocus w) := by
  have hfold (ids : List ToplevelId) (c : Seat) : Notices w c (ids.foldl syncToplevel c) := by
    induction ids generalizing c with
    | nil => exact .refl
    | cons id ids ih => exact (syncToplevel_notices c id).trans (ih _)
  have hsynced : Notices w c c.syncStates := hfold _ c
  unfold refreshKeyboardFocus
  dsimp only
  split
  · exact hsynced.tail (.rest _ _ (.of_rest rfl rfl rfl rfl))
  · exact hsynced

theorem Notices.refreshed (h : Notices w c c') : Notices w c (c'.refreshKeyboardFocus w) :=
  h.trans (refreshKeyboardFocus_notices w c')

/-! ## Commits that are let through -/

section

variable (hf : ∀ c, Freed w.toWorld (fun _ _ => True) c (frees c))
  (hn : ∀ c, Paired c.state → Notices w c (frees c))

include hf hn

omit hf in
theorem submitView_notices (v : ViewId) (hp : Paired c.state) : Notices w c (c.submitView frees v) := by
  unfold submitView
  split
  · exact .refl
  · exact hn c hp

omit hf hn in
/-- The toplevel a view is bound to is sized at once. -/
theorem linked_notices {v : ViewId} {e : ViewEntry} {t : ToplevelId} (hp : Paired c.state) (hv : c.state.view v = some e)
    (hbound : e.toplevel = none) (hpick : c.state.pick w.toWorld e.handle.params = some t) :
    Notice w c ((c.onState (State.link v t)).configureView w v) := by
  refine .sized _ _ v ⟨fun {u e' id te'} hu h => ?_, rfl⟩ (hp.turn (.linked _ v e t hv hbound hpick))
  have hview := h.view
  have hentry := h.entry
  simp only [onState_state, link, view_log, toplevel_log, view_modifyView, if_neg hu, toplevel_modifyView, view_modifyToplevel,
    toplevel_modifyToplevel] at hview hentry
  split at hentry
  · rename_i hid
    obtain ⟨te, hte, rfl⟩ := Option.map_eq_some_iff.mp hentry
    exact ⟨e', te, ⟨hview, h.toplevel, hid ▸ hte⟩, rfl, rfl, rfl⟩
  · exact ⟨e', te', ⟨hview, h.toplevel, hentry⟩, rfl, rfl, rfl⟩

omit hf in
theorem tryBindView_notices (v : ViewId) (hp : Paired c.state) : Notices w c (c.tryBindView w frees v) := by
  unfold Seat.tryBindView
  cases hv : c.state.view v with
  | none => exact .refl
  | some e =>
      dsimp only
      split
      · exact .refl
      · rename_i hbound
        cases hpick : c.state.pick w.toWorld e.handle.params with
        | none => exact .refl
        | some t =>
            have hnone : e.toplevel = none := by simpa using hbound
            have hlinked : Paired (c.state.link v t) := hp.turn (.linked _ v e t hv hnone hpick)
            refine (Notices.refreshed (.single (linked_notices hp hv hnone hpick))).trans (submitView_notices hn v ?_)
            rw [refreshKeyboardFocus_state, configureView_state]
            exact hlinked

theorem bindWaitingViews_notices (hp : Paired c.state) : Notices w c (c.bindWaitingViews w frees) := by
  have hfold (vs : List ViewId) (c : Seat) (hp : Paired c.state) : Notices w c (vs.foldl (Seat.tryBindView w frees) c) := by
    induction vs generalizing c with
    | nil => exact .refl
    | cons v vs ih => exact (tryBindView_notices hn v hp).trans (ih _ ((tryBindView_freed hf c v).paired hp))
  exact hfold _ c hp

theorem toplevelCommit_notices (x : WlSurface) (hp : Paired c.state) : Notices w c (c.toplevelCommit w frees x) := by
  unfold Seat.toplevelCommit
  cases hid : c.state.idOf x with
  | none => exact .refl
  | some id =>
      dsimp only
      cases hte : c.state.toplevel id with
      | none => exact .refl
      | some te =>
          dsimp only
          split
          · exact .single (.sent c id)
          · rename_i hmapped
            have hmark : Notice w (c.sendInitial id) ((c.sendInitial id).onState (State.markMapped id)) := by
              refine .rest _ _ (.of_same (fun _ => rfl) (fun i => ?_) rfl rfl)
              rw [onState_state, markMapped, toplevel_log, toplevel_modifyToplevel]
              split
              · rename_i hi
                rw [hi, Option.map_map]
                rfl
              · rfl
            have hp' : Paired (c.state.markMapped id) := hp.turn (w := w) (.mapped _ x id te hid hte (by simpa using hmapped))
            have hbound : Notices w ((c.sendInitial id).onState (State.markMapped id)) _ := bindWaitingViews_notices hf hn hp'
            exact Notices.refreshed (.head (.sent c id) (.head hmark hbound))

theorem commit_notices (sync : Bool) (x : WlSurface) (hp : Paired c.state) : Notices w c (c.commit w frees sync x) := by
  unfold Seat.commit
  split
  · exact .refl
  · have hp' := (toplevelCommit_freed hf x c).paired hp
    refine .trans (toplevelCommit_notices hf hn x hp) ?_
    dsimp only
    split
    · exact submitView_notices hn _ hp'
    · exact hn _ hp'

theorem applyCommit_notices (main : Commit) (sync : Bool) (of : Commit) (hp : Paired c.state) :
    Notices w c (c.applyCommit w frees main sync of) := by
  unfold Seat.applyCommit
  split
  · exact commit_notices hf hn _ _ hp
  · exact .refl

theorem applyUpdate_notices (u : Update) (hp : Paired c.state) : Notices w c (c.applyUpdate w frees u) := by
  have hfold (cs : List Commit) (c : Seat) (hp : Paired c.state) :
      Notices w c (cs.foldl (Seat.applyCommit w frees u.main true) c) ∧
        Paired (cs.foldl (Seat.applyCommit w frees u.main true) c).state := by
    induction cs generalizing c with
    | nil => exact ⟨.refl, hp⟩
    | cons of cs ih =>
        obtain ⟨hnotices, hp'⟩ := ih _ ((applyCommit_freed hf u.main true c of).paired hp)
        exact ⟨(applyCommit_notices hf hn u.main true of hp).trans hnotices, hp'⟩
  obtain ⟨hnotices, hp'⟩ := hfold u.synced c hp
  exact hnotices.trans (applyCommit_notices hf hn u.main false u.main hp')

end

end Seat

theorem lets_notices (w : SeatWorld) (depth : Nat) (c : Seat) (hp : Paired c.state) : Seat.Notices w c (lets w depth c) := by
  induction depth generalizing c with
  | zero => exact .refl
  | succ depth ih =>
      have hfold (us : List Update) (c : Seat) (hp : Paired c.state) :
          Seat.Notices w c (us.foldl (Seat.applyUpdate w (lets w depth)) c) := by
        induction us generalizing c with
        | nil => exact .refl
        | cons u us ihu =>
            exact (Seat.applyUpdate_notices (lets_freed w depth) (fun c => ih c) u hp).trans
              (ihu _ ((Seat.applyUpdate_freed (lets_freed w depth) c u).paired hp))
      have hasked : Paired (c.onState State.ask).state := hp
      exact .head (.rest c (c.onState State.ask) (.of_rest rfl rfl rfl rfl)) (hfold _ _ hasked)

namespace Seat

/-! ## Handlers -/

/-- What a view shows is told what the app asks for. -/
theorem sized_notices {v : ViewId} {f : ViewEntry → ViewEntry} (hlinks : ∀ e, (f e).binding = e.binding) (hp : Paired c.state) :
    Notice w c ((c.onState (State.modifyView · v f)).configureView w v) ∧
      Paired ((c.onState (State.modifyView · v f)).configureView w v).state := by
  have hp' : Paired (c.state.modifyView v f) := hp.turn (w := w) (.same _ _ (.modifyView v hlinks))
  refine ⟨.sized _ _ v ⟨fun {u e' id te'} hu h => ?_, rfl⟩ hp', by rw [configureView_state]; exact hp'⟩
  have hview := h.view
  rw [onState_state, view_modifyView, if_neg hu] at hview
  exact ⟨e', te', ⟨hview, h.toplevel, h.entry⟩, rfl, rfl, rfl⟩

theorem grant_notices (v : ViewId) (f : Grants → Grants) (hp : Paired c.state) : Notices w c (c.grant w v f) := by
  unfold Seat.grant
  split
  · exact .refl
  · refine .single (.sized _ _ v ⟨fun {u e' id te'} hu h => ?_, rfl⟩ hp)
    exact ⟨e', te', ⟨h.view, h.toplevel, h.entry⟩, rfl, rfl, if_neg hu⟩

/-- The states of windows are told as before where no view shows another toplevel. -/
theorem Notice.fewer (hviews : ∀ v e', c'.state.view v = some e' → e'.toplevel.isSome = true →
      c.state.view v = some e' ∧ c'.grants v = c.grants v)
    (htoplevels : ∀ id te', c'.state.toplevel id = some te' → ∃ te, c.state.toplevel id = some te ∧ te.surface = te'.surface)
    (hwindows : c'.windows = c.windows) : Notice w c c' := by
  refine .rest _ _ ⟨fun {v e' id te'} _ h => ?_, hwindows⟩
  obtain ⟨hview, hgrants⟩ := hviews v e' h.view (by rw [h.toplevel]; rfl)
  obtain ⟨te, hte, hsurface⟩ := htoplevels id te' h.entry
  exact ⟨e', te, ⟨hview, h.toplevel, hte⟩, rfl, hsurface, hgrants⟩

section

variable (hf : ∀ c, Freed w.toWorld (fun _ _ => True) c (frees c))
  (hn : ∀ c, Paired c.state → Notices w c (frees c))

include hf hn

omit hf in
theorem unbindView_notices (v : ViewId) (hp : Paired c.state) : Notices w c (c.unbindView w frees v) := by
  have hforgot : Notice w c { c with scanout := c.scanout.forgetScanout w.caps c.state v } := .rest _ _ (.of_rest rfl rfl rfl rfl)
  have hdropped (c : Seat) (hp : Paired c.state) : Notices w c (c.dropFrames frees v) := by
    unfold dropFrames
    split
    · exact .refl
    · exact hn c hp
  refine .head hforgot (.trans (hdropped _ hp) ?_)
  unfold Seat.unbindView
  dsimp only
  generalize dropFrames frees v _ = c
  split
  · exact .refl
  · refine Notices.refreshed (.single (.fewer (fun u e' hu hbound => ?_) (fun id te' hte => ?_) rfl))
    · rw [onState_state] at hu
      by_cases huv : u = v
      · rw [huv, view_unlink_self, Option.map_eq_some_iff] at hu
        obtain ⟨e, -, rfl⟩ := hu
        cases hbound
      · rw [view_unlink huv] at hu
        exact ⟨hu, rfl⟩
    · rw [onState_state, toplevel_unlink] at hte
      split at hte
      · obtain ⟨te, hmem, rfl⟩ := Option.map_eq_some_iff.mp hte
        exact ⟨te, hmem, rfl⟩
      · exact ⟨te', hte, rfl⟩

theorem viewCreated_notices (view : ViewHandle) (hp : Paired c.state) : Notices w c (c.viewCreated w frees view) := by
  have hinsert {c : Seat} (hp : Paired c.state) (hshows : c.state.shows view.id = none) (g : ViewId → Grants)
      (hg : ∀ v, v ≠ view.id → g v = c.grants v) :
      Notices w c (({ c with state := c.state.insertView view, grants := g } : Seat).tryBindView w frees view.id) := by
    have hp' : Paired (c.state.insertView view) := hp.turn (w := w) (.inserted c.state view hshows)
    have hinserted : Notice w c { c with state := c.state.insertView view, grants := g } := by
      refine .fewer (fun u e' hu hbound => ?_) (fun id te' hte => ⟨te', hte, rfl⟩) rfl
      dsimp only at hu ⊢
      by_cases huv : u = view.id
      · have hfresh : (c.state.insertView view).shows u = none := by rw [shows_insertView, if_pos huv]
        rw [State.shows, hu, Option.bind_some] at hfresh
        rw [hfresh] at hbound
        cases hbound
      · rw [State.insertView, State.view, Table.get_insert, if_neg huv] at hu
        exact ⟨hu, hg u huv⟩
    exact .head hinserted (tryBindView_notices hn view.id hp')
  unfold Seat.viewCreated
  dsimp only
  split
  · exact (unbindView_notices hn view.id hp).trans
      (hinsert ((unbindView_silent hf view.id c).paired hp) (unbindView_shows hf view.id c) _ fun v hv => if_neg hv)
  · rename_i hv
    refine hinsert hp ?_ _ fun v hv => if_neg hv
    rw [Bool.not_eq_true, Option.isSome_eq_false_iff, Option.isNone_iff_eq_none] at hv
    rw [State.shows, hv]
    rfl

omit hf in
theorem viewDisposed_notices (v : ViewId) (hp : Paired c.state) : Notices w c (c.viewDisposed w frees v) := by
  refine .tail (unbindView_notices hn v hp) (.fewer (fun u e' hu hbound => ?_) (fun id te' hte => ⟨te', hte, rfl⟩) rfl)
  unfold Seat.viewDisposed at hu
  rw [onState_state, State.eraseView, State.view, Table.get_erase] at hu
  split at hu
  · cases hu
  · exact ⟨hu, rfl⟩

omit hf in
theorem viewResized_notices (v : ViewId) (size : Int × Int) (hp : Paired c.state) :
    Notices w c (c.viewResized w frees v size) := by
  unfold Seat.viewResized
  split
  · exact .refl
  · obtain ⟨hsized, hp'⟩ := sized_notices (w := w) (v := v) (f := fun e => { e with size := some size }) (fun _ => rfl) hp
    dsimp only
    split
    · exact .head hsized (submitView_notices hn v hp')
    · exact .single hsized

omit hf in
theorem viewRequestSize_notices (v : ViewId) (size : Option (Int × Int)) (hp : Paired c.state) :
    Notices w c (c.viewRequestSize w frees v size) := by
  unfold Seat.viewRequestSize
  split
  · exact .refl
  · split
    · exact .refl
    · obtain ⟨hsized, hp'⟩ := sized_notices (w := w) (v := v) (f := fun e => { e with requested := size }) (fun _ => rfl) hp
      exact .head hsized (submitView_notices hn v hp')

omit hf in
theorem viewSuspended_notices (v : ViewId) (suspended : Bool) (hp : Paired c.state) :
    Notices w c (c.viewSuspended w frees v suspended) := by
  unfold Seat.viewSuspended
  split
  · exact .refl
  · have hset : Notices w c (c.onState (State.setSuspended w.toWorld v suspended)) := by
      refine .head (.modifyView (v := v) ?_) (.single (.onState (f := State.ask) rfl rfl))
      exact fun e => ⟨rfl, rfl⟩
    have hp' : Paired (c.state.setSuspended w.toWorld v suspended) :=
      hp.turn (w := w) (.same _ _ (setSuspended_links c.state v suspended))
    dsimp only
    split
    · exact (hset.tail (.onState rfl rfl)).trans (hn _ (hp'.turn (w := w) (.dismissed _ v)))
    · exact hset.trans (hn _ hp')

omit hf hn in
theorem focusInput_notices (v : ViewId) (focused : Bool) : Notices w c (c.focusInput w v focused) := by
  unfold Seat.focusInput
  split <;> split
  · exact .refl
  · exact Notices.refreshed (.single (.onState rfl rfl))
  · exact Notices.refreshed (.single (.onState rfl rfl))
  · exact .refl

theorem handleCmd_notices (cmd : Cmd) (hp : Paired c.state) : Notices w c (c.handleCmd w frees cmd) := by
  cases cmd with
  | viewCreated view => exact viewCreated_notices hf hn view hp
  | viewDisposed v => exact viewDisposed_notices hn v hp
  | viewResized v size => exact viewResized_notices hn v size hp
  | viewRequestSize v size => exact viewRequestSize_notices hn v size hp
  | presented v r => exact hn c hp
  | viewSuspended v suspended => exact Notices.refreshed (viewSuspended_notices hn v suspended hp)
  | focus v focused => exact focusInput_notices v focused
  | issueToken => exact .single (.onState rfl rfl)

omit hf in
theorem unbindToplevel_notices (id : ToplevelId) (hp : Paired c.state) : Notices w c (c.unbindToplevel w frees id) := by
  unfold Seat.unbindToplevel
  split
  · exact .refl
  · exact .tail (unbindView_notices hn _ hp) (.onState rfl rfl)

omit hf hn in
theorem removeToplevel_notice (id : ToplevelId) : Notice w c (c.onState (State.removeToplevel id)) := by
  refine .fewer (fun v e' hv _ => ⟨hv, rfl⟩) (fun i te' hte => ⟨te', ?_, rfl⟩) rfl
  rw [onState_state, removeToplevel, State.toplevel, Toplevels.get_remove] at hte
  split at hte
  · cases hte
  · exact hte

theorem toplevelDestroyed_notices (x : WlSurface) (hp : Paired c.state) : Notices w c (c.toplevelDestroyed w frees x) := by
  unfold Seat.toplevelDestroyed
  cases hid : c.state.idOf x with
  | none => exact .refl
  | some id =>
      have hgone : Notices w c ((c.unbindToplevel w frees id).onState (State.removeToplevel id)) :=
        .tail (unbindToplevel_notices hn id hp) (removeToplevel_notice id)
      dsimp only
      split
      · exact hgone
      · refine Notices.refreshed (hgone.trans (submitView_notices hn _ ?_))
        obtain ⟨hacts, hnone, hdesk⟩ := unbindToplevel_acts hf hp id
        exact (hacts.paired hp).turn (w := w) (.removed _ c.state x id (by rw [hdesk.idOf]; exact hid) hnone trivial)

theorem parentChanged_notices (hp : Paired c.state) : Notices w c (c.parentChanged w frees) := by
  have hfold (vs : List ViewId) (c : Seat) (hp : Paired c.state) : Notices w c (vs.foldl (fun c v =>
      if (c.state.view v).any fun e => e.toplevel.isSome then c.submitView frees v else c) c) := by
    induction vs generalizing c with
    | nil => exact .refl
    | cons v vs ih =>
        rw [List.foldl_cons]
        split
        · exact (submitView_notices hn v hp).trans (ih _ ((submitView_freed hf v c).paired hp))
        · exact ih _ hp
  exact Notices.refreshed (hfold _ c hp)

omit hf in
theorem popupDestroyed_notices (x : WlSurface) (hp : Paired c.state) : Notices w c (c.popupDestroyed frees x) := by
  have huntracked : Notice w c (c.onState (State.untrackPopup x)) := .onState rfl rfl
  unfold Seat.popupDestroyed
  dsimp only
  split
  · exact .single huntracked
  · exact .head huntracked (submitView_notices hn _ (hp.turn (w := w) (.untracked _ x)))

theorem requestActivation_notices (x : WlSurface) {value : String} {token : Token}
    (hfind : c.state.tokens.find? (fun t => t.value == value) = some token) (hp : Paired c.state) :
    Notices w c (c.requestActivation w frees x token) := by
  unfold Seat.requestActivation
  split
  · exact .refl
  · rename_i hissued
    split
    · exact .refl
    · rename_i id hid
      split
      · exact .single (.onState rfl rfl)
      · have hp' : Paired (c.state.markActivated id token.value) :=
          hp.turn (w := w) (.tokenUsed _ id token (List.mem_of_find?_eq_some hfind) (by simpa using hissued))
        have hmarked : Notice w c (c.onState (State.markActivated id token.value)) := by
          refine .rest _ _ (.of_same (fun _ => rfl) (fun i => ?_) rfl rfl)
          rw [onState_state, markActivated, toplevel_log, toplevel_modifyToplevel]
          split
          · rename_i hi
            rw [hi, Option.map_map]
            rfl
          · rfl
        dsimp only
        split
        · exact .head hmarked (bindWaitingViews_notices hf hn hp')
        · rename_i v _
          split
          · exact .single hmarked
          · split
            · exact .single hmarked
            · have hunbound : Paired ((c.onState (State.markActivated id token.value)).unbindView w frees v).state :=
                (unbindView_silent hf v (c.onState (State.markActivated id token.value))).paired hp'
              exact .head hmarked ((unbindView_notices hn v hp').trans (bindWaitingViews_notices hf hn hunbound))

theorem handle_notices {e : Event} (hv : c.valid w e = true) (hp : Paired c.state) : Notices w c (c.handle w frees e) := by
  cases e with
  | cmd cmd => exact handleCmd_notices hf hn cmd hp
  | commit u => exact applyUpdate_notices hf hn u hp
  | target x deadline => exact hn c hp
  | newToplevel x => exact .single (.made c x hp)
  | destroyToplevel x => exact .tail (toplevelDestroyed_notices hf hn x hp) (.onState rfl rfl)
  | setParent x parent =>
      simp only [Seat.valid, State.valid, Bool.and_eq_true] at hv
      have hp' : Paired (c.state.setParent x parent) := by
        refine hp.turn (w := w) (.parentSet _ x parent hv.1 (fun p hpar => ?_) trivial)
        have hlive := hv.2
        rw [hpar] at hlive
        simpa using hlive
      exact .head (.onState rfl rfl) (parentChanged_notices hf hn hp')
  | setAppId x appId => exact .single (.onState rfl rfl)
  | newPopup x parent => exact .single (.onState rfl rfl)
  | destroyPopup x => exact popupDestroyed_notices hn x hp
  | getSubsurface x parent => exact .single (.onState rfl rfl)
  | destroySubsurface x => exact .single (.onState rfl rfl)
  | destroySurface x => exact .single (.onState rfl rfl)
  | clientToken => exact .single (.onState rfl rfl)
  | activate x value =>
      unfold Seat.handle
      dsimp only
      split
      · exact .refl
      · rename_i token ht
        exact requestActivation_notices hf hn x ht hp
  | disconnect client =>
      exact .single (.onState (f := fun s => { s with connected := fun d => if d = client then false else s.connected d }) rfl rfl)
  | fence v key => exact .refl
  | tick => exact hn c hp

end

theorem step_notices (w : SeatWorld) (depth : Nat) (op : SeatOp) (hp : Paired c.state) : Notices w c (c.step w depth op) := by
  cases op with
  | event e =>
      unfold Seat.step
      dsimp only
      split
      · rename_i hv
        exact handle_notices (lets_freed w depth) (lets_notices w depth) hv hp
      · exact .refl
  | viewState v state => exact grant_notices v (fun g => { g with windowState := state }) hp
  | viewCapabilities v capabilities => exact grant_notices v (fun g => { g with capabilities }) hp
  | scanoutHint v hint => exact .single (.rest _ _ (.of_rest rfl rfl rfl rfl))

end Seat

end IhsWl
