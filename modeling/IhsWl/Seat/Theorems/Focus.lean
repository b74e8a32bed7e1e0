import IhsWl.Seat.Lemmas.Looks

/-!
# The keyboard and the states of windows agree

`sync_states` works out every toplevel's states anew, so they are right where it was called last. What changes after
that changes no state a toplevel should have.
-/

namespace IhsWl

open State

variable {w : SeatWorld} {guard : State → Event → Prop} {c c' : Seat} {frees : Frees} {id : ToplevelId}

namespace Seat

/-! ## In step -/

/-- The toplevel has the states `sync_states` would give it. -/
def Agrees (c : Seat) (id : ToplevelId) : Prop := ∀ te, c.state.toplevel id = some te →
  (c.windows id).pending.activated = c.state.activates te.surface ∧
  (c.windows id).pending.suspended = c.state.suspends te.surface

/-- The states and the focus are what `refresh_keyboard_focus` would make them. -/
structure Synced (w : SeatWorld) (c : Seat) : Prop where
  states : ∀ id, c.Agrees id
  focus : w.keyboard = true → c.focus = c.state.target

theorem syncToplevel_agrees (c : Seat) (id : ToplevelId) : (c.syncToplevel id).Agrees id := by
  intro te hte
  rw [(syncToplevel_tells c id).state] at hte ⊢
  unfold syncToplevel
  rw [hte]
  simp [withPending]

theorem Agrees.syncToplevel (h : c.Agrees id) (i : ToplevelId) : (c.syncToplevel i).Agrees id := by
  by_cases hi : i = id
  · rw [hi]
    exact syncToplevel_agrees c id
  · intro te hte
    rw [(syncToplevel_tells c i).state] at hte ⊢
    unfold Seat.syncToplevel
    split
    · exact h te hte
    · simp only [withPending, if_neg (Ne.symm hi)]
      exact h te hte

theorem syncStates_agrees (c : Seat) (id : ToplevelId) : c.syncStates.Agrees id := by
  have hfold (ids : List ToplevelId) (c : Seat) (h : id ∈ ids ∨ c.Agrees id) : (ids.foldl syncToplevel c).Agrees id := by
    induction ids generalizing c with
    | nil => exact h.resolve_left List.not_mem_nil
    | cons i ids ih =>
        refine ih _ ?_
        rcases h with hmem | h
        · rcases List.mem_cons.mp hmem with rfl | hmem
          · exact Or.inr (syncToplevel_agrees c id)
          · exact Or.inl hmem
        · exact Or.inr (h.syncToplevel i)
  refine hfold _ c ?_
  cases hte : c.state.toplevel id with
  | some te =>
      refine Or.inl (Table.mem_keys.mpr ?_)
      rw [show c.state.toplevels.byId[id]? = some te from hte]
      rfl
  | none =>
      refine Or.inr fun te hte' => ?_
      rw [hte] at hte'
      cases hte'

/-- Whatever was told before. -/
theorem refreshKeyboardFocus_synced (w : SeatWorld) (c : Seat) : Synced w (c.refreshKeyboardFocus w) := by
  unfold refreshKeyboardFocus
  dsimp only
  split
  · exact ⟨syncStates_agrees c, fun _ => rfl⟩
  · rename_i hk
    exact ⟨syncStates_agrees c, fun hw => absurd hw hk⟩

/-- The toplevels' states are told as before. -/
def SameStates (c c' : Seat) : Prop := ∀ id, (c'.windows id).pending.activated = (c.windows id).pending.activated ∧
  (c'.windows id).pending.suspended = (c.windows id).pending.suspended

theorem Synced.looks (h : Synced w c) (hl : Looks c.state c'.state) (hsame : SameStates c c') (hfocus : c'.focus = c.focus) :
    Synced w c' := by
  refine ⟨fun id te' hte' => ?_, fun hw => ?_⟩
  · obtain ⟨te, hte, hact, hsus⟩ := hl.states id te' hte'
    obtain ⟨hact', hsus'⟩ := h.states id te hte
    rw [(hsame id).1, (hsame id).2, hact, hsus]
    exact ⟨hact', hsus'⟩
  · rw [hfocus, h.focus hw, hl.target]

/-- Nothing is told where nothing changed. -/
theorem Synced.onState (h : Synced w c) {f : State → State} (hl : Looks c.state (f c.state)) : Synced w (c.onState f) :=
  h.looks hl (fun _ => ⟨rfl, rfl⟩) rfl

theorem Synced.configureView (h : Synced w c) (hs : Placed c.state) (v : ViewId) : Synced w (c.configureView w v) := by
  unfold Seat.configureView
  cases hv : c.state.view v with
  | none => exact h
  | some e =>
      dsimp only
      split
      · rename_i id size hid hsize
        cases hte : c.state.toplevel id with
        | none => exact h
        | some te =>
            obtain ⟨hact, hsus⟩ := hs.agree hv hid hte
            refine ⟨fun i te' hte' => ?_, h.focus⟩
            by_cases hi : i = id
            · subst hi
              cases hte.symm.trans hte'
              simp only [withPending, if_pos]
              exact ⟨hact, hsus⟩
            · simp only [withPending, if_neg hi]
              exact h.states i te' hte'
      · exact h

/-! ## Commits that are let through -/

/-- What is let through leaves the seat in step. -/
def Keeps (w : SeatWorld) (frees : Frees) : Prop := ∀ c, Placed c.state → Synced w c → Synced w (frees c)

section

variable (hf : ∀ c, Freed w.toWorld (fun s e => keepsPlace s e = true) c (frees c)) (hk : Keeps w frees)

include hf hk

omit hf in
theorem Synced.submitView (h : Synced w c) (hs : Placed c.state) (v : ViewId) : Synced w (c.submitView frees v) := by
  unfold Seat.submitView
  split
  · exact h
  · exact hk c hs h

omit hf in
theorem Synced.tryBindView (h : Synced w c) (hs : Placed c.state) (v : ViewId) : Synced w (c.tryBindView w frees v) := by
  unfold Seat.tryBindView
  cases hv : c.state.view v with
  | none => exact h
  | some e =>
      dsimp only
      split
      · exact h
      · rename_i hbound
        split
        · exact h
        · rename_i t hp
          refine Synced.submitView hk (refreshKeyboardFocus_synced w _) ?_ v
          rw [refreshKeyboardFocus_state, configureView_state]
          exact hs.acts (.single (.linked c.state v e t hv (by simpa using hbound) hp))

theorem Synced.bindWaitingViews (h : Synced w c) (hs : Placed c.state) : Synced w (c.bindWaitingViews w frees) := by
  have hfold (vs : List ViewId) (c : Seat) (h : Synced w c) (hs : Placed c.state) :
      Synced w (vs.foldl (Seat.tryBindView w frees) c) := by
    induction vs generalizing c with
    | nil => exact h
    | cons v vs ih => exact ih _ (h.tryBindView hk hs v) (hs.acts (tryBindView_freed hf c v).acts)
  exact hfold _ c h hs

omit hf hk in
theorem Synced.sendInitial (h : Synced w c) (id : ToplevelId) : Synced w (c.sendInitial id) := by
  refine h.looks (.refl _) (fun i => ?_) rfl
  simp only [Seat.sendInitial]
  split <;> exact ⟨rfl, rfl⟩

omit hf hk in
theorem Synced.toplevelCommit (h : Synced w c) (x : WlSurface) : Synced w (c.toplevelCommit w frees x) := by
  unfold Seat.toplevelCommit
  split
  · exact h
  · split
    · exact h
    · dsimp only
      split
      · exact h.sendInitial _
      · exact refreshKeyboardFocus_synced w _

theorem Synced.commit (h : Synced w c) (hs : Placed c.state) (sync : Bool) (x : WlSurface) :
    Synced w (c.commit w frees sync x) := by
  unfold Seat.commit
  split
  · exact h
  · have hs' := hs.acts (toplevelCommit_freed hf x c).acts
    dsimp only
    split
    · exact (h.toplevelCommit x).submitView hk hs' _
    · exact hk _ hs' (h.toplevelCommit x)

theorem Synced.applyCommit (h : Synced w c) (hs : Placed c.state) (main : Commit) (sync : Bool) (of : Commit) :
    Synced w (c.applyCommit w frees main sync of) := by
  unfold Seat.applyCommit
  split
  · exact h.commit hf hk hs _ _
  · exact h

theorem Synced.applyUpdate (h : Synced w c) (hs : Placed c.state) (u : Update) : Synced w (c.applyUpdate w frees u) := by
  have hfold (cs : List Commit) (c : Seat) (h : Synced w c) (hs : Placed c.state) :
      Synced w (cs.foldl (Seat.applyCommit w frees u.main true) c) ∧
        Placed (cs.foldl (Seat.applyCommit w frees u.main true) c).state := by
    induction cs generalizing c with
    | nil => exact ⟨h, hs⟩
    | cons of cs ih =>
        exact ih _ (h.applyCommit hf hk hs u.main true of) (hs.acts (applyCommit_freed hf u.main true c of).acts)
  obtain ⟨h', hs'⟩ := hfold u.synced c h hs
  exact h'.applyCommit hf hk hs' u.main false u.main

end

end Seat

theorem lets_keeps (w : SeatWorld) (depth : Nat) : Seat.Keeps w (lets w depth) := by
  induction depth with
  | zero => exact fun _ _ h => h
  | succ depth ih =>
      intro c hs h
      have hs' : Placed c.state.ask := hs.acts (w := w) (Seat.Freed.move (.pace (.asked c.state)) rfl : Seat.Freed w.toWorld _ c (c.onState State.ask)).acts
      have hfold (us : List Update) (c : Seat) (h : Seat.Synced w c) (hs : Placed c.state) :
          Seat.Synced w (us.foldl (Seat.applyUpdate w (lets w depth)) c) := by
        induction us generalizing c with
        | nil => exact h
        | cons u us ihu =>
            exact ihu _ (h.applyUpdate (lets_freed w depth) ih hs u)
              (hs.acts (Seat.applyUpdate_freed (lets_freed w depth) c u).acts)
      exact hfold _ _ (h.onState (.of_rest hs hs' rfl rfl rfl fun _ => ⟨rfl, rfl⟩)) hs'

namespace Seat

/-! ## Handlers -/

section

variable (hf : ∀ c, Freed w.toWorld (fun s e => keepsPlace s e = true) c (frees c)) (hk : Keeps w frees)

include hf hk

omit hf in
theorem Synced.unbindView (h : Synced w c) (hs : Placed c.state) (v : ViewId) : Synced w (c.unbindView w frees v) := by
  have hforgot : Synced w { c with scanout := c.scanout.forgetScanout w.caps c.state v } := ⟨h.states, h.focus⟩
  unfold Seat.unbindView
  dsimp only
  split
  · unfold dropFrames
    split
    · exact hforgot
    · exact hk _ hs hforgot
  · exact refreshKeyboardFocus_synced w _

theorem Synced.viewCreated (h : Synced w c) (hs : Placed c.state) (view : ViewHandle) : Synced w (c.viewCreated w frees view) := by
  unfold Seat.viewCreated
  dsimp only
  have hinsert {c : Seat} (h : Synced w c) (hs : Placed c.state) (hshows : c.state.shows view.id = none) (grants : ViewId → Grants) :
      Synced w (({ c with state := c.state.insertView view, grants } : Seat).tryBindView w frees view.id) := by
    have hs' : Placed (c.state.insertView view) := hs.acts (w := w) (.single (.inserted c.state view hshows))
    refine Synced.tryBindView hk ?_ hs' view.id
    exact h.looks (insertView_looks hs view hs' hshows) (fun _ => ⟨rfl, rfl⟩) rfl
  split
  · exact hinsert (h.unbindView hk hs view.id) (hs.acts (unbindView_silent hf view.id c)) (unbindView_shows hf view.id c) _
  · rename_i hv
    refine hinsert h hs ?_ _
    rw [Bool.not_eq_true, Option.isSome_eq_false_iff, Option.isNone_iff_eq_none] at hv
    rw [shows, hv]
    rfl

theorem Synced.viewDisposed (h : Synced w c) (hs : Placed c.state) (v : ViewId) : Synced w (c.viewDisposed w frees v) := by
  have hshows := unbindView_shows hf v c
  have hs' := hs.acts (unbindView_silent hf v c)
  exact (h.unbindView hk hs v).onState (eraseView_looks hs' v (hs'.acts (w := w) (.single (.erased _ v hshows))) hshows)

omit hf hk in
/-- A view's size is told to its toplevel, with states that agree. -/
theorem Synced.resize (h : Synced w c) (hs : Placed c.state) (v : ViewId) {f : ViewEntry → ViewEntry}
    (hlinks : ∀ e, (f e).binding = e.binding) (hsuspended : ∀ e, (f e).suspended = e.suspended) :
    Synced w ((c.onState (State.modifyView · v f)).configureView w v) ∧
      Placed ((c.onState (State.modifyView · v f)).configureView w v).state := by
  have hs' : Placed (c.state.modifyView v f) := hs.acts (w := w) (SameLinks.acts (.modifyView v hlinks))
  have hsized : Synced w (c.onState (State.modifyView · v f)) :=
    h.onState (modifyView_looks hs v hs' (fun e => congrArg Prod.snd (hlinks e)) hsuspended)
  exact ⟨hsized.configureView hs' v, by rw [configureView_state]; exact hs'⟩

omit hf in
theorem Synced.viewResized (h : Synced w c) (hs : Placed c.state) (v : ViewId) (size : Int × Int) :
    Synced w (c.viewResized w frees v size) := by
  unfold Seat.viewResized
  split
  · exact h
  · obtain ⟨h', hs'⟩ := h.resize hs v (f := fun e => { e with size := some size }) (fun _ => rfl) fun _ => rfl
    dsimp only
    split
    · exact h'.submitView hk hs' v
    · exact h'

omit hf in
theorem Synced.viewRequestSize (h : Synced w c) (hs : Placed c.state) (v : ViewId) (size : Option (Int × Int)) :
    Synced w (c.viewRequestSize w frees v size) := by
  unfold Seat.viewRequestSize
  split
  · exact h
  · split
    · exact h
    · obtain ⟨h', hs'⟩ := h.resize hs v (f := fun e => { e with requested := size }) (fun _ => rfl) fun _ => rfl
      exact h'.submitView hk hs' v

omit hf hk in
theorem Synced.grant (h : Synced w c) (hs : Placed c.state) (v : ViewId) (f : Grants → Grants) : Synced w (c.grant w v f) := by
  unfold Seat.grant
  split
  · exact h
  · have hgranted : Synced w { c with grants := fun u => if u = v then f (c.grants v) else c.grants u } := ⟨h.states, h.focus⟩
    exact hgranted.configureView hs v

omit hf hk in
theorem Synced.focusInput (h : Synced w c) (v : ViewId) (focused : Bool) : Synced w (c.focusInput w v focused) := by
  unfold Seat.focusInput
  split <;> split
  · exact h
  · exact refreshKeyboardFocus_synced w _
  · exact refreshKeyboardFocus_synced w _
  · exact h

theorem Synced.handleCmd (h : Synced w c) (hs : Placed c.state) (cmd : Cmd) (hs' : Placed (c.handleCmd w frees cmd).state) :
    Synced w (c.handleCmd w frees cmd) := by
  cases cmd with
  | viewCreated view => exact h.viewCreated hf hk hs view
  | viewDisposed v => exact h.viewDisposed hf hk hs v
  | viewResized v size => exact h.viewResized hk hs v size
  | viewRequestSize v size => exact h.viewRequestSize hk hs v size
  | presented v r => exact hk c hs h
  | viewSuspended v suspended => exact refreshKeyboardFocus_synced w _
  | focus v focused => exact h.focusInput v focused
  | issueToken => exact h.onState (.of_rest hs hs' rfl rfl rfl fun _ => ⟨rfl, rfl⟩)

omit hf hk in
theorem Synced.newToplevel (h : Synced w c) (hs : Placed c.state) {x : WlSurface} (hs' : Placed (c.state.newToplevel x))
    (hx : (c.state.surfaces x).hasToplevel = false) : Synced w (c.newToplevel x) := by
  have hviews := newToplevel_sameViews hs hs' hx
  refine ⟨fun id te hte => ?_, fun hw => (h.focus hw).trans hviews.target.symm⟩
  change (c.state.newToplevel x).toplevel id = some te at hte
  change ((if id = c.state.toplevels.nextId + 1 then {} else c.windows id).pending.activated = (c.state.newToplevel x).activates te.surface) ∧
    (if id = c.state.toplevels.nextId + 1 then {} else c.windows id).pending.suspended = (c.state.newToplevel x).suspends te.surface
  rw [toplevel_newToplevel] at hte
  split at hte
  · rename_i hid
    cases hte
    have hhome : (c.state.newToplevel x).homeOf x = none := by
      rw [homeOf, boundViewOf_made hs hs' hx]
      rfl
    rw [if_pos hid, activates, suspends, hhome]
    exact ⟨rfl, rfl⟩
  · rename_i hid
    have hbound := boundViewOf_newToplevel hs hs' hx (hs.sound.windows id te hte)
      (hs'.sound.windows id te (toplevel_newToplevel_kept hte))
    obtain ⟨hact, hsus⟩ := hviews.states hs.paired hbound
    rw [if_neg hid, hact, hsus]
    exact h.states id te hte

theorem Synced.unbindToplevel (h : Synced w c) (hs : Placed c.state) (id : ToplevelId) :
    Synced w (c.unbindToplevel w frees id) := by
  unfold Seat.unbindToplevel
  split
  · exact h
  · rename_i v _
    have hs' := hs.acts (unbindView_silent hf v c)
    have hlogged : Placed ((c.unbindView w frees v).state.log [.posted .closed v]) := hs.acts (unbindView_acts hf v c (by simp))
    exact (h.unbindView hk hs v).onState (.of_rest hs' hlogged rfl rfl rfl fun _ => ⟨rfl, rfl⟩)

omit hk in
/-- A toplevel that goes is no window of a view, once it is unbound, unless it was a dialog. -/
theorem unbindToplevel_boundViewOf (hs : Placed c.state) {x : WlSurface} {id : ToplevelId} (hid : c.state.idOf x = some id)
    (hx : (c.state.surfaces x).role = some .toplevel)
    (hdialog : (if (c.state.surfaces x).parent.isSome then c.state.boundViewOf x else none) = none) :
    (c.unbindToplevel w frees id).state.boundViewOf x = none := by
  obtain ⟨hacts, hshown, hdesk⟩ := unbindToplevel_acts hf hs.paired id
  cases hparent : (c.state.surfaces x).parent with
  | some p =>
      rw [hparent, Option.isSome_some, if_pos rfl] at hdialog
      have hsame : c.unbindToplevel w frees id = c := by
        unfold Seat.unbindToplevel
        cases hview : (c.state.toplevel id).bind ToplevelEntry.view with
        | none => rfl
        | some v =>
            obtain ⟨te, hte, hview⟩ := Option.bind_eq_some_iff.mp hview
            have htop := hs.rooted id te hte (by rw [hview]; rfl)
            rw [hs.sound.own x id te hid hte, hparent] at htop
            cases htop
      rw [hsame]
      exact hdialog
  | none =>
      have hs' := hs.acts hacts
      have hids := hdesk.idOf
      have habove : (c.unbindToplevel w frees id).state.above x = none := by
        rw [above, hids, hid, Option.bind_some]
        cases hte : (c.unbindToplevel w frees id).state.toplevel id with
        | none => rfl
        | some te => rw [Option.bind_some, hs'.sound.own x id te (by rw [hids]; exact hid) hte, hdesk.surfaces, hparent]
      rw [boundViewOf_eq hs'.sound hs'.tidy (by rw [hdesk.surfaces]; exact hx), Climb.climb_top habove, hids, hid]
      exact hshown

theorem Synced.toplevelDestroyed (h : Synced w c) (hs : Placed c.state) {x : WlSurface}
    (hx : (c.state.surfaces x).role = some .toplevel) : Synced w (c.toplevelDestroyed w frees x) := by
  unfold Seat.toplevelDestroyed
  cases hid : c.state.idOf x with
  | none => exact h
  | some id =>
      dsimp only
      split
      · rename_i hdialog
        obtain ⟨hacts, hshown, hdesk⟩ := unbindToplevel_acts hf hs.paired id
        have hs' := hs.acts hacts
        have hplace : keepsPlace c.state (.destroyToplevel x) = true := rfl
        have hremoved := hs.acts (removeToplevel_acts hf hs.paired hid hplace)
        have hid' : (c.unbindToplevel w frees id).state.idOf x = some id := by
          rw [hdesk.idOf]
          exact hid
        have hunseen : Unseen (c.unbindToplevel w frees id).state x id :=
          ⟨hid', by rw [hdesk.surfaces]; exact hx, hshown, unbindToplevel_boundViewOf hf hs hid hx hdialog⟩
        exact (h.unbindToplevel hf hk hs id).onState (hunseen.looks hs' hremoved)
      · exact refreshKeyboardFocus_synced w _

omit hf in
theorem Synced.popupDestroyed (h : Synced w c) (hs : Placed c.state) (x : WlSurface) : Synced w (c.popupDestroyed frees x) := by
  have hs' : Placed (c.state.untrackPopup x) := hs.acts (w := w) (.single (.untracked c.state x))
  have huntracked : Synced w (c.onState (State.untrackPopup x)) :=
    h.onState (.of_rest hs hs' rfl rfl rfl fun y => ⟨field_update Surface.toplevelId (by rfl) y, field_update Surface.parent (by rfl) y⟩)
  unfold Seat.popupDestroyed
  dsimp only
  split
  · exact huntracked
  · exact huntracked.submitView hk hs' _

theorem Synced.requestActivation (h : Synced w c) (hs : Placed c.state) (x : WlSurface) {value : String} {token : Token}
    (hfind : c.state.tokens.find? (fun t => t.value == value) = some token) : Synced w (c.requestActivation w frees x token) := by
  unfold Seat.requestActivation
  split
  · exact h
  · rename_i hissued
    split
    · exact h
    · rename_i id hid
      split
      · have hs' : Placed { c.state with tokens := c.state.tokens.filter fun t => t.value ≠ token.value } :=
          hs.acts (w := w) (.single (.tokenDropped _ _))
        exact h.onState (.of_rest hs hs' rfl rfl rfl fun _ => ⟨rfl, rfl⟩)
      · have hs' : Placed (c.state.markActivated id token.value) :=
          hs.acts (w := w) (.single (.tokenUsed _ id token (List.mem_of_find?_eq_some hfind) (by simpa using hissued)))
        have hmarked : Synced w (c.onState (State.markActivated id token.value)) :=
          h.onState (markActivated_looks hs id token.value hs')
        dsimp only
        split
        · exact hmarked.bindWaitingViews hf hk hs'
        · rename_i v _
          split
          · exact hmarked
          · split
            · exact hmarked
            · have hunbound : Placed ((c.onState (State.markActivated id token.value)).unbindView w frees v).state :=
                hs'.acts (unbindView_silent hf v (c.onState (State.markActivated id token.value)))
              exact (hmarked.unbindView hk hs' v).bindWaitingViews hf hk hunbound

theorem Synced.handle (h : Synced w c) (hs : Placed c.state) {e : Event} (hv : c.valid w e = true)
    (hs' : Placed (c.handle w frees e).state) : Synced w (c.handle w frees e) := by
  have hrest {f : State → State} (hs' : Placed (f c.state)) (htoplevels : (f c.state).toplevels = c.state.toplevels)
      (hviews : (f c.state).views = c.state.views) (hfocus : (f c.state).focusedView = c.state.focusedView)
      (hsurfaces : ∀ y, ((f c.state).surfaces y).toplevelId = (c.state.surfaces y).toplevelId ∧
        ((f c.state).surfaces y).parent = (c.state.surfaces y).parent) : Synced w (c.onState f) :=
    h.onState (.of_rest hs hs' htoplevels hviews hfocus hsurfaces)
  cases e with
  | cmd cmd => exact h.handleCmd hf hk hs cmd hs'
  | commit u => exact h.applyUpdate hf hk hs u
  | target x deadline => exact hk c hs h
  | newToplevel x =>
      simp only [Seat.valid, State.valid, Bool.and_eq_true, Bool.not_eq_true'] at hv
      exact h.newToplevel hs hs' hv.1.2
  | destroyToplevel x =>
      have hplace : keepsPlace c.state (.destroyToplevel x) = true := rfl
      have hgone := hs.acts (toplevelDestroyed_acts hf hs.paired x hplace)
      exact (h.toplevelDestroyed hf hk hs (hs.tidy.roles x hv)).onState
        (resetToplevel_looks hgone hs' fun _ hid => toplevelDestroyed_gone hf hs.paired hid)
  | setParent x parent => exact refreshKeyboardFocus_synced w _
  | setAppId x appId | newPopup x parent | getSubsurface x parent | destroySurface x =>
      exact hrest hs' rfl rfl rfl fun y => ⟨field_update Surface.toplevelId (by rfl) y, field_update Surface.parent (by rfl) y⟩
  | destroyPopup x => exact h.popupDestroyed hk hs x
  | destroySubsurface x => exact hrest (f := State.destroySubsurface x) hs' rfl rfl rfl fun _ => ⟨rfl, rfl⟩
  | clientToken => exact hrest (f := State.clientToken w.toWorld) hs' rfl rfl rfl fun _ => ⟨rfl, rfl⟩
  | disconnect client =>
      refine hrest (f := fun s => { s with connected := fun d => if d = client then false else s.connected d }) hs' rfl rfl rfl
        fun _ => ⟨rfl, rfl⟩
  | activate x value =>
      unfold Seat.handle
      dsimp only
      split
      · exact h
      · rename_i token ht
        exact h.requestActivation hf hk hs x ht
  | fence v key => exact h
  | tick => exact hk c hs h

end

/-! ## Runs -/

theorem Synced.step (h : Synced w c) (hs : Placed c.state) (depth : Nat) {op : SeatOp}
    (hg : Guarded (fun s e => keepsPlace s e = true) c op) : Synced w (c.step w depth op) := by
  have hs' : Placed (c.step w depth op).state := hs.acts (step_acts hs.paired hg)
  cases op with
  | event e =>
      unfold Seat.step at hs' ⊢
      dsimp only at hs' ⊢
      split
      · rename_i hv
        rw [if_pos hv] at hs'
        exact h.handle (lets_freed w depth) (lets_keeps w depth) hs hv hs'
      · exact h
  | viewState v state => exact h.grant hs v fun g => { g with windowState := state }
  | viewCapabilities v capabilities => exact h.grant hs v fun g => { g with capabilities }
  | scanoutHint v hint => exact ⟨h.states, h.focus⟩

theorem step_synced (w : SeatWorld) (depth : Nat) {ops : List SeatOp}
    (h : Runs.Meets (Seat.step w depth) (Guarded fun s e => keepsPlace s e = true) {} ops) :
    Placed (run w depth ops).state ∧ Synced w (run w depth ops) := by
  refine h.keeps (P := fun c => Placed c.state ∧ Synced w c) (fun c op hg hi => ?_) ?_
  · exact ⟨hi.1.acts (step_acts hi.1.paired hg), hi.2.step hi.1 depth hg⟩
  · refine ⟨.empty, fun id te hte => ?_, fun _ => rfl⟩
    simp [State.toplevel] at hte

/-- One window is active at most, the one the keyboard goes to: the topmost of the focused view, while that shows
something in the scene. Suspended are those of suspended views. Who sizes a view and who refreshes them all give the
same states. -/
structure Agreed (w : SeatWorld) (c : Seat) : Prop where
  lone : ∀ id id', (c.state.toplevel id).isSome = true → (c.state.toplevel id').isSome = true →
    (c.windows id).pending.activated = true → (c.windows id').pending.activated = true → id = id'
  active : ∀ x, c.focus = some x ↔ ∃ id te, c.state.toplevel id = some te ∧ te.surface = x ∧ (c.windows id).pending.activated = true
  focus : ∀ x, c.focus = some x ↔ ∃ v e, c.state.focusedView = some v ∧ c.state.view v = some e ∧
    e.toplevel.isSome = true ∧ e.suspended = false ∧ c.state.focusWindow v = some x
  suspended : ∀ id te, c.state.toplevel id = some te → ((c.windows id).pending.suspended = true ↔
    ∃ v e, c.state.boundViewOf te.surface = some v ∧ c.state.view v = some e ∧ e.suspended = true)
  configured : ∀ v e id te size p, c.state.view v = some e → e.toplevel = some id → c.state.toplevel id = some te →
    (c.configured w v e id te size p).activated = c.state.activates te.surface ∧
    (c.configured w v e id te size p).suspended = c.state.suspends te.surface

theorem Synced.agreed (h : Synced w c) (hs : Placed c.state) (hw : w.keyboard = true) : c.Agreed w := by
  have hactive {id : ToplevelId} {te : ToplevelEntry} (hte : c.state.toplevel id = some te) :
      (c.windows id).pending.activated = true ↔ c.focus = some te.surface := by
    rw [(h.states id te hte).1, hs.activates_iff, h.focus hw]
  refine ⟨fun id id' hid hid' hact hact' => ?_, fun x => ?_, fun x => ?_, fun id te hte => ?_, fun v e id te size p hv hid hte => ?_⟩
  · obtain ⟨te, hte⟩ := Option.isSome_iff_exists.mp hid
    obtain ⟨te', hte'⟩ := Option.isSome_iff_exists.mp hid'
    rw [hactive hte] at hact
    rw [hactive hte', hact, Option.some.injEq] at hact'
    exact hs.active_unique hte hte' (by rw [← h.focus hw]; exact hact) hact'.symm
  · constructor
    · intro hx
      obtain ⟨v, -, hwindow⟩ := Option.bind_eq_some_iff.mp ((h.focus hw).symm.trans hx)
      obtain ⟨id, te, -, hte, hsurface⟩ := hs.window_live (List.mem_of_getLast? hwindow)
      exact ⟨id, te, hte, hsurface, (hactive hte).mpr (by rw [hsurface]; exact hx)⟩
    · rintro ⟨id, te, hte, rfl, hact⟩
      exact (hactive hte).mp hact
  · rw [h.focus hw, target]
    simp only [Option.bind_eq_some_iff, Option.filter_eq_some_iff, Option.any_eq_true, Bool.not_eq_true']
    constructor
    · rintro ⟨v, ⟨hfocus, e, hv, hsus⟩, hwindow⟩
      refine ⟨v, e, hfocus, hv, ?_, hsus, hwindow⟩
      -- A view with a window shows a toplevel.
      cases hbound : e.toplevel with
      | some id => rfl
      | none =>
          have hroot : c.state.viewRoot v = none := by rw [viewRoot, hv, Option.bind_some, hbound]; rfl
          rw [focusWindow, viewWindows, hroot] at hwindow
          cases hwindow
    · rintro ⟨v, e, hfocus, hv, -, hsus, hwindow⟩
      exact ⟨v, ⟨hfocus, e, hv, hsus⟩, hwindow⟩
  · rw [(h.states id te hte).2, suspends, homeOf]
    simp only [Option.any_eq_true, Option.filter_eq_some_iff]
    constructor
    · rintro ⟨v, ⟨hbound, -⟩, e, hv, hsus⟩
      exact ⟨v, e, hbound, hv, hsus⟩
    · rintro ⟨v, e, hbound, hv, hsus⟩
      exact ⟨v, ⟨hbound, by rw [hv]; rfl⟩, e, hv, hsus⟩
  · exact hs.agree hv hid hte

theorem run_agreed (w : SeatWorld) (depth : Nat) (ops : List SeatOp) (hw : w.keyboard = true)
    (h : Runs.Meets (Seat.step w depth) (Guarded fun s e => keepsPlace s e = true) {} ops) : (run w depth ops).Agreed w := by
  obtain ⟨hs, hsynced⟩ := step_synced w depth h
  exact hsynced.agreed hs hw

/-- A window with a dialog over it, in a view that has the focus and is sized. -/
def dialogRun : List SeatOp :=
  [.event (.newToplevel 10), .event (.commit { main := { surface := 10 } }), .event (.cmd (.viewCreated { uid := 0, id := 1 })),
    .event (.cmd (.focus 1 true)), .event (.newToplevel 11), .event (.setParent 11 (some 10)),
    .event (.commit { main := { surface := 11 } }), .event (.cmd (.viewResized 1 (800, 600)))]

theorem run_agreed_dialog : SeatWorld.granting.keyboard = true ∧
    Runs.Meets (Seat.step .granting 1) (Guarded fun s e => keepsPlace s e = true) {} dialogRun ∧
    (run .granting 1 dialogRun).focus = some 11 ∧ (run .granting 1 dialogRun).Agreed .granting := by
  have hmeets : Runs.Meets (Seat.step .granting 1) (Guarded fun s e => keepsPlace s e = true) {} dialogRun := by decide +kernel
  exact ⟨rfl, hmeets, by decide +kernel, run_agreed .granting 1 dialogRun rfl hmeets⟩

end Seat

end IhsWl
