import IhsWl.Seat.Handlers
import IhsWl.Server.Lemmas.Sound

/-!
# What the handlers do to the links

The links change in acts, as they do on the server; what the handlers tell the clients changes none.
-/

namespace IhsWl

open State

variable {w : SeatWorld} {guard : State → Event → Prop} {s s' : State} {c c' c'' : Seat} {frees : Frees}

/-- Acts one after another. -/
abbrev Acts (w : World) (guard : State → Event → Prop) : State → State → Prop := Relation.ReflTransGen (Act w guard)

/-- What every act keeps between paired states, acts keep. -/
theorem Acts.keeps {w : World} {P : State → Prop} (hact : ∀ {s s'}, Paired s → P s → Act w guard s s' → P s')
    (h : Acts w guard s s') (hs : Paired s ∧ P s) : Paired s' ∧ P s' := by
  induction h with
  | refl => exact hs
  | tail _ ha ih => exact ⟨ih.1.act ha, hact ih.1 ih.2 ha⟩

theorem Acts.paired {w : World} (h : Acts w guard s s') (hp : Paired s) : Paired s' :=
  (h.keeps (P := fun _ => True) (fun _ _ _ => trivial) ⟨hp, trivial⟩).1

theorem SameLinks.acts {w : World} (h : SameLinks s s') : Acts w guard s s' := .single (.same s s' h)

/-! ## What is told -/

namespace Seat

/-- Only what is told of the states of windows changed. -/
structure Tells (c c' : Seat) : Prop where
  state : c'.state = c.state
  scanout : c'.scanout = c.scanout

theorem Tells.refl (c : Seat) : Tells c c := ⟨rfl, rfl⟩

theorem Tells.trans (h : Tells c c') (h' : Tells c' c'') : Tells c c'' :=
  ⟨h'.state.trans h.state, h'.scanout.trans h.scanout⟩

theorem withPending_tells (id : ToplevelId) (f : Pending → Pending) (c : Seat) : Tells c (c.withPending id f) := ⟨rfl, rfl⟩

theorem sendInitial_tells (id : ToplevelId) (c : Seat) : Tells c (c.sendInitial id) := ⟨rfl, rfl⟩

theorem syncToplevel_tells (c : Seat) (id : ToplevelId) : Tells c (c.syncToplevel id) := by
  unfold syncToplevel
  split
  · exact .refl c
  · exact withPending_tells id _ c

theorem syncStates_tells (c : Seat) : Tells c c.syncStates := by
  have hfold (ids : List ToplevelId) (c : Seat) : Tells c (ids.foldl syncToplevel c) := by
    induction ids generalizing c with
    | nil => exact .refl c
    | cons id ids ih => exact (syncToplevel_tells c id).trans (ih _)
  exact hfold _ c

theorem refreshKeyboardFocus_tells (w : SeatWorld) (c : Seat) : Tells c (c.refreshKeyboardFocus w) := by
  unfold refreshKeyboardFocus
  dsimp only
  split
  · exact ⟨(syncStates_tells c).state, (syncStates_tells c).scanout⟩
  · exact syncStates_tells c

theorem configureView_tells (w : SeatWorld) (v : ViewId) (c : Seat) : Tells c (c.configureView w v) := by
  unfold configureView
  split
  · exact .refl c
  · split
    · split
      · exact .refl c
      · exact withPending_tells _ _ c
    · exact .refl c

@[simp] theorem refreshKeyboardFocus_state (w : SeatWorld) (c : Seat) : (c.refreshKeyboardFocus w).state = c.state :=
  (refreshKeyboardFocus_tells w c).state

@[simp] theorem refreshKeyboardFocus_scanout (w : SeatWorld) (c : Seat) :
    (c.refreshKeyboardFocus w).scanout = c.scanout :=
  (refreshKeyboardFocus_tells w c).scanout

@[simp] theorem configureView_state (w : SeatWorld) (v : ViewId) (c : Seat) : (c.configureView w v).state = c.state :=
  (configureView_tells w v c).state

@[simp] theorem configureView_scanout (w : SeatWorld) (v : ViewId) (c : Seat) :
    (c.configureView w v).scanout = c.scanout :=
  (configureView_tells w v c).scanout

@[simp] theorem onState_state (f : State → State) (c : Seat) : (c.onState f).state = f c.state := rfl

@[simp] theorem onState_scanout (f : State → State) (c : Seat) : (c.onState f).scanout = c.scanout := rfl

/-! ## Commits that are let through -/

/-- Commits were applied: toplevels were mapped and views that waited bound, as on the server. -/
structure Freed (w : World) (guard : State → Event → Prop) (c c' : Seat) : Prop where
  acts : Acts w guard c.state c'.state
  later : Later c.state c'.state
  scanout : c'.scanout = c.scanout

theorem Freed.refl {w : World} (c : Seat) : Freed w guard c c := ⟨.refl, .refl _, rfl⟩

theorem Freed.trans {w : World} (h : Freed w guard c c') (h' : Freed w guard c' c'') : Freed w guard c c'' :=
  ⟨h.acts.trans h'.acts, h.later.trans h'.later, h'.scanout.trans h.scanout⟩

theorem Tells.freed {w : World} (h : Tells c c') : Freed w guard c c' := by
  refine ⟨?_, ?_, h.scanout⟩
  · rw [h.state]
  · rw [h.state]
    exact .refl _

/-- A move of the links, whatever is told before or after. -/
theorem Freed.move {w : World} {paid taken : Set Debt} (h : Move w c.state paid taken c'.state)
    (hs : c'.scanout = c.scanout) : Freed w guard c c' := by
  refine ⟨.single ?_, h.later, hs⟩
  generalize c'.state = s' at h
  cases h with
  | pace h => exact .same _ _ h.links
  | mapped x id t hid ht hm => exact .mapped _ x id t hid ht hm
  | linked v e t hv he hp => exact .linked _ v e t hv he hp

section

variable (hf : ∀ c, Freed w.toWorld guard c (frees c))

include hf

theorem submitView_freed (v : ViewId) (c : Seat) : Freed w.toWorld guard c (c.submitView frees v) := by
  unfold submitView
  split
  · exact .refl c
  · exact hf c

theorem tryBindView_freed (c : Seat) (v : ViewId) : Freed w.toWorld guard c (c.tryBindView w frees v) := by
  unfold tryBindView
  cases hv : c.state.view v with
  | none => exact .refl c
  | some e =>
      dsimp only
      split
      · exact .refl c
      · rename_i hbound
        cases hp : c.state.pick w.toWorld e.handle.params with
        | none => exact .refl c
        | some t =>
            have hlinked : Freed w.toWorld guard c (c.onState (State.link v t)) :=
              .move (.linked c.state v e t hv (by simpa using hbound) hp) rfl
            have htold := (configureView_tells w v (c.onState (State.link v t))).trans (refreshKeyboardFocus_tells w _)
            exact (hlinked.trans htold.freed).trans (submitView_freed hf v _)

theorem bindWaitingViews_freed (c : Seat) : Freed w.toWorld guard c (c.bindWaitingViews w frees) := by
  have hfold (vs : List ViewId) (c : Seat) : Freed w.toWorld guard c (vs.foldl (tryBindView w frees) c) := by
    induction vs generalizing c with
    | nil => exact .refl c
    | cons v vs ih => exact (tryBindView_freed hf c v).trans (ih _)
  exact hfold _ c

theorem dropFrames_freed (v : ViewId) (c : Seat) : Freed w.toWorld guard c (c.dropFrames frees v) := by
  unfold dropFrames
  split
  · exact .refl c
  · exact hf c

theorem toplevelCommit_freed (x : WlSurface) (c : Seat) : Freed w.toWorld guard c (c.toplevelCommit w frees x) := by
  unfold toplevelCommit
  cases hid : c.state.idOf x with
  | none => exact .refl c
  | some id =>
      dsimp only
      cases ht : c.state.toplevel id with
      | none => exact .refl c
      | some t =>
          dsimp only
          have hsent : Freed w.toWorld guard c (c.sendInitial id) := (sendInitial_tells id c).freed
          split
          · exact hsent
          · rename_i hm
            have hmapped : Freed w.toWorld guard (c.sendInitial id) ((c.sendInitial id).onState (State.markMapped id)) :=
              .move (.mapped c.state x id t hid ht (by simpa using hm)) rfl
            exact ((hsent.trans hmapped).trans (bindWaitingViews_freed hf _)).trans
              (refreshKeyboardFocus_tells w _).freed

theorem commit_freed (sync : Bool) (x : WlSurface) (c : Seat) : Freed w.toWorld guard c (c.commit w frees sync x) := by
  unfold commit
  split
  · exact .refl c
  · dsimp only
    split
    · exact (toplevelCommit_freed hf x c).trans (submitView_freed hf _ _)
    · exact (toplevelCommit_freed hf x c).trans (hf _)

theorem applyCommit_freed (main : Commit) (sync : Bool) (c : Seat) (of : Commit) :
    Freed w.toWorld guard c (c.applyCommit w frees main sync of) := by
  unfold applyCommit
  split
  · exact commit_freed hf _ _ c
  · exact .refl c

theorem applyUpdate_freed (c : Seat) (u : Update) : Freed w.toWorld guard c (c.applyUpdate w frees u) := by
  have hfold (cs : List Commit) (c : Seat) : Freed w.toWorld guard c (cs.foldl (applyCommit w frees u.main true) c) := by
    induction cs generalizing c with
    | nil => exact .refl c
    | cons of cs ih => exact (applyCommit_freed hf u.main true c of).trans (ih _)
  exact (hfold u.synced c).trans (applyCommit_freed hf u.main false _ u.main)

end

end Seat

theorem lets_freed (w : SeatWorld) (depth : Nat) (c : Seat) : Seat.Freed w.toWorld guard c (lets w depth c) := by
  induction depth generalizing c with
  | zero => exact .refl c
  | succ depth ih =>
      have hasked : Seat.Freed w.toWorld guard c (c.onState State.ask) := .move (.pace (.asked c.state)) rfl
      have hfold (us : List Update) (c : Seat) :
          Seat.Freed w.toWorld guard c (us.foldl (Seat.applyUpdate w (lets w depth)) c) := by
        induction us generalizing c with
        | nil => exact .refl c
        | cons u us ihu => exact (Seat.applyUpdate_freed ih c u).trans (ihu _)
      exact hasked.trans (hfold _ _)

namespace Seat

/-! ## Handlers -/

section

variable (hf : ∀ c, Freed w.toWorld guard c (frees c))

include hf

/-- A view is unbound once its frames are dropped, and its feedback was forgotten before. -/
theorem unbindView_spec (v : ViewId) (c : Seat) : ∃ s, Acts w.toWorld guard c.state s ∧ Later c.state s ∧
    (c.unbindView w frees v).state = s.unlink v ∧
    (c.unbindView w frees v).scanout = c.scanout.forgetScanout w.caps c.state v := by
  have hfreed := dropFrames_freed hf v { c with scanout := c.scanout.forgetScanout w.caps c.state v }
  refine ⟨_, hfreed.acts, hfreed.later, ?_, ?_⟩
  · unfold unbindView
    dsimp only
    split
    · rename_i hv
      rw [State.unlink, hv]
    · rw [refreshKeyboardFocus_state, onState_state]
  · unfold unbindView
    dsimp only
    split
    · exact hfreed.scanout
    · rw [refreshKeyboardFocus_scanout, onState_scanout]
      exact hfreed.scanout

theorem unbindView_acts (v : ViewId) (c : Seat) {es : List Effect} (hes : ∀ x ∈ es, x = .posted .closed v) :
    Acts w.toWorld guard c.state ((c.unbindView w frees v).state.log es) := by
  obtain ⟨s, hacts, -, hstate, -⟩ := unbindView_spec hf v c
  rw [hstate]
  exact hacts.tail (.unlinked s v es hes)

/-- As `unbindView_acts`, when the view is told nothing. -/
theorem unbindView_silent (v : ViewId) (c : Seat) : Acts w.toWorld guard c.state (c.unbindView w frees v).state := by
  have hacts : Acts w.toWorld guard c.state ((c.unbindView w frees v).state.log []) := unbindView_acts hf v c (by simp)
  rwa [State.log, List.append_nil] at hacts

theorem unbindView_shows (v : ViewId) (c : Seat) : (c.unbindView w frees v).state.shows v = none := by
  obtain ⟨s, -, -, hstate, -⟩ := unbindView_spec hf v c
  rw [hstate, shows_unlink, if_pos rfl]

theorem unbindView_desk (v : ViewId) (c : Seat) : SameDesk c.state (c.unbindView w frees v).state := by
  obtain ⟨s, -, hlater, hstate, -⟩ := unbindView_spec hf v c
  rw [hstate]
  exact hlater.desk.trans (unlink_desk s v)

theorem viewCreated_acts (view : ViewHandle) (c : Seat) : Acts w.toWorld guard c.state (c.viewCreated w frees view).state := by
  unfold viewCreated
  dsimp only
  refine .trans ?_ (tryBindView_freed hf _ view.id).acts
  split
  · exact (unbindView_silent hf view.id c).tail (.inserted _ view (unbindView_shows hf view.id c))
  · rename_i hv
    refine .single (.inserted c.state view ?_)
    rw [Bool.not_eq_true, Option.isSome_eq_false_iff, Option.isNone_iff_eq_none] at hv
    rw [shows, hv]
    rfl

theorem viewDisposed_acts (v : ViewId) (c : Seat) : Acts w.toWorld guard c.state (c.viewDisposed w frees v).state := by
  exact (unbindView_silent hf v c).tail (.erased _ v (unbindView_shows hf v c))

omit hf in
/-- A view's size is told to its toplevel. -/
theorem resize_freed (v : ViewId) {f : ViewEntry → ViewEntry} (hlinks : ∀ e, (f e).binding = e.binding) (c : Seat) :
    Freed w.toWorld guard c ((c.onState (State.modifyView · v f)).configureView w v) := by
  have hsame : SameLinks c.state (c.state.modifyView v f) := .modifyView v hlinks
  have hsized : Freed w.toWorld guard c (c.onState (State.modifyView · v f)) := ⟨hsame.acts, hsame.later, rfl⟩
  exact hsized.trans (configureView_tells w v _).freed

theorem viewResized_freed (v : ViewId) (size : Int × Int) (c : Seat) :
    Freed w.toWorld guard c (c.viewResized w frees v size) := by
  unfold viewResized
  split
  · exact .refl c
  · have hsized : Freed w.toWorld guard c _ := resize_freed v (f := fun e => { e with size := some size }) (fun _ => rfl) c
    dsimp only
    split
    · exact hsized.trans (submitView_freed hf v _)
    · exact hsized

theorem viewRequestSize_freed (v : ViewId) (size : Option (Int × Int)) (c : Seat) :
    Freed w.toWorld guard c (c.viewRequestSize w frees v size) := by
  unfold viewRequestSize
  split
  · exact .refl c
  · split
    · exact .refl c
    · have hsized : Freed w.toWorld guard c _ :=
        resize_freed v (f := fun e => { e with requested := size }) (fun _ => rfl) c
      exact hsized.trans (submitView_freed hf v _)

theorem viewSuspended_acts (v : ViewId) (suspended : Bool) (c : Seat) :
    Acts w.toWorld guard c.state (c.viewSuspended w frees v suspended).state := by
  unfold viewSuspended
  split
  · exact .refl
  · refine .trans ?_ (hf _).acts
    have hset : Acts w.toWorld guard c.state (c.state.setSuspended w.toWorld v suspended) :=
      (setSuspended_links c.state v suspended).acts
    split
    · exact hset.tail (.dismissed _ v)
    · exact hset

omit hf in
theorem focusInput_acts (v : ViewId) (focused : Bool) (c : Seat) :
    Acts w.toWorld guard c.state (c.focusInput w v focused).state := by
  have hfocus (focus : Option ViewId) : Acts w.toWorld guard c.state { c.state with focusedView := focus } :=
    SameLinks.acts (.of_data rfl)
  unfold focusInput
  split
  · split
    · exact .refl
    · rw [refreshKeyboardFocus_state]
      exact hfocus _
  · split
    · rw [refreshKeyboardFocus_state]
      exact (hfocus none).tail (.dismissed _ v)
    · exact .refl

theorem handleCmd_acts (cmd : Cmd) (c : Seat) : Acts w.toWorld guard c.state (c.handleCmd w frees cmd).state := by
  cases cmd with
  | viewCreated view => exact viewCreated_acts hf view c
  | viewDisposed v => exact viewDisposed_acts hf v c
  | viewResized v size => exact (viewResized_freed hf v size c).acts
  | viewRequestSize v size => exact (viewRequestSize_freed hf v size c).acts
  | presented v r => exact (hf c).acts
  | viewSuspended v suspended =>
      rw [handleCmd, refreshKeyboardFocus_state]
      exact viewSuspended_acts hf v suspended c
  | focus v focused => exact focusInput_acts v focused c
  | issueToken => exact .single (.tokenIssued _)

theorem unbindToplevel_acts (hp : Paired c.state) (id : ToplevelId) :
    Acts w.toWorld guard c.state (c.unbindToplevel w frees id).state ∧
      (c.unbindToplevel w frees id).state.shownIn id = none ∧ SameDesk c.state (c.unbindToplevel w frees id).state := by
  unfold unbindToplevel
  cases hv : (c.state.toplevel id).bind ToplevelEntry.view with
  | none => exact ⟨.refl, hv, .refl _⟩
  | some v =>
      refine ⟨unbindView_acts hf v c (by simp), ?_, (unbindView_desk hf v c).trans ⟨rfl, rfl, rfl, rfl, rfl, rfl⟩⟩
      obtain ⟨s, -, hlater, hstate, -⟩ := unbindView_spec hf v c
      change (c.unbindView w frees v).state.shownIn id = none
      rw [hstate, shownIn_unlink, if_pos (hlater.shows v id ((hp v id).mpr hv))]

/-- What is left of a toplevel that goes, before a dialog's view is shown again. -/
theorem removeToplevel_acts {s₀ : State} (hp : Paired c.state) {x : WlSurface} {id : ToplevelId} (hid : c.state.idOf x = some id)
    (hg : guard s₀ (.destroyToplevel x)) :
    Acts w.toWorld guard c.state ((c.unbindToplevel w frees id).state.removeToplevel id) := by
  obtain ⟨hacts, hnone, hdesk⟩ := unbindToplevel_acts hf hp id
  exact hacts.tail (.removed _ s₀ x id (by rw [hdesk.idOf]; exact hid) hnone hg)

/-- A dialog's view is shown again once the dialog is gone. -/
theorem toplevelDestroyed_freed {x : WlSurface} {id : ToplevelId} (hid : c.state.idOf x = some id) :
    Freed w.toWorld guard ((c.unbindToplevel w frees id).onState (State.removeToplevel id)) (c.toplevelDestroyed w frees x) := by
  unfold toplevelDestroyed
  rw [hid]
  dsimp only
  split
  · exact .refl _
  · exact (submitView_freed hf _ _).trans (refreshKeyboardFocus_tells w _).freed

/-- No toplevel is left under the id of one that goes. -/
theorem toplevelDestroyed_gone (hp : Paired c.state) {x : WlSurface} {id : ToplevelId}
    (hid : (c.toplevelDestroyed w frees x).state.idOf x = some id) : (c.toplevelDestroyed w frees x).state.toplevel id = none := by
  have hids : (c.toplevelDestroyed w frees x).state.idOf = c.state.idOf := by
    cases hx : c.state.idOf x with
    | none => unfold toplevelDestroyed; rw [hx]
    | some id₀ => exact (toplevelDestroyed_freed hf hx).later.desk.idOf.trans (unbindToplevel_acts hf hp id₀).2.2.idOf
  have hrel := (toplevelDestroyed_freed hf (hids ▸ hid)).later.toplevel id
  have hgone : ((c.unbindToplevel w frees id).state.removeToplevel id).toplevel id = none := by
    simp [State.removeToplevel, State.toplevel]
  rw [onState_state, hgone] at hrel
  cases ht : (c.toplevelDestroyed w frees x).state.toplevel id with
  | none => rfl
  | some te => rw [ht] at hrel; cases hrel

theorem toplevelDestroyed_acts {s₀ : State} (hp : Paired c.state) (x : WlSurface) (hg : guard s₀ (.destroyToplevel x)) :
    Acts w.toWorld guard c.state (c.toplevelDestroyed w frees x).state := by
  cases hid : c.state.idOf x with
  | none =>
      have hsame : c.toplevelDestroyed w frees x = c := by unfold toplevelDestroyed; rw [hid]
      rw [hsame]
  | some id => exact (removeToplevel_acts hf hp hid hg).trans (toplevelDestroyed_freed hf hid).acts

theorem destroyToplevel_acts {s₀ : State} (hp : Paired c.state) (x : WlSurface) (hg : guard s₀ (.destroyToplevel x)) :
    Acts w.toWorld guard c.state ((c.toplevelDestroyed w frees x).state.resetToplevel x) :=
  (toplevelDestroyed_acts hf hp x hg).tail (.reset _ x fun _ hid => toplevelDestroyed_gone hf hp hid)

theorem parentChanged_freed (c : Seat) : Freed w.toWorld guard c (c.parentChanged w frees) := by
  have hfold (vs : List ViewId) (c : Seat) : Freed w.toWorld guard c (vs.foldl (fun c v =>
      if (c.state.view v).any fun e => e.toplevel.isSome then c.submitView frees v else c) c) := by
    induction vs generalizing c with
    | nil => exact .refl c
    | cons v vs ih =>
        refine .trans ?_ (ih _)
        dsimp only
        split
        · exact submitView_freed hf v c
        · exact .refl c
  exact (hfold _ c).trans (refreshKeyboardFocus_tells w _).freed

theorem popupDestroyed_freed (x : WlSurface) (c : Seat) :
    Freed w.toWorld guard (c.onState (State.untrackPopup x)) (c.popupDestroyed frees x) := by
  unfold popupDestroyed
  dsimp only
  split
  · exact .refl _
  · exact submitView_freed hf _ _

theorem requestActivation_acts (x : WlSurface) {value : String} {token : Token} (c : Seat)
    (hfind : c.state.tokens.find? (fun t => t.value == value) = some token) :
    Acts w.toWorld guard c.state (c.requestActivation w frees x token).state := by
  unfold requestActivation
  split
  · exact .refl
  · rename_i hissued
    split
    · exact .refl
    · rename_i id hid
      split
      · exact .single (.tokenDropped _ _)
      · rename_i t ht
        have hmarked : Acts w.toWorld guard c.state (c.state.markActivated id token.value) :=
          .single (.tokenUsed _ id token (List.mem_of_find?_eq_some hfind) (by simpa using hissued))
        refine hmarked.trans ?_
        dsimp only
        split
        · exact (bindWaitingViews_freed hf (c.onState (State.markActivated id token.value))).acts
        · rename_i v _
          split
          · exact .refl
          · split
            · exact .refl
            · refine .trans ?_ (bindWaitingViews_freed hf _).acts
              exact unbindView_silent hf v (c.onState (State.markActivated id token.value))

theorem handle_acts (hp : Paired c.state) {e : Event} (hv : c.valid w e = true) (hg : guard c.state e) :
    Acts w.toWorld guard c.state (c.handle w frees e).state := by
  cases e with
  | cmd cmd => exact handleCmd_acts hf cmd c
  | commit u => exact (applyUpdate_freed hf c u).acts
  | target x deadline => exact (hf c).acts
  | newToplevel x =>
      simp only [Seat.valid, State.valid, Bool.and_eq_true, Bool.or_eq_true, Bool.not_eq_true', beq_iff_eq] at hv
      exact .single (.made _ x hv.1.2 hv.2 hg)
  | destroyToplevel x => exact destroyToplevel_acts hf hp x hg
  | setParent x parent =>
      simp only [Seat.valid, State.valid, Bool.and_eq_true] at hv
      refine .trans (.single (.parentSet _ x parent hv.1 (fun p hpar => ?_) hg)) (parentChanged_freed hf (c.onState (State.setParent x parent))).acts
      have hlive := hv.2
      rw [hpar] at hlive
      simpa using hlive
  | setAppId x appId => exact .single (.named _ x appId hv)
  | newPopup x parent =>
      simp only [Seat.valid, State.valid, Bool.and_eq_true, Bool.or_eq_true, beq_iff_eq, Option.isNone_iff_eq_none] at hv
      obtain ⟨⟨⟨⟨-, hpop⟩, hrole⟩, hclient⟩, hlive⟩ := hv
      exact .single (.popupMade _ x parent hpop hrole hclient hlive)
  | destroyPopup x => exact .trans (.single (.untracked _ x)) (popupDestroyed_freed hf x c).acts
  | getSubsurface x parent =>
      simp only [Seat.valid, State.valid, Bool.and_eq_true, Bool.or_eq_true, beq_iff_eq, Option.isNone_iff_eq_none,
        bne_iff_ne] at hv
      obtain ⟨⟨⟨⟨-, hclient⟩, hsub⟩, -⟩, hrole⟩ := hv
      exact .single (.subsurfaceMade _ x parent hclient hsub hrole)
  | destroySubsurface x => exact .single (.subsurfaceGone _ x)
  | destroySurface x =>
      simp only [Seat.valid, State.valid, Bool.and_eq_true, Bool.not_eq_true'] at hv
      exact .single (.surfaceGone _ x hv.1.2)
  | clientToken => exact .single (.tokenMade _)
  | activate x value =>
      unfold handle
      dsimp only
      split
      · exact .refl
      · rename_i token ht
        exact requestActivation_acts hf x c ht
  | disconnect client => exact .single (.disconnected _ client)
  | fence v key => exact .refl
  | tick => exact (hf c).acts

end

/-! ## Runs -/

/-- The event of an op meets the guard. -/
def Guarded (guard : State → Event → Prop) (c : Seat) : SeatOp → Prop
  | .event e => guard c.state e
  | _ => True

instance [∀ s e, Decidable (guard s e)] (c : Seat) : (op : SeatOp) → Decidable (Guarded guard c op)
  | .event e => inferInstanceAs (Decidable (guard c.state e))
  | .viewState _ _ | .viewCapabilities _ _ | .scanoutHint _ _ => .isTrue trivial

theorem grant_tells (w : SeatWorld) (v : ViewId) (f : Grants → Grants) (c : Seat) : Tells c (c.grant w v f) := by
  unfold grant
  split
  · exact .refl c
  · exact ⟨configureView_state w v _, configureView_scanout w v _⟩

theorem step_acts {depth : Nat} (hp : Paired c.state) {op : SeatOp} (hg : Guarded guard c op) :
    Acts w.toWorld guard c.state (c.step w depth op).state := by
  cases op with
  | event e =>
      unfold step
      dsimp only
      split
      · rename_i hv
        exact handle_acts (lets_freed w depth) hp hv hg
      · exact .refl
  | viewState v state =>
      have htells := grant_tells w v (fun g => { g with windowState := state }) c
      rw [step, htells.state]
  | viewCapabilities v capabilities =>
      have htells := grant_tells w v (fun g => { g with capabilities }) c
      rw [step, htells.state]
  | scanoutHint v hint => exact .refl

end Seat

end IhsWl
