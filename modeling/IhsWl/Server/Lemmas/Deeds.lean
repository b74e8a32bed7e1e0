import IhsWl.Lib.Runs
import IhsWl.Server.Acts
import IhsWl.Server.Deeds

/-!
# Every handler is a run of deeds

Whatever a handler does, it leaves no more owed than `unpaid` says.
-/

namespace IhsWl

open State

variable {w : World} {guard : State → Event → Prop} {s s' : State} {D E : Set Debt}

/-! ## Deeds and debts -/

theorem Settles.deeds (h : Settles w s D s' E) : Deeds w guard s D s' E := h.map .move

theorem Pace.deeds {paid taken : Set Debt} (h : Pace w s paid taken s') (hsub : D \ paid ∪ taken ⊆ E) :
    Deeds w guard s D s' E := .one (.move (.pace h)) hsub

/-- A deed that owes nothing. -/
theorem Deed.free (h : Deed w guard s ∅ ∅ s') : Deeds w guard s D s' D := .one h free_sub

theorem Deed.takes {taken : Set Debt} (h : Deed w guard s ∅ taken s') : Deeds w guard s D s' (taken ∪ D) := by
  refine .one h ?_
  rintro d (⟨hd, -⟩ | hd)
  · exact Or.inr hd
  · exact Or.inl hd

theorem Quiet.deeds (h : Quiet s s') : Deeds w guard s D s' D := Pace.deeds (.quiet s s' h) free_sub

theorem clearFrames_links (s : State) (v : ViewId) : SameLinks s (s.clearFrames v).2 := by
  unfold clearFrames
  split
  · exact .refl s
  · rename_i e _
    refine SameLinks.trans (SameLinks.modifyView v ?_) (.log (FramesOp.linking_call e.frames .clear))
    exact fun _ => rfl

theorem takeReport_links (s : State) (v : ViewId) (r : Report) : SameLinks s (s.takeReport v r).2 := by
  unfold takeReport
  split
  · exact .refl s
  · rename_i e _
    refine SameLinks.trans (SameLinks.modifyView v ?_) (.log fun x hx => ?_)
    · exact fun _ => rfl
    · rcases List.mem_append.mp hx with hx | hx
      · obtain ⟨held, -, rfl⟩ := List.mem_map.mp hx
        rfl
      · exact FramesOp.linking_call e.frames (.presented r) x hx

namespace State

/-! ## Unbinding -/

/-- A view that shows nothing has no client to wake. -/
theorem dropFrames_hidden {u : Unblock} {v : ViewId} (hv : s.shows v = none) :
    s.dropFrames w u v = (s.clearFrames v).2 := by
  have hclient : s.viewClient w v = none := by
    rw [viewClient, viewRoot]
    change ((((s.shows v).bind s.toplevel).map _).bind _) = none
    rw [hv]
    rfl
  unfold dropFrames
  rw [hclient]
  dsimp only
  split
  · rename_i hsome
    cases hsome
  · rfl

variable {u : Unblock} (hu : Wakes w u)

include hu

theorem dropFrames_shows (s : State) (v : ViewId) : (s.dropFrames w u v).shows v = s.shows v := by
  have hcleared := (clearFrames_links s v).shows
  cases hv : s.shows v with
  | none => rw [dropFrames_hidden hv, hcleared, hv]
  | some t => exact ((woken_settles hu (D := ∅) _ _).later).shows v t (by rw [hcleared]; exact hv)

theorem dropFrames_deeds (v : ViewId) : Deeds w guard s D (s.dropFrames w u v) (insert (.offer v) D) := by
  refine .trans (Deed.takes (.framesCleared s v)) (Settles.deeds ?_)
  refine .trans (.more ?_) (woken_settles hu _ (s.viewClient w v))
  rintro d ((rfl | hd) | hd)
  · exact Or.inr (Or.inl rfl)
  · exact Or.inl hd
  · exact Or.inr (Or.inr hd)

/-- The view shows nothing more, its toplevel is free, and it is told `es`. -/
theorem unbindView_deeds (v : ViewId) {es : List Effect}
    (hes : es = [] ∨ (s.shows v).isSome = true ∧ es = [.posted .closed v]) :
    Deeds w guard s D ((s.unbindView w u v).log es) (letGoDebts s v es ∪ D) := by
  have hshows : ((s.dropFrames w u v).clearView w v).shows v = s.shows v := by
    rw [(clearView_quiet (w := w) v).links.shows, dropFrames_shows hu]
  have hdebts : letGoDebts ((s.dropFrames w u v).clearView w v) v es = letGoDebts s v es := by
    rw [letGoDebts, hshows, letGoDebts]
  refine .trans (dropFrames_deeds hu v) (.trans (clearView_quiet (w := w) v).deeds ?_)
  refine .trans (Deed.takes (.unlinked _ v es (by rw [hshows]; exact hes))) ?_
  have hnone : ((s.unbindView w u v).log es).viewRoot v = none := by
    rw [viewRoot]
    change ((((s.unbindView w u v).shows v).bind _).map _) = none
    rw [unbindView, shows_unlink, if_pos rfl]
    rfl
  refine Pace.deeds (.unseen _ v hnone) ?_
  rw [hdebts]
  rintro d (⟨hd | rfl | hd, hne⟩ | hd)
  · exact Or.inl hd
  · exact absurd rfl hne
  · exact Or.inr hd
  · cases hd

/-- As `unbindView_deeds`, when the view is told nothing. -/
theorem unbindView_silent (v : ViewId) : Deeds w guard s D (s.unbindView w u v) (letGoDebts s v [] ∪ D) := by
  have h : Deeds w guard s D ((s.unbindView w u v).log []) (letGoDebts s v [] ∪ D) :=
    unbindView_deeds hu v (Or.inl rfl)
  rwa [log, List.append_nil] at h

/-! ## Commands -/

theorem tryBindView_deeds (v : ViewId) : Deeds w guard s (insert (.bind v) D) (s.tryBindView w u v) D :=
  (tryBindView_settles hu v).deeds

theorem submitView_deeds (v : ViewId) : Deeds w guard s D (s.submitView w u v) D :=
  Settles.deeds (.trans (.more (Set.subset_insert (.offer v) D)) (submitView_settles hu v))

theorem viewCreated_deeds (s : State) (view : ViewHandle) (hg : guard s (.cmd (.viewCreated view))) :
    Deeds w guard s ∅ (s.viewCreated w u view) {d | ∃ t, s.shows view.id = some t ∧ d = .spare t} := by
  unfold viewCreated
  dsimp only
  split
  · have hnone : (s.unbindView w u view.id).shows view.id = none := by
      rw [unbindView, shows_unlink, if_pos rfl]
    refine .trans (unbindView_silent hu view.id) (.trans (.one (.inserted _ s view hnone hg) ?_)
      (tryBindView_deeds hu view.id))
    rintro d (⟨(rfl | hd | ⟨-, rfl⟩) | hd, hne⟩ | hd)
    · exact Or.inl rfl
    · exact Or.inr hd
    · exact absurd rfl hne
    · cases hd
    · exact Or.inl hd
  · rename_i hv
    have hnone : s.shows view.id = none := by
      rw [shows, Option.not_isSome_iff_eq_none.mp hv]
      rfl
    refine .trans (.one (.inserted s s view hnone hg) ?_) (tryBindView_deeds hu view.id)
    rintro d (⟨hd, -⟩ | hd)
    · cases hd
    · exact Or.inl hd

theorem viewDisposed_deeds (s : State) (v : ViewId) (hg : guard s (.cmd (.viewDisposed v))) :
    Deeds w guard s ∅ (s.viewDisposed w u v) {d | ∃ t, s.shows v = some t ∧ d = .spare t} := by
  have hnone : (s.unbindView w u v).shows v = none := by rw [unbindView, shows_unlink, if_pos rfl]
  refine .trans (unbindView_silent hu v) (.one (.erased _ s v hnone hg) ?_)
  rintro d (⟨(rfl | hd | ⟨-, rfl⟩) | hd, hne⟩ | hd)
  · exact absurd (Or.inl rfl) hne
  · exact hd
  · exact absurd (Or.inr rfl) hne
  · cases hd
  · cases hd

theorem refitView_deeds (s : State) (v : ViewId) : Deeds w guard s D (s.refitView w u v) D := by
  unfold refitView
  split
  · exact .refl
  · split
    · exact submitView_deeds hu v
    · exact .refl

theorem viewResized_deeds (s : State) (v : ViewId) (size : Int × Int) :
    Deeds w guard s D (s.viewResized w u v size) D := by
  unfold viewResized
  split
  · exact .refl
  · have hq : Quiet s (s.modifyView v fun e => { e with size := some size }) := .modifyView v fun _ => rfl
    dsimp only
    split
    · exact .trans hq.deeds (refitView_deeds hu _ v)
    · exact hq.deeds

theorem viewRequestSize_deeds (s : State) (v : ViewId) (size : Option (Int × Int)) :
    Deeds w guard s D (s.viewRequestSize w u v size) D := by
  unfold viewRequestSize
  split
  · exact .refl
  · split
    · exact .refl
    · have hq : Quiet s (s.modifyView v fun e => { e with requested := size }) := .modifyView v fun _ => rfl
      exact .trans hq.deeds (refitView_deeds hu _ v)

omit hu in
/-- The first tree of a scene is the toplevel shown. -/
theorem viewTrees_head (s : State) (v : ViewId) : (s.viewTrees v).head? = s.viewRoot v := by
  have hfold : ∀ (root x : WlSurface) (ts : List ToplevelEntry) (ws : List WlSurface),
      (ts.foldl (s.addDialog root) (x :: ws)).head? = some x := by
    intro root x ts
    induction ts with
    | nil => exact fun _ => rfl
    | cons t ts ih =>
        intro ws
        rw [List.foldl_cons]
        unfold addDialog
        split
        · exact ih ws
        · split
          · exact ih ws
          · split
            · exact ih (ws ++ [t.surface])
            · exact ih ws
  unfold viewTrees viewWindows
  cases s.viewRoot v with
  | none => rfl
  | some root =>
      have h := hfold root root (s.toplevels.byId.keys.filterMap s.toplevel) []
      change (((s.toplevels.byId.keys.filterMap s.toplevel).foldl (s.addDialog root) [root]).flatMap _).head? = _
      cases hws : (s.toplevels.byId.keys.filterMap s.toplevel).foldl (s.addDialog root) [root] with
      | nil => rw [hws] at h; cases h
      | cons x ws =>
          rw [hws] at h
          cases h
          rfl

theorem framePresented_deeds (s : State) (v : ViewId) (r : Report) :
    Deeds w guard s D (s.framePresented w u v r) D := by
  unfold framePresented
  dsimp only
  split
  · exact (Deed.clocked s r).free
  · refine .trans (Deed.clocked s r).free ?_
    generalize ({ s with clock := s.clock.update r.ustNs r.refreshNs } : State) = t
    refine .trans (Deed.takes (.reported t v r)) ?_
    have hclient : t.viewClient w v = ((t.takeReport v r).2.viewTrees v).head?.bind
        (((t.takeReport v r).2.sendViewCallbacks w v r.ustNs).clientOf w) := by
      rw [viewTrees_head, (sendViewCallbacks_links w _ v r.ustNs).clientOf w, ← viewClient,
        (takeReport_links t v r).viewClient w]
    refine .trans (.one (.called _ v r.ustNs) (E := wakeIf (t.takeReport v r).1 (t.viewClient w v) ∪ D) ?_) ?_
    · rintro d (⟨(rfl | hd) | hd, hne⟩ | hd)
      · exact absurd rfl hne
      · exact Or.inl hd
      · exact Or.inr hd
      · cases hd
    · rw [hclient]
      exact (woken_settles hu _ _).deeds

/-- What is due for the frames of a view that left the scene, or entered it again. -/
theorem viewSuspended_deeds (s : State) (v : ViewId) (suspended : Bool)
    (hg : guard s (.cmd (.viewSuspended v suspended))) :
    Deeds w guard s D (s.viewSuspended w u v suspended) D := by
  unfold viewSuspended
  split
  · exact .refl
  · rename_i e₀ hv₀
    dsimp only
    refine .trans (Deed.takes (.suspendedSet s s v suspended hg)) ?_
    have hentry : ∀ e, (s.setSuspended w v suspended).view v = some e → e.suspended = suspended := by
      intro e he
      simp only [setSuspended, view_ask, view_modifyView, ↓reduceIte, hv₀, Option.map_some, Option.some.injEq] at he
      rw [← he]
    cases suspended with
    | true =>
        simp only [↓reduceIte]
        refine .trans (Deed.dismissed _ v).free ?_
        have hview : ((s.setSuspended w v true).dismissPopups v).view v = (s.setSuspended w v true).view v := rfl
        split
        · rename_i hnone
          exact Pace.deeds (.unwatched _ v (by simp [hnone])) paid_sub
        · rename_i e he
          have hs := hentry e (hview ▸ he)
          split
          · rename_i hn
            refine Pace.deeds (.unwatched _ v fun e' he' => ?_) paid_sub
            cases he.symm.trans he'
            rw [hs]
            exact hn
          · exact .trans (Pace.deeds (.watchedHidden _ v e e.hiddenReleaseNs he hs) swap_sub)
              (scheduleTick_settles hu _).deeds
    | false =>
        simp only [Bool.false_eq_true, ↓reduceIte]
        split
        · rename_i hnone
          exact Pace.deeds (.unwatched _ v (by simp [hnone])) paid_sub
        · rename_i e he
          have hs := hentry e he
          refine .trans (Deed.resumed _ v).free ?_
          split
          · rename_i hn
            refine Pace.deeds (.unwatched _ v fun e' he' => ?_) paid_sub
            cases he.symm.trans he'
            rw [hs]
            exact hn
          · rename_i atNs hn
            refine .trans (.one (.watchedResumed _ v e atNs _ he hs hn ?_) swap_sub) (scheduleTick_settles hu _).deeds
            exact List.mem_append_right _ (List.mem_singleton.mpr rfl)

omit hu in
theorem focusInput_deeds (s : State) (v : ViewId) (focused : Bool) : Deeds w guard s D (s.focusInput v focused) D := by
  unfold focusInput
  split
  · exact (Deed.focused s _).free
  · split
    · exact .trans (Deed.focused s none).free (Deed.dismissed _ v).free
    · exact .refl

theorem handleCmd_deeds (s : State) (c : Cmd) (hg : guard s (.cmd c)) :
    Deeds w guard s ∅ (s.handleCmd w u c) (unpaid s (.cmd c)) := by
  cases c with
  | viewCreated view => exact viewCreated_deeds hu s view hg
  | viewDisposed v => exact viewDisposed_deeds hu s v hg
  | viewResized v size => exact viewResized_deeds hu s v size
  | viewRequestSize v size => exact viewRequestSize_deeds hu s v size
  | presented v r => exact framePresented_deeds hu s v r
  | viewSuspended v suspended => exact viewSuspended_deeds hu s v suspended hg
  | focus v focused => exact focusInput_deeds s v focused
  | issueToken => exact (Deed.tokenIssued s).free

/-! ## Toplevels -/

theorem dropFrames_later (s : State) (v : ViewId) : Later s (s.dropFrames w u v) :=
  (clearFrames_links s v).later.trans (woken_settles hu (D := ∅) _ _).later

theorem unbindView_desk (s : State) (v : ViewId) : SameDesk s (s.unbindView w u v) :=
  ((dropFrames_later hu s v).desk.trans (clearView_quiet (w := w) v).links.toSameDesk).trans (unlink_desk _ v)

theorem unbindToplevel_desk (s : State) (id : ToplevelId) : SameDesk s (s.unbindToplevel w u id) := by
  unfold unbindToplevel
  split
  · exact .refl s
  · exact (unbindView_desk hu s _).trans ⟨rfl, rfl, rfl, rfl, rfl, rfl⟩

/-- A toplevel is let go by the view that shows it. -/
theorem unbindToplevel_deeds {s : State} (hp : Paired s) (id : ToplevelId) :
    Deeds w guard s ∅ (s.unbindToplevel w u id)
      {d | ∃ v, s.shownIn id = some v ∧ (d = .bind v ∨ d = .spare id)} ∧
    (s.unbindToplevel w u id).shownIn id = none := by
  unfold unbindToplevel
  cases hv : (s.toplevel id).bind ToplevelEntry.view with
  | none => exact ⟨.more (Set.empty_subset _), hv⟩
  | some v =>
      have hshows : s.shows v = some id := (hp v id).mpr hv
      refine ⟨.trans (unbindView_deeds hu v (Or.inr ⟨by rw [hshows]; rfl, rfl⟩)) (.more ?_), ?_⟩
      · rintro d ((rfl | ⟨t, ht, rfl⟩ | ⟨hnil, -⟩) | hd)
        · exact ⟨v, hv, Or.inl rfl⟩
        · cases hshows.symm.trans ht
          exact ⟨v, hv, Or.inr rfl⟩
        · cases hnil
        · cases hd
      · have hkept : ((s.dropFrames w u v).clearView w v).shows v = some id := by
          rw [(clearView_quiet (w := w) v).links.shows, dropFrames_shows hu, hshows]
        change (unlink v ((s.dropFrames w u v).clearView w v)).shownIn id = none
        rw [shownIn_unlink, if_pos hkept]

/-- A toplevel goes, and the view that showed it shows nothing. -/
theorem removeToplevel_deeds {s s₀ : State} (hp : Paired s) {x : WlSurface} {id : ToplevelId} (hid : s.idOf x = some id)
    (hg : guard s₀ (.destroyToplevel x)) :
    Deeds w guard s ∅ ((s.unbindToplevel w u id).removeToplevel id) (unpaid s (.destroyToplevel x)) := by
  obtain ⟨hunbind, hnone⟩ : Deeds w guard s ∅ (s.unbindToplevel w u id) _ ∧ _ := unbindToplevel_deeds hu hp id
  have hdesk := unbindToplevel_desk (w := w) hu s id
  generalize s.unbindToplevel w u id = t at hunbind hnone hdesk
  have hgone : (t.removeToplevel id).toplevel id = none := by simp [removeToplevel, State.toplevel]
  refine .trans hunbind (.trans (Deed.removed t s₀ x id (by rw [hdesk.idOf]; exact hid) hnone hg).free ?_)
  refine Pace.deeds (.occupied _ id (by simp [hgone])) ?_
  rintro d (⟨⟨v, hv, rfl | rfl⟩, hne⟩ | hd)
  · exact ⟨id, v, hid, hv, rfl⟩
  · exact absurd rfl hne
  · cases hd

/-- Once its toplevel went, a dialog's view is offered its scene again. -/
theorem toplevelDestroyed_settles {x : WlSurface} {id : ToplevelId} (hid : s.idOf x = some id) :
    Settles w ((s.unbindToplevel w u id).removeToplevel id) D (s.toplevelDestroyed w u x) D := by
  unfold toplevelDestroyed
  rw [hid]
  dsimp only
  split
  · exact .refl
  · rename_i v _
    exact .trans (.more (Set.subset_insert (.offer v) D)) (submitView_settles hu v)

/-- No entry is left under the id of `x`. -/
theorem toplevelDestroyed_gone {x : WlSurface} {id' : ToplevelId} (h : (s.toplevelDestroyed w u x).idOf x = some id') :
    (s.toplevelDestroyed w u x).toplevel id' = none := by
  cases hid : s.idOf x with
  | none =>
      have hsame : s.toplevelDestroyed w u x = s := by unfold toplevelDestroyed; rw [hid]
      rw [hsame, hid] at h
      cases h
  | some id =>
      have hlater := (toplevelDestroyed_settles hu hid (D := ∅)).later
      have hdesk := (unbindToplevel_desk (w := w) hu s id).idOf
      rw [hlater.desk.idOf] at h
      change (s.unbindToplevel w u id).idOf x = some id' at h
      rw [hdesk, hid] at h
      cases h
      have hrel := hlater.toplevel id'
      have hgone : ((s.unbindToplevel w u id').removeToplevel id').toplevel id' = none := by
        simp [removeToplevel, State.toplevel]
      rw [hgone] at hrel
      cases ht : (s.toplevelDestroyed w u x).toplevel id' with
      | none => rfl
      | some te => rw [ht] at hrel; cases hrel

theorem toplevelDestroyed_deeds {s s₀ : State} (hp : Paired s) (x : WlSurface) (hg : guard s₀ (.destroyToplevel x)) :
    Deeds w guard s ∅ (s.toplevelDestroyed w u x) (unpaid s (.destroyToplevel x)) := by
  cases hid : s.idOf x with
  | none =>
      have hsame : s.toplevelDestroyed w u x = s := by unfold toplevelDestroyed; rw [hid]
      rw [hsame]
      exact .more (Set.empty_subset _)
  | some id => exact .trans (removeToplevel_deeds hu hp hid hg) (toplevelDestroyed_settles hu hid).deeds

/-- Every view is offered its scene again. -/
theorem parentChanged_deeds (s : State) :
    Deeds w guard s ({d | ∃ v ∈ s.viewIds w, d = .offer v} ∪ D) (s.parentChanged w u) D := by
  have hone : ∀ v ∈ s.viewIds w, ∀ (s : State) (D : Set Debt), Deeds w guard s (insert (.offer v) D)
      (if (s.view v).any (fun e => e.toplevel.isSome) then s.submitView w u v else s) D := by
    intro v _ s D
    split
    · exact (submitView_settles hu v).deeds
    · rename_i hnone
      refine Pace.deeds (.unseen s v ?_) paid_sub
      rw [viewRoot]
      cases hv : s.view v with
      | none => rfl
      | some e =>
          simp only [hv, Option.any_some, Bool.not_eq_true, Option.isSome_eq_false_iff, Option.isNone_iff_eq_none] at hnone
          simp [hnone]
  refine .trans (.more ?_) (Debts.Settles.foldl Debt.offer hone s D)
  rintro d (⟨v, hv, rfl⟩ | hd)
  · exact Or.inl ⟨v, hv, rfl⟩
  · exact Or.inr hd

theorem popupDestroyed_deeds (s : State) (x : WlSurface) : Deeds w guard s D (s.popupDestroyed w u x) D := by
  unfold popupDestroyed
  dsimp only
  split
  · exact (Deed.untracked s x).free
  · exact .trans (Deed.untracked s x).free (submitView_deeds hu _)

/-! ## Activation -/

/-- A view lets its toplevel go untold, and every view that waits looks for one. -/
theorem takeOver_deeds (r : State) (v : ViewId) (id : ToplevelId) :
    Deeds w guard r ({.spare id} ∪ ∅) ((r.unbindView w u v).bindWaitingViews w u) {.tell v} := by
  refine .trans (unbindView_silent hu v) ?_
  have hnone : (r.unbindView w u v).shows v = none := by rw [unbindView, shows_unlink, if_pos rfl]
  generalize r.unbindView w u v = q at hnone
  cases hview : q.view v with
  | none =>
      refine .trans (Pace.deeds (.passed q v (by simp [hview])) ?_) (bindWaitingViews_settles hu).deeds
      rintro d (⟨(rfl | ⟨t, -, rfl⟩ | ⟨-, rfl⟩) | rfl | hd, hne⟩ | hd)
      · exact absurd rfl hne
      · exact Or.inl ⟨t, rfl⟩
      · exact Or.inr (Or.inr rfl)
      · exact Or.inl ⟨id, rfl⟩
      · cases hd
      · cases hd
  | some e =>
      have hwaits : v ∈ q.waiting := by
        refine List.mem_filter.mpr ⟨Table.mem_keys.mpr ?_, ?_⟩
        · rw [show q.views[v]? = some e from hview]; rfl
        · rw [shows, hview, Option.bind_some] at hnone
          simp [hview, hnone]
      refine .trans (.more ?_) (bindWaitingViews_settles hu).deeds
      rintro d ((rfl | ⟨t, -, rfl⟩ | ⟨-, rfl⟩) | rfl | hd)
      · exact Or.inr (Or.inl ⟨v, hwaits, rfl⟩)
      · exact Or.inl ⟨t, rfl⟩
      · exact Or.inr (Or.inr rfl)
      · exact Or.inl ⟨id, rfl⟩
      · cases hd

/-- A toplevel given to the view that names its token is offered to every view that waits; the view it is
taken from is not told. -/
theorem requestActivation_deeds (s : State) (x : WlSurface) {value : String} {token : Token}
    (hfind : s.tokens.find? (fun t => t.value == value) = some token) :
    Deeds w guard s ∅ (s.requestActivation w u x token) (unpaid s (.activate x value)) := by
  have hmem := List.mem_of_find?_eq_some hfind
  obtain rfl : token.value = value := by simpa using List.find?_some hfind
  unfold requestActivation
  split
  · exact .more (Set.empty_subset _)
  · rename_i hissued
    split
    · exact .more (Set.empty_subset _)
    · rename_i id hid
      split
      · exact .trans (Deed.tokenDropped s token.value).free (.more (Set.empty_subset _))
      · rename_i t ht
        refine .trans (Deed.takes (.tokenUsed s id token hmem (by simpa using hissued))) ?_
        have hentry : (s.markActivated id token.value).toplevel id = some { t with token := some token.value } := by
          have ht' : ({ s with tokens := s.tokens.filter fun t => t.value ≠ token.value } : State).toplevel id =
              some t := ht
          simp only [markActivated, toplevel_log, toplevel_modifyToplevel, ↓reduceIte, ht', Option.map_some]
        have hview : (s.markActivated id token.value).view = s.view := rfl
        have hnamed : (s.markActivated id token.value).named = s.named := rfl
        dsimp only
        generalize s.markActivated id token.value = r at hentry hview hnamed
        split
        · refine .trans (.trans (.more ?_) (bindWaitingViews_settles hu).deeds) (.more (Set.empty_subset _))
          rintro d (rfl | hd)
          · exact Or.inl ⟨id, rfl⟩
          · cases hd
        · rename_i v hv
          have hkept : Deeds w guard r ({.spare id} ∪ ∅) r (unpaid s (.activate x token.value)) := by
            refine Pace.deeds (.occupied r id fun te hte => ?_) ?_
            · cases hentry.symm.trans hte
              simp [free, hv]
            · rintro d (⟨rfl | hd, hne⟩ | hd)
              · exact absurd rfl hne
              · cases hd
              · cases hd
          split
          · exact hkept
          · rename_i hown
            split
            · exact hkept
            · rename_i hwanted
              refine .trans (takeOver_deeds hu r v id) (.more ?_)
              rintro d rfl
              refine ⟨v, ?_, rfl⟩
              rw [hview] at hown
              rw [hnamed] at hwanted
              have hshown : ((s.idOf (s.toplevelOf x)).bind s.shownIn) = some v := by
                rw [hid, Option.bind_some, shownIn, ht]
                exact hv
              rw [takenFrom, hshown, hfind, Option.filter_some, if_pos]
              simp only [Option.any_some, Bool.and_eq_true, Bool.not_eq_true', Bool.not_eq_true] at hissued hown hwanted ⊢
              exact ⟨⟨by simpa using hissued, hown⟩, by simpa using hwanted⟩

/-! ## The clock -/

omit hu in
theorem addTimed_asked (s : State) (x : WlSurface) : (s.addTimed x).asked = s.asked := by
  unfold addTimed
  split <;> rfl

omit hu in
theorem mem_addTimed (s : State) (x : WlSurface) : x ∈ (s.addTimed x).timed := by
  unfold addTimed
  split
  · assumption
  · exact List.mem_append_right _ List.mem_cons_self

omit hu in
/-- Only a clock that cannot run lets the timed updates go. -/
theorem scheduleTick_timed (s : State) (atNs : Nat) :
    (s.scheduleTick w u atNs).timed = s.timed ∨ ∃ k, w.timer k = false := by
  unfold scheduleTick
  split
  · exact Or.inl rfl
  · split
    · exact Or.inl rfl
    · rename_i ht
      exact Or.inr ⟨_, by simpa using ht⟩

theorem watchTarget_deeds (s : State) (x : WlSurface) (deadline : Nat) (hg : guard s (.target x deadline)) :
    Deeds w guard s D (s.watchTarget w u x deadline) D := by
  unfold watchTarget
  dsimp only
  rw [addTimed_asked]
  refine .trans (Deed.takes (.targeted s x)) ?_
  refine .trans (Pace.deeds (.asked _) free_sub) ?_
  refine .trans (scheduleTick_settles hu _).deeds (Deed.free (.registered _ s x deadline ?_ hg))
  refine (scheduleTick_timed (u := u) (s.addTimed x).ask (w.now s.asked)).imp_left fun htimed => ?_
  rw [htimed]
  exact mem_addTimed s x

omit hu in
theorem flushCallbacks_view (now : Nat) (s : State) (v : ViewId) : (s.flushCallbacks w now v).view = s.view := by
  have hsend : ∀ (roots : List WlSurface) (s : State), (roots.foldl (sendFrameCallbacks w now) s).view = s.view := by
    intro roots
    induction roots with
    | nil => exact fun _ => rfl
    | cons root roots ih => exact fun s => ih _
  unfold flushCallbacks
  split
  · rfl
  · split
    · rfl
    · exact hsend _ s

omit hu in
/-- The frame callbacks of the views on screen are sent. -/
theorem flushAll_deeds (now : Nat) (vs : List ViewId) (s : State) :
    Deeds w guard s ({d | ∃ v ∈ vs, (∃ e, s.view v = some e ∧ e.suspended = false) ∧ d = .offer v} ∪ D)
      (vs.foldl (flushCallbacks w now) s) D := by
  induction vs generalizing s with
  | nil =>
      refine .more ?_
      rintro d (⟨v, hv, -⟩ | hd)
      · cases hv
      · exact hd
  | cons v vs ih =>
      have hrest := ih (s.flushCallbacks w now v)
      rw [flushCallbacks_view] at hrest
      refine .trans ?_ hrest
      by_cases hon : ∃ e, s.view v = some e ∧ e.suspended = false
      · obtain ⟨e, he, hs⟩ := hon
        have hflush : s.flushCallbacks w now v = s.sendViewCallbacks w v now := by
          simp only [flushCallbacks, he, hs, Bool.false_eq_true, ↓reduceIte]
        rw [hflush]
        refine .one (.called s v now) ?_
        rintro d (⟨⟨v', hv', hon', rfl⟩ | hd, hne⟩ | hd)
        · rcases List.mem_cons.mp hv' with rfl | hv'
          · exact absurd rfl hne
          · exact Or.inl ⟨v', hv', hon', rfl⟩
        · exact Or.inr hd
        · cases hd
      · have hflush : s.flushCallbacks w now v = s := by
          unfold flushCallbacks
          split
          · rfl
          · rename_i e he
            rw [if_pos]
            by_contra hs
            exact hon ⟨e, he, by simpa using hs⟩
        rw [hflush]
        refine .more ?_
        rintro d (⟨v', hv', hon', rfl⟩ | hd)
        · rcases List.mem_cons.mp hv' with rfl | hv'
          · exact absurd hon' hon
          · exact Or.inl ⟨v', hv', hon', rfl⟩
        · exact Or.inr hd

omit hu in
theorem suspended_sweepFrames (now : Nat) (e : ViewEntry) : (sweepFrames now e).entry.suspended = e.suspended := by
  unfold sweepFrames
  split
  · split <;> rfl
  · rfl

omit hu in
theorem view_sweepViews (s : State) (now : Nat) (v : ViewId) :
    (s.sweepViews w now).view v = (s.view v).map fun e => (sweepFrames now e).entry :=
  Std.TreeMap.getElem?_map

omit hu in
theorem view_sweep (s : State) (now : Nat) (v : ViewId) :
    (s.sweep w now).view v = (s.view v).map fun e => (sweepFrames now e).entry := by
  rw [sweep, view_sweepViews]
  rfl

/-- What a tick does last. -/
theorem swept_settles (s : State) : Settles w (s.swept w) (sweptDebts w s) (s.onTick w u) ∅ := by
  unfold onTick
  dsimp only
  refine .trans (unblockAll_settles hu _) ?_
  cases hmin : (s.disarm.wakeTimes w (w.now s.asked)).min? with
  | none =>
      refine .more ?_
      rintro d ⟨atNs, hmem, -⟩
      rw [List.min?_eq_none_iff.mp hmin] at hmem
      cases hmem
  | some atNs =>
      refine .trans (.more ?_) (scheduleTick_settles_from hu _)
      rintro d ⟨b, hb, rfl⟩
      have hle : atNs ≤ b := (List.min?_eq_some_iff.mp hmin).2 b hb
      exact Or.inl ⟨_, by omega, rfl⟩

/-- What a tick does once it took everything due. -/
theorem ticked_deeds (s : State) : Deeds w guard (s.disarm.sweep w (w.now s.asked)) (tickDebts w s) (s.onTick w u) ∅ := by
  refine .trans (.more ?_) (.trans (flushAll_deeds (D := sweptDebts w s) (w.now s.asked)
    (s.disarm.flushed w (w.now s.asked)) (s.disarm.sweep w (w.now s.asked))) (swept_settles hu s).deeds)
  · rintro d (⟨c, hc, rfl⟩ | ⟨v, hv, ⟨e, he, hs⟩, rfl⟩ | ha)
    · exact Or.inr (Or.inl ⟨c, hc, rfl⟩)
    · refine Or.inl ⟨v, hv, ⟨(sweepFrames (w.now s.asked) e).entry, ?_, ?_⟩, rfl⟩
      · rw [view_sweep]
        change (s.view v).map _ = _
        rw [he]
        rfl
      · rw [suspended_sweepFrames, hs]
    · exact Or.inr (Or.inr ha)

theorem onTick_deeds (s : State) (hg : guard s .tick) : Deeds w guard s ∅ (s.onTick w u) ∅ := by
  refine .trans (Deed.takes (.ticked s hg)) (.trans (.more ?_) (ticked_deeds hu s))
  rintro d (hd | hd)
  · exact hd
  · cases hd

/-! ## Events -/

theorem handle_deeds {s : State} (hp : Paired s) {e : Event} (hv : s.valid w e = true) (hg : guard s e) :
    Deeds w guard s ∅ (s.handle w u e) (unpaid s e) := by
  cases e with
  | cmd c => exact handleCmd_deeds hu s c hg
  | commit up => exact (applyUpdate_settles hu up).deeds
  | target x deadline => exact watchTarget_deeds hu s x deadline hg
  | newToplevel x =>
      simp only [valid, Bool.and_eq_true, Bool.or_eq_true, Bool.not_eq_true', beq_iff_eq] at hv
      exact (Deed.made s x hv.1.2 hv.2 hg).free
  | destroyToplevel x =>
      exact .trans (toplevelDestroyed_deeds hu hp x hg) (Deed.reset _ x fun _ => toplevelDestroyed_gone hu).free
  | setParent x parent =>
      simp only [valid, Bool.and_eq_true] at hv
      refine .trans (Deed.takes (.parentSet s x parent hv.1 (fun p hpar => ?_) hg)) (.trans (.more ?_) (parentChanged_deeds hu _))
      · have hlive := hv.2
        rw [hpar] at hlive
        simpa using hlive
      · rintro d ((hd | ⟨rfl, hd⟩) | hd)
        · exact Or.inl hd
        · exact Or.inr hd
        · cases hd
  | setAppId x appId => exact (Deed.named s x appId hv hg).free
  | newPopup x parent =>
      simp only [valid, Bool.and_eq_true, Bool.or_eq_true, beq_iff_eq, Option.isNone_iff_eq_none] at hv
      obtain ⟨⟨⟨⟨-, hpop⟩, hrole⟩, hclient⟩, hlive⟩ := hv
      exact (Deed.popupMade s x parent hpop hrole hclient hlive hg).free
  | destroyPopup x => exact popupDestroyed_deeds hu s x
  | getSubsurface x parent =>
      simp only [valid, Bool.and_eq_true, Bool.or_eq_true, beq_iff_eq, Option.isNone_iff_eq_none, bne_iff_ne] at hv
      obtain ⟨⟨⟨⟨-, hclient⟩, hsub⟩, hroot⟩, hrole⟩ := hv
      exact (Deed.subsurfaceMade s x parent hclient hsub hroot hrole hg).free
  | destroySubsurface x => exact (Deed.subsurfaceGone s x).free
  | destroySurface x =>
      simp only [valid, Bool.and_eq_true, Bool.not_eq_true'] at hv
      exact (Deed.surfaceGone s x hv.1.2).free
  | clientToken => exact (Deed.tokenMade s).free
  | activate x value =>
      unfold handle
      dsimp only
      split
      · exact .more (Set.empty_subset _)
      · rename_i token ht
        exact requestActivation_deeds hu s x ht
  | disconnect c => exact (Deed.disconnected s c).free
  | fence v key =>
      have hq : Quiet s (s.modifyView v fun e => { e with holds := e.holds.signaled key }) :=
        .modifyView v fun _ => rfl
      exact hq.deeds
  | tick => exact onTick_deeds hu s hg

end State

/-- Every event is a run of deeds, and leaves no more owed than it says. -/
theorem step_deeds {depth : Nat} (hp : Paired s) {e : Event} (hg : guard s e) :
    Deeds w guard s ∅ (step w depth s e) (unpaid s e) := by
  unfold step
  split
  · rename_i hv
    exact State.handle_deeds (unblock_wakes w depth) hp hv hg
  · exact .more (Set.empty_subset _)

/-! ## Deeds and links -/

namespace State

theorem setSuspended_links (s : State) (v : ViewId) (suspended : Bool) :
    SameLinks s (s.setSuspended w v suspended) := by
  refine SameLinks.trans (SameLinks.modifyView v ?_) .ask
  exact fun _ => rfl

theorem addTimed_links (s : State) (x : WlSurface) : SameLinks s (s.addTimed x) := by
  unfold addTimed
  split
  · exact .refl s
  · exact .of_data rfl

theorem effects_sweepFrames (now : Nat) (e : ViewEntry) : ∀ x ∈ (sweepFrames now e).effects, x.queued = true := by
  unfold sweepFrames
  split
  · split
    · exact FramesOp.queued_call e.frames .releaseAll
    · exact fun x hx => absurd hx List.not_mem_nil
  · exact FramesOp.queued_call _ (.releaseOlder (now - staleNs))

/-- What a tick's pass over the frames does. -/
theorem effects_sweptView {s : State} {now : Nat} {v : ViewId} :
    ∀ x ∈ ((s.sweptView now v).map Swept.effects).getD [], x.queued = true := by
  intro x hx
  cases hv : s.view v with
  | none => simp [sweptView, hv] at hx
  | some e =>
      simp only [sweptView, hv, Option.map_some, Option.getD_some] at hx
      exact effects_sweepFrames now e x hx

theorem trace_sweep (s : State) (now : Nat) : (s.sweep w now).trace = s.trace ++
    ((s.looseOut now).map (fun l => Effect.signal l.barrier) ++
      (s.viewIds w).flatMap fun v => ((s.sweptView now v).map Swept.effects).getD []) :=
  List.append_assoc ..

theorem binding_sweepFrames (now : Nat) (e : ViewEntry) : (sweepFrames now e).entry.binding = e.binding := by
  unfold sweepFrames
  split
  · split <;> rfl
  · rfl

theorem sweepViews_links (s : State) (now : Nat) : SameLinks s (s.sweepViews w now) := by
  have hviews (views) (h : ∀ v, ((({ s with views } : State)).view v).map ViewEntry.binding =
      (s.view v).map ViewEntry.binding) : SameLinks s { s with views } := .of_views rfl h
  refine (hviews _ fun v => ?_).trans (.log fun x hx => ?_)
  · simp only [State.view, Std.TreeMap.getElem?_map, Option.map_map, Function.comp_def, binding_sweepFrames]
  · obtain ⟨v, -, hx⟩ := List.mem_flatMap.mp hx
    exact Effect.linking_of_queued (effects_sweptView x hx)

theorem sweep_links (s : State) (now : Nat) : SameLinks s (s.sweep w now) := by
  have htimers : SameLinks s (s.sweepTimers (s.clock.due now)) := .of_data rfl
  have hloose (t : State) : SameLinks t (t.sweepLoose now) := by
    have hkept (ls : List Loose) : SameLinks t { t with loose := ls } := .of_data rfl
    exact (hkept _).trans (.log (linking_signals (t.looseOut now)))
  have hunsubmitted (t : State) : SameLinks t (t.sweepUnsubmitted now) := .of_data rfl
  exact ((htimers.trans (hloose _)).trans (hunsubmitted _)).trans (sweepViews_links _ now)

end State

/-- What a deed does to the links is one act. -/
theorem Deed.act {paid taken : Set Debt} (h : Deed w guard s paid taken s') : Act w guard s s' := by
  cases h with
  | move h =>
      cases h with
      | pace h => exact .same s s' h.links
      | mapped x id t hid ht hm => exact .mapped s x id t hid ht hm
      | linked v e t hv he hp => exact .linked s v e t hv he hp
  | called v ustNs => exact .same s _ (sendViewCallbacks_links w s v ustNs)
  | framesCleared v => exact .same s _ (clearFrames_links s v)
  | unlinked v es hes =>
      refine .unlinked s v es ?_
      rcases hes with rfl | ⟨-, rfl⟩ <;> simp
  | inserted s₀ view hv hg => exact .inserted s view hv
  | erased s₀ v hv hg => exact .erased s v hv
  | clocked r => exact .same s _ (.of_data rfl)
  | reported v r => exact .same s _ (takeReport_links s v r)
  | suspendedSet _ v suspended => exact .same s _ (setSuspended_links s v suspended)
  | resumed v => exact .same s _ (SameLinks.ask.trans (.log (by simp [Effect.linking])))
  | watchedResumed => exact .same s s (.refl s)
  | dismissed v => exact .dismissed s v
  | focused v => exact .same s _ (.of_data rfl)
  | targeted x => exact .same s _ (addTimed_links s x)
  | registered s₀ x deadline => exact .same s _ (.of_data rfl)
  | made x hx hr hg => exact .made s x hx hr hg
  | removed s₀ x id hid hs hg => exact .removed s s₀ x id hid hs hg
  | reset x hx => exact .reset s x hx
  | parentSet x parent hx hp hg => exact .parentSet s x parent hx hp hg
  | named x appId hx hg => exact .named s x appId hx
  | popupMade x parent hp hr hc hl hg => exact .popupMade s x parent hp hr hc hl
  | untracked x => exact .untracked s x
  | subsurfaceMade x parent hc hp hroot hr hg => exact .subsurfaceMade s x parent hc hp hr
  | subsurfaceGone x => exact .subsurfaceGone s x
  | surfaceGone x hx => exact .surfaceGone s x hx
  | tokenMade => exact .tokenMade s
  | tokenIssued => exact .tokenIssued s
  | tokenDropped value => exact .tokenDropped s value
  | tokenUsed id token hmem hi => exact .tokenUsed s id token hmem hi
  | disconnected c => exact .disconnected s c
  | ticked hg =>
      have hdisarm : SameLinks s s.disarm := .of_data rfl
      exact .same s _ (hdisarm.trans (sweep_links _ _))

/-! ## Runs -/

theorem run_concat (w : World) (depth : Nat) (es : List Event) (e : Event) :
    run w depth (es ++ [e]) = step w depth (run w depth es) e := by
  simp [run]

theorem paired_empty : Paired {} := by
  intro v t
  simp [State.shows, State.shownIn, State.view, State.toplevel]

theorem step_paired {depth : Nat} (hp : Paired s) (e : Event) : Paired (step w depth s e) := by
  have hdeeds : Deeds w (fun _ _ => True) s ∅ (step w depth s e) (unpaid s e) := step_deeds hp trivial
  exact hdeeds.invariant (P := Paired) (fun hd hp => hp.act hd.act) hp

theorem run_paired (w : World) (depth : Nat) (es : List Event) : Paired (run w depth es) :=
  Runs.keeps (P := Paired) (fun _ e hp => step_paired hp e) es paired_empty

/-- What every act keeps between paired states, an event keeps. -/
theorem step_keeps {P : State → Prop} (hact : ∀ {s s'}, Paired s → P s → Act w guard s s' → P s')
    {depth : Nat} {e : Event} (hg : guard s e) (h : Paired s ∧ P s) :
    Paired (step w depth s e) ∧ P (step w depth s e) :=
  (step_deeds h.1 hg).invariant (P := fun s => Paired s ∧ P s)
    (fun hd h => ⟨h.1.act hd.act, hact h.1 h.2 hd.act⟩) h

/-- And so does a run whose events the guard lets through. -/
theorem run_keeps {P : State → Prop} (hact : ∀ {s s'}, Paired s → P s → Act w guard s s' → P s')
    (hempty : P {}) {depth : Nat} {es : List Event} (hok : Runs.Meets (step w depth) guard {} es) :
    Paired (run w depth es) ∧ P (run w depth es) :=
  hok.keeps (P := fun s => Paired s ∧ P s) (fun _ _ hg h => step_keeps hact hg h) ⟨paired_empty, hempty⟩

theorem meets_anything (depth : Nat) (es : List Event) (s : State) :
    Runs.Meets (step w depth) (fun _ _ => True) s es := by
  induction es generalizing s with
  | nil => trivial
  | cons e es ih => exact ⟨trivial, ih _⟩

end IhsWl
