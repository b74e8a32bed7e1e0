import IhsWl.Server.Lemmas.Missing

/-!
# Binding completeness

A view is empty only while no toplevel it may show is free -- as long as no event frees a view or a
toplevel that something else waits for: the handlers that free one do not look.
-/

namespace IhsWl

open State

variable {w : World} {s s' : State} {v : ViewId} {t : ToplevelId}

/-! ## What handlers forget -/

namespace State

/-- Some view that waits, other than `v`, suits `t`, a toplevel on its own. -/
def awaited (w : World) (s : State) (v : ViewId) (t : ToplevelId) : Bool :=
  s.lone t && s.waiting.any fun v' => v' != v && s.suits w v' t

/-- Once the frames of `v` are gone `t` may be free: where they hold barriers, clearing them may apply its
first commit. -/
def mayFree (s : State) (v : ViewId) (t : ToplevelId) : Bool :=
  s.lone t && (s.shownIn t).isNone && (s.isMapped t || (s.clearFrames v).1)

/-- The view that replaces the one showing `t` picks `t` again. -/
def takesOver (w : World) (s : State) (view : ViewHandle) (t : ToplevelId) : Bool :=
  (s.toplevel t).any (s.wants w view.params) && s.toplevels.byId.keys.all fun t' =>
    t ≤ t' || !((s.toplevel t').any (s.wants w view.params) && s.mayFree view.id t')

/-- The event frees no view and no toplevel that something waits for, or its handler looks for a match. -/
def leavesMatched (w : World) (s : State) (e : Event) : Bool :=
  !s.valid w e ||
    match e with
    | .cmd (.viewDisposed v) => (s.shows v).all fun t => !s.awaited w v t
    | .cmd (.viewCreated view) => (s.shows view.id).all fun t => !s.awaited w view.id t || s.takesOver w view t
    | .destroyToplevel x => ((s.idOf x).bind s.shownIn).all fun v =>
        s.toplevels.byId.keys.all fun t => s.idOf x == some t || !(s.suits w v t && s.mayFree v t)
    | .setParent x none => (s.surfaces x).parent.isNone || (s.idOf x).all fun t =>
        (s.shownIn t).isSome || !s.isMapped t || s.waiting.all fun v => !s.suits w v t
    | _ => true

end State

/-! ## The handlers that free something -/

section

variable {u : Unblock} (hu : Wakes w u)

include hu

theorem unbindView_shows {v v' : ViewId} (hne : v' ≠ v) (h : (s.unbindView w u v).shows v' = none) :
    s.shows v' = none := by
  rw [unbindView, shows_unlink, if_neg hne, (clearView_quiet (w := w) v).links.shows] at h
  cases hs : s.shows v' with
  | none => rfl
  | some t => exact absurd h (by simp [(dropFrames_later hu s v).shows v' t hs])

theorem unbindView_shownIn (h : (s.unbindView w u v).shownIn t = none) (hne : s.shows v ≠ some t) :
    s.shownIn t = none := by
  rw [unbindView, shownIn_unlink, (clearView_quiet (w := w) v).links.shows, dropFrames_shows hu, if_neg hne,
    (clearView_quiet (w := w) v).links.shownIn] at h
  cases hs : s.shownIn t with
  | none => rfl
  | some v' => exact absurd h (by simp [(dropFrames_later hu s v).shownIn hs])

omit hu in
theorem isMapped_unlink (s : State) (v : ViewId) (t : ToplevelId) : (s.unlink v).isMapped t = s.isMapped t := by
  rw [isMapped, toplevel_unlink]
  split
  · rw [Option.any_map]; rfl
  · rfl

omit hu in
/-- Only clearing barriers applies a first commit. -/
theorem unbindView_isMapped (h : (s.unbindView w u v).isMapped t = true) :
    (s.isMapped t || (s.clearFrames v).1) = true := by
  cases hc : (s.clearFrames v).1 with
  | true => simp
  | false =>
      have hdrop : s.dropFrames w u v = (s.clearFrames v).2 := by
        unfold dropFrames
        dsimp only
        rw [hc]
      have hlinks := (clearFrames_links s v).trans (clearView_quiet (w := w) v).links
      rw [unbindView, isMapped_unlink, hdrop, isMapped, hlinks.toplevel] at h
      simpa [isMapped] using h

/-- What suits a waiting view once `v` let its toplevel go did before. -/
theorem awaited_of_unbindView {v' : ViewId} (hne : v' ≠ v) (hview : ((s.unbindView w u v).view v').isSome = true)
    (hempty : (s.unbindView w u v).shows v' = none) (hlone : (s.unbindView w u v).lone t = true)
    (hsuits : (s.unbindView w u v).suits w v' t = true) : s.awaited w v t = true := by
  have hfaces := SameFaces.unbindView hu s v
  have hh := hfaces.handle v'
  have hshows := unbindView_shows hu hne hempty
  obtain ⟨e', he'⟩ := Option.isSome_iff_exists.mp hview
  rw [he'] at hh
  cases he : s.view v' with
  | none => rw [he] at hh; cases hh
  | some e =>
      rw [shows, he, Option.bind_some] at hshows
      have hwaits : v' ∈ s.waiting := by
        refine List.mem_filter.mpr ⟨Table.mem_keys.mpr ?_, by simp [he, hshows]⟩
        rw [show s.views[v']? = some e from he]
        rfl
      simp only [awaited, hfaces.lone hlone, Bool.true_and, List.any_eq_true]
      exact ⟨v', hwaits, by simp [hne, hfaces.suits hsuits]⟩

theorem mayFree_of_unbindView (hne : s.shows v ≠ some t) (hlone : (s.unbindView w u v).lone t = true)
    (hunshown : (s.unbindView w u v).shownIn t = none) (hmapped : (s.unbindView w u v).isMapped t = true) :
    s.mayFree v t = true := by
  have hshown := unbindView_shownIn hu hunshown hne
  simp [mayFree, (SameFaces.unbindView hu s v).lone hlone, hshown, unbindView_isMapped hmapped]

/-- The toplevel let go is free, if it stands on its own. -/
theorem unbindView_frees (hp : Paired s) (hs : Sound s) (hshows : s.shows v = some t) {te : ToplevelEntry}
    (hte : (s.unbindView w u v).toplevel t = some te) (hlone : (s.unbindView w u v).lone t = true) :
    (s.unbindView w u v).free te = true := by
  have hunshown : (s.unbindView w u v).shownIn t = none := by
    rw [unbindView, shownIn_unlink, (clearView_quiet (w := w) v).links.shows, dropFrames_shows hu, if_pos hshows]
  rw [shownIn, hte, Option.bind_some] at hunshown
  rw [State.lone, hte, Option.any_some] at hlone
  have hmapped : te.mapped = true := by
    obtain ⟨te₀, hte₀, hv₀⟩ := Option.bind_eq_some_iff.mp ((hp v t).mp hshows)
    have hm₀ := hs.bound t te₀ hte₀ (by rw [hv₀]; rfl)
    have hrel := ((dropFrames_later hu s v).trans (clearView_quiet (w := w) v).links.later).toplevel t
    rw [unbindView, toplevel_unlink] at hte
    generalize clearView w v (s.dropFrames w u v) = r at hrel hte
    rw [hte₀] at hrel
    cases hr : r.toplevel t with
    | none => rw [hr] at hrel; cases hrel
    | some te₁ =>
        rw [hr] at hrel hte
        cases hrel with
        | some hl =>
            split at hte <;> cases hte
            · exact hl.mapped hm₀
            · exact hl.mapped hm₀
  simp [State.free, hmapped, hunshown, hlone]

/-- A view that looks binds what it picks. -/
theorem tryBindView_picked {e : ViewEntry} (hv : s.view v = some e) (he : e.toplevel = none) :
    (s.pick w e.handle.params = none ∧ s.tryBindView w u v = s) ∨
    ∃ t, s.pick w e.handle.params = some t ∧ (s.tryBindView w u v).shownIn t = some v ∧
      (s.tryBindView w u v).shows v = some t := by
  unfold tryBindView
  rw [hv]
  dsimp only
  rw [he, if_neg (by simp)]
  cases hp : s.pick w e.handle.params with
  | none => exact Or.inl ⟨rfl, rfl⟩
  | some t =>
      obtain ⟨te, hte, -⟩ := pick_spec hp
      have hlater := (submitView_settles hu (s := s.link v t) (D := ∅) v).later
      refine Or.inr ⟨t, rfl, hlater.shownIn ?_, hlater.shows v t ?_⟩
      · rw [shownIn_link (by rw [hte]; rfl), if_pos rfl]
      · rw [shows_link (by rw [hv]; rfl), if_pos rfl]

omit hu in
/-- The toplevel picked is the oldest of those a view may have. -/
theorem pick_oldest {params : ViewParams} {te : ToplevelEntry} (hte : s.toplevel t = some te)
    (hfree : s.free te = true) (hwants : s.wants w params te = true) :
    ∃ t', s.pick w params = some t' ∧ t' ≤ t := by
  have hkey : t ∈ s.toplevels.byId.keys := by
    rw [Table.mem_keys, show s.toplevels.byId[t]? = some te from hte]
    rfl
  cases hp : s.pick w params with
  | none => exact absurd (List.find?_eq_none.mp hp t hkey) (by simp [hte, hfree, hwants])
  | some t' =>
      refine ⟨t', rfl, ?_⟩
      obtain ⟨-, as, bs, hkeys, hno⟩ := List.find?_eq_some_iff_append.mp hp
      have hsorted : (as ++ t' :: bs).Pairwise (fun a b => compare a b = .lt) := hkeys ▸ Std.TreeMap.ordered_keys
      rw [hkeys, List.mem_append, List.mem_cons] at hkey
      rcases hkey with hkey | rfl | hkey
      · exact absurd (hno t hkey) (by simp [hte, hfree, hwants])
      · exact Nat.le_refl _
      · have hlt := (List.pairwise_cons.mp (List.pairwise_append.mp hsorted).2.1).1 t hkey
        exact Nat.le_of_lt (compare_lt_iff_lt.mp hlt)

theorem viewDisposed_looking (hs : Sound s) (h : Looking w ∅ s)
    (hok : (s.shows v).all (fun t => !s.awaited w v t) = true) : Looking w ∅ (s.viewDisposed w u v) := by
  intro v' t hm
  rcases h.deeds (viewDisposed_deeds hu s v rfl) hs v' t hm with ⟨t', -, ht⟩ | ⟨t', hshows, ht⟩
  · cases ht
  · cases ht
    have hne : v' ≠ v := by
      rintro rfl
      obtain ⟨e, te, he, -⟩ := missing_iff.mp hm
      simp [viewDisposed, eraseView, State.view] at he
    have hview : (s.viewDisposed w u v).view v' = (s.unbindView w u v).view v' := by
      simp only [viewDisposed, eraseView, State.view, Table.get_erase, if_neg hne]
    have hbefore : Missing w (s.unbindView w u v) v' t := hm.congr (by rw [hview]) rfl fun _ _ _ => ⟨rfl, rfl⟩
    obtain ⟨e, -, he, -⟩ := missing_iff.mp hbefore
    have hawaited := awaited_of_unbindView hu hne (by rw [he]; rfl) hbefore.empty hbefore.lone hbefore.suits
    rw [hshows, Option.all_some, hawaited] at hok
    cases hok

/-- What the view that replaces the one showing `t` picks, if it takes `t` over. -/
theorem pick_takesOver (hp : Paired s) (hs : Sound s) {view : ViewHandle} (hshows : s.shows view.id = some t)
    (hlone : s.lone t = true) (htakes : s.takesOver w view t = true) :
    ((s.unbindView w u view.id).insertView view).pick w view.params = some t := by
  have hfaces := SameFaces.unbindView hu s view.id
  simp only [takesOver, Bool.and_eq_true, List.all_eq_true, Bool.or_eq_true, Bool.not_eq_true', decide_eq_true_eq] at htakes
  obtain ⟨htakes, hothers⟩ := htakes
  obtain ⟨te, hte, hwants⟩ := (Option.any_eq_true _ _).mp htakes
  obtain ⟨te', hte', hwants'⟩ := hfaces.symm.wants hte hwants
  obtain ⟨t₀, hpick, hle⟩ := pick_oldest (s := (s.unbindView w u view.id).insertView view) hte' (unbindView_frees hu hp hs hshows hte' (hfaces.symm.lone hlone)) hwants'
  rw [hpick]
  rcases Nat.lt_or_eq_of_le hle with hlt | rfl
  · obtain ⟨te₀, hte₀, hfree₀, hwants₀⟩ := pick_spec hpick
    obtain ⟨te₁, hte₁, hwants₁⟩ := hfaces.wants hte₀ hwants₀
    have hkey : t₀ ∈ s.toplevels.byId.keys := by
      rw [Table.mem_keys, show s.toplevels.byId[t₀]? = some te₁ from hte₁]
      rfl
    have hte₂ : (s.unbindView w u view.id).toplevel t₀ = some te₀ := hte₀
    have hfree₂ : (s.unbindView w u view.id).free te₀ = true := hfree₀
    simp only [State.free, Bool.and_eq_true, Option.isNone_iff_eq_none] at hfree₂
    have hmay : s.mayFree view.id t₀ = true := by
      refine mayFree_of_unbindView hu ?_ ?_ ?_ ?_
      · rw [hshows]
        intro heq
        cases heq
        exact Nat.lt_irrefl _ hlt
      · simp [State.lone, hte₂, hfree₂.2]
      · simp [shownIn, hte₂, hfree₂.1.2]
      · simp [isMapped, hte₂, hfree₂.1.1]
    rcases hothers t₀ hkey with hge | hno
    · exact absurd hge (Nat.not_le.mpr hlt)
    · simp [hte₁, hwants₁, hmay] at hno
  · rfl

theorem viewCreated_looking (hp : Paired s) (hs : Sound s) (h : Looking w ∅ s) {view : ViewHandle}
    (hok : (s.shows view.id).all (fun t => !s.awaited w view.id t || s.takesOver w view t) = true) :
    Looking w ∅ (s.viewCreated w u view) := by
  intro v' t hm
  rcases h.deeds (viewCreated_deeds hu s view rfl) hs v' t hm with ⟨t', -, ht⟩ | ⟨t', hshows, ht⟩
  · cases ht
  cases ht
  have hlive : (s.view view.id).isSome = true := by
    rw [shows] at hshows
    cases hv : s.view view.id with
    | none => rw [hv] at hshows; cases hshows
    | some e => rfl
  have hcreated : s.viewCreated w u view = ((s.unbindView w u view.id).insertView view).tryBindView w u view.id := by
    unfold viewCreated
    dsimp only
    rw [if_pos hlive]
  rw [hcreated] at hm
  have hview : ((s.unbindView w u view.id).insertView view).view view.id =
      some { handle := view, size := view.size, requested := view.params.requested } := by
    simp [insertView, State.view]
  have hfaces := SameFaces.of_later
    (tryBindView_settles hu (D := ∅) (s := (s.unbindView w u view.id).insertView view) view.id).later
  -- Another view that waits for `t` did before, so the condition says who takes it.
  have htaken (hne : v' ≠ view.id) :
      ((s.unbindView w u view.id).insertView view).pick w view.params = some t := by
    have hlone : (s.unbindView w u view.id).lone t = true := hfaces.lone hm.lone
    have hsame : ((s.unbindView w u view.id).insertView view).view v' = (s.unbindView w u view.id).view v' := by
      simp only [insertView, State.view, Table.get_insert, if_neg hne]
    have hawaited : s.awaited w view.id t = true := by
      have hsuits := hfaces.suits hm.suits
      rw [State.suits, hsame] at hsuits
      obtain ⟨e, he, -⟩ := (Option.any_eq_true _ _).mp hsuits
      refine awaited_of_unbindView hu hne (by rw [he]; rfl) ?_ hlone hsuits
      have hempty := hm.empty
      cases hq : (s.unbindView w u view.id).shows v' with
      | none => rfl
      | some t' =>
          have hlater := (tryBindView_settles hu (D := ∅) (s := (s.unbindView w u view.id).insertView view) view.id).later
          rw [hlater.shows v' t' (by rw [shows_insertView, if_neg hne, hq])] at hempty
          cases hempty
    rw [hshows, Option.all_some, hawaited, Bool.not_true, Bool.false_or] at hok
    exact pick_takesOver hu hp hs hshows ((SameFaces.unbindView hu s view.id).lone hlone) hok
  rcases tryBindView_picked hu hview rfl with ⟨hnone, hsame⟩ | ⟨t₀, hpick, hshown, hnow⟩
  · rw [hsame] at hm
    by_cases hne : v' = view.id
    · subst hne
      exact absurd hm ((pick_eq_none hview rfl).mp hnone t)
    · rw [htaken hne] at hnone
      cases hnone
  · by_cases hne : v' = view.id
    · subst hne
      rw [hm.empty] at hnow
      cases hnow
    · cases hpick.symm.trans (htaken hne)
      rw [hm.unshown] at hshown
      cases hshown

/-- A view whose toplevel goes is left with none to pick. -/
theorem toplevelDestroyed_looking (hp : Paired s) (hs : Sound s) (h : Looking w ∅ s) {x : WlSurface}
    (hok : ((s.idOf x).bind s.shownIn).all (fun v => s.toplevels.byId.keys.all fun t =>
      s.idOf x == some t || !(s.suits w v t && s.mayFree v t)) = true) :
    Looking w ∅ ((s.toplevelDestroyed w u x).resetToplevel x) := by
  cases hid : s.idOf x with
  | none =>
      have hsame : s.toplevelDestroyed w u x = s := by unfold toplevelDestroyed; rw [hid]
      rw [hsame]
      exact fun v t hm => h v t (hs.missing_reset (by simp [hid]) hm)
  | some id =>
      have hkeeps : keepsAppId s (.destroyToplevel x) = true := rfl
      have hdeeds : Deeds w (fun s e => keepsAppId s e = true) s ∅ _ _ := removeToplevel_deeds hu hp hid hkeeps
      have hremoved : Looking w ∅ ((s.unbindToplevel w u id).removeToplevel id) := by
        intro v t hm
        rcases h.deeds hdeeds hs v t hm with ⟨id', v', hid', hshown, hv⟩ | ⟨id', v', -, -, ht⟩
        · cases hv
          cases hid.symm.trans hid'
          have hunbound : s.unbindToplevel w u id = (s.unbindView w u v).log [.posted .closed v] := by
            rw [shownIn] at hshown
            unfold unbindToplevel
            rw [hshown]
          rw [hunbound] at hm
          have hne : t ≠ id := by
            rintro rfl
            obtain ⟨e, te, -, -, hte, -⟩ := missing_iff.mp hm
            simp [removeToplevel, State.toplevel] at hte
          have hm : Missing w (s.unbindView w u v) v t := by
            refine hm.congr rfl ?_ fun _ _ _ => ⟨rfl, rfl⟩
            simp [removeToplevel, State.toplevel, hne, State.log]
          have hshows : s.shows v ≠ some t := by
            rw [(hp v id).mpr hshown]
            simpa using hne.symm
          have hsuits := (SameFaces.unbindView hu s v).suits hm.suits
          have hmay := mayFree_of_unbindView hu hshows hm.lone hm.unshown hm.mapped
          obtain ⟨e, -, hsuits'⟩ := (Option.any_eq_true _ _).mp hsuits
          obtain ⟨te, hte, -⟩ := (Option.any_eq_true _ _).mp hsuits'
          have hkey : t ∈ s.toplevels.byId.keys := by
            rw [Table.mem_keys, show s.toplevels.byId[t]? = some te from hte]
            rfl
          rw [hid, Option.bind_some, hshown, Option.all_some, List.all_eq_true] at hok
          have := hok t hkey
          simp [hsuits, hmay, hne.symm] at this
        · cases ht
      have hlooking : Looking w ∅ (s.toplevelDestroyed w u x) :=
        hremoved.deeds (toplevelDestroyed_settles hu hid).deeds (hdeeds.invariant (fun hd hs => hs.act hd.act) hs)
      have hall : Deeds w (fun s e => keepsAppId s e = true) s ∅ _ _ := toplevelDestroyed_deeds hu hp x hkeeps
      have hsound : Sound (s.toplevelDestroyed w u x) := hall.invariant (fun hd hs => hs.act hd.act) hs
      exact fun v t hm => hlooking v t (hsound.missing_reset (fun _ => toplevelDestroyed_gone hu) hm)

/-- A dialog that now stands on its own is shown to no view. -/
theorem parentChanged_looking (hs : Sound s) (h : Looking w ∅ s) {x : WlSurface} {parent : Option WlSurface}
    (hv : s.valid w (.setParent x parent) = true) (hok : s.leavesMatched w (.setParent x parent) = true) :
    Looking w ∅ ((s.setParent x parent).parentChanged w u) := by
  simp only [valid, Bool.and_eq_true] at hv
  have hset : Deed w (fun s e => keepsAppId s e = true) s ∅
      {d | (∃ v ∈ s.viewIds w, d = .offer v) ∨ (parent = none ∧ d ∈ loneDebts s x)} (s.setParent x parent) := by
    refine .parentSet s x parent hv.1 (fun p hpar => ?_) rfl
    have hlive := hv.2
    rw [hpar] at hlive
    simpa using hlive
  have hlooking : Looking w ∅ (s.setParent x parent) := by
    intro v t hm
    rcases hset.missing hs hm with ⟨hm, -⟩ | (⟨v', -, hd⟩ | ⟨-, id, -, -, -, -, hd⟩) |
      (⟨v', -, hd⟩ | ⟨rfl, id, hid, hsome, hshown, hmapped, hd⟩)
    · exact h v t hm
    · cases hd
    · cases hd
    · cases hd
    · cases hd
      have hview : (s.setParent x none).view = s.view := rfl
      obtain ⟨e, te, he, hempty, hte, -, hwants⟩ := missing_iff.mp hm
      have hwaits : v ∈ s.waiting := by
        refine List.mem_filter.mpr ⟨Table.mem_keys.mpr ?_, ?_⟩
        · rw [show s.views[v]? = some e from he]; rfl
        · rw [← hview, he]; simp [hempty]
      have hsuits : s.suits w v t = true := by
        rw [wants_congr (s := s) (by simp only [setParent]; split <;> simp_all)] at hwants
        rw [State.suits, show s.view v = some e from he, Option.any_some, show s.toplevel t = some te from hte]
        exact hwants
      obtain ⟨p, hparent⟩ := Option.isSome_iff_exists.mp hsome
      have hm' : s.isMapped t = true := hmapped
      simp only [leavesMatched, valid, hv, hparent, hid, hshown, hm', Option.all_some, Bool.and_self, Bool.not_true,
        Option.isNone_some, Option.isSome_none, Bool.false_or, List.all_eq_true, Bool.not_eq_true'] at hok
      rw [hok v hwaits] at hsuits
      cases hsuits
  refine (hlooking.mono (Set.empty_subset _)).deeds (parentChanged_deeds hu (D := ∅) _) (hs.act hset.act)

end

/-! ## Runs -/

theorem step_looking {depth : Nat} (hp : Paired s) (hs : Sound s) (h : Looking w ∅ s) {e : Event}
    (happ : keepsAppId s e = true) (hok : s.leavesMatched w e = true) : Looking w ∅ (step w depth s e) := by
  have hu := unblock_wakes w depth
  have hdeeds : Deeds w (fun s e => keepsAppId s e = true) s ∅ (step w depth s e) (unpaid s e) := step_deeds hp happ
  cases hv : s.valid w e with
  | false =>
      unfold step
      rw [hv]
      exact h
  | true =>
      have hstep : step w depth s e = s.handle w (unblock w depth) e := by unfold step; rw [hv]; rfl
      cases e with
      | cmd c =>
          cases c with
          | viewCreated view =>
              rw [hstep]
              simp only [leavesMatched, hv, Bool.not_true, Bool.false_or] at hok
              exact viewCreated_looking hu hp hs h hok
          | viewDisposed v =>
              rw [hstep]
              simp only [leavesMatched, hv, Bool.not_true, Bool.false_or] at hok
              exact viewDisposed_looking hu hs h hok
          | _ => exact h.deeds hdeeds hs
      | destroyToplevel x =>
          rw [hstep]
          simp only [leavesMatched, hv, Bool.not_true, Bool.false_or] at hok
          exact toplevelDestroyed_looking hu hp hs h hok
      | setParent x parent =>
          rw [hstep]
          exact parentChanged_looking hu hs h hv hok
      | activate x value =>
          -- A view not told is owed, and no look.
          intro v t hm
          rcases h.deeds hdeeds hs v t hm with ⟨v', -, hd⟩ | ⟨v', -, hd⟩ <;> cases hd
      | _ => exact h.deeds hdeeds hs

/-- In every run whose events leave nothing unmatched, a view that shows nothing has nothing to pick. -/
theorem run_complete (w : World) (depth : Nat) (es : List Event)
    (happ : Runs.Meets (step w depth) (fun s e => keepsAppId s e = true) {} es)
    (hok : Runs.Meets (step w depth) (fun s e => s.leavesMatched w e = true) {} es) {v : ViewId} {e : ViewEntry}
    (hv : (run w depth es).view v = some e) (hempty : e.toplevel = none) :
    (run w depth es).pick w e.handle.params = none := by
  have hlooking : Paired (run w depth es) ∧ Sound (run w depth es) ∧ Looking w ∅ (run w depth es) := by
    refine (happ.and hok).keeps (P := fun s => Paired s ∧ Sound s ∧ Looking w ∅ s) ?_ ⟨paired_empty, .empty, ?_⟩
    · rintro s e ⟨happ, hok⟩ ⟨hp, hs, h⟩
      have hdeeds : Deeds w (fun s e => keepsAppId s e = true) s ∅ (step w depth s e) (unpaid s e) := step_deeds hp happ
      have hkept : Paired (step w depth s e) ∧ Sound (step w depth s e) :=
        hdeeds.invariant (P := fun s => Paired s ∧ Sound s) (fun hd h => ⟨h.1.act hd.act, h.2.act hd.act⟩) ⟨hp, hs⟩
      exact ⟨hkept.1, hkept.2, step_looking hp hs h happ hok⟩
    · intro v t hm
      obtain ⟨e, te, he, -⟩ := missing_iff.mp hm
      simp [State.view] at he
  exact (pick_eq_none hv hempty).mpr fun t hm => by simpa using hlooking.2.2 v t hm

/-- A toplevel of an app maps, and two views name the app; the first of them is disposed. -/
def disposeRun (first second : ViewParams) : List Event :=
  [.newToplevel 1, .setAppId 1 "org.a", .commit { main := { surface := 1 } },
    .cmd (.viewCreated { uid := 0, id := 1, params := first }),
    .cmd (.viewCreated { uid := 1, id := 2, params := second }), .cmd (.viewDisposed 1)]

/-- A view that names another app stays empty: the toplevel let go is not for it. -/
theorem run_complete_otherApp :
    (run World.granting 1 (disposeRun { appId := some "org.a" } { appId := some "org.b" })).pick World.granting
      { appId := some "org.b" } = none := by
  have hview : (run World.granting 1 (disposeRun { appId := some "org.a" } { appId := some "org.b" })).view 2 =
      some { handle := { uid := 1, id := 2, params := { appId := some "org.b" } } } := by decide +kernel
  exact run_complete World.granting 1 _ (by decide +kernel) (by decide +kernel) hview rfl

/-- A view that waits for the app stays empty though its toplevel is free. -/
theorem not_complete : ¬∀ (w : World) (depth : Nat) (es : List Event),
    Runs.Meets (step w depth) (fun s e => keepsAppId s e = true) {} es →
    ∀ v e, (run w depth es).view v = some e → e.toplevel = none → (run w depth es).pick w e.handle.params = none := by
  intro h
  have hpick := h World.granting 1 (disposeRun { appId := some "org.a" } { appId := some "org.a" }) (by decide +kernel) 2
    { handle := { uid := 1, id := 2, params := { appId := some "org.a" } } } (by decide +kernel) rfl
  revert hpick
  decide +kernel

end IhsWl
