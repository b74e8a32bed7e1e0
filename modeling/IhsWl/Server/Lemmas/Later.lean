import IhsWl.Server.Lemmas.Settles

/-!
# What applying commits does to the links

Toplevels are mapped and views that wait are bound. Nothing is undone.
-/

namespace IhsWl

open State

variable {w : World} {s s' t : State}

/-! ## Views and toplevels -/

namespace SameLinks

theorem shows (h : SameLinks s s') : s'.shows = s.shows := by
  funext v
  exact h.view_toplevel v

theorem shownIn (h : SameLinks s s') : s'.shownIn = s.shownIn := by
  funext t
  simp only [State.shownIn, h.toplevel]

end SameLinks

namespace State

@[simp] theorem shows_markMapped (s : State) (id : ToplevelId) (v : ViewId) :
    (s.markMapped id).shows v = s.shows v := rfl

@[simp] theorem shownIn_markMapped (s : State) (id t : ToplevelId) :
    (s.markMapped id).shownIn t = s.shownIn t := by
  simp only [shownIn, markMapped, toplevel_log, toplevel_modifyToplevel]
  split
  · rename_i h
    subst h
    rw [Option.bind_map]
    rfl
  · rfl

theorem shows_link {v : ViewId} {t : ToplevelId} (hv : (s.view v).isSome) (v' : ViewId) :
    (s.link v t).shows v' = if v' = v then some t else s.shows v' := by
  obtain ⟨e, he⟩ := Option.isSome_iff_exists.mp hv
  simp only [shows, link, view_log, view_modifyView, view_modifyToplevel, he]
  split <;> rfl

theorem shownIn_link {t : ToplevelId} (ht : (s.toplevel t).isSome) (v : ViewId) (t' : ToplevelId) :
    (s.link v t).shownIn t' = if t' = t then some v else s.shownIn t' := by
  obtain ⟨te, he⟩ := Option.isSome_iff_exists.mp ht
  simp only [shownIn, link, toplevel_log, toplevel_modifyView, toplevel_modifyToplevel, he]
  split <;> rfl

theorem shows_unlink (s : State) (v v' : ViewId) :
    (s.unlink v).shows v' = if v' = v then none else s.shows v' := by
  unfold unlink
  cases hv : s.view v with
  | none =>
      simp only
      split
      · rename_i h
        rw [h, shows, hv]
        rfl
      · rfl
  | some e =>
      dsimp only
      split <;> simp only [shows, view_log, view_modifyView, view_modifyToplevel, hv] <;> split <;> rfl

theorem toplevel_unlink (s : State) (v : ViewId) (t : ToplevelId) : (s.unlink v).toplevel t =
    if s.shows v = some t then (s.toplevel t).map fun te => { te with view := none } else s.toplevel t := by
  unfold unlink
  cases hv : s.view v with
  | none => rw [if_neg (by simp [shows, hv])]
  | some e =>
      have hshows : s.shows v = e.toplevel := by rw [shows, hv]; rfl
      dsimp only
      rw [hshows]
      split
      · rename_i he
        rw [he, if_neg (by simp)]
        rfl
      · rename_i t' he
        simp only [he, Option.some.injEq, toplevel_log, toplevel_modifyToplevel, eq_comm (a := t')]
        split
        · rename_i h
          rw [h]
          rfl
        · rfl

theorem shownIn_unlink (s : State) (v : ViewId) (t : ToplevelId) :
    (s.unlink v).shownIn t = if s.shows v = some t then none else s.shownIn t := by
  rw [shownIn, toplevel_unlink]
  split
  · rw [Option.bind_map]
    cases s.toplevel t <;> rfl
  · rfl

theorem view_unlink {s : State} {v v' : ViewId} (h : v' ≠ v) : (s.unlink v).view v' = s.view v' := by
  unfold unlink
  split
  · rfl
  · dsimp only
    split <;> simp [h]

theorem view_unlink_self (s : State) (v : ViewId) : (s.unlink v).view v =
    (s.view v).map fun e => { e with holds := (e.holds.clear v).1, toplevel := none } := by
  unfold unlink
  cases hv : s.view v with
  | none => exact hv
  | some e =>
      dsimp only
      split <;> simp [hv]

theorem handle_unlink (s : State) (v v' : ViewId) :
    ((s.unlink v).view v').map ViewEntry.handle = (s.view v').map ViewEntry.handle := by
  by_cases hv : v' = v
  · subst hv
    unfold unlink
    split
    · rfl
    · rename_i e he
      dsimp only
      split <;> simp [he]
  · rw [view_unlink hv]

theorem unlink_desk (s : State) (v : ViewId) : SameDesk s (s.unlink v) := by
  unfold unlink
  split
  · exact .refl s
  · dsimp only
    split <;> exact ⟨rfl, rfl, rfl, rfl, rfl, rfl⟩

/-- Letting a toplevel go, whatever is told of it. -/
theorem letGo_desk (s : State) (v : ViewId) (es : List Effect) : SameDesk s ((s.unlink v).log es) :=
  (unlink_desk s v).trans ⟨rfl, rfl, rfl, rfl, rfl, rfl⟩

theorem shows_insertView (s : State) (view : ViewHandle) (v : ViewId) :
    (s.insertView view).shows v = if v = view.id then none else s.shows v := by
  simp only [shows, insertView, State.view, Table.get_insert]
  split <;> rfl

theorem shows_eraseView (s : State) (v v' : ViewId) :
    (s.eraseView v).shows v' = if v' = v then none else s.shows v' := by
  simp only [shows, eraseView, State.view, Table.get_erase]
  split <;> rfl

theorem shownIn_newToplevel (s : State) (x : WlSurface) (t : ToplevelId) :
    (s.newToplevel x).shownIn t = if t = s.toplevels.nextId + 1 then none else s.shownIn t := by
  simp only [shownIn, newToplevel, State.toplevel, Toplevels.get_insert]
  split <;> rfl

theorem shownIn_removeToplevel (s : State) (id t : ToplevelId) :
    (s.removeToplevel id).shownIn t = if t = id then none else s.shownIn t := by
  simp only [shownIn, removeToplevel, State.toplevel, Toplevels.get_remove]
  split <;> rfl

theorem shownIn_markActivated (s : State) (id t : ToplevelId) (value : String) :
    (s.markActivated id value).shownIn t = s.shownIn t := by
  simp only [shownIn, markActivated, toplevel_log, toplevel_modifyToplevel]
  split
  · rename_i h
    subst h
    rw [Option.bind_map]
    rfl
  · rfl

/-- A view picks one of the toplevels there are. -/
theorem pick_spec {params : ViewParams} {t : ToplevelId} (h : s.pick w params = some t) :
    ∃ te, s.toplevel t = some te ∧ s.free te = true ∧ s.wants w params te = true := by
  have hp := List.find?_some h
  split at hp
  · cases hp
  · rename_i te ht
    rw [Bool.and_eq_true] at hp
    exact ⟨te, ht, hp.1, hp.2⟩

end State

/-! ## Later states -/

/-- A toplevel as it may be once commits were applied. -/
structure ToplevelEntry.Later (te te' : ToplevelEntry) : Prop where
  surface : te'.surface = te.surface
  token : te'.token = te.token
  mapped : te.mapped = true → te'.mapped = true
  view : ∀ v, te.view = some v → te'.view = some v

theorem ToplevelEntry.Later.refl (te : ToplevelEntry) : te.Later te := ⟨rfl, rfl, id, fun _ => id⟩

theorem ToplevelEntry.Later.trans {a b c : ToplevelEntry} (h : a.Later b) (h' : b.Later c) : a.Later c :=
  ⟨h'.surface.trans h.surface, h'.token.trans h.token, h'.mapped ∘ h.mapped, fun v => h'.view v ∘ h.view v⟩

/-- What holds between a state and one it became by applying commits. -/
structure Later (s s' : State) : Prop where
  desk : SameDesk s s'
  handles : ∀ v, (s'.view v).map ViewEntry.handle = (s.view v).map ViewEntry.handle
  shows : ∀ v t, s.shows v = some t → s'.shows v = some t
  nextId : s'.toplevels.nextId = s.toplevels.nextId
  toplevel : ∀ id, Option.Rel ToplevelEntry.Later (s.toplevel id) (s'.toplevel id)
  trace : ∃ es, s'.trace = s.trace ++ es ∧ ∀ id te te', s.toplevel id = some te →
    s'.toplevel id = some te' → te'.mapped = true → te.mapped = true ∨ .mapped id ∈ es

theorem rel_later_refl (o : Option ToplevelEntry) : Option.Rel ToplevelEntry.Later o o := by
  cases o with
  | none => exact .none
  | some te => exact .some (.refl te)

theorem SameLinks.later (h : SameLinks s s') : Later s s' := by
  obtain ⟨es, he, -⟩ := h.trace
  refine ⟨h.toSameDesk, fun v => ?_, fun v t hs => by rwa [h.shows], by rw [h.toplevels], fun id => ?_, es, he, ?_⟩
  · have hb := congrArg (Option.map Prod.fst) (h.bindings v)
    simp only [Option.map_map] at hb
    exact hb
  · rw [h.toplevel]; exact rel_later_refl _
  · intro id te te' ht ht' hm
    rw [h.toplevel, ht] at ht'
    cases ht'
    exact Or.inl hm

theorem Later.refl (s : State) : Later s s := (SameLinks.refl s).later

theorem Later.trans (h : Later s s') (h' : Later s' t) : Later s t := by
  obtain ⟨es, he, hes⟩ := h.trace
  obtain ⟨es', he', hes'⟩ := h'.trace
  refine ⟨h.desk.trans h'.desk, fun v => (h'.handles v).trans (h.handles v),
    fun v t => h'.shows v t ∘ h.shows v t, h'.nextId.trans h.nextId, fun id => ?_, es ++ es',
    by rw [he', he, List.append_assoc], ?_⟩
  · have h1 := h.toplevel id
    have h2 := h'.toplevel id
    cases hs' : s'.toplevel id with
    | none =>
        rw [hs'] at h1 h2
        cases hs : s.toplevel id <;> rw [hs] at h1 <;> cases h1
        exact h2
    | some te' =>
        rw [hs'] at h1 h2
        cases hs : s.toplevel id <;> rw [hs] at h1 <;> cases h1
        rename_i hl
        cases ht : t.toplevel id <;> rw [ht] at h2 <;> cases h2
        rename_i hl'
        exact .some (hl.trans hl')
  · intro id te te'' hs ht hm
    have h1 := h.toplevel id
    rw [hs] at h1
    cases hs' : s'.toplevel id <;> rw [hs'] at h1 <;> cases h1
    rename_i te' hl
    rcases hes' id te' te'' hs' ht hm with hm' | hm'
    · rcases hes id te te' hs hs' hm' with hm | hm
      · exact Or.inl hm
      · exact Or.inr (List.mem_append_left _ hm)
    · exact Or.inr (List.mem_append_right _ hm')

theorem Move.later {paid taken : Set Debt} (h : Move w s paid taken s') : Later s s' := by
  have hdesk := h.desk
  cases h with
  | pace h => exact h.links.later
  | mapped x id te hid hte hm =>
      refine ⟨hdesk, fun _ => rfl, fun _ _ h => h, rfl, fun id' => ?_, [.mapped id], rfl, ?_⟩
      · simp only [markMapped, toplevel_log, toplevel_modifyToplevel]
        split
        · rename_i h
          subst h
          rw [hte]
          exact .some ⟨rfl, rfl, fun _ => rfl, fun _ h => h⟩
        · exact rel_later_refl _
      · intro id' te₁ te₂ h1 h2 hm2
        simp only [markMapped, toplevel_log, toplevel_modifyToplevel] at h2
        split at h2
        · rename_i h
          exact Or.inr (by simp [h])
        · rw [h1] at h2
          cases h2
          exact Or.inl hm2
  | linked v e t₀ hv he hp =>
      obtain ⟨te, hte, hfree, -⟩ := pick_spec hp
      have hnone : te.view = none := by
        simp only [free, Bool.and_eq_true, Option.isNone_iff_eq_none] at hfree
        exact hfree.1.2
      refine ⟨hdesk, fun v' => ?_, fun v' t' hs => ?_, rfl, fun id' => ?_, _, rfl, ?_⟩
      · simp only [link, view_log, view_modifyView, view_modifyToplevel]
        split
        · rename_i h
          subst h
          rw [hv]
          rfl
        · rfl
      · rw [shows_link (by rw [hv]; rfl)]
        split
        · rename_i h
          rw [h, shows, hv] at hs
          exact absurd (he.symm.trans hs) (by simp)
        · exact hs
      · simp only [link, toplevel_log, toplevel_modifyView, toplevel_modifyToplevel]
        split
        · rename_i h
          subst h
          rw [hte]
          exact .some ⟨rfl, rfl, id, fun v hv => by rw [hnone] at hv; cases hv⟩
        · exact rel_later_refl _
      · intro id' te₁ te₂ h1 h2 hm2
        simp only [link, toplevel_log, toplevel_modifyView, toplevel_modifyToplevel] at h2
        split at h2
        · rename_i h
          subst h
          rw [h1] at h2
          cases h2
          exact Or.inl hm2
        · rw [h1] at h2
          cases h2
          exact Or.inl hm2

theorem Settles.later {D E : Set Debt} (h : Settles w s D s' E) : Later s s' :=
  h.related Later.refl Later.trans Move.later

theorem Later.entry (h : Later s s') {id : ToplevelId} {te : ToplevelEntry} (hte : s.toplevel id = some te) :
    ∃ te', s'.toplevel id = some te' ∧ te.Later te' := by
  have hrel := h.toplevel id
  rw [hte] at hrel
  cases hs' : s'.toplevel id <;> rw [hs'] at hrel <;> cases hrel
  rename_i te' hl
  exact ⟨te', rfl, hl⟩

/-- A toplevel shown stays shown there. -/
theorem Later.shownIn (h : Later s s') {id : ToplevelId} {v : ViewId} (hs : s.shownIn id = some v) :
    s'.shownIn id = some v := by
  obtain ⟨te, hte, hv⟩ := Option.bind_eq_some_iff.mp hs
  obtain ⟨te', hte', hl⟩ := h.entry hte
  rw [State.shownIn, hte']
  exact hl.view v hv

/-! ## Mapping -/

variable {u : Unblock} (hu : Wakes w u)

include hu

namespace State

/-- What comes after the toplevel's own part of a commit undoes nothing. -/
theorem commit_later (s : State) (c : Commit) :
    Later ((s.applyContent w c).toplevelCommit w u c.surface) (s.commit w u false c) := by
  unfold commit
  dsimp only
  rw [if_neg (by simp)]
  split
  · exact Settles.later (.trans (.more (Set.empty_subset _)) (submitView_settles hu (D := ∅) _))
  · exact (notShown_settles hu (D := ∅) _).later

theorem toplevelCommit_maps {x : WlSurface} {id : ToplevelId} {te : ToplevelEntry} (hid : s.idOf x = some id)
    (hte : s.toplevel id = some te) : ((s.toplevelCommit w u x).toplevel id).any ToplevelEntry.mapped = true := by
  unfold toplevelCommit
  rw [hid]
  dsimp only
  rw [hte]
  dsimp only
  split
  · rename_i hm
    rw [hte]
    exact hm
  · have hmarked : (s.markMapped id).toplevel id = some { te with mapped := true } := by simp [markMapped, hte]
    obtain ⟨te', hte', hl⟩ := (bindWaitingViews_settles hu (D := ∅)).later.entry hmarked
    rw [hte']
    exact hl.mapped rfl

/-- A commit of a toplevel finds its entry, and maps it. -/
theorem applyUpdate_maps {up : Update} {id : ToplevelId} {te : ToplevelEntry}
    (hc : s.committable w up.main.surface = true) (hid : s.idOf up.main.surface = some id)
    (hte : s.toplevel id = some te) : ((s.applyUpdate w u up).toplevel id).any ToplevelEntry.mapped = true := by
  -- Before the commit itself, what waited for it is applied.
  have hbefore : Later s (up.synced.foldl (applyCommit w u up.main true) s) := by
    have hfold : ∀ (cs : List Commit) (s : State), Later s (cs.foldl (applyCommit w u up.main true) s) := by
      intro cs
      induction cs with
      | nil => exact Later.refl
      | cons c cs ih => exact fun s => (applySynced_settles hu (D := ∅) up.main c).later.trans (ih _)
    exact hfold _ s
  obtain ⟨te₁, hte₁, -⟩ := hbefore.entry hte
  rw [← hbefore.desk.idOf] at hid
  rw [← hbefore.desk.committable w] at hc
  rw [applyUpdate, applyCommit, if_pos hc, Bool.false_and]
  generalize up.synced.foldl (applyCommit w u up.main true) s = r at hid hte₁
  have hlinks := applyContent_links w r up.main
  rw [← hlinks.idOf] at hid
  rw [← hlinks.toplevel] at hte₁
  obtain ⟨te₂, hte₂, hm⟩ := (Option.any_eq_true _ _).mp (toplevelCommit_maps hu hid hte₁)
  obtain ⟨te', hte', hl⟩ := (commit_later hu r up.main).entry hte₂
  rw [hte']
  exact hl.mapped hm

end State

end IhsWl
