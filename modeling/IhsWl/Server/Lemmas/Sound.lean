import IhsWl.Server.Lemmas.Deeds

/-!
# Surfaces, their roles and their toplevels

What the data of the clients' surfaces keeps in every state a run reaches: a role is given once, and a
toplevel that mapped is found from its surface.
-/

namespace IhsWl

open State

variable {w : World} {guard : State → Event → Prop} {s s' : State}

/-! ## Where entries come from -/

/-- What a toplevel may become in an act. -/
structure ToplevelEntry.Becomes (s : State) (t : ToplevelId) (te te' : ToplevelEntry) : Prop where
  surface : te'.surface = te.surface
  mapped : te'.mapped = true → te.mapped = true ∨ ∃ x, s.idOf x = some t
  kept : te.mapped = true → te'.mapped = true
  view : te'.view.isSome = true → te.view.isSome = true ∨ s.free te = true

theorem ToplevelEntry.Becomes.refl (t : ToplevelId) (te : ToplevelEntry) : te.Becomes s t te :=
  ⟨rfl, Or.inl, id, Or.inl⟩

/-- A toplevel was there before, or is just made. -/
theorem Act.entry (ha : Act w guard s s') {t : ToplevelId} {te' : ToplevelEntry} (h : s'.toplevel t = some te') :
    (∃ te, s.toplevel t = some te ∧ te.Becomes s t te') ∨
    (t = s.toplevels.nextId + 1 ∧ ∃ x, s' = s.newToplevel x ∧ te' = { surface := x }) := by
  have hkept (h : s.toplevel t = some te') : ∃ te, s.toplevel t = some te ∧ te.Becomes s t te' :=
    ⟨te', h, .refl t te'⟩
  have hmodify {r : State} (id : ToplevelId) {f : ToplevelEntry → ToplevelEntry}
      (hf : ∀ te, r.toplevel id = some te → te.Becomes s id (f te))
      (hr : (r.modifyToplevel id f).toplevel t = some te') : ∃ te, r.toplevel t = some te ∧ te.Becomes s t te' := by
    rw [toplevel_modifyToplevel] at hr
    split at hr
    · rename_i ht
      subst ht
      obtain ⟨te, hte, rfl⟩ := Option.map_eq_some_iff.mp hr
      exact ⟨te, hte, hf te hte⟩
    · exact ⟨te', hr, .refl t te'⟩
  cases ha with
  | same _ hl => exact Or.inl (hkept (hl.toplevel ▸ h))
  | mapped x id te hid hte hm =>
      refine Or.inl (hmodify id ?_ h)
      exact fun _ _ => ⟨rfl, fun _ => Or.inr ⟨x, hid⟩, fun _ => rfl, Or.inl⟩
  | linked v e t₀ hv he hp =>
      obtain ⟨te, hte, hfree, -⟩ := pick_spec hp
      refine Or.inl (hmodify t₀ (fun te₁ hte₁ => ?_) h)
      cases hte.symm.trans hte₁
      exact ⟨rfl, Or.inl, id, fun _ => Or.inr hfree⟩
  | tokenUsed t₀ token hmem hi =>
      refine Or.inl (hmodify t₀ ?_ h)
      exact fun _ _ => ⟨rfl, Or.inl, id, Or.inl⟩
  | unlinked v =>
      unfold unlink at h
      split at h
      · exact Or.inl (hkept h)
      · dsimp only at h
        split at h
        · exact Or.inl (hkept h)
        · rw [toplevel_log] at h
          refine Or.inl (hmodify _ ?_ h)
          exact fun _ _ => ⟨rfl, Or.inl, id, nofun⟩
  | made x hx hr =>
      simp only [newToplevel, State.toplevel, Toplevels.get_insert] at h
      split at h
      · rename_i ht
        cases h
        exact Or.inr ⟨ht, x, rfl, rfl⟩
      · exact Or.inl (hkept h)
  | removed s₀ x id hid hs hg =>
      simp only [removeToplevel, State.toplevel, Toplevels.get_remove] at h
      split at h
      · cases h
      · exact Or.inl (hkept h)
  | _ => exact Or.inl (hkept h)

/-- A view that shows a toplevel was shown it before, or just bound it. -/
theorem Act.handle (ha : Act w guard s s') {v : ViewId} {e' : ViewEntry} {t : ToplevelId}
    (h : s'.view v = some e') (ht : e'.toplevel = some t) :
    ∃ e, s.view v = some e ∧ e.handle = e'.handle ∧
      (e.toplevel = some t ∨ (e.toplevel = none ∧ s.pick w e.handle.params = some t ∧ s' = s.link v t)) := by
  cases ha with
  | same _ hl =>
      obtain ⟨e, he, hh, htop⟩ := hl.view h
      exact ⟨e, he, hh.symm, Or.inl (htop ▸ ht)⟩
  | linked v₀ e₀ t₀ hv he hp =>
      have h' := h
      simp only [link, view_log, view_modifyView, view_modifyToplevel, hv] at h
      split at h
      · rename_i hvv
        subst hvv
        cases h
        cases ht
        exact ⟨e₀, hv, rfl, Or.inr ⟨he, hp, rfl⟩⟩
      · exact ⟨e', h, rfl, Or.inl ht⟩
  | unlinked v₀ =>
      unfold unlink at h
      split at h
      · exact ⟨e', h, rfl, Or.inl ht⟩
      · rename_i e hv
        have hmodify : (s.modifyView v₀ fun e₁ => { e₁ with holds := (e.holds.clear v₀).1, toplevel := none }).view v =
            some e' := by
          dsimp only at h
          split at h <;> exact h
        rw [view_modifyView] at hmodify
        split at hmodify
        · obtain ⟨e₁, -, rfl⟩ := Option.map_eq_some_iff.mp hmodify
          cases ht
        · exact ⟨e', hmodify, rfl, Or.inl ht⟩
  | inserted view hv =>
      simp only [insertView, State.view, Table.get_insert] at h
      split at h
      · cases h; cases ht
      · exact ⟨e', h, rfl, Or.inl ht⟩
  | erased v₀ hv =>
      simp only [eraseView, State.view, Table.get_erase] at h
      split at h
      · cases h
      · exact ⟨e', h, rfl, Or.inl ht⟩
  | _ => exact ⟨e', h, rfl, Or.inl ht⟩

/-! ## Surfaces -/

theorem Act.role (ha : Act w guard s s') {x : WlSurface} {r : Role} (h : (s.surfaces x).role = some r) :
    (s'.surfaces x).role = some r := by
  cases ha with
  | same _ hl => rw [hl.surfaces]; exact h
  | unlinked v => rw [(letGo_desk s v _).surfaces]; exact h
  | made y hy hr =>
      simp only [newToplevel]
      split
      · rename_i hxy
        subst hxy
        rcases hr with hr | hr <;> rw [hr] at h <;> cases h
        rfl
      · exact h
  | popupMade y parent hp hr hc hl =>
      simp only [newPopup]
      split
      · rename_i hxy
        subst hxy
        rcases hr with hr | hr <;> rw [hr] at h <;> cases h
        rfl
      · exact h
  | subsurfaceMade y parent hc hp hr =>
      simp only [getSubsurface]
      split
      · rename_i hxy
        subst hxy
        rcases hr with hr | hr <;> rw [hr] at h <;> cases h
        rfl
      · exact h
  | reset | parentSet | named | untracked | surfaceGone => exact (field_update Surface.role (by rfl) x).trans h
  | _ => exact h

/-- Only making a toplevel gives a surface an id. -/
theorem Act.idOf (ha : Act w guard s s') :
    s'.idOf = s.idOf ∨ ∃ x, s' = s.newToplevel x := by
  cases ha with
  | same _ hl => exact Or.inl hl.idOf
  | unlinked v => exact Or.inl (letGo_desk s v _).idOf
  | made x hx hr => exact Or.inr ⟨x, rfl⟩
  | reset | parentSet | named | popupMade | untracked | subsurfaceMade | surfaceGone =>
      exact Or.inl (funext fun y => field_update Surface.toplevelId (by rfl) y)
  | _ => exact Or.inl rfl

theorem idOf_newToplevel (s : State) (x y : WlSurface) : (s.newToplevel x).idOf y =
    if y = x then (s.idOf x <|> some (s.toplevels.nextId + 1)) else s.idOf y := by
  simp only [State.idOf, newToplevel]
  split <;> rfl

theorem idOf_newToplevel_kept {s : State} {x y : WlSurface} {id : ToplevelId} (h : s.idOf y = some id) :
    (s.newToplevel x).idOf y = some id := by
  rw [idOf_newToplevel]
  split
  · rename_i hxy
    rw [← hxy, h]
    rfl
  · exact h

/-- Who has an id then had it before, or is the toplevel made. -/
theorem idOf_newToplevel_cases {s : State} {x y : WlSurface} {id : ToplevelId}
    (h : (s.newToplevel x).idOf y = some id) : s.idOf y = some id ∨ y = x ∧ id = s.toplevels.nextId + 1 := by
  rw [idOf_newToplevel] at h
  split at h
  · rename_i hxy
    subst hxy
    cases hid : s.idOf y with
    | none =>
        rw [hid] at h
        exact Or.inr ⟨rfl, (Option.some.inj h).symm⟩
    | some id₀ =>
        rw [hid] at h
        exact Or.inl h
  · exact Or.inl h

theorem toplevel_newToplevel (s : State) (x : WlSurface) (id : ToplevelId) : (s.newToplevel x).toplevel id =
    if id = s.toplevels.nextId + 1 then some { surface := x } else s.toplevel id :=
  Toplevels.get_insert ..

theorem Act.nextId (ha : Act w guard s s') : s.toplevels.nextId ≤ s'.toplevels.nextId := by
  cases ha with
  | same _ hl => rw [hl.toplevels]
  | unlinked v =>
      unfold unlink
      split
      · exact Nat.le_refl _
      · dsimp only
        split <;> exact Nat.le_refl _
  | made x hx hr => exact Nat.le_succ _
  | _ => exact Nat.le_refl _

/-! ## The invariant -/

/-- What surfaces, toplevels and popups say of each other. -/
structure Sound (s : State) : Prop where
  own : ∀ x id te, s.idOf x = some id → s.toplevel id = some te → te.surface = x
  mapped : ∀ id te, s.toplevel id = some te → te.mapped = true → s.idOf te.surface = some id
  bounded : ∀ x id, s.idOf x = some id → id ≤ s.toplevels.nextId
  bound : ∀ id te, s.toplevel id = some te → te.view.isSome = true → te.mapped = true
  windows : ∀ id te, s.toplevel id = some te → (s.surfaces te.surface).role = some .toplevel
  popups : ∀ p ∈ s.popups, (s.surfaces p.surface).role = some .popup ∧ (s.surfaces p.surface).popupParent.isSome = true
  once : (s.popups.map Popup.surface).Nodup
  subsurfaces : ∀ p ∈ s.subsurfaces, (s.surfaces p.1).role = some .subsurface

namespace Sound

theorem empty : Sound {} := by
  constructor <;> simp [State.toplevel, State.idOf]

theorem act_own (h : Sound s) (ha : Act w guard s s') (x : WlSurface) (id : ToplevelId) (te' : ToplevelEntry)
    (hid : s'.idOf x = some id) (hte : s'.toplevel id = some te') : te'.surface = x := by
  rcases ha.entry hte with ⟨te, hte₀, hfrom⟩ | ⟨rfl, y, rfl, rfl⟩
  · rw [hfrom.surface]
    rcases ha.idOf with heq | ⟨y, rfl⟩
    · exact h.own x id te (heq ▸ hid) hte₀
    · rcases idOf_newToplevel_cases hid with hid | ⟨-, rfl⟩
      · exact h.own x id te hid hte₀
      · exact absurd (Toplevels.le_nextId hte₀) (Nat.not_succ_le_self _)
  · rcases idOf_newToplevel_cases hid with hid | ⟨hxy, -⟩
    · exact absurd (h.bounded x _ hid) (Nat.not_succ_le_self _)
    · exact hxy.symm

theorem act_bounded (h : Sound s) (ha : Act w guard s s') (x : WlSurface) (id : ToplevelId)
    (hid : s'.idOf x = some id) : id ≤ s'.toplevels.nextId := by
  rcases ha.idOf with heq | ⟨y, rfl⟩
  · exact Nat.le_trans (h.bounded x id (heq ▸ hid)) ha.nextId
  · change id ≤ s.toplevels.nextId + 1
    rcases idOf_newToplevel_cases hid with hid | ⟨-, rfl⟩
    · exact Nat.le_succ_of_le (h.bounded x id hid)
    · exact Nat.le_refl _

theorem act_mapped (h : Sound s) (ha : Act w guard s s') (id : ToplevelId) (te' : ToplevelEntry)
    (hte : s'.toplevel id = some te') (hm : te'.mapped = true) : s'.idOf te'.surface = some id := by
  rcases ha.entry hte with ⟨te, hte₀, hfrom⟩ | ⟨rfl, y, rfl, rfl⟩
  · have hid : s.idOf te.surface = some id := by
      rcases hfrom.mapped hm with hm | ⟨x, hx⟩
      · exact h.mapped id te hte₀ hm
      · rw [h.own x id te hx hte₀]
        exact hx
    rw [hfrom.surface]
    rcases ha.idOf with heq | ⟨y, rfl⟩
    · rw [heq]; exact hid
    · exact idOf_newToplevel_kept hid
  · cases hm

theorem act_bound (h : Sound s) (ha : Act w guard s s') (id : ToplevelId) (te' : ToplevelEntry)
    (hte : s'.toplevel id = some te') (hv : te'.view.isSome = true) : te'.mapped = true := by
  rcases ha.entry hte with ⟨te, hte₀, hfrom⟩ | ⟨-, y, -, rfl⟩
  · apply hfrom.kept
    rcases hfrom.view hv with hv | hfree
    · exact h.bound id te hte₀ hv
    · simp only [free, Bool.and_eq_true] at hfree
      exact hfree.1.1
  · cases hv

theorem act_windows (h : Sound s) (ha : Act w guard s s') (id : ToplevelId) (te' : ToplevelEntry)
    (hte : s'.toplevel id = some te') : (s'.surfaces te'.surface).role = some .toplevel := by
  rcases ha.entry hte with ⟨te, hte₀, hfrom⟩ | ⟨-, y, rfl, rfl⟩
  · exact hfrom.surface ▸ ha.role (h.windows id te hte₀)
  · simp [newToplevel]

/-- A popup was tracked before, or is just made. -/
theorem act_popups (h : Sound s) (ha : Act w guard s s') : ∀ p ∈ s'.popups,
    (s'.surfaces p.surface).role = some .popup ∧ (s'.surfaces p.surface).popupParent.isSome = true := by
  have hsame (hpopups : s'.popups = s.popups)
      (hparents : ∀ y, (s'.surfaces y).popupParent = (s.surfaces y).popupParent) : ∀ p ∈ s'.popups,
      (s'.surfaces p.surface).role = some .popup ∧ (s'.surfaces p.surface).popupParent.isSome = true := by
    intro p hp
    rw [hpopups] at hp
    exact ⟨ha.role (h.popups p hp).1, hparents p.surface ▸ (h.popups p hp).2⟩
  cases ha with
  | same _ hl => exact hsame hl.popups (fun y => by rw [hl.surfaces])
  | unlinked v => exact hsame (letGo_desk s v _).popups (fun y => by rw [(letGo_desk s v _).surfaces])
  | popupMade x parent hpop hr hc hl =>
      intro p hp
      simp only [newPopup, List.mem_append, List.mem_singleton] at hp ⊢
      rcases hp with hp | rfl
      · split
        · exact ⟨rfl, rfl⟩
        · exact h.popups p hp
      · simp
  | untracked x =>
      intro p hp
      simp only [untrackPopup, List.mem_filter, decide_eq_true_eq] at hp ⊢
      rw [if_neg hp.2]
      exact h.popups p hp.1
  | dismissed v => exact fun p hp => h.popups p (List.mem_filter.mp hp).1
  | made | reset | parentSet | named | subsurfaceMade | surfaceGone =>
      exact hsame rfl fun y => field_update Surface.popupParent (by rfl) y
  | _ => exact hsame rfl fun _ => rfl

theorem act_once (h : Sound s) (ha : Act w guard s s') : (s'.popups.map Popup.surface).Nodup := by
  cases ha with
  | same _ hl => rw [hl.popups]; exact h.once
  | unlinked v => rw [(letGo_desk s v _).popups]; exact h.once
  | popupMade x parent hpop hr hc hl =>
      simp only [newPopup, List.map_append, List.map_cons, List.map_nil]
      refine List.nodup_append.mpr ⟨h.once, by simp, ?_⟩
      -- A popup still tracked has a parent, and `x` has none.
      intro y hy z hz
      obtain ⟨p, hp, rfl⟩ := List.mem_map.mp hy
      rw [List.mem_singleton.mp hz]
      intro he
      have hsome := (h.popups p hp).2
      rw [he, hpop] at hsome
      cases hsome
  | untracked x => exact h.once.sublist (List.filter_sublist.map _)
  | dismissed v => exact h.once.sublist (List.filter_sublist.map _)
  | _ => exact h.once

theorem act_subsurfaces (h : Sound s) (ha : Act w guard s s') :
    ∀ p ∈ s'.subsurfaces, (s'.surfaces p.1).role = some .subsurface := by
  have hkept (hsub : ∀ p ∈ s'.subsurfaces, p ∈ s.subsurfaces) :
      ∀ p ∈ s'.subsurfaces, (s'.surfaces p.1).role = some .subsurface :=
    fun p hp => ha.role (h.subsurfaces p (hsub p hp))
  cases ha with
  | same _ hl => exact hkept fun p hp => hl.subsurfaces ▸ hp
  | unlinked v => exact hkept fun p hp => (letGo_desk s v _).subsurfaces ▸ hp
  | subsurfaceMade x parent hc hp hr =>
      intro p hp
      simp only [getSubsurface, List.mem_append, List.mem_singleton] at hp ⊢
      rcases hp with hp | rfl
      · split
        · rfl
        · exact h.subsurfaces p hp
      · simp
  | subsurfaceGone x => exact hkept fun p hp => (List.mem_filter.mp hp).1
  | surfaceGone x hx => exact hkept fun p hp => (List.mem_filter.mp hp).1
  | _ => exact hkept fun p hp => hp

theorem act (h : Sound s) (ha : Act w guard s s') : Sound s' :=
  ⟨h.act_own ha, h.act_mapped ha, h.act_bounded ha, h.act_bound ha, h.act_windows ha, h.act_popups ha, h.act_once ha,
    h.act_subsurfaces ha⟩

end Sound

theorem run_sound (w : World) (depth : Nat) (es : List Event) : Paired (run w depth es) ∧ Sound (run w depth es) :=
  run_keeps (fun _ h ha => h.act ha) Sound.empty (meets_anything depth es {})

end IhsWl
