import IhsWl.Server.Lemmas.Sound

/-!
# What is missing to a view

A view that shows nothing while a toplevel it may show is free. Whatever makes something missing owes a
look at it.
-/

namespace IhsWl

open State

variable {w : World} {s s' : State} {v : ViewId} {t : ToplevelId}

namespace State

/-- The binding rules let view `v` show toplevel `t`. -/
def suits (w : World) (s : State) (v : ViewId) (t : ToplevelId) : Bool :=
  (s.view v).any fun e => (s.toplevel t).any fun te => s.wants w e.handle.params te

/-- The toplevel is no dialog. -/
def lone (s : State) (t : ToplevelId) : Bool :=
  (s.toplevel t).any fun te => (s.surfaces te.surface).parent.isNone

def isMapped (s : State) (t : ToplevelId) : Bool := (s.toplevel t).any ToplevelEntry.mapped

end State

/-- View `v` shows nothing, and would pick `t`. -/
structure Missing (w : World) (s : State) (v : ViewId) (t : ToplevelId) : Prop where
  suits : s.suits w v t = true
  empty : s.shows v = none
  unshown : s.shownIn t = none
  lone : s.lone t = true
  mapped : s.isMapped t = true

theorem missing_iff : Missing w s v t ↔ ∃ e te, s.view v = some e ∧ e.toplevel = none ∧
    s.toplevel t = some te ∧ s.free te = true ∧ s.wants w e.handle.params te = true := by
  constructor
  · intro h
    obtain ⟨e, he, hs⟩ := (Option.any_eq_true _ _).mp h.suits
    obtain ⟨te, hte, hwants⟩ := (Option.any_eq_true _ _).mp hs
    have hempty := h.empty
    have hunshown := h.unshown
    have hlone := h.lone
    have hmapped := h.mapped
    rw [shows, he, Option.bind_some] at hempty
    rw [shownIn, hte, Option.bind_some] at hunshown
    rw [lone, hte, Option.any_some] at hlone
    rw [isMapped, hte, Option.any_some] at hmapped
    exact ⟨e, te, he, hempty, hte, by simp [free, hmapped, hunshown, hlone], hwants⟩
  · rintro ⟨e, te, he, hempty, hte, hfree, hwants⟩
    simp only [free, Bool.and_eq_true, Option.isNone_iff_eq_none] at hfree
    exact ⟨by simp [suits, he, hte, hwants], by simp [shows, he, hempty], by simp [shownIn, hte, hfree.1.2],
      by simp [lone, hte, hfree.2], by simp [isMapped, hte, hfree.1.1]⟩

/-- A view that waits picks something exactly when something is missing to it. -/
theorem pick_eq_none {e : ViewEntry} (he : s.view v = some e) (hempty : e.toplevel = none) :
    s.pick w e.handle.params = none ↔ ∀ t, ¬Missing w s v t := by
  rw [pick, List.find?_eq_none]
  constructor
  · intro h t hm
    obtain ⟨e', te, he', -, hte, hfree, hwants⟩ := missing_iff.mp hm
    cases he.symm.trans he'
    refine h t (Table.mem_keys.mpr ?_) (by simp [hte, hfree, hwants])
    rw [show s.toplevels.byId[t]? = some te from hte]
    rfl
  · intro h t _ hp
    split at hp
    · cases hp
    · rename_i te hte
      rw [Bool.and_eq_true] at hp
      exact h t (missing_iff.mpr ⟨e, te, he, hempty, hte, hp.1, hp.2⟩)

theorem wants_congr {te : ToplevelEntry} {params : ViewParams}
    (h : (s'.surfaces te.surface).appId = (s.surfaces te.surface).appId) :
    s'.wants w params te = s.wants w params te := by
  simp only [wants, ownsAppId, h]

/-- What is missing depends on the links, the parents and the app_ids only. -/
theorem Missing.congr (h : Missing w s' v t)
    (hviews : (s'.view v).map ViewEntry.binding = (s.view v).map ViewEntry.binding)
    (htop : s'.toplevel t = s.toplevel t)
    (hsurf : ∀ te, s'.toplevel t = some te → te.mapped = true →
      (s'.surfaces te.surface).parent = (s.surfaces te.surface).parent ∧
      (s'.surfaces te.surface).appId = (s.surfaces te.surface).appId) : Missing w s v t := by
  obtain ⟨e', te, he', hempty, hte, hfree, hwants⟩ := missing_iff.mp h
  rw [he'] at hviews
  cases he : s.view v with
  | none => rw [he] at hviews; cases hviews
  | some e =>
      rw [he] at hviews
      simp only [Option.map_some, Option.some.injEq, ViewEntry.binding, Prod.mk.injEq] at hviews
      have hm : te.mapped = true := by
        simp only [free, Bool.and_eq_true] at hfree
        exact hfree.1.1
      obtain ⟨hparent, happ⟩ := hsurf te hte hm
      refine missing_iff.mpr ⟨e, te, he, hviews.2 ▸ hempty, htop ▸ hte, ?_, ?_⟩
      · simpa only [free, hparent] using hfree
      · rw [← hviews.1, ← wants_congr happ]
        exact hwants

theorem SameLinks.missing (hl : SameLinks s s') (h : Missing w s' v t) : Missing w s v t :=
  h.congr (hl.bindings v) (by rw [hl.toplevel]) fun _ _ _ => by simp [hl.surfaces]

/-- No toplevel changes its app_id after it mapped. -/
def keepsAppId (s : State) : Event → Bool
  | .setAppId x appId => (s.surfaces x).appId == appId || !((s.idOf x).bind s.toplevel).any ToplevelEntry.mapped
  | _ => true

/-- What is missing is owed: the view did not look, or no view looked at the toplevel. -/
def Looking (w : World) (D : Set Debt) (s : State) : Prop :=
  ∀ v t, Missing w s v t → .bind v ∈ D ∨ .spare t ∈ D

/-- A move that links nothing pays for a look only where there is nothing to see. -/
theorem Pace.missing {paid taken : Set Debt} (hm : Pace w s paid taken s') (h : Missing w s' v t) :
    (Missing w s v t ∧ .bind v ∉ paid ∧ .spare t ∉ paid) ∨ .bind v ∈ taken ∨ .spare t ∈ taken := by
  have hbefore : Missing w s v t := hm.links.missing h
  cases hm with
  | passed v₀ hpick =>
      refine Or.inl ⟨hbefore, fun hv => ?_, by simp⟩
      cases hv
      obtain ⟨e, -, he, hempty, -⟩ := missing_iff.mp h
      exact (pick_eq_none he hempty).mp (hpick e he hempty) t h
  | looked =>
      obtain ⟨e, te, he, hempty, -⟩ := missing_iff.mp h
      refine Or.inr (Or.inl ⟨v, List.mem_filter.mpr ⟨Table.mem_keys.mpr ?_, by simp [he, hempty]⟩, rfl⟩)
      rw [show s.views[v]? = some e from he]
      rfl
  | occupied t₀ hfree =>
      refine Or.inl ⟨hbefore, by simp, fun ht => ?_⟩
      cases ht
      obtain ⟨e, te, -, -, hte, hf, -⟩ := missing_iff.mp h
      rw [hfree te hte] at hf
      cases hf
  | standing | armed | failed => exact Or.inl ⟨hbefore, by simp [armsFrom], by simp [armsFrom]⟩
  | _ => exact Or.inl ⟨hbefore, by simp, by simp⟩

theorem Sound.missing_reset (h : Sound s) {x : WlSurface} (hgone : ∀ id, s.idOf x = some id → s.toplevel id = none)
    (hm : Missing w (s.resetToplevel x) v t) : Missing w s v t := by
  refine hm.congr rfl rfl fun te hte hmapped => ?_
  simp only [resetToplevel]
  split
  · rename_i hx
    have hid := h.mapped t te hte hmapped
    rw [hx] at hid
    rw [show (s.resetToplevel x).toplevel t = s.toplevel t from rfl, hgone t hid] at hte
    cases hte
  · exact ⟨rfl, rfl⟩

/-- A toplevel just made has not been mapped. -/
theorem missing_made {x : WlSurface} (hm : Missing w (s.newToplevel x) v t) : Missing w s v t := by
  obtain ⟨e, te, he, hempty, hte, hfree, hwants⟩ := missing_iff.mp hm
  rw [toplevel_newToplevel] at hte
  split at hte
  · cases hte
    simp [State.free] at hfree
  · rename_i ht
    refine hm.congr rfl (by rw [toplevel_newToplevel, if_neg ht]) fun te _ _ => ⟨?_, ?_⟩
    · exact field_update Surface.parent (by rfl) te.surface
    · exact field_update Surface.appId (by rfl) te.surface

/-- A parent makes missing only what loses one. -/
theorem Sound.missing_reparented (h : Sound s) {x : WlSurface} {parent : Option WlSurface}
    (hm : Missing w (s.setParent x parent) v t) : Missing w s v t ∨ parent = none ∧ .spare t ∈ loneDebts s x := by
  obtain ⟨e, te, he, hempty, hte, hfree, hwants⟩ := missing_iff.mp hm
  simp only [State.free, Bool.and_eq_true, Option.isNone_iff_eq_none, setParent] at hfree
  by_cases hlone : te.surface = x ∧ (s.surfaces x).parent.isSome = true
  · obtain ⟨rfl, hsome⟩ := hlone
    rw [if_pos rfl] at hfree
    have hid := h.mapped t te hte hfree.1.1
    exact Or.inr ⟨hfree.2, t, hid, hsome, hm.unshown, hm.mapped, rfl⟩
  · refine Or.inl (hm.congr rfl rfl fun te' hte' _ => ?_)
    cases hte.symm.trans hte'
    simp only [setParent]
    split
    · rename_i hxx
      rw [if_pos hxx] at hfree
      have hnone : (s.surfaces x).parent = none := by
        rw [not_and] at hlone
        simpa using hlone hxx
      rw [hxx]
      exact ⟨hfree.2.trans hnone.symm, rfl⟩
    · exact ⟨rfl, rfl⟩

/-- What keeps its app_id once mapped is missing to nobody for it. -/
theorem Sound.missing_named (h : Sound s) {x : WlSurface} {appId : String} (hg : keepsAppId s (.setAppId x appId) = true)
    (hm : Missing w (s.setAppId x appId) v t) : Missing w s v t := by
  refine hm.congr rfl rfl fun te hte hmapped => ?_
  simp only [setAppId]
  split
  · rename_i hxx
    have hid := h.mapped t te hte hmapped
    rw [hxx] at hid
    have hte' : s.toplevel t = some te := hte
    simp only [keepsAppId, hid, Option.bind_some, hte', Option.any_some, hmapped, Bool.not_true, Bool.or_false,
      beq_iff_eq] at hg
    rw [hxx]
    exact ⟨rfl, hg.symm⟩
  · exact ⟨rfl, rfl⟩

/-- Every deed owns up to what it makes missing. -/
theorem Deed.missing {paid taken : Set Debt} (hd : Deed w (fun s e => keepsAppId s e = true) s paid taken s')
    (hs : Sound s) (h : Missing w s' v t) :
    (Missing w s v t ∧ .bind v ∉ paid ∧ .spare t ∉ paid) ∨ .bind v ∈ taken ∨ .spare t ∈ taken := by
  -- What was missing before is missing still, unless it was not.
  have hkept (h : Missing w s v t) :
      (Missing w s v t ∧ .bind v ∉ (∅ : Set Debt) ∧ .spare t ∉ (∅ : Set Debt)) ∨ .bind v ∈ taken ∨ .spare t ∈ taken :=
    Or.inl ⟨h, Set.notMem_empty _, Set.notMem_empty _⟩
  cases hd with
  | move hm =>
      cases hm with
      | pace hm => exact hm.missing h
      | mapped x id te hid hte hmapped =>
          by_cases ht : t = id
          · exact Or.inr (Or.inr (Or.inl (by rw [ht])))
          · refine hkept (h.congr rfl ?_ fun _ _ _ => ⟨rfl, rfl⟩)
            simp [markMapped, ht]
      | linked v₀ e t₀ hv he hp =>
          obtain ⟨te, hte, -⟩ := pick_spec hp
          have hempty := h.empty
          have hunshown := h.unshown
          rw [shows_link (by rw [hv]; rfl)] at hempty
          rw [shownIn_link (by rw [hte]; rfl)] at hunshown
          have hvv : v ≠ v₀ := by rintro rfl; simp at hempty
          have htt : t ≠ t₀ := by rintro rfl; simp at hunshown
          refine Or.inl ⟨h.congr ?_ ?_ fun _ _ _ => ⟨rfl, rfl⟩, by simpa using hvv, by simp⟩
          · simp [link, hvv]
          · simp [link, htt]
  | called v₀ ustNs => exact Or.inl ⟨(sendViewCallbacks_links w s v₀ ustNs).missing h, by simp, by simp⟩
  | framesCleared v₀ => exact hkept ((clearFrames_links s v₀).missing h)
  | unlinked v₀ es hes =>
      by_cases hv : v = v₀
      · exact Or.inr (Or.inl (Or.inl (by rw [hv])))
      · by_cases ht : s.shows v₀ = some t
        · exact Or.inr (Or.inr (Or.inr (Or.inl ⟨t, ht, rfl⟩)))
        · refine hkept (h.congr ?_ ?_ fun _ _ _ => by simp [(letGo_desk s v₀ es).surfaces])
          · rw [view_log, view_unlink hv]
          · rw [toplevel_log, toplevel_unlink, if_neg ht]
  | inserted s₀ view hv hg =>
      by_cases hvv : v = view.id
      · exact Or.inr (Or.inl (by rw [hvv]; rfl))
      · refine Or.inl ⟨h.congr ?_ rfl fun _ _ _ => ⟨rfl, rfl⟩, by simp, by simp⟩
        simp only [insertView, State.view, Table.get_insert, if_neg hvv]
  | erased s₀ v₀ hv hg =>
      have hvv : v ≠ v₀ := by
        rintro rfl
        obtain ⟨e, te, he, -⟩ := missing_iff.mp h
        simp [eraseView, State.view] at he
      refine Or.inl ⟨h.congr ?_ rfl fun _ _ _ => ⟨rfl, rfl⟩, by simpa using hvv, by simp⟩
      simp only [eraseView, State.view, Table.get_erase, if_neg hvv]
  | clocked r => exact hkept (h.congr rfl rfl fun _ _ _ => ⟨rfl, rfl⟩)
  | reported v₀ r => exact hkept ((takeReport_links s v₀ r).missing h)
  | suspendedSet _ v₀ suspended => exact hkept ((setSuspended_links s v₀ suspended).missing h)
  | resumed v₀ => exact hkept (h.congr rfl rfl fun _ _ _ => ⟨rfl, rfl⟩)
  | watchedResumed v₀ e atNs now => exact Or.inl ⟨h, by simp, by simp⟩
  | targeted x => exact hkept ((addTimed_links s x).missing h)
  | made x hx hr => exact hkept (missing_made h)
  | removed s₀ x id hid hshown hg =>
      have htop : t ≠ id := by
        rintro rfl
        obtain ⟨e, te, -, -, hte, -⟩ := missing_iff.mp h
        simp [removeToplevel, State.toplevel] at hte
      refine hkept (h.congr rfl ?_ fun _ _ _ => ⟨rfl, rfl⟩)
      simp [removeToplevel, State.toplevel, htop]
  | reset x hgone => exact hkept (hs.missing_reset hgone h)
  | parentSet x parent hx hp hg =>
      rcases hs.missing_reparented h with h | hspare
      · exact hkept h
      · exact Or.inr (Or.inr (Or.inr hspare))
  | named x appId hx hg => exact hkept (hs.missing_named hg h)
  | popupMade | untracked | subsurfaceMade | surfaceGone =>
      refine hkept (h.congr rfl rfl fun te _ _ => ⟨?_, ?_⟩)
      · exact field_update Surface.parent (by rfl) te.surface
      · exact field_update Surface.appId (by rfl) te.surface
  | tokenUsed id token hmem hi =>
      by_cases ht : t = id
      · exact Or.inr (Or.inr (by rw [ht]; rfl))
      · refine hkept (h.congr rfl ?_ fun _ _ _ => ⟨rfl, rfl⟩)
        simp only [markActivated, toplevel_log, toplevel_modifyToplevel, if_neg ht]
        rfl
  | ticked hg =>
      have hdisarm : SameLinks s s.disarm := .of_data rfl
      exact hkept ((hdisarm.trans (sweep_links _ _)).missing h)
  | _ => exact hkept (h.congr rfl rfl fun _ _ _ => ⟨rfl, rfl⟩)

theorem Looking.mono {D E : Set Debt} (hsub : D ⊆ E) (h : Looking w D s) : Looking w E s := fun v t hm =>
  (h v t hm).imp (fun hd => hsub hd) fun hd => hsub hd

/-- As `Looking`, for one view and one toplevel. -/
def Sees (w : World) (v : ViewId) (t : ToplevelId) (D : Set Debt) (s : State) : Prop :=
  Missing w s v t → .bind v ∈ D ∨ .spare t ∈ D

theorem Sees.deeds {D E : Set Debt} (hd : Deeds w (fun s e => keepsAppId s e = true) s D s' E)
    (hs : Sound s) (h : Sees w v t D s) : Sees w v t E s' := by
  have hall : Sound s' ∧ Sees w v t E s' := by
    refine hd.keeps (I := fun D s => Sound s ∧ Sees w v t D s)
      (fun hsub h => ⟨h.1, fun hm => (h.2 hm).imp (fun hd => hsub hd) fun hd => hsub hd⟩) ?_ ⟨hs, h⟩
    rintro s paid taken s' D hd ⟨hs, h⟩
    refine ⟨hs.act hd.act, fun hm => ?_⟩
    rcases hd.missing hs hm with ⟨hm, hv, ht⟩ | hv | ht
    · exact (h hm).imp (fun hd => Or.inl ⟨hd, hv⟩) fun hd => Or.inl ⟨hd, ht⟩
    · exact Or.inl (Or.inr hv)
    · exact Or.inr (Or.inr ht)
  exact hall.2

theorem Looking.deeds {D E : Set Debt} (hd : Deeds w (fun s e => keepsAppId s e = true) s D s' E)
    (hs : Sound s) (h : Looking w D s) : Looking w E s' := fun v t => Sees.deeds hd hs (h v t)

/-! ## What a view chooses by -/

/-- Nothing a view or a toplevel is chosen by changed. -/
structure SameFaces (s s' : State) : Prop where
  handle : ∀ v, (s'.view v).map ViewEntry.handle = (s.view v).map ViewEntry.handle
  face : ∀ t, (s'.toplevel t).map (fun te => (te.surface, te.token)) = (s.toplevel t).map fun te => (te.surface, te.token)
  surfaces : s'.surfaces = s.surfaces

namespace SameFaces

theorem trans {r : State} (h : SameFaces s r) (h' : SameFaces r s') : SameFaces s s' :=
  ⟨fun v => (h'.handle v).trans (h.handle v), fun t => (h'.face t).trans (h.face t), h'.surfaces.trans h.surfaces⟩

theorem symm (h : SameFaces s s') : SameFaces s' s :=
  ⟨fun v => (h.handle v).symm, fun t => (h.face t).symm, h.surfaces.symm⟩

theorem of_later (h : Later s s') : SameFaces s s' := by
  refine ⟨h.handles, fun t => ?_, h.desk.surfaces⟩
  have hrel := h.toplevel t
  cases ht : s.toplevel t with
  | none =>
      rw [ht] at hrel
      cases ht' : s'.toplevel t with
      | none => rfl
      | some te' => rw [ht'] at hrel; cases hrel
  | some te =>
      rw [ht] at hrel
      cases ht' : s'.toplevel t with
      | none => rw [ht'] at hrel; cases hrel
      | some te' =>
          rw [ht'] at hrel
          cases hrel with
          | some hl => simp [hl.surface, hl.token]

theorem unlink (s : State) (v : ViewId) : SameFaces s (s.unlink v) := by
  refine ⟨handle_unlink s v, fun t => ?_, (unlink_desk s v).surfaces⟩
  rw [toplevel_unlink]
  split
  · rw [Option.map_map]; rfl
  · rfl

theorem toplevel (h : SameFaces s s') {te' : ToplevelEntry} (ht : s'.toplevel t = some te') :
    ∃ te, s.toplevel t = some te ∧ te.surface = te'.surface ∧ te.token = te'.token := by
  have hf := h.face t
  rw [ht] at hf
  cases hs : s.toplevel t with
  | none => rw [hs] at hf; cases hf
  | some te =>
      rw [hs] at hf
      simp only [Option.map_some, Option.some.injEq, Prod.mk.injEq] at hf
      exact ⟨te, rfl, hf.1.symm, hf.2.symm⟩

theorem lone (h : SameFaces s s') (ht : s'.lone t = true) : s.lone t = true := by
  obtain ⟨te', hte', hp⟩ := (Option.any_eq_true _ _).mp ht
  obtain ⟨te, hte, hsurf, -⟩ := h.toplevel hte'
  rw [h.surfaces, ← hsurf] at hp
  simp [State.lone, hte, hp]

theorem wants (h : SameFaces s s') {params : ViewParams} {te' : ToplevelEntry} (ht : s'.toplevel t = some te')
    (hw : s'.wants w params te' = true) : ∃ te, s.toplevel t = some te ∧ s.wants w params te = true := by
  obtain ⟨te, hte, hsurf, htoken⟩ := h.toplevel ht
  refine ⟨te, hte, ?_⟩
  simpa only [State.wants, inSandbox, ownsAppId, hsurf, htoken, h.surfaces] using hw

theorem suits (h : SameFaces s s') (hs : s'.suits w v t = true) : s.suits w v t = true := by
  obtain ⟨e', he', hs⟩ := (Option.any_eq_true _ _).mp hs
  obtain ⟨te', hte', hw⟩ := (Option.any_eq_true _ _).mp hs
  obtain ⟨te, hte, hw⟩ := h.wants hte' hw
  have hh := h.handle v
  rw [he'] at hh
  cases he : s.view v with
  | none => rw [he] at hh; cases hh
  | some e =>
      rw [he] at hh
      simp only [Option.map_some, Option.some.injEq] at hh
      simp [State.suits, he, hte, ← hh, hw]

theorem unbindView {u : Unblock} (hu : Wakes w u) (s : State) (v : ViewId) : SameFaces s (s.unbindView w u v) :=
  ((of_later (dropFrames_later hu s v)).trans (of_later (clearView_quiet (w := w) v).links.later)).trans (unlink _ v)

end SameFaces

/-! ## What views gain -/

/-- Later, and a view that shows something else than before shows what suits it. -/
structure Grows (w : World) (s s' : State) : Prop extends Later s s' where
  gains : ∀ v t, s'.shows v = some t → s.shows v = some t ∨ s.suits w v t = true

namespace Grows

theorem refl (s : State) : Grows w s s := ⟨.refl s, fun _ _ h => Or.inl h⟩

theorem trans {r : State} (h : Grows w s r) (h' : Grows w r s') : Grows w s s' := by
  refine ⟨h.toLater.trans h'.toLater, fun v t hv => ?_⟩
  rcases h'.gains v t hv with hv | hs
  · exact h.gains v t hv
  · exact Or.inr ((SameFaces.of_later h.toLater).suits hs)

theorem of_links (h : SameLinks s s') : Grows w s s' := ⟨h.later, fun _ _ hv => Or.inl (by rwa [← h.shows])⟩

theorem of_move {paid taken : Set Debt} (h : Move w s paid taken s') : Grows w s s' := by
  refine ⟨h.later, fun v t hv => ?_⟩
  cases h with
  | pace h => exact Or.inl (by rwa [← h.links.shows])
  | mapped x id te hid hte hm => exact Or.inl hv
  | linked v₀ e t₀ hv₀ he hp =>
      rw [shows_link (by rw [hv₀]; rfl)] at hv
      split at hv
      · rename_i hvv
        cases hv
        obtain ⟨te, hte, -, hwants⟩ := pick_spec hp
        exact Or.inr (by simp [State.suits, hvv, hv₀, hte, hwants])
      · exact Or.inl hv

theorem of_settles {D E : Set Debt} (h : Settles w s D s' E) : Grows w s s' := h.related refl trans of_move

/-- What unbinding a view does before it lets the toplevel go. -/
theorem clearing {u : Unblock} (hu : Wakes w u) (s : State) (v : ViewId) :
    Grows w s ((s.dropFrames w u v).clearView w v) :=
  ((of_links (clearFrames_links s v)).trans (of_settles (woken_settles hu (D := ∅) _ _))).trans
    (of_links (clearView_quiet (w := w) v).links)

end Grows

end IhsWl
