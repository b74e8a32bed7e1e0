import IhsWl.Scanout
import IhsWl.Server.Lemmas.Places
import IhsWl.Server.Theorems.Scenes

/-!
# What scenes keep

A surface leaves a scene when its view is unbound, or when a client takes away what holds it there. All else a
client or the app does only adds to the scenes.
-/

namespace IhsWl

open State

variable {w : World} {guard : State → Event → Prop} {s s' t : State} {v : ViewId} {x : WlSurface}

/-- Nothing that holds a surface in a scene was taken away. -/
structure Wider (s s' : State) : Prop where
  above : s'.above = s.above
  ids : ∀ y id, s.idOf y = some id → s'.idOf y = some id
  toplevels : ∀ id te, s.toplevel id = some te → ∃ te', s'.toplevel id = some te' ∧ te'.surface = te.surface ∧
    (te.mapped = true → te'.mapped = true)
  popups : s.popups ⊆ s'.popups
  trees : ∀ root, (s.surfaces root).role = some .toplevel ∨ (s.surfaces root).role = some .popup → s.tree root ⊆ s'.tree root

/-- What surfaces, toplevels and popups say of each other, whoever shows them. -/
structure Well (s : State) : Prop where
  sound : Sound s
  tidy : Tidy s

theorem Well.empty : Well {} := ⟨.empty, .empty⟩

theorem Well.act (h : Well s) (ha : Act w guard s s') : Well s' := ⟨h.sound.act ha, h.tidy.act h.sound ha⟩

/-- Even a toplevel that is shown may go. -/
theorem Well.removeToplevel (h : Well s) (id : ToplevelId) : Well (s.removeToplevel id) := by
  have hold {t : ToplevelId} {te : ToplevelEntry} (hte : (s.removeToplevel id).toplevel t = some te) : s.toplevel t = some te := by
    rw [toplevel_removeToplevel] at hte
    split at hte
    · cases hte
    · exact hte
  refine ⟨⟨fun x t te hid hte => h.sound.own x t te hid (hold hte), fun t te hte => h.sound.mapped t te (hold hte),
    h.sound.bounded, fun t te hte => h.sound.bound t te (hold hte), fun t te hte => h.sound.windows t te (hold hte),
    h.sound.popups, h.sound.once, h.sound.subsurfaces⟩, ⟨h.tidy.roles, h.tidy.parents, h.tidy.parentless, fun x t hx hid => ?_,
    fun t te hte => h.tidy.known t te (hold hte), fun t te t' hte hid hsome => ?_⟩⟩
  · rw [toplevel_removeToplevel, h.tidy.gone x t hx hid, ite_self]
  · obtain ⟨te', hte'⟩ := Option.isSome_iff_exists.mp hsome
    exact h.tidy.lone t te t' (hold hte) hid (by rw [hold hte']; rfl)

/-- No surface comes back to life. -/
theorem Act.alive (ha : Act w guard s s') (h : (s'.surfaces x).alive = true) : (s.surfaces x).alive = true := by
  cases ha with
  | same _ hl => rwa [hl.surfaces] at h
  | unlinked v es => rwa [(letGo_desk s v es).surfaces] at h
  | made | reset | parentSet | named | popupMade | untracked | subsurfaceMade =>
      exact (field_update Surface.alive (by rfl) x).symm.trans h
  | surfaceGone =>
      simp only [destroySurface] at h
      split at h
      · cases h
      · exact h
  | _ => exact h

namespace Wider

theorem isDialog (h : Wider s s') (hs : Well s) (hs' : Well s') {root : WlSurface} {id : ToplevelId} {te te' : ToplevelEntry}
    (hte : s.toplevel id = some te) (hte' : s'.toplevel id = some te') (hd : s.isDialog root te = true) :
    s'.isDialog root te' = true := by
  obtain ⟨te₁, hte₁, hsurface, hmapped⟩ := h.toplevels id te hte
  cases hte'.symm.trans hte₁
  simp only [State.isDialog, Bool.and_eq_true, beq_iff_eq] at hd ⊢
  obtain ⟨⟨hm, hparent⟩, hroot⟩ := hd
  have hid := hs.sound.mapped id te hte hm
  have hrole := hs'.sound.windows id te' hte'
  rw [hsurface] at hrole
  have habove : s.above te.surface = (s.surfaces te.surface).parent := by
    rw [State.above, hid, Option.bind_some, hte, Option.bind_some]
  have habove' : s'.above te.surface = (s'.surfaces te.surface).parent := by
    rw [State.above, h.ids _ _ hid, Option.bind_some, hte', Option.bind_some, hsurface]
  rw [hsurface, ← habove', h.above, habove, windowRoot_eq hs'.sound hs'.tidy hrole, h.above,
    ← windowRoot_eq hs.sound hs.tidy (hs.sound.windows id te hte)]
  exact ⟨⟨hmapped hm, hparent⟩, hroot⟩

theorem dialogs (h : Wider s s') (hs : Well s) (hs' : Well s') {root y : WlSurface} (hy : y ∈ s.dialogs root) :
    y ∈ s'.dialogs root ∧ s'.age y = s.age y := by
  obtain ⟨id, te, hte, hd, rfl⟩ := mem_dialogs.mp hy
  obtain ⟨te', hte', hsurface, -⟩ := h.toplevels id te hte
  refine ⟨mem_dialogs.mpr ⟨id, te', hte', h.isDialog hs hs' hte hte' hd, hsurface⟩, ?_⟩
  simp only [State.isDialog, Bool.and_eq_true] at hd
  have hid := hs.sound.mapped id te hte hd.1.1
  rw [age, age, hid, h.ids _ _ hid]

theorem reached (h : Wider s s') (hs : Well s) (hs' : Well s') {root y : WlSurface}
    (hy : OnePass.Reached s.windowAbove s.age root (s.dialogs root) y) :
    OnePass.Reached s'.windowAbove s'.age root (s'.dialogs root) y := by
  refine hy.imp fun z hz => ⟨(h.dialogs hs hs' hz).1, fun p hup => ?_, (h.dialogs hs hs' hz).2⟩
  rw [windowAbove_eq hs'.sound hs'.tidy, h.above, ← windowAbove_eq hs.sound hs.tidy]
  exact hup

theorem windows (h : Wider s s') (hs : Well s) (hs' : Well s') (hshows : (s.shows v).isSome = true → s'.shows v = s.shows v)
    (hx : x ∈ s.viewWindows v) : x ∈ s'.viewWindows v := by
  rw [mem_viewWindows hs.sound] at hx
  rw [mem_viewWindows hs'.sound]
  obtain ⟨root, hroot, hx⟩ := hx
  refine ⟨root, ?_, h.reached hs hs' hx⟩
  obtain ⟨te, hte, hsurface⟩ := Option.map_eq_some_iff.mp hroot
  obtain ⟨id, hid, hte⟩ := Option.bind_eq_some_iff.mp hte
  have hshown : s.shows v = some id := hid
  obtain ⟨te', hte', hsurface', -⟩ := h.toplevels id te hte
  change Option.map _ ((s'.shows v).bind s'.toplevel) = some root
  rw [hshows (by rw [hshown]; rfl), hshown, Option.bind_some, hte', Option.map_some, hsurface', hsurface]

end Wider

theorem mem_scene : x ∈ s.scene v ↔ ∃ root ∈ s.viewTrees v, x ∈ s.tree root := by
  rw [scene, List.mem_flatMap]

/-- What a view shows, it still shows. -/
theorem Wider.scene (h : Wider s s') (hs : Well s) (hs' : Well s') (hshows : (s.shows v).isSome = true → s'.shows v = s.shows v)
    (hx : x ∈ s.scene v) : x ∈ s'.scene v := by
  rw [mem_scene] at hx ⊢
  obtain ⟨root, hroot, hx⟩ := hx
  rcases mem_viewTrees.mp hroot with hwindow | ⟨p, hp, rfl, hwindow⟩
  · refine ⟨root, mem_viewTrees.mpr (Or.inl (h.windows hs hs' hshows hwindow)), ?_⟩
    exact h.trees root (Or.inl (hs.sound.window_role hwindow)) hx
  · refine ⟨p.surface, mem_viewTrees.mpr (Or.inr ⟨p, h.popups hp, rfl, h.windows hs hs' hshows hwindow⟩), ?_⟩
    exact h.trees p.surface (Or.inr (hs.sound.popups p hp).1) hx

/-- A view that shows a surface shows a toplevel. -/
theorem shows_of_mem_scene (hx : x ∈ s.scene v) : (s.shows v).isSome = true := by
  obtain ⟨root, hroot, -⟩ := mem_scene.mp hx
  obtain ⟨window, hwindow, -⟩ := List.mem_flatMap.mp hroot
  cases hshows : s.shows v with
  | some id => rfl
  | none =>
      have hnone : s.viewRoot v = none := by
        change ((s.shows v).bind s.toplevel).map _ = none
        rw [hshows]
        rfl
      rw [viewWindows, hnone] at hwindow
      cases hwindow

/-! ## Trees -/

theorem subParent_getSubsurface {parent : WlSurface} (hx : s.subParent x = none) (y : WlSurface) :
    (s.getSubsurface x parent).subParent y = if y = x then some parent else s.subParent y := by
  simp only [subParent, getSubsurface, List.lookup_append]
  by_cases hy : y = x
  · have hnone : s.subsurfaces.lookup x = none := hx
    simp [hy, hnone]
  · have hne : (y == x) = false := by simpa using hy
    simp [hy, List.lookup_cons, hne]

/-- A tree keeps what keeps its parents. -/
theorem tree_mono {root : WlSurface} (hup : ∀ y p, s.subParent y = some p → s'.subParent y = some p)
    (hsub : s.subsurfaces ⊆ s'.subsurfaces) (hlen : s.subsurfaces.length ≤ s'.subsurfaces.length)
    (hroot : s'.subParent root = none) : s.tree root ⊆ s'.tree root := by
  intro y hy
  simp only [tree, List.mem_cons, List.mem_filter, decide_eq_true_eq] at hy ⊢
  exact hy.imp id fun hy => ⟨List.map_subset _ hsub hy.1, hy.2.1, Climb.climb_extend hup hroot hy.2.2 hlen⟩

/-! ## What only adds to the scenes -/

namespace Wider

/-- What leaves toplevels where they are, and keeps popups and trees. -/
theorem of_toplevels (hids : s'.idOf = s.idOf) (hparents : ∀ y, (s'.surfaces y).parent = (s.surfaces y).parent)
    (hsurfaces : ∀ id, (s'.toplevel id).map ToplevelEntry.surface = (s.toplevel id).map ToplevelEntry.surface)
    (hmapped : ∀ id te te', s.toplevel id = some te → s'.toplevel id = some te' → te.mapped = true → te'.mapped = true)
    (hpopups : s.popups ⊆ s'.popups)
    (htrees : ∀ root, (s.surfaces root).role = some .toplevel ∨ (s.surfaces root).role = some .popup → s.tree root ⊆ s'.tree root) :
    Wider s s' := by
  refine ⟨funext fun y => ?_, fun y id hid => by rw [hids]; exact hid, fun id te hte => ?_, hpopups, htrees⟩
  · rw [State.above, State.above, hids]
    cases s.idOf y with
    | none => rfl
    | some id =>
        have hbind := congrArg (Option.bind · fun x => (s.surfaces x).parent) (hsurfaces id)
        simpa only [Option.bind_map, Function.comp_def, Option.bind_some, hparents] using hbind
  · have hmap := hsurfaces id
    rw [hte, Option.map_some, Option.map_eq_some_iff] at hmap
    obtain ⟨te', hte', hsame⟩ := hmap
    exact ⟨te', hte', hsame, hmapped id te te' hte hte'⟩

/-- What has no part in the toplevels. -/
theorem of_rest (hids : s'.idOf = s.idOf) (hparents : ∀ y, (s'.surfaces y).parent = (s.surfaces y).parent)
    (htoplevels : s'.toplevels = s.toplevels) (hpopups : s.popups ⊆ s'.popups)
    (htrees : ∀ root, (s.surfaces root).role = some .toplevel ∨ (s.surfaces root).role = some .popup → s.tree root ⊆ s'.tree root) :
    Wider s s' := by
  have hsame (id : ToplevelId) : s'.toplevel id = s.toplevel id := by rw [toplevel, toplevel, htoplevels]
  refine of_toplevels hids hparents (fun id => by rw [hsame]) (fun id te te' hte hte' hm => ?_) hpopups htrees
  rw [hsame, hte] at hte'
  cases hte'
  exact hm

/-- Commits that are applied. -/
theorem of_later (h : Later s s') : Wider s s' := by
  refine of_toplevels h.desk.idOf (fun y => by rw [h.desk.surfaces]) (fun id => ?_) (fun id te te' hte hte' hm => ?_)
    (by rw [h.desk.popups]; exact fun _ hp => hp) fun root _ => by rw [h.desk.tree]; exact fun _ hx => hx
  · have hrel := h.toplevel id
    generalize s.toplevel id = o, s'.toplevel id = o' at hrel
    cases hrel with
    | none => rfl
    | some hl => exact congrArg some hl.surface
  · have hrel := h.toplevel id
    rw [hte, hte'] at hrel
    cases hrel with
    | some hl => exact hl.mapped hm

theorem unlink (s : State) (v : ViewId) : Wider s (s.unlink v) := by
  have hdesk := unlink_desk s v
  refine of_toplevels hdesk.idOf (fun y => by rw [hdesk.surfaces]) (fun id => ?_) (fun id te te' hte hte' hm => ?_)
    (by rw [hdesk.popups]; exact fun _ hp => hp) fun root _ => by rw [hdesk.tree]; exact fun _ hx => hx
  · rw [toplevel_unlink]
    split
    · rw [Option.map_map]
      rfl
    · rfl
  · rw [toplevel_unlink, hte] at hte'
    split at hte' <;> cases hte' <;> exact hm

theorem removeToplevel (h : Wider s s') (hids : s'.idOf = s.idOf) (id : ToplevelId) :
    Wider (s.removeToplevel id) (s'.removeToplevel id) := by
  refine ⟨funext fun y => ?_, h.ids, fun t te hte => ?_, h.popups, h.trees⟩
  · rw [above_removeToplevel, above_removeToplevel, hids, h.above]
  · rw [toplevel_removeToplevel] at hte
    split at hte
    · cases hte
    · rename_i ht
      obtain ⟨te', hte', hkept⟩ := h.toplevels t te hte
      exact ⟨te', by rw [toplevel_removeToplevel, if_neg ht]; exact hte', hkept⟩

theorem markActivated (s : State) (id : ToplevelId) (token : String) : Wider s (s.markActivated id token) := by
  have hget (t : ToplevelId) : (s.markActivated id token).toplevel t =
      if t = id then (s.toplevel id).map fun te => { te with token := some token } else s.toplevel t := by
    rw [State.markActivated, toplevel_log, toplevel_modifyToplevel]
    rfl
  refine of_toplevels rfl (fun _ => rfl) (fun t => ?_) (fun t te te' hte hte' hm => ?_) (fun _ hp => hp) fun _ _ _ hx => hx
  · rw [hget]
    split
    · rename_i ht
      rw [ht, Option.map_map]
      rfl
    · rfl
  · rw [hget] at hte'
    split at hte'
    · rename_i ht
      rw [← ht, hte] at hte'
      cases hte'
      exact hm
    · rw [hte] at hte'
      cases hte'
      exact hm

theorem newToplevel (hs : Well s) (hx : (s.surfaces x).hasToplevel = false) : Wider s (s.newToplevel x) := by
  refine ⟨above_newToplevel hs.sound hs.tidy hx, fun y id hid => idOf_newToplevel_kept hid, fun id te hte => ⟨te, ?_, rfl, fun hm => hm⟩,
    fun _ hp => hp, fun _ _ _ hy => hy⟩
  rw [toplevel_newToplevel, if_neg, hte]
  rintro rfl
  exact absurd (Toplevels.le_nextId hte) (Nat.not_succ_le_self _)

theorem resetToplevel (hs : Well s) (hgone : ∀ id, s.idOf x = some id → s.toplevel id = none) : Wider s (s.resetToplevel x) := by
  have hids : (s.resetToplevel x).idOf = s.idOf := funext fun y => field_update Surface.toplevelId (by rfl) y
  refine ⟨funext fun y => ?_, fun y id hid => by rw [hids]; exact hid, fun id te hte => ⟨te, hte, rfl, fun hm => hm⟩,
    fun _ hp => hp, fun _ _ _ hy => hy⟩
  rw [State.above, State.above, hids]
  cases hid : s.idOf y with
  | none => rfl
  | some id =>
      cases hte : s.toplevel id with
      | none =>
          have hte' : (s.resetToplevel x).toplevel id = none := hte
          rw [Option.bind_some, Option.bind_some, hte, hte']
          rfl
      | some te =>
          have hte' : (s.resetToplevel x).toplevel id = some te := hte
          have hne : te.surface ≠ x := by
            intro hx
            rw [hs.sound.own y id te hid hte] at hx
            rw [hgone id (hx ▸ hid)] at hte
            cases hte
          rw [Option.bind_some, Option.bind_some, hte, hte', Option.bind_some, Option.bind_some]
          simp [State.resetToplevel, hne]

theorem newPopup (s : State) (x parent : WlSurface) : Wider s (s.newPopup x parent) := by
  exact of_rest (funext fun y => field_update Surface.toplevelId (by rfl) y) (fun y => field_update Surface.parent (by rfl) y) rfl
    (fun p hp => List.mem_append_left _ hp) fun _ _ _ hy => hy

theorem setAppId (s : State) (x : WlSurface) (appId : String) : Wider s (s.setAppId x appId) := by
  exact of_rest (funext fun y => field_update Surface.toplevelId (by rfl) y) (fun y => field_update Surface.parent (by rfl) y) rfl
    (fun _ hp => hp) fun _ _ _ hy => hy

/-- A subsurface joins its parent's tree with all that hangs below it. -/
theorem getSubsurface (hs : Well s) {parent : WlSurface} (hx : s.subParent x = none)
    (hrole : (s.surfaces x).role = none ∨ (s.surfaces x).role = some .subsurface) : Wider s (s.getSubsurface x parent) := by
  refine of_rest (funext fun y => field_update Surface.toplevelId (by rfl) y) (fun y => field_update Surface.parent (by rfl) y) rfl
    (fun _ hp => hp) fun root hroot => tree_mono (fun u p hu => ?_) ?_ ?_ ?_
  · rw [subParent_getSubsurface hx, if_neg, hu]
    rintro rfl
    rw [hx] at hu
    cases hu
  · exact fun q hq => List.mem_append_left _ hq
  · simp [State.getSubsurface]
  · rw [subParent_getSubsurface hx, if_neg, hs.sound.subParent_root hroot]
    rintro rfl
    rcases hroot with h | h <;> rcases hrole with h' | h' <;> rw [h] at h' <;> cases h'

end Wider

end IhsWl
