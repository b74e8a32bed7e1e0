import IhsWl.Server.Lemmas.Windows
import IhsWl.Server.Theorems.Identity

/-!
# Where toplevels are shown

Parents are toplevels, so the way up from a toplevel passes through toplevels alone: neither popups nor subsurfaces
have a part in it.
-/

namespace IhsWl

open State

variable {w : World} {guard : State → Event → Prop} {s s' : State}

/-! ## Surfaces and their toplevels -/

/-- What surfaces keep of the toplevels they have, and had. -/
structure Tidy (s : State) : Prop where
  roles : ∀ x, (s.surfaces x).hasToplevel = true → (s.surfaces x).role = some .toplevel
  parents : ∀ x p, (s.surfaces x).parent = some p → (s.surfaces p).role = some .toplevel
  parentless : ∀ x, (s.surfaces x).hasToplevel = false → (s.surfaces x).parent = none
  gone : ∀ x id, (s.surfaces x).hasToplevel = false → s.idOf x = some id → s.toplevel id = none
  known : ∀ id te, s.toplevel id = some te → (s.idOf te.surface).isSome = true
  lone : ∀ id te id', s.toplevel id = some te → s.idOf te.surface = some id' → (s.toplevel id').isSome = true → id' = id

/-- A parent is kept, dropped, or a toplevel that lives. -/
theorem Act.parent (ha : Act w guard s s') (y : WlSurface) :
    (s'.surfaces y).parent = (s.surfaces y).parent ∨ (s'.surfaces y).parent = none ∨
    (s.surfaces y).hasToplevel = true ∧ ∃ p, (s'.surfaces y).parent = some p ∧ (s.surfaces p).hasToplevel = true := by
  cases ha with
  | same _ hl => exact Or.inl (by rw [hl.surfaces])
  | unlinked v es => exact Or.inl (by rw [(letGo_desk s v es).surfaces])
  | reset x hx =>
      by_cases hy : y = x
      · exact Or.inr (Or.inl (by simp [resetToplevel, hy]))
      · exact Or.inl (by simp [resetToplevel, hy])
  | parentSet x parent hx hp hg =>
      by_cases hy : y = x
      · subst hy
        cases parent with
        | none => exact Or.inr (Or.inl (by simp [setParent]))
        | some p => exact Or.inr (Or.inr ⟨hx, p, by simp [setParent], (hp p rfl).1⟩)
      · exact Or.inl (by simp [setParent, hy])
  | made | named | popupMade | untracked | subsurfaceMade | surfaceGone =>
      exact Or.inl (field_update Surface.parent (by rfl) y)
  | _ => exact Or.inl rfl

/-- An entry was there before, or is of a surface that had no toplevel. -/
theorem Act.origin (ha : Act w guard s s') {id : ToplevelId} {te' : ToplevelEntry} (h : s'.toplevel id = some te') :
    (∃ te, s.toplevel id = some te ∧ te'.surface = te.surface) ∨
    ∃ x, id = s.toplevels.nextId + 1 ∧ (s.surfaces x).hasToplevel = false ∧ s' = s.newToplevel x ∧ te'.surface = x := by
  cases ha with
  | made x hx hr hg =>
      rw [toplevel_newToplevel] at h
      split at h
      · rename_i hid
        cases h
        exact Or.inr ⟨x, hid, hx, rfl, rfl⟩
      · exact Or.inl ⟨te', h, rfl⟩
  | same _ hl => exact Or.inl ⟨te', by rw [← hl.toplevel]; exact h, rfl⟩
  | mapped _ id₀ | linked _ _ id₀ | tokenUsed id₀ =>
      refine Or.inl ?_
      simp only [markMapped, link, markActivated, toplevel_log, toplevel_modifyView, toplevel_modifyToplevel] at h
      split at h
      · rename_i hid
        obtain ⟨te, hte, rfl⟩ := Option.map_eq_some_iff.mp h
        exact ⟨te, hid ▸ hte, rfl⟩
      · exact ⟨te', h, rfl⟩
  | unlinked v es =>
      refine Or.inl ?_
      rw [toplevel_log, toplevel_unlink] at h
      split at h
      · obtain ⟨te, hte, rfl⟩ := Option.map_eq_some_iff.mp h
        exact ⟨te, hte, rfl⟩
      · exact ⟨te', h, rfl⟩
  | removed s₀ x id₀ =>
      simp only [removeToplevel, State.toplevel, Toplevels.get_remove] at h
      split at h
      · cases h
      · exact Or.inl ⟨te', h, rfl⟩
  | _ => exact Or.inl ⟨te', h, rfl⟩

/-- An id once given stays. -/
theorem Act.idOf_kept (ha : Act w guard s s') {y : WlSurface} {id : ToplevelId} (h : s.idOf y = some id) :
    s'.idOf y = some id := by
  rcases ha.idOf with heq | ⟨x, rfl⟩
  · rw [heq]; exact h
  · exact idOf_newToplevel_kept h

namespace Tidy

theorem empty : Tidy {} := by
  constructor <;> simp [State.toplevel, State.idOf]

theorem act_parentless (h : Tidy s) (ha : Act w guard s s') (x : WlSurface) (hx : (s'.surfaces x).hasToplevel = false) :
    (s'.surfaces x).parent = none := by
  rcases ha.hasToplevel x with hsame | rfl | ⟨-, rfl⟩
  · rw [hsame] at hx
    rcases ha.parent x with hkept | hnone | ⟨hlive, -⟩
    · rw [hkept]; exact h.parentless x hx
    · exact hnone
    · rw [hlive] at hx
      cases hx
  · simp [newToplevel] at hx
  · simp [resetToplevel]

theorem act_gone (h : Tidy s) (hsound : Sound s) (ha : Act w guard s s') (x : WlSurface) (id : ToplevelId)
    (hx : (s'.surfaces x).hasToplevel = false) (hid : s'.idOf x = some id) : s'.toplevel id = none := by
  rw [Option.eq_none_iff_forall_ne_some]
  intro te' hte'
  rcases ha.hasToplevel x with hsame | rfl | ⟨hnone, rfl⟩
  · rw [hsame] at hx
    have hid₀ : s.idOf x = some id := by
      rcases ha.idOf with heq | ⟨y, rfl⟩
      · rwa [heq] at hid
      · rcases idOf_newToplevel_cases hid with hid | ⟨rfl, -⟩
        · exact hid
        · simp [newToplevel, hx] at hsame
    rcases ha.origin hte' with ⟨te, hte, -⟩ | ⟨y, rfl, -, -, -⟩
    · rw [h.gone x id hx hid₀] at hte
      cases hte
    · exact absurd (hsound.bounded x _ hid₀) (Nat.not_succ_le_self _)
  · simp [newToplevel] at hx
  · have hid₀ : s.idOf x = some id := by
      simpa [State.idOf, resetToplevel] using hid
    have hte₀ : s.toplevel id = some te' := hte'
    rw [hnone id hid₀] at hte₀
    cases hte₀

theorem act (h : Tidy s) (hsound : Sound s) (ha : Act w guard s s') : Tidy s' := by
  refine ⟨fun x hx => ?_, fun x p hp => ?_, h.act_parentless ha, h.act_gone hsound ha, fun id te' hte => ?_,
    fun id te' id' hte hid hsome => ?_⟩
  · rcases ha.hasToplevel x with hsame | rfl | ⟨-, rfl⟩
    · exact ha.role (h.roles x (hsame ▸ hx))
    · simp [newToplevel]
    · simp [resetToplevel] at hx
  · rcases ha.parent x with hkept | hnone | ⟨-, q, hq, hlive⟩
    · exact ha.role (h.parents x p (hkept ▸ hp))
    · rw [hnone] at hp
      cases hp
    · cases hp.symm.trans hq
      exact ha.role (h.roles p hlive)
  · rcases ha.origin hte with ⟨te, hte₀, hsurface⟩ | ⟨x, rfl, -, rfl, rfl⟩
    · obtain ⟨id₀, hid₀⟩ := Option.isSome_iff_exists.mp (h.known id te hte₀)
      rw [hsurface, ha.idOf_kept hid₀]
      rfl
    · rw [idOf_newToplevel, if_pos rfl]
      cases s.idOf te'.surface <;> rfl
  · obtain ⟨te₁, hte₁⟩ := Option.isSome_iff_exists.mp hsome
    rcases ha.origin hte with ⟨te, hte₀, hsurface⟩ | ⟨x, rfl, hx, rfl, rfl⟩
    · obtain ⟨id₀, hid₀⟩ := Option.isSome_iff_exists.mp (h.known id te hte₀)
      rw [hsurface, ha.idOf_kept hid₀] at hid
      cases hid
      rcases ha.origin hte₁ with ⟨te₀, hte₀', -⟩ | ⟨y, rfl, -, -, -⟩
      · exact h.lone id te id' hte₀ hid₀ (by rw [hte₀']; rfl)
      · exact absurd (hsound.bounded _ _ hid₀) (Nat.not_succ_le_self _)
    · rw [idOf_newToplevel, if_pos rfl] at hid
      cases hold : s.idOf te'.surface with
      | none =>
          rw [hold] at hid
          cases hid
          rfl
      | some old =>
          rw [hold] at hid
          cases hid
          rw [toplevel_newToplevel] at hte₁
          split at hte₁
          · assumption
          · rw [h.gone _ _ hx hold] at hte₁
            cases hte₁

end Tidy

/-! ## The way up -/

namespace State

/-- The toplevel the dialog `y` is shown over. -/
def above (s : State) (y : WlSurface) : Option WlSurface :=
  ((s.idOf y).bind s.toplevel).bind fun t => (s.surfaces t.surface).parent

end State

theorem windowAbove_eq (hsound : Sound s) (ht : Tidy s) : s.windowAbove = s.above := by
  funext y
  refine Option.bind_congr fun t _ => ?_
  cases hp : (s.surfaces t.surface).parent with
  | none => rfl
  | some p => rw [Option.map_some, hsound.toplevelOf_window (ht.parents _ p hp)]

theorem windowRoot_eq (hsound : Sound s) (ht : Tidy s) {x : WlSurface} (hx : (s.surfaces x).role = some .toplevel) :
    s.windowRoot x = Climb.climb s.above maxDepth x := by
  rw [windowRoot, hsound.toplevelOf_window hx, windowAbove_eq hsound ht]

theorem boundViewOf_eq (hsound : Sound s) (ht : Tidy s) {x : WlSurface} (hx : (s.surfaces x).role = some .toplevel) :
    s.boundViewOf x = (s.idOf (Climb.climb s.above maxDepth x)).bind s.shownIn := by
  rw [boundViewOf, windowRoot_eq hsound ht hx, Option.bind_assoc]
  rfl

theorem above_newToplevel {x : WlSurface} (hsound : Sound s) (ht : Tidy s) (hx : (s.surfaces x).hasToplevel = false) :
    (s.newToplevel x).above = s.above := by
  have hparents (y : WlSurface) : ((s.newToplevel x).surfaces y).parent = (s.surfaces y).parent :=
    field_update Surface.parent (by rfl) y
  funext y
  rw [above, above, idOf_newToplevel]
  simp only [hparents]
  by_cases hy : y = x
  · subst hy
    rw [if_pos rfl]
    cases hid : s.idOf y with
    | none =>
        change ((some (s.toplevels.nextId + 1)).bind _).bind _ = none
        rw [Option.bind_some, toplevel_newToplevel, if_pos rfl, Option.bind_some]
        exact ht.parentless y hx
    | some id =>
        change ((some id).bind _).bind _ = ((some id).bind _).bind _
        rw [Option.bind_some, Option.bind_some, toplevel_newToplevel, if_neg, ht.gone y id hx hid]
        rintro rfl
        exact absurd (hsound.bounded y _ hid) (Nat.not_succ_le_self _)
  · rw [if_neg hy]
    cases hid : s.idOf y with
    | none => rfl
    | some id =>
        rw [Option.bind_some, Option.bind_some, toplevel_newToplevel, if_neg]
        rintro rfl
        exact absurd (hsound.bounded y _ hid) (Nat.not_succ_le_self _)

theorem toplevel_removeToplevel (s : State) (id t : ToplevelId) :
    (s.removeToplevel id).toplevel t = if t = id then none else s.toplevel t := Toplevels.get_remove ..

theorem above_removeToplevel (s : State) (id : ToplevelId) (y : WlSurface) :
    (s.removeToplevel id).above y = if s.idOf y = some id then none else s.above y := by
  change ((s.idOf y).bind (s.removeToplevel id).toplevel).bind (fun t => (s.surfaces t.surface).parent) = _
  rw [above]
  cases s.idOf y with
  | none => rfl
  | some t =>
      simp only [Option.bind_some, toplevel_removeToplevel, Option.some.injEq]
      split <;> rfl

/-- The windows of a view depend on what it shows, and on the dialogs there are. -/
theorem viewWindows_congr (hsound : Sound s) (hsound' : Sound s') {v : ViewId} (hroot : s'.viewRoot v = s.viewRoot v)
    (hdialogs : ∀ root, s.viewRoot v = some root → (∀ x, x ∈ s'.dialogs root ↔ x ∈ s.dialogs root) ∧
      ∀ x ∈ s.dialogs root, s'.windowAbove x = s.windowAbove x ∧ s'.age x = s.age x) :
    s'.viewWindows v = s.viewWindows v := by
  unfold viewWindows
  rw [hroot]
  cases hr : s.viewRoot v with
  | none => rfl
  | some root =>
      obtain ⟨hmem, hkept⟩ := hdialogs root hr
      have hsorted := hsound.dialogs_sorted root
      have hsorted' : (s'.dialogs root).Pairwise fun x y => s.age x < s.age y :=
        (hsound'.dialogs_sorted root).imp_of_mem fun hx hy hlt => by
          rw [← (hkept _ ((hmem _).mp hx)).2, ← (hkept _ ((hmem _).mp hy)).2]
          exact hlt
      have hnodup {xs : List WlSurface} (h : xs.Pairwise fun x y => s.age x < s.age y) : xs.Nodup := by
        refine List.Pairwise.imp ?_ h
        rintro x y hlt rfl
        exact Nat.lt_irrefl _ hlt
      have hperm : (s'.dialogs root).Perm (s.dialogs root) :=
        (List.perm_ext_iff_of_nodup (hnodup hsorted') (hnodup hsorted)).mpr hmem
      have hsame : s'.dialogs root = s.dialogs root :=
        hperm.eq_of_pairwise (fun _ _ _ _ h h' => absurd h (Nat.lt_asymm h')) hsorted' hsorted
      simp only [hsound.windowsOver, hsound'.windowsOver, hsame]
      have hfold (xs ws : List WlSurface) (hxs : ∀ x ∈ xs, x ∈ s.dialogs root) :
          xs.foldl (OnePass.join s'.windowAbove) ws = xs.foldl (OnePass.join s.windowAbove) ws := by
        induction xs generalizing ws with
        | nil => rfl
        | cons x xs ih =>
            rw [List.foldl_cons, List.foldl_cons, ih _ fun y hy => hxs y (List.mem_cons_of_mem x hy), OnePass.join,
              OnePass.join, (hkept x (hxs x List.mem_cons_self)).1]
      exact hfold _ _ fun _ hx => hx

end IhsWl
