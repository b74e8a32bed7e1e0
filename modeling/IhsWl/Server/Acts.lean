import IhsWl.Server.Lemmas.Later

/-!
# Acts

All that ever changes a link, whatever handler it happens in. An invariant of the links is one of every
run when every act keeps it.
-/

namespace IhsWl

open State

/-- A step of the links. `guard` is asked of the event that gives a parent. -/
inductive Act (w : World) (guard : State → Event → Prop) : State → State → Prop
  | same (s s') : SameLinks s s' → Act w guard s s'
  | mapped (s x id t) : s.idOf x = some id → s.toplevel id = some t → t.mapped = false →
      Act w guard s (s.markMapped id)
  | linked (s v e t) : s.view v = some e → e.toplevel = none → s.pick w e.handle.params = some t →
      Act w guard s (s.link v t)
  | unlinked (s v es) : (∀ x ∈ es, x = .posted .closed v) → Act w guard s ((s.unlink v).log es)
  | inserted (s view) : s.shows view.id = none → Act w guard s (s.insertView view)
  | erased (s v) : s.shows v = none → Act w guard s (s.eraseView v)
  | made (s x) : (s.surfaces x).hasToplevel = false →
      (s.surfaces x).role = none ∨ (s.surfaces x).role = some .toplevel → guard s (.newToplevel x) →
      Act w guard s (s.newToplevel x)
  | removed (s s₀ x id) : s.idOf x = some id → s.shownIn id = none → guard s₀ (.destroyToplevel x) →
      Act w guard s (s.removeToplevel id)
  | reset (s x) : (∀ id, s.idOf x = some id → s.toplevel id = none) → Act w guard s (s.resetToplevel x)
  | parentSet (s x parent) : (s.surfaces x).hasToplevel = true →
      (∀ p, parent = some p → (s.surfaces p).hasToplevel = true ∧ w.client p = w.client x) →
      guard s (.setParent x parent) → Act w guard s (s.setParent x parent)
  | named (s x appId) : (s.surfaces x).hasToplevel = true → Act w guard s (s.setAppId x appId)
  | popupMade (s x parent) : (s.surfaces x).popupParent = none →
      (s.surfaces x).role = none ∨ (s.surfaces x).role = some .popup → w.client parent = w.client x →
      (s.surfaces parent).hasToplevel = true ∨ (s.surfaces parent).popupParent.isSome = true →
      Act w guard s (s.newPopup x parent)
  | untracked (s x) : Act w guard s (s.untrackPopup x)
  | dismissed (s v) : Act w guard s (s.dismissPopups v)
  | subsurfaceMade (s x parent) : w.client parent = w.client x → s.subParent x = none →
      (s.surfaces x).role = none ∨ (s.surfaces x).role = some .subsurface →
      Act w guard s (s.getSubsurface x parent)
  | subsurfaceGone (s x) : Act w guard s (s.destroySubsurface x)
  | surfaceGone (s x) : (s.surfaces x).hasToplevel = false → Act w guard s (s.destroySurface x)
  | tokenMade (s) : Act w guard s (s.clientToken w)
  | tokenIssued (s) : Act w guard s (s.issueActivationToken w)
  | tokenDropped (s value) : Act w guard s { s with tokens := s.tokens.filter fun t => t.value ≠ value }
  | tokenUsed (s id token) : token ∈ s.tokens → token.issued = true →
      Act w guard s (s.markActivated id token.value)
  | disconnected (s c) : Act w guard s { s with connected := fun d => if d = c then false else s.connected d }

variable {w : World} {guard : State → Event → Prop} {s s' : State}

/-- What a request leaves as it was of the surface it is for, it leaves of every surface. -/
theorem field_update {α : Type} (g : Surface → α) {x : WlSurface} {f : Surface} (h : g f = g (s.surfaces x)) (y : WlSurface) :
    g (if y = x then f else s.surfaces y) = g (s.surfaces y) := by
  split
  · rename_i hxy
    rw [hxy, h]
  · rfl

/-- Views and toplevels agree on who shows whom. -/
def Paired (s : State) : Prop := ∀ v t, s.shows v = some t ↔ s.shownIn t = some v

theorem Paired.act (h : Paired s) (ha : Act w guard s s') : Paired s' := by
  intro v t
  cases ha with
  | same _ hl => rw [hl.shows, hl.shownIn]; exact h v t
  | mapped x id te hid hte hm => rw [shows_markMapped, shownIn_markMapped]; exact h v t
  | linked v₀ e t₀ hv he hp =>
      obtain ⟨te, hte, hfree, -⟩ := pick_spec hp
      have hnone : s.shownIn t₀ = none := by
        simp only [free, Bool.and_eq_true, Option.isNone_iff_eq_none] at hfree
        rw [shownIn, hte]
        exact hfree.1.2
      have hempty : s.shows v₀ = none := by rw [shows, hv]; exact he
      rw [shows_link (by rw [hv]; rfl), shownIn_link (by rw [hte]; rfl)]
      by_cases hvv : v = v₀ <;> by_cases htt : t = t₀
      · simp [hvv, htt]
      · subst hvv
        rw [if_pos rfl, if_neg htt, ← h v t, hempty]
        simp [Ne.symm htt]
      · subst htt
        rw [if_neg hvv, if_pos rfl, h v t, hnone]
        simp [Ne.symm hvv]
      · rw [if_neg hvv, if_neg htt]; exact h v t
  | unlinked v₀ es hes =>
      change (s.unlink v₀).shows v = some t ↔ (s.unlink v₀).shownIn t = some v
      rw [shows_unlink, shownIn_unlink]
      by_cases hvv : v = v₀
      · subst hvv
        rw [if_pos rfl]
        split
        · simp
        · rename_i hne
          rw [← h v t]
          simp [hne]
      · rw [if_neg hvv]
        split
        · rename_i he
          rw [h v t, (h v₀ t).mp he]
          simp [Ne.symm hvv]
        · exact h v t
  | inserted view hv =>
      rw [shows_insertView]
      change _ ↔ s.shownIn t = some v
      split
      · rename_i hvv
        rw [← h v t, hvv, hv]
      · exact h v t
  | erased v₀ hv =>
      rw [shows_eraseView]
      change _ ↔ s.shownIn t = some v
      split
      · rename_i hvv
        rw [← h v t, hvv, hv]
      · exact h v t
  | made x ht hr hg =>
      rw [shownIn_newToplevel]
      change s.shows v = some t ↔ _
      split
      · rename_i htt
        have hnone : s.shownIn t = none := by
          rw [shownIn]
          cases hte : s.toplevel t with
          | none => rfl
          | some te =>
              exact absurd (htt ▸ Toplevels.le_nextId hte) (Nat.not_succ_le_self _)
        rw [h v t, hnone]
      · exact h v t
  | removed s₀ x id hid hs hg =>
      rw [shownIn_removeToplevel]
      change s.shows v = some t ↔ _
      split
      · rename_i htt
        rw [h v t, htt, hs]
      · exact h v t
  | tokenUsed id token _ _ =>
      rw [shownIn_markActivated]
      exact h v t
  | _ => exact h v t

end IhsWl
