import IhsWl.Server.Lemmas.Alarms
import IhsWl.Server.Lemmas.Wider

/-!
# Who is sent frame callbacks

A tick sends those of surfaces that some view on screen shows. Applying commits sends none, and only adds to those
that wait.
-/

namespace IhsWl

open State

/-- A view on screen shows the surface. -/
def State.seen (s : State) (x : WlSurface) : Prop := ∃ u e, s.view u = some e ∧ e.suspended = false ∧ x ∈ s.scene u

variable {w : World} {s s' t : State} {D E : Set Debt} {P : WlSurface → Prop}

theorem SameLinks.scene (h : SameLinks s s') (u : ViewId) : s'.scene u = s.scene u := by
  rw [State.scene, h.viewTrees, h.tree, ← State.scene]

/-! ## Sending them -/

/-- All that was done is that frame callbacks were sent, to surfaces as `P` says. -/
structure Calls (P : WlSurface → Prop) (s s' : State) : Prop where
  links : SameLinks s s'
  kept : ∀ x, (s'.contents x).frameCallbacks = (s.contents x).frameCallbacks ∨ P x ∧ (s'.contents x).frameCallbacks = []
  sent : Logs (fun a => ∃ x cb time, P x ∧ cb ∈ (s.contents x).frameCallbacks ∧ a = .done cb time) s s'

namespace Calls

theorem refl (s : State) : Calls P s s := ⟨.refl s, fun _ => Or.inl rfl, .none rfl⟩

theorem trans (h : Calls P s s') (h' : Calls P s' t) : Calls P s t := by
  refine ⟨h.links.trans h'.links, fun x => ?_, h.sent.trans ?_⟩
  · rcases h'.kept x with hkept | hsent
    · rw [hkept]
      exact h.kept x
    · exact Or.inr hsent
  · obtain ⟨es, he, hes⟩ := h'.sent
    refine ⟨es, he, fun a ha => ?_⟩
    obtain ⟨x, cb, time, hx, hcb, rfl⟩ := hes a ha
    rcases h.kept x with hkept | ⟨-, hnil⟩
    · exact ⟨x, cb, time, hx, hkept ▸ hcb, rfl⟩
    · rw [hnil] at hcb
      cases hcb

end Calls

namespace State

theorem sendFrameCallbacks_calls {root : WlSurface} (hP : ∀ x ∈ s.tree root, P x) (ustNs : Nat) :
    Calls P s (s.sendFrameCallbacks w ustNs root) := by
  refine ⟨sendFrameCallbacks_links w s ustNs root, fun x => ?_, _, rfl, fun a ha => ?_⟩
  · simp only [sendFrameCallbacks, visitTree, ask, log]
    split
    · rename_i hx
      exact Or.inr ⟨hP x hx, rfl⟩
    · exact Or.inl rfl
  · obtain ⟨cb, hcb, rfl⟩ := List.mem_map.mp ha
    obtain ⟨x, hx, hcb⟩ := List.mem_flatMap.mp hcb
    exact ⟨x, cb, _, hP x hx, hcb, rfl⟩

theorem sendViewCallbacks_calls {u : ViewId} (hP : ∀ x ∈ s.scene u, P x) (ustNs : Nat) :
    Calls P s (s.sendViewCallbacks w u ustNs) := by
  have hroots : ∀ root ∈ s.viewTrees u, ∀ x ∈ s.tree root, P x := fun root hroot x hx => hP x (mem_scene.mpr ⟨root, hroot, hx⟩)
  unfold sendViewCallbacks
  generalize s.viewTrees u = roots at hroots
  induction roots generalizing s with
  | nil => exact .refl s
  | cons root roots ih =>
      have hroot : Calls P s (s.sendFrameCallbacks w ustNs root) := sendFrameCallbacks_calls (hroots root List.mem_cons_self) ustNs
      refine hroot.trans (ih (fun x hx => ?_) fun r hr x hx => ?_)
      · exact hP x (hroot.links.scene u ▸ hx)
      · rw [hroot.links.tree] at hx
        exact hroots r (List.mem_cons_of_mem _ hr) x hx

/-- The views on screen are sent theirs, those off screen are not. -/
theorem flushAll_calls (now : Nat) (vs : List ViewId) (hP : ∀ x, s.seen x → P x) :
    Calls P s (vs.foldl (flushCallbacks w now) s) := by
  induction vs generalizing s with
  | nil => exact .refl s
  | cons v vs ih =>
      have hflush : Calls P s (s.flushCallbacks w now v) := by
        unfold flushCallbacks
        split
        · exact .refl s
        · rename_i e he
          split
          · exact .refl s
          · rename_i hs
            exact sendViewCallbacks_calls (fun x hx => hP x ⟨v, e, he, by simpa using hs, hx⟩) now
      refine hflush.trans (ih fun x hx => hP x ?_)
      obtain ⟨u, e, hu, hs, hx⟩ := hx
      rw [flushCallbacks_view] at hu
      exact ⟨u, e, hu, hs, hflush.links.scene u ▸ hx⟩

/-- A tick's pass over timers and frames sends none. -/
theorem callbacks_sweep (s : State) (now : Nat) (x : WlSurface) :
    ((s.sweep w now).contents x).frameCallbacks = (s.contents x).frameCallbacks := by
  change (if x ∈ s.watched then _ else _ : Content).frameCallbacks = _
  split <;> rfl

/-- The views on screen stay there, and show what they showed. -/
theorem seen_sweep {now : Nat} {x : WlSurface} (h : (s.sweep w now).seen x) : s.seen x := by
  obtain ⟨u, e', hu, hs, hx⟩ := h
  rw [view_sweep] at hu
  obtain ⟨e, he, rfl⟩ := Option.map_eq_some_iff.mp hu
  rw [suspended_sweepFrames] at hs
  exact ⟨u, e, he, hs, (sweep_links s now).scene u ▸ hx⟩

end State

/-! ## Waiting for them -/

/-- No frame callback was sent; more may wait. -/
structure Waits (s s' : State) : Prop where
  grown : ∀ x, (s.contents x).frameCallbacks <+: (s'.contents x).frameCallbacks
  quiet : Logs (fun a => ∀ cb time, a ≠ .done cb time) s s'

/-- Taking what trees wait on the screen for leaves their frame callbacks. -/
theorem takeTrees_callbacks {roots : List WlSurface} {taken : Taken} (ht : s.takeTrees roots = (taken, s')) (x : WlSurface) :
    (s'.contents x).frameCallbacks = (s.contents x).frameCallbacks := by
  have hfield := takeTrees_field (g := Content.frameCallbacks) (fun _ => rfl) s roots x
  rwa [ht] at hfield

theorem Pace.callbacks {paid taken : Set Debt} (h : Pace w s paid taken s') (htimer : ∀ i, w.timer i = true) (x : WlSurface) :
    (s.contents x).frameCallbacks <+: (s'.contents x).frameCallbacks := by
  have htimes {k : Nat} (hk : w.timer k = false) : False := by simp [htimer k] at hk
  cases h with
  | timersReleased hk | called _ _ hk => exact (htimes hk.choose_spec).elim
  | applied c =>
      simp only [applyContent]
      split
      · rename_i hx
        rw [hx]
        exact List.prefix_append ..
      · exact List.prefix_rfl
  | quiet _ hq =>
      have hcontents : s'.contents = s.contents := by rw [hq.rest]
      exact hcontents ▸ List.prefix_rfl
  | unshown root tk s₁ dueNs _ ht ha =>
      have hcontents : s'.contents = s₁.contents := (congrArg State.contents (admitLoose_eq ha) :)
      exact hcontents ▸ (takeTrees_callbacks ht x).symm ▸ List.prefix_rfl
  | refused v root tk s₁ s₂ dueNs _ hr ht hq ha =>
      have hcontents : s'.contents = s₂.contents := (congrArg State.contents (admitLoose_eq ha) :)
      have hquiet : s₂.contents = s₁.contents := by rw [hq.rest]
      exact hcontents ▸ hquiet ▸ (takeTrees_callbacks ht x).symm ▸ List.prefix_rfl
  | listed v dueNs =>
      unfold listUnsubmitted
      split <;> exact List.prefix_rfl
  | pushed v root tk s₁ s₂ seq shown released _ hr ht hq hp =>
      have hrest := pushFrame_rest w s₂ v seq shown tk
      rw [hp] at hrest
      have hcontents : s'.contents = s₂.contents := (congrArg State.contents hrest :)
      have hquiet : s₂.contents = s₁.contents := by rw [hq.rest]
      exact hcontents ▸ hquiet ▸ (takeTrees_callbacks ht x).symm ▸ List.prefix_rfl
  | _ => exact List.prefix_rfl

/-- While the clock runs, applying commits sends no frame callbacks. -/
theorem Settles.waits (htimer : ∀ i, w.timer i = true) (h : Settles w s D t E) : Waits s t := by
  refine ⟨fun x => ?_, ?_⟩
  · refine h.related (R := fun s t => (s.contents x).frameCallbacks <+: (t.contents x).frameCallbacks) ?_ ?_ ?_
    · exact fun s => List.prefix_rfl
    · exact fun h h' => h.trans h'
    · intro s paid taken s' hm
      cases hm with
      | pace hm => exact hm.callbacks htimer x
      | mapped | linked => exact List.prefix_rfl
  · obtain ⟨es, he, hes⟩ := h.commits
    refine ⟨es, he, fun a ha cb time hdone => ?_⟩
    have hcommits := hes a ha
    rw [hdone] at hcommits
    obtain ⟨k, hk⟩ := hcommits
    simp [htimer k] at hk

end IhsWl
