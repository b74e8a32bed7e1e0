import IhsWl.Server.Lemmas.Attention
import IhsWl.Timing.Theorems

/-!
# What happens to a view's queue

All that a deed does to a view's frames, its suspension and its next release. Whatever is said of a queue over a run
is read off it.
-/

namespace IhsWl

open State

variable {w : World} {guard : State → Event → Prop} {allowed : FramesOp → Prop} {s s' : State} {v : ViewId}

/-- A view's queue, and how it is paced. -/
def ViewEntry.queue (e : ViewEntry) : Frames × Bool × Nat := (e.frames, e.suspended, e.hiddenReleaseNs)

/-- What a deed from `s` does to the entry of `v`; of the calls on the queue, one of those allowed. -/
inductive Requeued (w : World) (guard : State → Event → Prop) (allowed : FramesOp → Prop) (s : State) (v : ViewId) :
    Option ViewEntry → Option ViewEntry → Prop
  | same (o o') : o'.map ViewEntry.queue = o.map ViewEntry.queue → Requeued w guard allowed s v o o'
  | called (e e' op) : allowed op → (∀ p, op = FramesOp.push p → w.now s.asked ≤ p.now) →
      e'.queue = ((op.call e.frames).frames, e.suspended, e.hiddenReleaseNs) →
      Requeued w guard allowed s v (some e) (some e')
  | suspendedSet (s₀ o o' suspended) : guard s₀ (.cmd (.viewSuspended v suspended)) →
      o'.map ViewEntry.frames = o.map ViewEntry.frames → Requeued w guard allowed s v o o'
  | inserted (s₀ o e' view) : guard s₀ (.cmd (.viewCreated view)) → view.id = v → e'.frames = [] →
      Requeued w guard allowed s v o (some e')
  | erased (s₀ o) : guard s₀ (.cmd (.viewDisposed v)) → Requeued w guard allowed s v o none
  | ticked (o o') : guard s .tick → o' = o.map (fun e => (sweepFrames (w.now s.asked) e).entry) →
      Requeued w guard allowed s v o o'

theorem Requeued.refl (o : Option ViewEntry) : Requeued w guard allowed s v o o := .same o o rfl

theorem Requeued.any {o o' : Option ViewEntry} (h : Requeued w guard allowed s v o o') :
    Requeued w guard (fun _ => True) s v o o' := by
  cases h with
  | same _ _ hq => exact .same _ _ hq
  | called e e' op _ hpush hq => exact .called e e' op trivial hpush hq
  | suspendedSet s₀ _ _ suspended hs hq => exact .suspendedSet s₀ _ _ suspended hs hq
  | inserted s₀ _ e' view hs hid hnil => exact .inserted s₀ _ e' view hs hid hnil
  | erased s₀ _ hs => exact .erased s₀ _ hs
  | ticked _ _ hs hq => exact .ticked _ _ hs hq

/-- A call on the queue of one view. -/
theorem Requeued.modified {u : ViewId} {f : ViewEntry → ViewEntry} (op : FramesOp) (hop : allowed op)
    (hpush : ∀ p, op = .push p → w.now s.asked ≤ p.now)
    (hf : ∀ e, (f e).queue = ((op.call e.frames).frames, e.suspended, e.hiddenReleaseNs))
    (hview : s'.view v = if v = u then (s.view u).map f else s.view v) :
    Requeued w guard allowed s v (s.view v) (s'.view v) := by
  rw [hview]
  split
  · rename_i hvu
    rw [hvu]
    cases s.view u with
    | none => exact .refl none
    | some e => exact .called e (f e) op hop hpush (hf e)
  · exact .refl _

theorem Quiet.queue (h : Quiet s s') (v : ViewId) :
    (s'.view v).map ViewEntry.queue = (s.view v).map ViewEntry.queue := by
  have hcore := congrArg (Option.map fun c => (c.2.2.1, c.2.2.2.1, c.2.2.2.2)) (h.views v)
  rwa [Option.map_map, Option.map_map] at hcore

/-- Frames only join the queue, unless no timer could be set. -/
def joins (w : World) (op : FramesOp) : Prop := (∃ p, op = .push p) ∨ ∃ k, w.timer k = false

theorem Pace.queue {paid taken : Set Debt} (h : Pace w s paid taken s') (v : ViewId) :
    Requeued w guard (joins w) s v (s.view v) (s'.view v) := by
  cases h with
  | framesReleased hk =>
      have hview : (s.releaseFrames w).2.view v = (s.view v).map fun e => { e with frames := e.frames.releaseAll.frames } :=
        Std.TreeMap.getElem?_map
      rw [hview]
      cases s.view v with
      | none => exact .refl none
      | some e => exact .called e _ .releaseAll (Or.inr hk) (by simp) rfl
  | called u ustNs =>
      rw [show (s.sendViewCallbacks w u ustNs).view v = s.view v by rw [sendViewCallbacks_rest]; rfl]
      exact .refl _
  | quiet _ hq => exact .same _ _ (hq.queue v)
  | unshown root tk s₁ dueNs _ ht ha =>
      rw [show s'.view v = s.view v from (congrArg (State.view · v) (unshown_rest ht ha) :)]
      exact .refl _
  | refused u root tk s₁ s₂ dueNs _ hr ht hq ha =>
      have hqueue := hq.queue v
      rw [show s₁.view v = s.view v from (congrArg (State.view · v) (takeTrees_eq ht) :)] at hqueue
      rw [show s'.view v = s₂.view v from (congrArg (State.view · v) (refused_rest ht hq ha) :)]
      exact .same _ _ hqueue
  | listed u dueNs =>
      rw [show (s.listUnsubmitted u dueNs).view v = s.view v by unfold listUnsubmitted; split <;> rfl]
      exact .refl _
  | pushed u root tk s₁ s₂ seq shown released _ hr ht hq hp =>
      have h1 := takeTrees_eq ht
      have hqueue := hq.queue v
      rw [show s₁.view v = s.view v by rw [h1]; rfl] at hqueue
      have hasked : s.asked ≤ s₂.asked := by
        have h := hq.asked
        rwa [show s₁.asked = s.asked by rw [h1]] at h
      rw [show s' = (s₂.pushFrame w u seq shown tk).2 by rw [hp], view_pushFrame]
      split
      · rename_i hv
        subst hv
        cases hold : s.view v with
        | none =>
            rw [hold] at hqueue
            rw [Option.map_eq_none_iff.mp hqueue]
            exact .refl none
        | some e =>
            rw [hold] at hqueue
            obtain ⟨e₂, he₂, heq⟩ := Option.map_eq_some_iff.mp hqueue
            simp only [ViewEntry.queue, Prod.mk.injEq] at heq
            rw [he₂]
            refine .called e _ (.push ⟨w.now s₂.asked, seq, shown, tk⟩) (Or.inl ⟨_, rfl⟩) ?_ ?_
            · intro p hp
              cases hp
              exact w.monotone _ _ hasked
            · simp only [ViewEntry.queue, FramesOp.call, heq]
      · exact .same _ _ hqueue
  | looseReleased | timersReleased | forgotten => exact .refl _
  | _ => exact .refl _

theorem Move.queue {paid taken : Set Debt} (h : Move w s paid taken s') (v : ViewId) :
    Requeued w guard (joins w) s v (s.view v) (s'.view v) := by
  cases h with
  | pace hm => exact hm.queue v
  | mapped => exact .refl _
  | linked u e t hv =>
      refine .same _ _ ?_
      rw [link, view_log, view_modifyView, view_modifyToplevel]
      split
      · rename_i hvu
        rw [hvu, Option.map_map]
        rfl
      · rfl

theorem Deed.queue {paid taken : Set Debt} (h : Deed w guard s paid taken s') (v : ViewId) :
    Requeued w guard (fun _ => True) s v (s.view v) (s'.view v) := by
  cases h with
  | move hm => exact (hm.queue v).any
  | called u ustNs =>
      rw [show (s.sendViewCallbacks w u ustNs).view v = s.view v by rw [sendViewCallbacks_rest]; rfl]
      exact .refl _
  | framesCleared u => exact .modified .clear trivial (by simp) (fun _ => rfl) (view_clearFrames s u v)
  | unlinked u es =>
      refine .same _ _ ?_
      rw [view_log]
      by_cases hvu : v = u
      · rw [hvu, view_unlink_self, Option.map_map]
        rfl
      · rw [view_unlink hvu]
  | inserted s₀ view hnone hg =>
      rw [State.view, State.view, insertView, Table.get_insert]
      split
      · rename_i hv
        exact .inserted s₀ _ _ view hg hv.symm rfl
      · exact .refl _
  | erased s₀ u hnone hg =>
      rw [State.view, State.view, eraseView, Table.get_erase]
      split
      · rename_i hv
        exact .erased s₀ _ (hv ▸ hg)
      · exact .refl _
  | reported u r => exact .modified (.presented r) trivial (by simp) (fun _ => rfl) (view_takeReport s u r v)
  | suspendedSet s₀ u suspended hg =>
      rw [setSuspended, view_ask, view_modifyView]
      split
      · rename_i hv
        subst hv
        refine .suspendedSet s₀ _ _ suspended hg ?_
        rw [Option.map_map]
        rfl
      · exact .refl _
  | targeted x =>
      rw [show (s.addTimed x).view v = s.view v by rw [addTimed_rest]; rfl]
      exact .refl _
  | ticked hg =>
      exact .ticked _ _ hg (view_sweep ..)
  | _ => exact .refl _

/-! ## Where frames come from -/

/-- Every frame queued was queued before by the same view, or submitted since. -/
structure Queues (w : World) (s s' : State) : Prop where
  asked : s.asked ≤ s'.asked
  frames : ∀ v e', s'.view v = some e' → ∀ g ∈ e'.frames,
    w.now s.asked ≤ g.submittedNs ∨ ∃ e f, s.view v = some e ∧ f ∈ e.frames ∧ f.Later g

theorem Queues.refl (s : State) : Queues w s s :=
  ⟨le_rfl, fun _ e hv f hf => Or.inr ⟨e, f, hv, hf, .refl f⟩⟩

theorem Queues.trans {t : State} (h : Queues w s s') (h' : Queues w s' t) : Queues w s t := by
  refine ⟨h.asked.trans h'.asked, fun v e'' hv'' g hg => ?_⟩
  rcases h'.frames v e'' hv'' g hg with hnew | ⟨e', f', hv', hf', hlater'⟩
  · exact Or.inl ((w.monotone _ _ h.asked).trans hnew)
  · rcases h.frames v e' hv' f' hf' with hnew | ⟨e, f, hv, hf, hlater⟩
    · exact Or.inl (hlater'.submittedNs ▸ hnew)
    · exact Or.inr ⟨e, f, hv, hf, hlater.trans hlater'⟩

/-- A frame in the queue after a call was in it before, or is the one pushed. -/
theorem Frames.mem_call {fs : Frames} {op : FramesOp} {g : Frame} (hg : g ∈ (op.call fs).frames) :
    (∃ f ∈ fs, f.Later g) ∨ ∃ p, op = .push p ∧ g.submittedNs = p.now := by
  obtain ⟨gs, hsub, hlater⟩ := Frames.call_frames fs op
  obtain ⟨f, hf, hfg⟩ := Frames.mem_of_forall₂ hlater hg
  rcases List.mem_append.mp (hsub.subset hf) with hf | hf
  · exact Or.inl ⟨f, hf, hfg⟩
  · cases op with
    | push p =>
        obtain rfl := List.mem_singleton.mp hf
        exact Or.inr ⟨p, rfl, hfg.submittedNs⟩
    | presented | releaseOlder | releaseAll | flushOlder | clear => cases hf

/-- A tick queues nothing. -/
theorem mem_sweepFrames {now : Nat} {e : ViewEntry} {g : Frame} (hg : g ∈ (sweepFrames now e).entry.frames) :
    ∃ f ∈ e.frames, f.Later g := by
  have hcall (op : FramesOp) (hop : ∀ p, op ≠ .push p) {fs : Frames} {g : Frame} (hg : g ∈ (op.call fs).frames) :
      ∃ f ∈ fs, f.Later g := by
    rcases Frames.mem_call hg with hold | ⟨p, hp, -⟩
    · exact hold
    · exact absurd hp (hop p)
  unfold sweepFrames at hg
  split at hg
  · split at hg
    · exact hcall .releaseAll (by simp) hg
    · exact ⟨g, hg, .refl g⟩
  · obtain ⟨f', hf', hlater'⟩ := hcall (.releaseOlder _) (by simp) hg
    obtain ⟨f, hf, hlater⟩ := hcall (.flushOlder _) (by simp) hf'
    exact ⟨f, hf, hlater.trans hlater'⟩

theorem Requeued.frames {o : Option ViewEntry} {e' : ViewEntry} (h : Requeued w guard allowed s v o (some e')) {g : Frame}
    (hg : g ∈ e'.frames) : w.now s.asked ≤ g.submittedNs ∨ ∃ e f, o = some e ∧ f ∈ e.frames ∧ f.Later g := by
  cases h with
  | same _ _ hq =>
      obtain ⟨e, rfl, heq⟩ := Option.map_eq_some_iff.mp hq.symm
      have hframes : e.frames = e'.frames := congrArg Prod.fst heq
      exact Or.inr ⟨e, g, rfl, hframes ▸ hg, .refl g⟩
  | called e _ op _ hpush hq =>
      rw [show e'.frames = (op.call e.frames).frames from congrArg Prod.fst hq] at hg
      rcases Frames.mem_call hg with ⟨f, hf, hlater⟩ | ⟨p, hp, hnow⟩
      · exact Or.inr ⟨e, f, rfl, hf, hlater⟩
      · exact Or.inl (hnow ▸ hpush p hp)
  | suspendedSet s₀ _ _ suspended hs hq =>
      obtain ⟨e, rfl, heq⟩ := Option.map_eq_some_iff.mp hq.symm
      exact Or.inr ⟨e, g, rfl, heq ▸ hg, .refl g⟩
  | inserted s₀ _ _ view hs hid hnil =>
      rw [hnil] at hg
      cases hg
  | ticked _ _ hs hswept =>
      obtain ⟨e, rfl, rfl⟩ := Option.map_eq_some_iff.mp hswept.symm
      obtain ⟨f, hf, hlater⟩ := mem_sweepFrames hg
      exact Or.inr ⟨e, f, rfl, hf, hlater⟩

theorem Deed.queues {paid taken : Set Debt} (h : Deed w guard s paid taken s') : Queues w s s' :=
  ⟨h.asked_le, fun v _ hv' _ hg => (hv' ▸ h.queue v).frames hg⟩

theorem Deeds.queues {D E : Set Debt} (h : Deeds w guard s D s' E) : Queues w s s' :=
  h.related Queues.refl (fun h h' => h.trans h') fun hd => hd.queues

theorem step_queues {depth : Nat} (hp : Paired s) (e : Event) : Queues w s (step w depth s e) := by
  have hdeeds : Deeds w (fun _ _ => True) s ∅ (step w depth s e) (unpaid s e) := step_deeds hp trivial
  exact hdeeds.queues

theorem steps_queues {depth : Nat} (es : List Event) (hp : Paired s) : Queues w s (es.foldl (step w depth) s) := by
  induction es generalizing s with
  | nil => exact .refl s
  | cons e es ih => exact (step_queues hp e).trans (ih (step_paired hp e))

end IhsWl
