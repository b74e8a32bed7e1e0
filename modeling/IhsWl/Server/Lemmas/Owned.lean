import IhsWl.Server.Lemmas.Kin
import IhsWl.Server.Lemmas.Logs

/-!
# Whose barriers there are

A barrier is of the client whose surface set it, wherever it waits: on the surface, in a frame of the view
that shows the surface, or on the clock.
-/

namespace IhsWl

open State

variable {w : World} {guard : State → Event → Prop} {s s' : State}

/-! ## Barriers of a queue -/

theorem mem_pushes {op : FramesOp} {b : Barrier} (h : b ∈ (FramesOp.pushes [op]).flatMap Push.barriers) :
    ∃ p, op = .push p ∧ b ∈ p.taken.barriers := by
  cases op with
  | push p => exact ⟨p, rfl, by simpa [FramesOp.pushes, Push.barriers] using h⟩
  | _ => simp [FramesOp.pushes] at h

/-- A barrier queued after a call was queued, or just pushed. -/
theorem queued_call (op : FramesOp) {fs : Frames} {b : Barrier} (h : b ∈ (op.call fs).frames.queuedBarriers) :
    b ∈ fs.queuedBarriers ∨ ∃ p, op = .push p ∧ b ∈ p.taken.barriers :=
  (List.mem_append.mp ((Frames.call_barriers fs op).symm.subset (List.mem_append_right _ h))).imp_right mem_pushes

/-- A barrier a call signals was queued, or just pushed, and the call tells of it. -/
theorem signaled_call (op : FramesOp) {fs : Frames} {b : Barrier} (hop : op.tellsOfBarriers = true)
    (h : .signal b ∈ (op.call fs).effects) :
    (op.call fs).returned = true ∧ (b ∈ fs.queuedBarriers ∨ ∃ p, op = .push p ∧ b ∈ p.taken.barriers) := by
  have hmem : b ∈ (op.call fs).effects.filterMap Effect.signals := List.mem_filterMap.mpr ⟨_, h, rfl⟩
  refine ⟨(Frames.call_returned fs op hop).mpr (List.ne_nil_of_mem hmem), ?_⟩
  exact (List.mem_append.mp ((Frames.call_barriers fs op).symm.subset (List.mem_append_left _ hmem))).imp_right mem_pushes

namespace State

/-- The barriers view `v` queues. -/
def queued (s : State) (v : ViewId) : List Barrier := ((s.view v).map fun e => e.frames.queuedBarriers).getD []

theorem mem_queued {v : ViewId} {b : Barrier} : b ∈ s.queued v ↔ ∃ e, s.view v = some e ∧ b ∈ e.frames.queuedBarriers := by
  unfold queued
  cases hv : s.view v <;> simp

/-! ## Taking trees -/

/-- What is taken waited on a surface of the trees, and what is left did before. -/
theorem takeTrees_barriers (s : State) (roots : List WlSurface) :
    (∀ b ∈ (s.takeTrees roots).1.barriers, ∃ r ∈ roots, ∃ x ∈ s.tree r, (s.contents x).barrier = some b) ∧
    ∀ x b, ((s.takeTrees roots).2.contents x).barrier = some b → (s.contents x).barrier = some b := by
  suffices h : ∀ (rest : List WlSurface) (t : Taken × State), SameLinks s t.2 → (∀ r ∈ rest, r ∈ roots) →
      (∀ b ∈ t.1.barriers, ∃ r ∈ roots, ∃ x ∈ s.tree r, (s.contents x).barrier = some b) →
      (∀ x b, (t.2.contents x).barrier = some b → (s.contents x).barrier = some b) →
      (∀ b ∈ (rest.foldl takeTree t).1.barriers, ∃ r ∈ roots, ∃ x ∈ s.tree r, (s.contents x).barrier = some b) ∧
      ∀ x b, ((rest.foldl takeTree t).2.contents x).barrier = some b → (s.contents x).barrier = some b from
    h roots ({}, s) (.refl s) (fun _ h => h) (by simp) fun _ _ h => h
  intro rest
  induction rest with
  | nil => exact fun _ _ _ htaken hleft => ⟨htaken, hleft⟩
  | cons r rest ih =>
      intro t hlinks hroots htaken hleft
      refine ih _ (hlinks.trans (takeTree_links t r)) (fun y hy => hroots y (List.mem_cons_of_mem _ hy)) ?_ ?_
      · intro b hb
        rcases List.mem_append.mp hb with hb | hb
        · exact htaken b hb
        · obtain ⟨x, hx, hbarrier⟩ := List.mem_filterMap.mp hb
          rw [hlinks.tree] at hx
          exact ⟨r, hroots r List.mem_cons_self, x, hx, hleft x b hbarrier⟩
      · intro x b hb
        simp only [takeTree, visitTree] at hb
        split at hb
        · cases hb
        · exact hleft x b hb

end State

/-! ## The invariant -/

/-- Each barrier is of the client it is kept for. -/
structure Owned (w : World) (s : State) : Prop where
  contents : ∀ x b, (s.contents x).barrier = some b → b.client = w.client x
  loose : ∀ l ∈ s.loose, l.client = l.barrier.client
  frames : ∀ v, ∀ b ∈ s.queued v, ∃ root, s.viewRoot v = some root ∧ b.client = w.client root

theorem Owned.empty : Owned w {} := by
  constructor <;> simp [State.queued, State.view]

/-- What is taken from a view's trees is of its client. -/
theorem Owned.taken (ho : Owned w s) (hk : Kin w s) {v : ViewId} {root : WlSurface} (hroot : s.viewRoot v = some root)
    {b : Barrier} (hb : b ∈ (s.takeTrees (s.viewTrees v)).1.barriers) : b.client = w.client root := by
  obtain ⟨r, hr, x, hx, hbarrier⟩ := (takeTrees_barriers s _).1 b hb
  rw [ho.contents x b hbarrier, hk.tree hx, hk.viewTrees hroot hr]

theorem Owned.takenTree (ho : Owned w s) (hk : Kin w s) {root : WlSurface} {b : Barrier}
    (hb : b ∈ (s.takeTrees [root]).1.barriers) : b.client = w.client root := by
  obtain ⟨r, hr, x, hx, hbarrier⟩ := (takeTrees_barriers s _).1 b hb
  rw [ho.contents x b hbarrier, hk.tree hx, List.mem_singleton.mp hr]

/-! ## What is done so far -/

/-- `hold_loose` never found more than it keeps, and no view let its toplevel go with barriers queued. -/
def Clean (tr : List Effect) : Prop :=
  (∀ n, .holding n ∈ tr → n ≤ maxLoose) ∧ ∀ v left, .unbinding v left ∈ tr → left = []

theorem Clean.of_grown {tr es : List Effect} (h : Clean (tr ++ es)) : Clean tr :=
  ⟨fun n hn => h.1 n (List.mem_append_left _ hn), fun v left hl => h.2 v left (List.mem_append_left _ hl)⟩

theorem unlink_grows (s : State) (v : ViewId) : Logs (fun _ => True) s (s.unlink v) := by
  unfold unlink
  split
  · exact .none rfl
  · dsimp only
    split
    · exact ⟨_, rfl, fun _ _ => trivial⟩
    · exact ⟨_, List.append_assoc .., fun _ _ => trivial⟩

/-- Whatever happens, what was done stays done. -/
theorem Act.grows (ha : Act w guard s s') : Logs (fun _ => True) s s' := by
  cases ha with
  | same _ hl =>
      obtain ⟨es, he, -⟩ := hl.trace
      exact ⟨es, he, fun _ _ => trivial⟩
  | mapped | linked | tokenIssued | tokenUsed => exact ⟨_, rfl, fun _ _ => trivial⟩
  | unlinked v es hes => exact (unlink_grows s v).trans (.log fun _ _ => trivial)
  | _ => exact .none rfl

theorem Clean.before (h : Clean s'.trace) (ha : Act w guard s s') : Clean s.trace := by
  obtain ⟨es, he, -⟩ := ha.grows
  rw [he] at h
  exact h.of_grown

/-! ## Barriers on surfaces -/

namespace State

theorem mem_addLoose {c : ClientId} {barriers : List Barrier} {dueNs : Nat} {l : Loose}
    (h : l ∈ (s.addLoose c barriers dueNs).loose) : l ∈ s.loose ∨ ∃ b ∈ barriers, l = ⟨b, c, dueNs⟩ := by
  simp only [addLoose, log] at h
  have h := List.mem_of_mem_drop h
  rw [List.mem_append, List.mem_map] at h
  rcases h with h | ⟨b, hb, rfl⟩
  · exact Or.inl h
  · exact Or.inr ⟨b, hb, rfl⟩

theorem sendViewCallbacks_barrier (v : ViewId) (ustNs : Nat) (x : WlSurface) :
    ((s.sendViewCallbacks w v ustNs).contents x).barrier = (s.contents x).barrier := by
  suffices h : ∀ (roots : List WlSurface) (s : State),
      ((roots.foldl (sendFrameCallbacks w ustNs) s).contents x).barrier = (s.contents x).barrier from h _ s
  intro roots
  induction roots with
  | nil => exact fun _ => rfl
  | cons r roots ih =>
      intro s
      refine (ih _).trans ?_
      simp only [sendFrameCallbacks, visitTree, ask, log]
      split <;> rfl

end State

theorem Quiet.contents (h : Quiet s s') : s'.contents = s.contents := by rw [h.rest]

theorem Quiet.loose (h : Quiet s s') : s'.loose = s.loose := by rw [h.rest]

/-- A surface gets a barrier from its own client's commit only. -/
theorem Pace.barrier {paid taken : Set Debt} (h : Pace w s paid taken s') {x : WlSurface} {b : Barrier}
    (hb : (s'.contents x).barrier = some b) : (s.contents x).barrier = some b ∨ b.client = w.client x := by
  cases h with
  | timersReleased =>
      simp only [releaseTimers] at hb
      split at hb <;> exact Or.inl hb
  | applied c =>
      simp only [applyContent] at hb
      split at hb
      · rename_i hx
        subst hx
        cases hc : c.barrier with
        | none => rw [hc] at hb; exact Or.inl hb
        | some id =>
            rw [hc] at hb
            cases hb
            exact Or.inr rfl
      · exact Or.inl hb
  | called v ustNs => exact Or.inl (sendViewCallbacks_barrier v ustNs x ▸ hb)
  | quiet _ hq => exact Or.inl (hq.contents ▸ hb)
  | unshown root tk s₁ dueNs _ ht ha =>
      have hleft := (takeTrees_barriers s [root]).2 x b
      rw [ht] at hleft
      rw [show s'.contents = s₁.contents from (congrArg State.contents (unshown_rest ht ha) :)] at hb
      exact Or.inl (hleft hb)
  | refused v root tk s₁ s₂ dueNs _ hr ht hq ha =>
      have hleft := (takeTrees_barriers s (s.viewTrees v)).2 x b
      rw [ht] at hleft
      rw [show s'.contents = s₁.contents from (congrArg State.contents (refused_rest ht hq ha) :)] at hb
      exact Or.inl (hleft hb)
  | listed v dueNs =>
      unfold listUnsubmitted at hb
      split at hb <;> exact Or.inl hb
  | pushed v root tk s₁ s₂ seq shown released _ hr ht hq hp =>
      have hleft := (takeTrees_barriers s (s.viewTrees v)).2 x b
      rw [ht] at hleft
      rw [show s'.contents = s₁.contents from (congrArg State.contents (pushed_rest ht hq hp) :)] at hb
      exact Or.inl (hleft hb)
  | _ => exact Or.inl hb

theorem Deed.barrier {paid taken : Set Debt} (h : Deed w guard s paid taken s') {x : WlSurface} {b : Barrier}
    (hb : (s'.contents x).barrier = some b) : (s.contents x).barrier = some b ∨ b.client = w.client x := by
  cases h with
  | move hm =>
      cases hm with
      | pace hm => exact hm.barrier hb
      | mapped => exact Or.inl hb
      | linked => exact Or.inl hb
  | called v ustNs => exact Or.inl (sendViewCallbacks_barrier v ustNs x ▸ hb)
  | framesCleared v =>
      unfold clearFrames at hb
      split at hb <;> exact Or.inl hb
  | unlinked v =>
      unfold unlink at hb
      split at hb
      · exact Or.inl hb
      · dsimp only at hb
        split at hb <;> exact Or.inl hb
  | reported v r =>
      unfold takeReport at hb
      split at hb <;> exact Or.inl hb
  | targeted y =>
      unfold addTimed at hb
      split at hb <;> exact Or.inl hb
  | registered s₀ y deadline =>
      simp only [registerTimer] at hb
      split at hb
      · rename_i hy; subst hy; exact Or.inl hb
      · exact Or.inl hb
  | ticked hg =>
      change (if x ∈ s.disarm.watched then _ else s.contents x : Content).barrier = some b at hb
      split at hb <;> exact Or.inl hb
  | _ => exact Or.inl hb

/-! ## Barriers on the clock -/

theorem Pace.loose {paid taken : Set Debt} (h : Pace w s paid taken s') (ho : Owned w s) (hk : Kin w s) :
    ∀ l ∈ s'.loose, l.client = l.barrier.client := by
  -- What joins is of the client it joins for.
  have hjoin {t t' : State} {root : WlSurface} {barriers : List Barrier} {dueNs : Option Nat}
      (hloose : t.loose = s.loose) (hb : ∀ b ∈ barriers, b.client = w.client root)
      (ha : t.admitLoose w (s.clientOf w root) barriers = (dueNs, t')) : ∀ l ∈ t'.loose, l.client = l.barrier.client := by
    unfold admitLoose at ha
    split at ha
    · cases ha; rw [hloose]; exact ho.loose
    · split at ha
      · cases ha; rw [State.log, hloose]; exact ho.loose
      · rename_i c hc
        cases ha
        intro l hl
        rcases mem_addLoose hl with hl | ⟨b, hb', rfl⟩
        · exact ho.loose l (hloose ▸ hl)
        · rw [hb b hb']
          exact ((clientOf_eq_some.mp hc).2).symm
  cases h with
  | looseReleased => simp [releaseLoose]
  | quiet _ hq => rw [hq.loose]; exact ho.loose
  | unshown root tk s₁ dueNs _ ht ha =>
      have htaken := fun b (hb : b ∈ (s.takeTrees [root]).1.barriers) => ho.takenTree hk hb
      have hdata : s₁.loose = s.loose := (congrArg State.loose (takeTrees_eq ht) :)
      rw [ht] at htaken
      exact hjoin (t := s₁.log tk.notShown.2) hdata htaken ha
  | refused v root tk s₁ s₂ dueNs _ hr ht hq ha =>
      have htaken := fun b => ho.taken hk hr (b := b)
      have hdata : s₁.loose = s.loose := (congrArg State.loose (takeTrees_eq ht) :)
      rw [ht] at htaken
      exact hjoin (t := s₂.log tk.notShown.2) (hq.loose.trans hdata) htaken ha
  | called v ustNs => rw [sendViewCallbacks_rest]; exact ho.loose
  | listed v dueNs =>
      unfold listUnsubmitted
      split <;> exact ho.loose
  | pushed v root tk s₁ s₂ seq shown released _ hr ht hq hp =>
      rw [show s'.loose = s.loose from (congrArg State.loose (pushed_rest ht hq hp) :)]
      exact ho.loose
  | _ => exact ho.loose

theorem Deed.loose {paid taken : Set Debt} (h : Deed w guard s paid taken s') (ho : Owned w s) (hk : Kin w s) :
    ∀ l ∈ s'.loose, l.client = l.barrier.client := by
  cases h with
  | move hm =>
      cases hm with
      | pace hm => exact hm.loose ho hk
      | mapped => exact ho.loose
      | linked => exact ho.loose
  | called v ustNs => rw [sendViewCallbacks_rest]; exact ho.loose
  | framesCleared v =>
      unfold clearFrames
      split <;> exact ho.loose
  | unlinked v =>
      unfold unlink
      split
      · exact ho.loose
      · dsimp only
        split <;> exact ho.loose
  | reported v r =>
      unfold takeReport
      split <;> exact ho.loose
  | targeted y =>
      unfold addTimed
      split <;> exact ho.loose
  | ticked hg => exact fun l hl => ho.loose l (List.mem_filter.mp hl).1
  | _ => exact ho.loose

/-! ## Barriers of views -/

namespace State

theorem queued_core {v : ViewId} (h : (s'.view v).map ViewEntry.core = (s.view v).map ViewEntry.core) :
    s'.queued v = s.queued v := by
  have hcore := congrArg (Option.map fun c : ViewHandle × Option ToplevelId × Frames × Bool × Nat => c.2.2.1.queuedBarriers) h
  rw [Option.map_map, Option.map_map] at hcore
  exact congrArg (Option.getD · []) hcore

theorem queued_congr (h : s'.view = s.view) (v : ViewId) : s'.queued v = s.queued v := by
  rw [queued, queued, h]

/-- Frames of `v` are given to a call. -/
theorem queued_modify (op : FramesOp) {t : State} {v : ViewId} {e : ViewEntry} {f : ViewEntry → ViewEntry}
    (hv : t.view v = some e) (hf : (f e).frames = (op.call e.frames).frames) (v' : ViewId) {b : Barrier}
    (hb : b ∈ (t.modifyView v f).queued v') : b ∈ t.queued v' ∨ (v' = v ∧ ∃ p, op = .push p ∧ b ∈ p.taken.barriers) := by
  obtain ⟨e', he', hb⟩ := mem_queued.mp hb
  rw [view_modifyView] at he'
  split at he'
  · rename_i hvv
    subst hvv
    rw [hv] at he'
    cases he'
    rw [hf] at hb
    rcases queued_call op hb with hb | hp
    · exact Or.inl (mem_queued.mpr ⟨e, hv, hb⟩)
    · exact Or.inr ⟨rfl, hp⟩
  · exact Or.inl (mem_queued.mpr ⟨e', he', hb⟩)

theorem queued_modifyView {v₀ : ViewId} {f : ViewEntry → ViewEntry} (hf : ∀ e, (f e).frames = e.frames) (v : ViewId) :
    (s.modifyView v₀ f).queued v = s.queued v := by
  rw [queued, queued, view_modifyView]
  split
  · rename_i hvv
    rw [hvv, Option.map_map]
    simp only [Function.comp_def, hf]
  · rfl

theorem queued_link (v₀ : ViewId) (t : ToplevelId) (v : ViewId) : (s.link v₀ t).queued v = s.queued v :=
  queued_modifyView (s := s.modifyToplevel t fun te => { te with view := some v₀ })
    (f := fun e => { e with toplevel := some t }) (fun _ => rfl) v

theorem queued_setSuspended (v₀ : ViewId) (suspended : Bool) (v : ViewId) :
    (s.setSuspended w v₀ suspended).queued v = s.queued v :=
  queued_modifyView (f := fun e => { e with suspended, hiddenReleaseNs := s.clock.nextVblank (w.now s.asked) }) (fun _ => rfl) v

theorem queued_unlink (v₀ v : ViewId) : (s.unlink v₀).queued v = s.queued v := by
  by_cases hne : v = v₀
  · rw [hne, queued, queued, view_unlink_self, Option.map_map]
    rfl
  · rw [queued, queued, view_unlink hne]

/-- A view that was just inserted queues nothing. -/
theorem queued_insertView {view : ViewHandle} {v : ViewId} {b : Barrier} (hb : b ∈ (s.insertView view).queued v) :
    v ≠ view.id ∧ b ∈ s.queued v := by
  obtain ⟨e, he, hb⟩ := mem_queued.mp hb
  simp only [insertView, State.view, Table.get_insert] at he
  split at he
  · cases he
    cases hb
  · rename_i hne
    exact ⟨hne, mem_queued.mpr ⟨e, he, hb⟩⟩

theorem queued_eraseView {v₀ v : ViewId} {b : Barrier} (hb : b ∈ (s.eraseView v₀).queued v) : v ≠ v₀ ∧ b ∈ s.queued v := by
  obtain ⟨e, he, hb⟩ := mem_queued.mp hb
  simp only [eraseView, State.view, Table.get_erase] at he
  split at he
  · cases he
  · rename_i hne
    exact ⟨hne, mem_queued.mpr ⟨e, he, hb⟩⟩

theorem queued_clearFrames (v v' : ViewId) {b : Barrier} (hb : b ∈ (s.clearFrames v).2.queued v') : b ∈ s.queued v' := by
  unfold clearFrames at hb
  split at hb
  · exact hb
  · rename_i e hv
    rcases queued_modify .clear hv rfl v' hb with hb | ⟨-, p, hp, -⟩
    · exact hb
    · cases hp

theorem queued_takeReport (v v' : ViewId) (r : Report) {b : Barrier} (hb : b ∈ (s.takeReport v r).2.queued v') :
    b ∈ s.queued v' := by
  unfold takeReport at hb
  split at hb
  · exact hb
  · rename_i e hv
    rcases queued_modify (.presented r) hv rfl v' hb with hb | ⟨-, p, hp, -⟩
    · exact hb
    · cases hp

theorem queued_pushFrame (v v' : ViewId) (seq : Nat) (shown : List (Nat × Nat)) (taken : Taken) {b : Barrier}
    (hb : b ∈ (s.pushFrame w v seq shown taken).2.queued v') : b ∈ s.queued v' ∨ (v' = v ∧ b ∈ taken.barriers) := by
  unfold pushFrame at hb
  split at hb
  · exact Or.inl hb
  · rename_i e hv
    rcases queued_modify (.push ⟨w.now s.asked, seq, shown, taken⟩) hv rfl v' hb with hb | ⟨hvv, p, hp, hb⟩
    · exact Or.inl hb
    · cases hp
      exact Or.inr ⟨hvv, hb⟩

theorem queued_map {f : ViewEntry → ViewEntry} (hf : ∀ e, ∀ b ∈ (f e).frames.queuedBarriers, b ∈ e.frames.queuedBarriers)
    (v : ViewId) {b : Barrier} (hb : b ∈ ({ s with views := s.views.map fun _ e => f e } : State).queued v) :
    b ∈ s.queued v := by
  obtain ⟨e', he', hb⟩ := mem_queued.mp hb
  simp only [State.view, Std.TreeMap.getElem?_map, Option.map_eq_some_iff] at he'
  obtain ⟨e, he, rfl⟩ := he'
  exact mem_queued.mpr ⟨e, he, hf e b hb⟩

/-- A tick queues no barrier. -/
theorem queued_sweepFrames (now : Nat) (e : ViewEntry) :
    ∀ b ∈ (sweepFrames now e).entry.frames.queuedBarriers, b ∈ e.frames.queuedBarriers := by
  intro b hb
  have hcall (op : FramesOp) {fs : Frames} (hno : ∀ p, op ≠ .push p) (hb : b ∈ (op.call fs).frames.queuedBarriers) :
      b ∈ fs.queuedBarriers := (queued_call op hb).resolve_right fun ⟨p, hp, _⟩ => hno p hp
  unfold sweepFrames at hb
  split at hb
  · split at hb
    · exact hcall .releaseAll (by simp) hb
    · exact hb
  · exact hcall (.flushOlder (now - staleNs)) (by simp) (hcall (.releaseOlder (now - staleNs)) (by simp) hb)

theorem queued_sweep (s : State) (now : Nat) (v : ViewId) {b : Barrier} (hb : b ∈ (s.sweep w now).queued v) :
    b ∈ s.queued v := by
  obtain ⟨e', he', hb⟩ := mem_queued.mp hb
  rw [view_sweep] at he'
  obtain ⟨e, he, rfl⟩ := Option.map_eq_some_iff.mp he'
  exact mem_queued.mpr ⟨e, he, queued_sweepFrames now e b hb⟩

end State

/-- A view queues the barriers of what it shows. -/
theorem Pace.queued {paid taken : Set Debt} (h : Pace w s paid taken s') (ho : Owned w s) (hk : Kin w s) {v : ViewId}
    {b : Barrier} (hb : b ∈ s'.queued v) : ∃ root, s.viewRoot v = some root ∧ b.client = w.client root := by
  cases h with
  | framesReleased =>
      refine ho.frames v b (queued_map (f := fun e => { e with frames := e.frames.releaseAll.frames }) ?_ v hb)
      exact fun e b hb => (queued_call .releaseAll hb).resolve_right fun ⟨p, hp, _⟩ => by cases hp
  | quiet _ hq => exact ho.frames v b (queued_core (hq.views v) ▸ hb)
  | called v' ustNs => exact ho.frames v b (by rwa [sendViewCallbacks_rest] at hb)
  | unshown root tk s₁ dueNs _ ht ha =>
      exact ho.frames v b (queued_congr (congrArg State.view (unshown_rest ht ha) :) v ▸ hb)
  | refused v' root tk s₁ s₂ dueNs _ hr ht hq ha =>
      have hview : s'.view = s₂.view := (congrArg State.view (refused_rest ht hq ha) :)
      rw [queued_congr hview, queued_core (core_asked ht hq v)] at hb
      exact ho.frames v b hb
  | listed v' dueNs =>
      unfold listUnsubmitted at hb
      split at hb <;> exact ho.frames v b hb
  | pushed v' root tk s₁ s₂ seq shown released _ hr ht hq hp =>
      have htaken := fun b => ho.taken hk hr (b := b)
      rw [ht] at htaken
      have hpush := queued_pushFrame (w := w) (s := s₂) v' v seq shown tk (b := b)
      rw [hp] at hpush
      rcases hpush hb with hb | ⟨rfl, hb⟩
      · rw [queued_core (core_asked ht hq v)] at hb
        exact ho.frames v b hb
      · exact ⟨root, hr, htaken b hb⟩
  | _ => exact ho.frames v b hb

/-- What a view shows is the same toplevel as before. -/
theorem State.viewRoot_congr {v : ViewId} (hshows : s'.shows v = s.shows v)
    (htop : ∀ t, s.shows v = some t → (s'.toplevel t).map ToplevelEntry.surface = (s.toplevel t).map ToplevelEntry.surface) :
    s'.viewRoot v = s.viewRoot v := by
  change ((s'.shows v).bind s'.toplevel).map _ = ((s.shows v).bind s.toplevel).map _
  rw [hshows]
  cases hv : s.shows v with
  | none => rfl
  | some t => exact htop t hv

namespace State

theorem surface_modifyToplevel {t : ToplevelId} {f : ToplevelEntry → ToplevelEntry} (hf : ∀ te, (f te).surface = te.surface)
    (u : ToplevelId) : ((s.modifyToplevel t f).toplevel u).map ToplevelEntry.surface = (s.toplevel u).map ToplevelEntry.surface := by
  rw [toplevel_modifyToplevel]
  split
  · rename_i ht
    rw [ht, Option.map_map]
    simp only [Function.comp_def, hf]
  · rfl

theorem surface_unlink (v₀ : ViewId) (t : ToplevelId) :
    ((s.unlink v₀).toplevel t).map ToplevelEntry.surface = (s.toplevel t).map ToplevelEntry.surface := by
  rw [toplevel_unlink]
  split
  · rw [Option.map_map]
    rfl
  · rfl

end State

/-- A view that queues barriers shows a toplevel. -/
theorem Owned.shows (ho : Owned w s) {v : ViewId} {b : Barrier} (hb : b ∈ s.queued v) : ∃ t, s.shows v = some t := by
  obtain ⟨root, hroot, -⟩ := ho.frames v b hb
  cases hs : s.shows v with
  | none =>
      change ((s.shows v).bind _).map _ = _ at hroot
      rw [hs] at hroot
      cases hroot
  | some t => exact ⟨t, rfl⟩

/-- A view queues nothing when it lets its toplevel go: what it would leave queued is told. -/
theorem Owned.unqueued (ho : Owned w s) {v : ViewId} {es : List Effect} (hclean : Clean ((s.unlink v).log es).trace)
    {b : Barrier} : b ∉ s.queued v := by
  intro hb
  obtain ⟨t, ht⟩ := ho.shows hb
  obtain ⟨e, hv, hb⟩ := mem_queued.mp hb
  have htop : e.toplevel = some t := by rw [State.shows, hv] at ht; exact ht
  have hleft : .unbinding v e.frames.queuedBarriers ∈ (s.unlink v).trace := by
    unfold unlink
    rw [hv]
    simp only [htop, log, modifyToplevel, List.mem_append, List.mem_cons, true_or, or_true]
  rw [hclean.2 v _ (List.mem_append_left _ hleft)] at hb
  cases hb

theorem Deed.queued {paid taken : Set Debt} (h : Deed w guard s paid taken s') (hp : Paired s) (ho : Owned w s)
    (hk : Kin w s) (hclean : Clean s'.trace) {v : ViewId} {b : Barrier} (hb : b ∈ s'.queued v) :
    ∃ root, s'.viewRoot v = some root ∧ b.client = w.client root := by
  -- A view that shows what it showed, and queues what it queued.
  have hkept (hroot : s'.viewRoot v = s.viewRoot v) (hb : b ∈ s.queued v) :
      ∃ root, s'.viewRoot v = some root ∧ b.client = w.client root := hroot ▸ ho.frames v b hb
  have hlinks (hl : SameLinks s s') (hb : b ∈ s.queued v) := hkept (by rw [hl.viewRoot]) hb
  cases h with
  | move hm =>
      cases hm with
      | pace hm =>
          rw [hm.links.viewRoot]
          exact hm.queued ho hk hb
      | mapped x id te hid hte hmapped =>
          have hsurfaces := surface_modifyToplevel (s := s) (t := id) (f := fun te => { te with mapped := true }) fun _ => rfl
          exact hkept (viewRoot_congr rfl fun t _ => hsurfaces t) hb
      | linked v₀ e t hv he hpick =>
          have hb : b ∈ s.queued v := by rwa [queued_link] at hb
          obtain ⟨t', ht'⟩ := ho.shows hb
          have hne : v ≠ v₀ := by
            rintro rfl
            rw [shows, hv, Option.bind_some, he] at ht'
            cases ht'
          have hshows : (s.link v₀ t).shows v = s.shows v := by rw [shows_link (by rw [hv]; rfl), if_neg hne]
          have hsurfaces := surface_modifyToplevel (s := s) (t := t) (f := fun te => { te with view := some v₀ }) fun _ => rfl
          exact hkept (viewRoot_congr hshows fun t _ => hsurfaces t) hb
  | called v₀ ustNs => exact hlinks (sendViewCallbacks_links w s v₀ ustNs) (by rwa [sendViewCallbacks_rest] at hb)
  | framesCleared v₀ => exact hlinks (clearFrames_links s v₀) (queued_clearFrames v₀ v hb)
  | unlinked v₀ es hes =>
      have hbefore : b ∈ s.queued v := by
        rw [← queued_unlink v₀ v]
        exact hb
      have hne : v ≠ v₀ := by
        rintro rfl
        exact ho.unqueued hclean hbefore
      have hshows : ((s.unlink v₀).log es).shows v = s.shows v := (shows_unlink s v₀ v).trans (if_neg hne)
      exact hkept (viewRoot_congr hshows fun t _ => surface_unlink v₀ t) hbefore
  | inserted s₀ view hv hg =>
      obtain ⟨hne, hb⟩ := queued_insertView hb
      exact hkept (viewRoot_congr (by rw [shows_insertView, if_neg hne]) fun _ _ => rfl) hb
  | erased s₀ v₀ hv hg =>
      obtain ⟨hne, hb⟩ := queued_eraseView hb
      exact hkept (viewRoot_congr (by rw [shows_eraseView, if_neg hne]) fun _ _ => rfl) hb
  | reported v₀ r => exact hlinks (takeReport_links s v₀ r) (queued_takeReport v₀ v r hb)
  | suspendedSet _ v₀ suspended =>
      exact hlinks (setSuspended_links s v₀ suspended) (by rwa [queued_setSuspended] at hb)
  | targeted x =>
      refine hlinks (addTimed_links s x) ?_
      unfold addTimed at hb
      split at hb <;> exact hb
  | made x hx hr =>
      refine hkept (viewRoot_congr rfl fun t ht => ?_) hb
      rw [toplevel_newToplevel]
      split
      · rename_i hnew
        -- A view shows no toplevel that was never made.
        obtain ⟨te, hte, -⟩ := Option.bind_eq_some_iff.mp ((hp v t).mp ht)
        exact absurd (hnew ▸ Toplevels.le_nextId hte) (Nat.not_succ_le_self _)
      · rfl
  | removed s₀ x id hid hs hg =>
      refine hkept (viewRoot_congr rfl fun t ht => ?_) hb
      simp only [removeToplevel, State.toplevel, Toplevels.get_remove]
      split
      · rename_i hgone
        rw [← hgone, (hp v t).mp ht] at hs
        cases hs
      · rfl
  | tokenUsed id token hmem hi =>
      have hsurfaces := surface_modifyToplevel (s := s) (t := id) (f := fun te => { te with token := some token.value }) fun _ => rfl
      exact hkept (viewRoot_congr rfl fun t _ => hsurfaces t) hb
  | ticked hg =>
      have hdisarm : SameLinks s s.disarm := .of_data rfl
      exact hlinks (hdisarm.trans (sweep_links _ _)) (queued_sweep s.disarm _ v hb)
  | _ => exact hkept rfl hb

/-- Every deed leaves each barrier with its client, as long as nothing overflows or is left queued. -/
theorem Owned.deed {paid taken : Set Debt} (ho : Owned w s) (hd : Deed w guard s paid taken s') (hp : Paired s)
    (hk : Kin w s) (hclean : Clean s'.trace) : Owned w s' := by
  refine ⟨fun x b hb => ?_, hd.loose ho hk, fun v b hb => hd.queued hp ho hk hclean hb⟩
  rcases hd.barrier hb with hb | hb
  · exact ho.contents x b hb
  · exact hb

end IhsWl
