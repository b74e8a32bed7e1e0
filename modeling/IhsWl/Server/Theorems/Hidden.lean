import IhsWl.Server.Lemmas.Callbacks
import IhsWl.Server.Theorems.Alarms
import IhsWl.Server.Theorems.Grace

/-!
# Views off screen are paced

A view off screen has its frames released by a tick now and then: not before the vblank after it left, and not before
`hiddenReleaseNs` after the last time. In between a frame of it only goes when others push it out.
-/

namespace IhsWl

open State

/-- Whether the event leaves alone that there is the view, and whether it is on screen. -/
def keepsHidden (v : ViewId) : Event → Bool
  | .cmd (.viewSuspended u _) => u != v
  | .cmd (.viewCreated view) => view.id != v
  | .cmd (.viewDisposed u) => u != v
  | _ => true

/-- The view leaves the screen after `pre`, and then `mid` happens. -/
def hiddenThen (pre : List Event) (v : ViewId) (mid : List Event) : List Event :=
  pre ++ .cmd (.viewSuspended v true) :: mid

/-- A tick of the run while the view `v` stays off screen, after it left. -/
structure HiddenTick (w : World) (depth : Nat) (es pre : List Event) (v : ViewId) (mid : List Event) : Prop where
  split : ∃ post, es = hiddenThen pre v mid ++ .tick :: post
  present : ((run w depth pre).view v).isSome = true
  kept : ∀ e ∈ mid, keepsHidden v e = true
  armed : (run w depth (hiddenThen pre v mid)).tick.isSome = true

/-- The barriers a tick's pass over the frames of `v` clears. -/
def State.cleared (w : World) (s : State) (v : ViewId) : List Barrier :=
  (((s.sweptView (w.now s.asked) v).map Swept.effects).getD []).filterMap Effect.signals

/-- The frames `v` queues after that pass. -/
def State.left (w : World) (s : State) (v : ViewId) : Frames :=
  (((s.view v).map ViewEntry.frames).getD []).map fun f => if s.cleared w v = [] then f else { f with barriers := [] }

/-- The queue is as it was, or frames were pushed behind the others: of them all, the oldest went. -/
def Frames.Joined (fs gs : Frames) : Prop := gs = fs ∨ ∃ pushed, pushed ≠ [] ∧ gs = (fs ++ pushed).drop (fs ++ pushed).excess

/-- What a tick does to the frames, and to the frame callbacks, of the view `v`, off screen. -/
structure PacedTick (w : World) (depth : Nat) (s : State) (v : ViewId) : Prop where
  whole : s.cleared w v ≠ [] → s.cleared w v = s.queued v
  kept : ∃ e', (step w depth s .tick).view v = some e' ∧ (s.left w v).Joined e'.frames ∧
    (e'.frames ≠ s.left w v → ∃ i, s.asked ≤ i ∧ i < (step w depth s .tick).asked ∧ w.applied i ≠ [])
  does : ∃ new, (step w depth s .tick).trace = s.trace ++ new ∧ (∀ b ∈ s.cleared w v, .signal b ∈ new) ∧
    ∀ cb time, .done cb time ∈ new → ∃ x, s.seen x ∧ cb ∈ (s.contents x).frameCallbacks
  waits : ∀ x, ¬s.seen x → (s.contents x).frameCallbacks <+: ((step w depth s .tick).contents x).frameCallbacks

variable {w : World} {depth : Nat} {es pre mid : List Event} {v : ViewId} {s s' t : State} {D E : Set Debt}
  {guard : State → Event → Prop} {allowed : FramesOp → Prop}

/-! ## Still off screen -/

/-- The view is still off screen, and its next release no sooner. -/
def Hides (v : ViewId) (s s' : State) : Prop :=
  ∀ e, s.view v = some e → e.suspended = true →
    ∃ e', s'.view v = some e' ∧ e'.suspended = true ∧ e.hiddenReleaseNs ≤ e'.hiddenReleaseNs

theorem Hides.refl (v : ViewId) (s : State) : Hides v s s := fun e hv hs => ⟨e, hv, hs, le_rfl⟩

theorem Hides.trans (h : Hides v s s') (h' : Hides v s' t) : Hides v s t := by
  intro e hv hs
  obtain ⟨e', hv', hs', hle⟩ := h e hv hs
  obtain ⟨e'', hv'', hs'', hle'⟩ := h' e' hv' hs'
  exact ⟨e'', hv'', hs'', hle.trans hle'⟩

/-- A tick puts the next release off, if anything. -/
theorem hiddenReleaseNs_sweepFrames (now : Nat) (e : ViewEntry) :
    e.hiddenReleaseNs ≤ (sweepFrames now e).entry.hiddenReleaseNs := by
  unfold sweepFrames
  split
  · split
    · rename_i hdue
      exact hdue.1.trans (Nat.le_add_right ..)
    · exact le_rfl
  · exact le_rfl

theorem Requeued.hides (h : Requeued w (fun _ e => keepsHidden v e = true) allowed s v (s.view v) (s'.view v)) :
    Hides v s s' := by
  intro e hv hs
  rw [hv] at h
  generalize ho : s'.view v = o' at h
  cases h with
  | same _ _ hq =>
      obtain ⟨e', rfl, heq⟩ := Option.map_eq_some_iff.mp hq
      simp only [ViewEntry.queue, Prod.mk.injEq] at heq
      exact ⟨e', rfl, heq.2.1.trans hs, heq.2.2.ge⟩
  | called _ e' op _ _ hq =>
      simp only [ViewEntry.queue, Prod.mk.injEq] at hq
      exact ⟨e', rfl, hq.2.1.trans hs, hq.2.2.ge⟩
  | suspendedSet s₀ _ _ suspended hg => simp [keepsHidden] at hg
  | inserted s₀ _ e' view hg hid => simp [keepsHidden, hid] at hg
  | erased s₀ _ hg => simp [keepsHidden] at hg
  | ticked _ _ _ hq =>
      exact ⟨_, hq, by rw [suspended_sweepFrames, hs], hiddenReleaseNs_sweepFrames _ e⟩

theorem Settles.hides (h : Settles w s D t E) : Hides v s t :=
  h.related (Hides.refl v) (fun h h' => h.trans h') fun hm => (hm.queue v).hides

/-- An event that leaves the view alone has it off screen still. -/
theorem step_hides (hp : Paired s) {e : Event} (he : keepsHidden v e = true) : Hides v s (step w depth s e) := by
  have hdeeds : Deeds w (fun _ e => keepsHidden v e = true) s ∅ (step w depth s e) (unpaid s e) := step_deeds hp he
  exact hdeeds.related (Hides.refl v) (fun h h' => h.trans h') fun hd => (hd.queue v).hides

theorem steps_hides {es : List Event} (hp : Paired s) (hes : ∀ e ∈ es, keepsHidden v e = true) :
    Hides v s (es.foldl (step w depth) s) := by
  induction es generalizing s with
  | nil => exact .refl v s
  | cons e es ih =>
      have hstep : Hides v s (step w depth s e) := step_hides hp (hes e (by simp))
      exact hstep.trans (ih (step_paired hp e) fun a ha => hes a (List.mem_cons_of_mem e ha))

/-- A view that leaves the screen is not released before the next vblank. -/
theorem step_hidden (hv : (s.view v).isSome = true) :
    ∃ e, (step w depth s (.cmd (.viewSuspended v true))).view v = some e ∧ e.suspended = true ∧
      s.clock.nextVblank (w.now s.asked) ≤ e.hiddenReleaseNs := by
  obtain ⟨e, hv⟩ := Option.isSome_iff_exists.mp hv
  have hset : ((s.setSuspended w v true).dismissPopups v).view v =
      some { e with suspended := true, hiddenReleaseNs := s.clock.nextVblank (w.now s.asked) } := by
    change (s.setSuspended w v true).view v = _
    rw [setSuspended, view_ask, view_modifyView, if_pos rfl, hv]
    rfl
  change ∃ e, (s.viewSuspended w (unblock w depth) v true).view v = some e ∧ _
  rw [viewSuspended, hv]
  simp only [if_true, hset]
  split
  · exact ⟨_, hset, rfl, le_rfl⟩
  · have hsettles := scheduleTick_settles (D := ∅) (s := (s.setSuspended w v true).dismissPopups v)
      (unblock_wakes w depth) (s.clock.nextVblank (w.now s.asked))
    obtain ⟨e', hv', hs', hle⟩ := hsettles.hides _ hset rfl
    exact ⟨e', hv', hs', hle⟩

theorem run_hidden (h : HiddenTick w depth es pre v mid) :
    ∃ e, (run w depth (hiddenThen pre v mid)).view v = some e ∧ e.suspended = true ∧
      (run w depth pre).clock.nextVblank (w.now (run w depth pre).asked) ≤ e.hiddenReleaseNs := by
  obtain ⟨e, hv, hs, hle⟩ := step_hidden h.present
  have hsplit : run w depth (hiddenThen pre v mid) =
      mid.foldl (step w depth) (step w depth (run w depth pre) (.cmd (.viewSuspended v true))) := by
    simp [run, hiddenThen]
  rw [hsplit]
  obtain ⟨e', hv', hs', hle'⟩ := steps_hides (step_paired (run_paired w depth pre) _) h.kept e hv hs
  exact ⟨e', hv', hs', hle.trans hle'⟩

/-! ## What a tick's pass clears -/

theorem step_tick (ht : s.tick.isSome = true) : step w depth s .tick = s.onTick w (unblock w depth) := if_pos ht

theorem nextStale_isSome_hidden (fs : Frames) : (fs.nextStale false).isSome = fs.any Frame.hasBarriers := by
  rw [Frames.nextStale, Option.isSome_map, Bool.eq_iff_iff, List.find?_isSome, List.any_eq_true]
  simp

theorem releaseAll_eq {fs : Frames} (h : ∀ f ∈ fs, f.submittedNs < u64Max) :
    fs.releaseAll = ⟨fs.map fun f => f.release.1, fs.any Frame.hasBarriers, fs.flatMap fun f => f.release.2⟩ := by
  simp only [Frames.releaseAll, Frames.releaseOlder, Call.mk.injEq]
  refine ⟨List.map_congr_left fun f hf => if_pos (h f hf), ?_, ?_⟩
  · rw [Bool.eq_iff_iff, List.any_eq_true, List.any_eq_true]
    refine exists_congr fun f => and_congr_right fun hf => ?_
    simp [h f hf]
  · rw [List.flatMap_def, List.flatMap_def, List.map_congr_left fun f hf => if_pos (h f hf)]

/-- A tick releases the frames of a view off screen when that is due and there is something to release, and leaves
the view alone otherwise. -/
theorem sweepFrames_hidden (now : Nat) {e : ViewEntry} (hs : e.suspended = true)
    (hread : ∀ f ∈ e.frames, f.submittedNs < u64Max) :
    sweepFrames now e = if e.hiddenReleaseNs ≤ now ∧ e.frames.any Frame.hasBarriers = true then
      { entry := { e with hiddenReleaseNs := now + hiddenReleaseNs, frames := e.frames.map fun f => f.release.1 }
        effects := e.frames.flatMap fun f => f.release.2
        released := true }
    else { entry := e } := by
  rw [sweepFrames, if_pos hs, nextStale_isSome_hidden]
  split
  · rename_i hdue
    rw [releaseAll_eq hread]
    simp only [hdue.2]
  · rfl

theorem cleared_eq {e : ViewEntry} (hv : s.view v = some e) (hs : e.suspended = true)
    (hread : ∀ f ∈ e.frames, f.submittedNs < u64Max) : s.cleared w v =
      if e.hiddenReleaseNs ≤ w.now s.asked ∧ e.frames.any Frame.hasBarriers = true then s.queued v else [] := by
  have hqueued : s.queued v = e.frames.queuedBarriers := by
    rw [State.queued, hv]
    rfl
  rw [State.cleared, State.sweptView, hv, Option.map_some, Option.map_some, Option.getD_some, sweepFrames_hidden _ hs hread,
    hqueued]
  split
  · exact filterMap_flatMap_of Frame.signals_release e.frames
  · rfl

/-- When the pass clears any barrier of a view off screen. -/
theorem cleared_iff {e : ViewEntry} (hv : s.view v = some e) (hs : e.suspended = true)
    (hread : ∀ f ∈ e.frames, f.submittedNs < u64Max) :
    s.cleared w v ≠ [] ↔ e.hiddenReleaseNs ≤ w.now s.asked ∧ e.frames.any Frame.hasBarriers = true := by
  rw [cleared_eq hv hs hread]
  split
  · rename_i hdue
    refine ⟨fun _ => hdue, fun _ => ?_⟩
    rw [State.queued, hv]
    exact (Frames.any_hasBarriers e.frames).mp hdue.2
  · rename_i hdue
    exact ⟨fun h => absurd rfl h, fun h => absurd h hdue⟩

/-- Its frames stay queued, without what was cleared. -/
theorem frames_sweepFrames {e : ViewEntry} (hv : s.view v = some e) (hs : e.suspended = true)
    (hread : ∀ f ∈ e.frames, f.submittedNs < u64Max) :
    (sweepFrames (w.now s.asked) e).entry.frames = s.left w v := by
  have hcleared := cleared_iff (w := w) hv hs hread
  rw [State.left, hv, Option.map_some, Option.getD_some, sweepFrames_hidden _ hs hread]
  split
  · rename_i hdue
    exact List.map_congr_left fun f _ => (if_neg (hcleared.mpr hdue)).symm
  · rename_i hdue
    have hnil : s.cleared w v = [] := not_not.mp (hcleared.not.mpr hdue)
    simp [hnil]

/-! ## What follows the pass -/

theorem swept_view (s : State) : (s.swept w).view = (s.disarm.sweep w (w.now s.asked)).view := by
  unfold State.swept
  generalize s.disarm.flushed w (w.now s.asked) = vs
  generalize s.disarm.sweep w (w.now s.asked) = r
  induction vs generalizing r with
  | nil => rfl
  | cons u vs ih => exact (ih _).trans (flushCallbacks_view (w.now s.asked) r u)

/-- What a tick does after its pass over the frames leaves what has been set. -/
theorem tick_hides (ht : s.tick.isSome = true) : Hides v (s.disarm.sweep w (w.now s.asked)) (step w depth s .tick) := by
  have hdeeds : Deeds w (fun _ e => keepsHidden v e = true) (s.disarm.sweep w (w.now s.asked)) (tickDebts w s)
      (s.onTick w (unblock w depth)) ∅ := ticked_deeds (unblock_wakes w depth) s
  rw [step_tick ht]
  exact hdeeds.related (Hides.refl v) (fun h h' => h.trans h') fun hd => (hd.queue v).hides

namespace Frames.Joined

theorem refl (fs : Frames) : fs.Joined fs := Or.inl rfl

/-- Pushing in turn keeps what pushing at once keeps. -/
theorem trans {fs gs hs : Frames} (h : fs.Joined gs) (h' : gs.Joined hs) : fs.Joined hs := by
  rcases h with rfl | ⟨pushed, hpushed, rfl⟩
  · exact h'
  · rcases h' with rfl | ⟨more, hmore, rfl⟩
    · exact Or.inr ⟨pushed, hpushed, rfl⟩
    · refine Or.inr ⟨pushed ++ more, by simp [hpushed], ?_⟩
      rw [← List.append_assoc]
      generalize fs ++ pushed = l
      have hle : l.excess ≤ l.length := Nat.sub_le ..
      rw [← List.drop_append_of_le_length hle, List.drop_drop]
      congr 1
      simp only [Frames.excess, List.length_append, List.length_drop]
      omega

theorem push (fs : Frames) (now seq : Nat) (shown : List (Nat × Nat)) (taken : Taken) :
    fs.Joined (fs.push now seq shown taken).frames := Or.inr ⟨[Frame.submitted now seq shown taken], by simp, rfl⟩

end Frames.Joined

/-- The view is there still, and of its frames only the oldest may be gone. -/
def Outlasts (v : ViewId) (s s' : State) : Prop :=
  ∀ e, s.view v = some e → ∃ e', s'.view v = some e' ∧ e.frames.Joined e'.frames

theorem Outlasts.refl (v : ViewId) (s : State) : Outlasts v s s := fun e hv => ⟨e, hv, .refl e.frames⟩

theorem Outlasts.trans (h : Outlasts v s s') (h' : Outlasts v s' t) : Outlasts v s t := by
  intro e hv
  obtain ⟨e', hv', hjoined⟩ := h e hv
  obtain ⟨e'', hv'', hjoined'⟩ := h' e' hv'
  exact ⟨e'', hv'', hjoined.trans hjoined'⟩

theorem Requeued.outlasts (htimer : ∀ i, w.timer i = true)
    (h : Requeued w (fun _ _ => False) (joins w) s v (s.view v) (s'.view v)) : Outlasts v s s' := by
  intro e hv
  rw [hv] at h
  generalize ho : s'.view v = o' at h
  cases h with
  | same _ _ hq =>
      obtain ⟨e', rfl, heq⟩ := Option.map_eq_some_iff.mp hq
      have hframes : e'.frames = e.frames := congrArg Prod.fst heq
      exact ⟨e', rfl, hframes ▸ .refl e'.frames⟩
  | called _ e' op hop _ hq =>
      obtain ⟨p, rfl⟩ | ⟨k, hk⟩ := hop
      · have hframes : e'.frames = (e.frames.push p.now p.seq p.shown p.taken).frames := congrArg Prod.fst hq
        exact ⟨e', rfl, hframes ▸ .push e.frames p.now p.seq p.shown p.taken⟩
      · exact absurd (htimer k) (by simp [hk])
  | suspendedSet _ _ _ _ hg | inserted _ _ _ _ hg | erased _ _ hg | ticked _ _ hg => exact hg.elim

theorem Settles.outlasts (htimer : ∀ i, w.timer i = true) (h : Settles w s D t E) : Outlasts v s t :=
  h.related (Outlasts.refl v) (fun h h' => h.trans h') fun hm => (hm.queue v).outlasts htimer

/-! ## When no commit is applied -/

theorem Settles.asked_le (h : Settles w s D t E) : s.asked ≤ t.asked :=
  have hdeeds : Deeds w (fun _ _ => True) s D t E := h.deeds
  hdeeds.queues.asked

/-- Unblocking a client applies what the world's next answer says. -/
theorem unblock_views {c : ClientId}
    (h : ∀ i, s.asked ≤ i → i < (unblock w depth c s).asked → w.applied i = []) :
    (unblock w depth c s).views = s.views := by
  cases depth with
  | zero => rfl
  | succ depth =>
      have hle : s.asked + 1 ≤ (unblock w (depth + 1) c s).asked :=
        (applyAll_settles (D := ∅) (s := (s.log [.unblock c]).ask) (unblock_wakes w depth) (w.applied s.asked)).asked_le
      have hnone : w.applied s.asked = [] := h s.asked le_rfl hle
      change ((w.applied s.asked).foldl _ (s.log [.unblock c]).ask).views = s.views
      rw [hnone]
      rfl

theorem foldl_unblock_views {cs : List ClientId}
    (h : ∀ i, s.asked ≤ i → i < (cs.foldl (fun s c => unblock w depth c s) s).asked → w.applied i = []) :
    (cs.foldl (fun s c => unblock w depth c s) s).views = s.views := by
  induction cs generalizing s with
  | nil => rfl
  | cons c cs ih =>
      have hfirst : s.asked ≤ (unblock w depth c s).asked := (unblock_wakes w depth c s ∅).asked_le
      have hrest : (unblock w depth c s).asked ≤ (cs.foldl (fun s c => unblock w depth c s) (unblock w depth c s)).asked :=
        Settles.asked_le (Debts.Settles.foldl Debt.wake (fun c (_ : c ∈ cs) => unblock_wakes w depth c) _ ∅)
      rw [List.foldl_cons, ih fun i hi => h i (hfirst.trans hi)]
      exact unblock_views fun i hi hlt => h i hi (hlt.trans_le hrest)

theorem scheduleTick_views {u : Unblock} (htimer : ∀ i, w.timer i = true) (s : State) (atNs : Nat) :
    (s.scheduleTick w u atNs).views = s.views ∧ (s.scheduleTick w u atNs).asked ≥ s.asked := by
  unfold scheduleTick
  split
  · exact ⟨rfl, le_rfl⟩
  · rw [if_pos (htimer _)]
    exact ⟨rfl, Nat.le_succ _⟩

/-- After its pass, a tick changes views only by applying commits. -/
theorem onTick_views (htimer : ∀ i, w.timer i = true) (s : State)
    (h : ∀ i, (s.swept w).asked ≤ i → i < (s.onTick w (unblock w depth)).asked → w.applied i = []) :
    (s.onTick w (unblock w depth)).views = (s.swept w).views := by
  unfold onTick at h ⊢
  dsimp only at h ⊢
  split at h
  · exact foldl_unblock_views h
  · rename_i atNs _
    obtain ⟨hviews, hasked⟩ := scheduleTick_views (u := unblock w depth) htimer
      ((s.swept w).unblockAll (unblock w depth) (s.disarm.freed w (w.now s.asked))) (max atNs (w.now s.asked + 100_000))
    exact hviews.trans (foldl_unblock_views fun i hi hlt => h i hi (hlt.trans_le hasked))

/-! ## Ticks -/

/-- A tick's pass over the frames clears what it does before anything else is done. -/
theorem mem_trace_sweep {b : Barrier} (hb : b ∈ s.cleared w v) :
    .signal b ∈ (s.disarm.viewIds w).flatMap fun u => ((s.disarm.sweptView (w.now s.asked) u).map Swept.effects).getD [] := by
  obtain ⟨a, ha, hsignals⟩ := List.mem_filterMap.mp hb
  obtain rfl : a = .signal b := by
    cases a with
    | signal b' => exact congrArg Effect.signal (Option.some.inj hsignals)
    | _ => cases hsignals
  refine List.mem_flatMap.mpr ⟨v, mem_viewIds.mpr ?_, ha⟩
  change (s.view v).isSome = true
  cases hv : s.view v with
  | none => simp [State.sweptView, hv] at ha
  | some e => rfl

theorem tick_paced (htimer : ∀ i, w.timer i = true) (ht : s.tick.isSome = true) {e : ViewEntry} (hv : s.view v = some e)
    (hs : e.suspended = true) (hread : ∀ f ∈ e.frames, f.submittedNs < u64Max) : PacedTick w depth s v := by
  have hcalls : Calls s.seen (s.disarm.sweep w (w.now s.asked)) (s.swept w) :=
    flushAll_calls _ _ fun x hx => seen_sweep (s := s.disarm) hx
  have hsettles : Settles w (s.swept w) (sweptDebts w s) (s.onTick w (unblock w depth)) ∅ :=
    swept_settles (unblock_wakes w depth) s
  have hwaits : Waits (s.swept w) (s.onTick w (unblock w depth)) := hsettles.waits htimer
  have hswept : (s.swept w).view v = some (sweepFrames (w.now s.asked) e).entry := by
    rw [swept_view, view_sweep]
    exact congrArg (Option.map _) hv
  have hleft := frames_sweepFrames (w := w) hv hs hread
  constructor
  · intro hcleared
    rw [cleared_eq hv hs hread, if_pos ((cleared_iff hv hs hread).mp hcleared)]
  · rw [step_tick ht]
    obtain ⟨e', hv', hjoined⟩ := hsettles.outlasts htimer _ hswept
    refine ⟨e', hv', hleft ▸ hjoined, fun hne => ?_⟩
    by_contra hnone
    push Not at hnone
    have hasked : s.asked ≤ (s.swept w).asked := by
      have hdeeds : Deeds w (fun _ _ => True) (s.disarm.sweep w (w.now s.asked)) _ (s.swept w) ∅ :=
        flushAll_deeds (w.now s.asked) (s.disarm.flushed w (w.now s.asked)) (s.disarm.sweep w (w.now s.asked))
      exact (Nat.le_succ s.asked).trans hdeeds.queues.asked
    have hviews : (s.onTick w (unblock w depth)).views = (s.swept w).views :=
      onTick_views htimer s fun i hi hlt => hnone i (hasked.trans hi) hlt
    have hsame : (s.onTick w (unblock w depth)).view v = (s.swept w).view v := congrArg (·[v]?) hviews
    rw [hv', hswept, Option.some.injEq] at hsame
    exact hne (hsame ▸ hleft)
  · rw [step_tick ht]
    obtain ⟨sent, hsent, hcallbacks⟩ := hcalls.sent
    obtain ⟨rest, hrest, hquiet⟩ := hwaits.quiet
    rw [trace_sweep] at hsent
    change (s.swept w).trace = (s.trace ++ _) ++ sent at hsent
    refine ⟨_, by rw [hrest, hsent, List.append_assoc, List.append_assoc], fun b hb => ?_, fun cb time hdone => ?_⟩
    · exact List.mem_append_left _ (List.mem_append_right _ (mem_trace_sweep hb))
    · rcases List.mem_append.mp hdone with hdone | hdone
      · rcases List.mem_append.mp hdone with hdone | hdone
        · obtain ⟨l, -, hl⟩ := List.mem_map.mp hdone
          cases hl
        · obtain ⟨u, -, hdone⟩ := List.mem_flatMap.mp hdone
          cases effects_sweptView _ hdone
      · rcases List.mem_append.mp hdone with hdone | hdone
        · obtain ⟨x, cb', time', hx, hcb, hsame⟩ := hcallbacks _ hdone
          cases hsame
          exact ⟨x, hx, (callbacks_sweep s.disarm (w.now s.asked) x ▸ hcb :)⟩
        · exact absurd rfl (hquiet _ hdone cb time)
  · intro x hx
    rw [step_tick ht]
    have hkept := (hcalls.kept x).resolve_right fun h => hx h.1
    rw [callbacks_sweep] at hkept
    have hgrown := hwaits.grown x
    rw [hkept] at hgrown
    exact hgrown

/-! ## Runs -/

/-- How a view off screen is paced by the ticks of a run: the ticks that clear barriers of its frames, and what every
tick does. -/
structure Paced (w : World) (depth : Nat) (es pre : List Event) (v : ViewId) : Prop where
  first : ∀ mid, HiddenTick w depth es pre v mid → (run w depth (hiddenThen pre v mid)).cleared w v ≠ [] →
    (run w depth pre).clock.nextVblank (w.now (run w depth pre).asked) ≤ w.now (run w depth (hiddenThen pre v mid)).asked
  apart : ∀ mid mid', HiddenTick w depth es pre v mid → HiddenTick w depth es pre v (mid ++ .tick :: mid') →
    (run w depth (hiddenThen pre v mid)).cleared w v ≠ [] →
    (run w depth (hiddenThen pre v (mid ++ .tick :: mid'))).cleared w v ≠ [] →
    w.now (run w depth (hiddenThen pre v mid)).asked + hiddenReleaseNs ≤
      w.now (run w depth (hiddenThen pre v (mid ++ .tick :: mid'))).asked
  ticks : ∀ mid, HiddenTick w depth es pre v mid → PacedTick w depth (run w depth (hiddenThen pre v mid)) v

/-- The ticks that clear barriers of a view's frames while it is off screen are `hiddenReleaseNs` apart, the first not
before the vblank after it left, and clear all they hold; no tick sends its frame callbacks, and a frame goes only when
commits applied in the tick push it out. -/
theorem run_paced (w : World) (depth : Nat) (es pre : List Event) (v : ViewId) (htimer : ∀ i, w.timer i = true)
    (hclock : ∀ i, w.now i < u64Max) : Paced w depth es pre v := by
  have hread {mid : List Event} {e : ViewEntry} (hv : (run w depth (hiddenThen pre v mid)).view v = some e) :
      ∀ f ∈ e.frames, f.submittedNs < u64Max := by
    have hwaking : Waking w False 0 (run w depth (hiddenThen pre v mid)) :=
      steps_waking htimer (waking_empty w False) fun h => h.elim
    exact fun f hf => ((hwaking.attends v e hv).read f hf).trans_lt (hclock _)
  constructor
  · intro mid h hcleared
    obtain ⟨e, hv, hs, hle⟩ := run_hidden h
    exact hle.trans ((cleared_iff hv hs (hread hv)).mp hcleared).1
  · intro mid mid' h h' hcleared hcleared'
    obtain ⟨e, hv, hs, -⟩ := run_hidden h
    have hset : ((run w depth (hiddenThen pre v mid)).disarm.sweep w (w.now (run w depth (hiddenThen pre v mid)).asked)).view v =
        some (sweepFrames (w.now (run w depth (hiddenThen pre v mid)).asked) e).entry := by
      rw [view_sweep]
      exact congrArg (Option.map _) hv
    rw [sweepFrames_hidden _ hs (hread hv), if_pos ((cleared_iff hv hs (hread hv)).mp hcleared)] at hset
    obtain ⟨e₁, hv₁, hs₁, hle₁⟩ := tick_hides (v := v) h.armed _ hset hs
    have hkept : ∀ e ∈ mid', keepsHidden v e = true := fun e he =>
      h'.kept e (List.mem_append_right _ (List.mem_cons_of_mem _ he))
    obtain ⟨e₂, hv₂, hs₂, hle₂⟩ := steps_hides (step_paired (run_paired w depth _) _) hkept e₁ hv₁ hs₁
    have hsplit : run w depth (hiddenThen pre v (mid ++ .tick :: mid')) =
        mid'.foldl (step w depth) (step w depth (run w depth (hiddenThen pre v mid)) .tick) := by
      simp [run, hiddenThen]
    rw [← hsplit] at hv₂
    exact (hle₁.trans hle₂).trans ((cleared_iff hv₂ hs₂ (hread hv₂)).mp hcleared').1
  · intro mid h
    obtain ⟨e, hv, hs, -⟩ := run_hidden h
    exact tick_paced htimer h.armed hv hs (hread hv)

/-- Whether a tick now clears a barrier of a frame `v` queues, for whatever reason. -/
def State.clearsQueued (w : World) (depth : Nat) (s : State) (v : ViewId) : Bool :=
  (s.view v).any fun e => e.frames.any fun f => f.barriers.any fun b =>
    ((step w depth s .tick).trace.drop s.trace.length).contains (.signal b)

/-- A world in which unblocking a client applies 17 commits that waited, and the clock stops in the end. -/
def World.bursting : World := { World.granting with
  now := fun i => min (1000 * i) 1_000_000
  applied := fun _ => List.replicate 17 { main := { surface := 1 } }
  monotone := by
    intro i j h
    omega }

/-- A view shows a frame with a barrier. -/
def barrierRun : List Event := [.newToplevel 1, .cmd (.viewCreated { uid := 0, id := 1 }),
  .commit { main := { surface := 1, barrier := some 0 } }]

theorem run_paced_bursting : (∀ i, World.bursting.timer i = true) ∧ (∀ i, World.bursting.now i < u64Max) ∧
    Paced World.bursting 1 (hiddenThen barrierRun 1 [.target 1 0] ++ [.tick]) barrierRun 1 := by
  have hclock (i : Nat) : World.bursting.now i < u64Max := (Nat.min_le_right ..).trans_lt (by decide)
  exact ⟨fun _ => rfl, hclock, run_paced _ _ _ _ _ (fun _ => rfl) hclock⟩

/-- A tick that only works out a commit's target, at once after the view left. -/
theorem hiddenTick_bursting :
    HiddenTick World.bursting 1 (hiddenThen barrierRun 1 [.target 1 0] ++ [.tick]) barrierRun 1 [.target 1 0] where
  split := ⟨[], rfl⟩
  present := by decide +kernel
  kept := by decide
  armed := by decide +kernel

/-- The commits such a tick lets through push the frame out, and its barrier is cleared before the vblank. -/
theorem not_hidden : ¬∀ (w : World) (depth : Nat) (es pre : List Event) (v : ViewId) (mid : List Event),
    (∀ i, w.timer i = true) → (∀ i, w.now i < u64Max) → HiddenTick w depth es pre v mid →
    (run w depth (hiddenThen pre v mid)).clearsQueued w depth v = true →
    (run w depth pre).clock.nextVblank (w.now (run w depth pre).asked) ≤
      w.now (run w depth (hiddenThen pre v mid)).asked := by
  intro h
  have hclock (i : Nat) : World.bursting.now i < u64Max := (Nat.min_le_right ..).trans_lt (by decide)
  have hlate := h _ _ _ _ _ _ (fun _ => rfl) hclock hiddenTick_bursting (by decide +kernel)
  revert hlate
  decide +kernel

end IhsWl
