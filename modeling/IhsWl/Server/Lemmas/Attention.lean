import IhsWl.Server.Lemmas.Alarms

/-!
# Frames the clock runs for

Whatever a deed does to the views' queues, a frame with something still to release has the clock run for
it, or watching its view is owed.
-/

namespace IhsWl

open State

variable {w : World} {guard : State → Event → Prop} {s s' : State} {D D' : Set Debt} {v : ViewId}

/-! ## Queues -/

namespace Frames

theorem nextStale_eq_none {fs : Frames} {onScreen : Bool} (h : fs.nextStale onScreen = none) :
    ∀ f ∈ fs, f.pending onScreen = false := by
  intro f hf
  have hfind := Option.map_eq_none_iff.mp h
  simpa [Frame.pending] using List.find?_eq_none.mp hfind f hf

/-- The oldest frame with something to release goes stale first. -/
theorem nextStale_le {fs : Frames} {onScreen : Bool} {atNs : Nat} (h : fs.nextStale onScreen = some atNs)
    (hordered : fs.Pairwise fun f g => f.submittedNs ≤ g.submittedNs) {f : Frame} (hf : f ∈ fs)
    (hp : f.pending onScreen = true) : atNs ≤ f.submittedNs + staleNs := by
  obtain ⟨first, hfind, rfl⟩ := Option.map_eq_some_iff.mp h
  obtain ⟨-, before, after, hfs, hbefore⟩ := List.find?_eq_some_iff_append.mp hfind
  have hle : first.submittedNs ≤ f.submittedNs := by
    rw [hfs] at hf hordered
    rcases List.mem_append.mp hf with hf | hf
    · have hnot := hbefore f hf
      rw [show (f.hasBarriers || (onScreen && !f.flushed)) = true from hp] at hnot
      cases hnot
    · rcases List.mem_cons.mp hf with rfl | hf
      · exact le_rfl
      · exact List.rel_of_pairwise_cons (List.pairwise_append.mp hordered).2.1 hf
  exact (Nat.min_le_left _ _).trans (Nat.add_le_add_right hle _)

theorem nextStale_isSome {fs : Frames} {onScreen : Bool} {f : Frame} (hf : f ∈ fs)
    (hp : f.pending onScreen = true) : ∃ atNs, fs.nextStale onScreen = some atNs := by
  cases h : fs.nextStale onScreen with
  | some atNs => exact ⟨atNs, rfl⟩
  | none => exact absurd (nextStale_eq_none h f hf) (by simp [hp])

end Frames

/-! ## Sweeping -/

theorem submitted_releaseOlder (fs : Frames) (before : Nat) :
    (fs.releaseOlder before).frames.map Frame.submittedNs = fs.map Frame.submittedNs := by
  simp only [Frames.releaseOlder, List.map_map]
  refine List.map_congr_left fun f _ => ?_
  simp only [Function.comp_apply]
  split <;> rfl

theorem submitted_flushOlder (fs : Frames) (before : Nat) :
    (fs.flushOlder before).frames.map Frame.submittedNs = fs.map Frame.submittedNs := by
  simp only [Frames.flushOlder, List.map_map]
  refine List.map_congr_left fun f _ => ?_
  simp only [Function.comp_apply]
  split <;> rfl

/-- A tick changes no frame's time. -/
theorem submitted_sweepFrames (now : Nat) (e : ViewEntry) :
    (sweepFrames now e).entry.frames.map Frame.submittedNs = e.frames.map Frame.submittedNs := by
  unfold sweepFrames
  split
  · split
    · exact submitted_releaseOlder e.frames u64Max
    · rfl
  · exact (submitted_releaseOlder _ _).trans (submitted_flushOlder _ _)

theorem flushed_flushOlder {fs : Frames} {before : Nat} {f : Frame} (hf : f ∈ (fs.flushOlder before).frames)
    (hlt : f.submittedNs < before) : f.flushed = true := by
  obtain ⟨g, -, rfl⟩ := List.mem_map.mp hf
  split at hlt <;> rename_i h
  · rw [if_pos h]
  · rw [if_neg h]
    simpa [hlt] using h

theorem mem_releaseOlder {fs : Frames} {before : Nat} {f : Frame} (hf : f ∈ (fs.releaseOlder before).frames) :
    ∃ g ∈ fs, g.submittedNs = f.submittedNs ∧ g.flushed = f.flushed ∧
      (f.submittedNs < before → f.hasBarriers = false) := by
  obtain ⟨g, hg, rfl⟩ := List.mem_map.mp hf
  refine ⟨g, hg, ?_⟩
  split
  · exact ⟨rfl, rfl, fun _ => rfl⟩
  · rename_i h
    exact ⟨rfl, rfl, fun hlt => absurd hlt h⟩

/-- What a tick leaves a frame on screen to release is not stale. -/
theorem pending_sweepFrames {now : Nat} {e : ViewEntry} (hs : e.suspended = false) {f : Frame}
    (hf : f ∈ (sweepFrames now e).entry.frames) (hp : f.pending true = true) : now ≤ f.submittedNs + staleNs := by
  unfold sweepFrames at hf
  rw [if_neg (by simp [hs])] at hf
  obtain ⟨g, hg, hsub, hflushed, hreleased⟩ := mem_releaseOlder hf
  by_contra hlt
  have hstale : f.submittedNs < now - staleNs := by omega
  have hgone : g.flushed = true := flushed_flushOlder hg (hsub ▸ hstale)
  rw [Frame.pending, hreleased hstale, ← hflushed, hgone] at hp
  cases hp

/-- On a tick every frame still to be released is woken for. -/
theorem wakeTimes_frames {now : Nat} {e : ViewEntry} {atNs : Nat} (hv : s.view v = some e)
    (h : frameWake (s.clock.nextVblank now) (sweepFrames now e).entry = some atNs) : atNs ∈ s.wakeTimes w now := by
  refine List.mem_append_right _ (List.mem_filterMap.mpr ⟨v, mem_viewIds.mpr (by rw [hv]; rfl), ?_⟩)
  rw [sweptView, hv]
  exact h

theorem ticked_attends (hi : Attends w D s) : Attends w (D ∪ tickDebts w s) (s.disarm.sweep w (w.now s.asked)) := by
  intro v e' hv'
  have hview := view_sweep (w := w) s.disarm (w.now s.asked) v
  rw [hview] at hv'
  obtain ⟨e, hv, rfl⟩ := Option.map_eq_some_iff.mp hv'
  have hattended := hi v e hv
  have hsame := submitted_sweepFrames (w.now s.asked) e
  have hordered : (sweepFrames (w.now s.asked) e).entry.frames.Pairwise fun f g => f.submittedNs ≤ g.submittedNs := by
    have h := List.pairwise_map.mpr hattended.ordered
    rw [← hsame] at h
    exact List.pairwise_map.mp h
  have hwoken {onScreen : Bool} (hs : (!(sweepFrames (w.now s.asked) e).entry.suspended) = onScreen) {f : Frame}
      (hf : f ∈ (sweepFrames (w.now s.asked) e).entry.frames) (hp : f.pending onScreen = true) :
      ∃ atNs, (sweepFrames (w.now s.asked) e).entry.frames.nextStale onScreen = some atNs ∧
        (if onScreen then atNs
          else max (sweepFrames (w.now s.asked) e).entry.hiddenReleaseNs (s.clock.nextVblank (w.now s.asked))) ∈
          s.disarm.wakeTimes w (w.now s.asked) := by
    obtain ⟨atNs, hat⟩ := Frames.nextStale_isSome hf hp
    refine ⟨atNs, hat, wakeTimes_frames (s := s.disarm) hv ?_⟩
    subst hs
    rw [frameWake, hat]
    cases (sweepFrames (w.now s.asked) e).entry.suspended <;> rfl
  refine ⟨hordered, fun f hf => ?_, fun hs _ f hf hp => ?_, fun hs _ f hf hp => ?_⟩
  · obtain ⟨g, hg, hgf⟩ := List.mem_map.mp (hsame ▸ List.mem_map_of_mem hf)
    exact hgf ▸ (hattended.read g hg).trans (w.monotone _ _ (Nat.le_succ _))
  · obtain ⟨atNs, hat, hwake⟩ := hwoken (by rw [hs]; rfl) hf hp
    rw [suspended_sweepFrames] at hs
    have hle := Frames.nextStale_le hat hordered hf hp
    exact Or.inl (covered_wake hwake hle (pending_sweepFrames hs hf hp) _)
  · obtain ⟨atNs, -, hwake⟩ := hwoken (by rw [hs]; rfl) hf hp
    exact Or.inr ⟨_, Or.inr (Or.inr (Or.inr ⟨_, hwake, rfl⟩))⟩

/-! ## Queues as they were -/

/-- No view queues more. -/
theorem Attends.core (hi : Attends w D s) (hpast : Past s s')
    (hcore : ∀ v, (s'.view v).map ViewEntry.core = (s.view v).map ViewEntry.core)
    (ht : Hastens D s.tick D' s'.tick) (hw : ∀ v, .watch v ∉ D' → .watch v ∉ D) : Attends w D' s' := by
  intro v e' hv'
  have hmap := hcore v
  rw [hv'] at hmap
  obtain ⟨e, hv, he⟩ := Option.map_eq_some_iff.mp hmap.symm
  simp only [ViewEntry.core, Prod.mk.injEq] at he
  obtain ⟨-, -, hframes, hsus, -⟩ := he
  exact (hi v e hv).eases hpast (hframes ▸ List.Sublist.refl _) hsus.symm ht (hw v)

/-- Only `v` was touched, and is attended. -/
theorem Attends.except (hi : Attends w D s) (hpast : Past s s') (hothers : ∀ u, u ≠ v → s'.view u = s.view u)
    (ht : Hastens D s.tick D' s'.tick) (hw : ∀ u, u ≠ v → .watch u ∉ D' → .watch u ∉ D)
    (hv : ∀ e', s'.view v = some e' → Attended w D' s' v e') : Attends w D' s' := by
  intro u e' hu
  by_cases huv : u = v
  · exact huv ▸ hv e' (huv ▸ hu)
  · rw [hothers u huv] at hu
    exact (hi u e' hu).eases hpast (List.Sublist.refl _) rfl ht (hw u huv)

/-! ## Watching -/

/-- What watches `v` leaves it attended. -/
theorem Attends.watched {taken : Set Debt} (hi : Attends w D s)
    (hshown : ∀ e, s.view v = some e → e.suspended = false → ∀ f ∈ e.frames, f.pending true = true →
      Awaited (D \ {.watch v} ∪ taken) s v f)
    (hhidden : ∀ e, s.view v = some e → e.suspended = true → ∀ f ∈ e.frames, f.pending false = true →
      Alarmed (D \ {.watch v} ∪ taken) s.tick) :
    Attends w (D \ {.watch v} ∪ taken) s := by
  refine hi.except (v := v) ⟨le_rfl, List.Subset.refl _⟩ (fun _ _ => rfl) (.same (by simp)) (fun u huv hnot hmem => ?_)
    fun e hv => ?_
  · exact hnot (Or.inl ⟨hmem, by simpa using huv⟩)
  · exact ⟨(hi v e hv).ordered, (hi v e hv).read, fun hs _ => hshown e hv hs, fun hs _ => hhidden e hv hs⟩

/-- As `Attends.watched`, where the view is known. -/
theorem Attends.watchedEntry {taken : Set Debt} {e : ViewEntry} (hi : Attends w D s) (hv : s.view v = some e)
    (hshown : e.suspended = false → ∀ f ∈ e.frames, f.pending true = true → Awaited (D \ {.watch v} ∪ taken) s v f)
    (hhidden : e.suspended = true → Alarmed (D \ {.watch v} ∪ taken) s.tick) :
    Attends w (D \ {.watch v} ∪ taken) s := by
  refine hi.watched (fun e' hv' => ?_) fun e' hv' hs _ _ _ => ?_
  · cases hv.symm.trans hv'
    exact hshown
  · cases hv.symm.trans hv'
    exact hhidden hs

/-! ## Pushing -/

/-- What changes a view that is gone changes nothing. -/
theorem view_absent {v : ViewId} (hv : s.view v = none) (u : ViewId) (f : ViewEntry → ViewEntry) :
    s.view u = if u = v then (s.view v).map f else s.view u := by
  split
  · rename_i huv
    rw [huv, hv]
    rfl
  · rfl

theorem State.view_pushFrame (s : State) (v u : ViewId) (seq : Nat) (shown : List (Nat × Nat)) (taken : Taken) :
    (s.pushFrame w v seq shown taken).2.view u = if u = v
      then (s.view v).map fun e => { e with frames := (e.frames.push (w.now s.asked) seq shown taken).frames }
      else s.view u := by
  unfold pushFrame
  split
  · rename_i hv
    exact view_absent hv u _
  · rename_i e hv
    rw [view_ask, view_log, view_modifyView, hv]
    rfl

/-- A frame is queued last, as the latest: it is to be watched. -/
theorem Attends.pushed {seq : Nat} {shown : List (Nat × Nat)} {taken : Taken} {released : Bool} (hi : Attends w D s)
    (ht : Hastens D s.tick D' s.tick) (hw : ∀ u, u ≠ v → .watch u ∉ D' → .watch u ∉ D) (howed : .watch v ∈ D')
    (hp : s.pushFrame w v seq shown taken = (released, s')) : Attends w D' s' := by
  have hpushed : s' = (s.pushFrame w v seq shown taken).2 := by rw [hp]
  have hpast : Past s s' := by
    rw [hpushed]
    exact ⟨pushFrame_asked s v seq shown taken, pushFrame_trace s v seq shown taken⟩
  have htick : s'.tick = s.tick := by rw [hpushed, pushFrame_rest w]
  refine hi.except (v := v) hpast (fun u huv => ?_) (htick ▸ ht) hw fun e' hv' => ?_
  · rw [hpushed, view_pushFrame, if_neg huv]
  rw [hpushed, view_pushFrame, if_pos rfl] at hv'
  obtain ⟨e, hv, rfl⟩ := Option.map_eq_some_iff.mp hv'
  have hattended := hi v e hv
  have hsub : (e.frames.push (w.now s.asked) seq shown taken).frames.Sublist
      (e.frames ++ [Frame.submitted (w.now s.asked) seq shown taken]) := List.drop_sublist _ _
  have hordered : (e.frames ++ [Frame.submitted (w.now s.asked) seq shown taken]).Pairwise
      fun f g => f.submittedNs ≤ g.submittedNs := by
    refine List.pairwise_append.mpr ⟨hattended.ordered, List.pairwise_singleton _ _, fun f hf g hg => ?_⟩
    rw [List.mem_singleton.mp hg]
    exact hattended.read f hf
  refine ⟨hordered.sublist hsub, fun f hf => ?_, fun _ hnot => absurd howed hnot, fun _ hnot => absurd howed hnot⟩
  have hle : f.submittedNs ≤ w.now s.asked := by
    rcases List.mem_append.mp (hsub.subset hf) with hf | hf
    · exact hattended.read f hf
    · rw [List.mem_singleton.mp hf]
      exact le_rfl
  exact hle.trans (w.monotone _ _ hpast.asked)

theorem Pace.attends {paid taken : Set Debt} (h : Pace w s paid taken s') (htimer : ∀ i, w.timer i = true)
    (hi : Attends w D s) : Attends w (D \ paid ∪ taken) s' := by
  have hsoon := h.hastens (D := D) htimer
  have hdeed : Deed w (fun _ _ => True) s paid taken s' := .move (.pace h)
  have hpast := hdeed.past
  have hrest (hcore : ∀ v, (s'.view v).map ViewEntry.core = (s.view v).map ViewEntry.core)
      (hpaid : ∀ v, .watch v ∉ paid) : Attends w (D \ paid ∪ taken) s' :=
    hi.core hpast hcore hsoon fun v hnot hmem => hnot (Or.inl ⟨hmem, hpaid v⟩)
  cases h with
  | failed hf => exact absurd (htimer s.asked) (by simp [hf])
  | looseReleased hk | timersReleased hk | framesReleased hk | forgotten hk | called _ _ hk =>
      obtain ⟨k, hk⟩ := hk
      exact absurd (htimer k) (by simp [hk])
  | quiet _ hq => exact hrest hq.views (by simp)
  | unshown root tk s₁ dueNs _ ht ha =>
      exact hrest (fun u => (congrArg (fun s => (s.view u).map ViewEntry.core) (unshown_rest ht ha) :)) (by simp)
  | refused v root tk s₁ s₂ dueNs _ hr ht hq ha =>
      refine hrest (fun u => ?_) (by simp)
      have hviews : s'.view u = s₂.view u := (congrArg (State.view · u) (refused_rest ht hq ha) :)
      rw [hviews]
      exact core_asked ht hq u
  | listed v dueNs =>
      refine hrest (fun u => ?_) (by simp)
      unfold listUnsubmitted
      split <;> rfl
  | pushed v root tk s₁ s₂ seq shown released _ hr ht hq hp =>
      have hrest := takeTrees_eq ht
      have hpast₂ : Past s s₂ := by
        obtain ⟨es, hes, -⟩ := hq.trace
        rw [hrest] at hes
        refine ⟨?_, hes ▸ List.subset_append_left _ _⟩
        have h := hq.asked
        rw [hrest] at h
        exact h
      have htick : s₂.tick = s.tick := by
        rw [hq.rest, hrest]
      have hi₂ : Attends w D s₂ := by
        refine hi.core hpast₂ (core_asked ht hq) ?_ fun _ => id
        exact htick ▸ .owing fun _ => id
      refine hi₂.pushed (v := v) (.same (by simp)) (fun u _ hnot hmem => ?_) (Or.inr (Or.inl rfl)) hp
      exact hnot (Or.inl ⟨hmem, by simp⟩)
  | unwatched v hnone =>
      refine hi.watched (fun e hv hs f hf hp => ?_) fun e hv hs f hf hp => ?_
      · have h := Frames.nextStale_eq_none (hnone e hv) f hf
        rw [hs] at h
        exact absurd hp (Bool.eq_false_iff.mp h)
      · have h := Frames.nextStale_eq_none (hnone e hv) f hf
        rw [hs] at h
        exact absurd hp (Bool.eq_false_iff.mp h)
  | watchedHidden v e atNs hv hs =>
      exact hi.watchedEntry hv (fun hs' => absurd (hs.symm.trans hs') (by simp)) fun _ => Or.inr ⟨atNs, Or.inr rfl⟩
  | watchedShown v e atNs hv hs hat =>
      refine hi.watchedEntry hv (fun _ f hf hp => ?_) fun hs' => absurd (hs.symm.trans hs') (by simp)
      have hle := Frames.nextStale_le hat (hi v e hv).ordered hf hp
      exact Or.inl (Or.inr ⟨atNs, Or.inr rfl, hle.trans (Nat.le_add_right ..)⟩)
  | standing | armed => exact hrest (fun _ => rfl) (by simp [armsFrom])
  | _ => exact hrest (fun _ => rfl) (by simp)

/-! ## Deeds -/

namespace State

theorem view_clearFrames (s : State) (v u : ViewId) : (s.clearFrames v).2.view u =
    if u = v then (s.view v).map fun e => { e with frames := [] } else s.view u := by
  unfold clearFrames
  split
  · rename_i hv
    exact view_absent hv u _
  · rename_i e hv
    rw [view_log, view_modifyView, hv]
    rfl

theorem view_takeReport (s : State) (v : ViewId) (r : Report) (u : ViewId) : (s.takeReport v r).2.view u =
    if u = v then (s.view v).map fun e =>
      { e with holds := (e.holds.presented v r.seq).1, frames := (e.frames.presented r).frames }
    else s.view u := by
  unfold takeReport
  split
  · rename_i hv
    exact view_absent hv u _
  · rename_i e hv
    rw [view_log, view_modifyView, hv]
    rfl

end State

theorem Deed.attends {paid taken : Set Debt} (h : Deed w guard s paid taken s') (htimer : ∀ i, w.timer i = true)
    (hi : Attends w D s) : Attends w (D \ paid ∪ taken) s' := by
  have hpast := h.past
  rcases h.hastens (D := D) htimer with ht | ⟨rfl, rfl, rfl⟩
  swap
  · rw [Set.sdiff_empty]
    exact ticked_attends hi
  have hw (hpaid : ∀ v, .watch v ∉ paid) (v : ViewId) (hnot : .watch v ∉ D \ paid ∪ taken) : .watch v ∉ D :=
    fun hmem => hnot (Or.inl ⟨hmem, hpaid v⟩)
  have hrest (hviews : ∀ v, s'.view v = s.view v) (hpaid : ∀ v, .watch v ∉ paid) : Attends w (D \ paid ∪ taken) s' :=
    hi.core hpast (fun v => by rw [hviews]) ht (hw hpaid)
  -- One view is touched, and queues no more.
  have hone (v : ViewId) (hothers : ∀ u, u ≠ v → s'.view u = s.view u) (hpaid : ∀ u, .watch u ∉ paid)
      (hv : ∀ e', s'.view v = some e' →
        e'.frames = [] ∨ ∃ e, s.view v = some e ∧ e'.frames.Sublist e.frames ∧ e'.suspended = e.suspended) :
      Attends w (D \ paid ∪ taken) s' := by
    refine hi.except hpast hothers ht (fun u _ => hw hpaid u) fun e' hv' => ?_
    rcases hv e' hv' with hnil | ⟨e, hv, hsub, hsus⟩
    · exact .none hnil
    · exact (hi v e hv).eases hpast hsub hsus ht (hw hpaid v)
  cases h with
  | move hm =>
      cases hm with
      | pace hm => exact hm.attends htimer hi
      | mapped => exact hrest (fun _ => rfl) (by simp)
      | linked v e t hv =>
          refine hone v (fun u huv => ?_) (by simp) fun e' he' => Or.inr ⟨e, hv, ?_⟩
          · rw [link, view_log, view_modifyView, if_neg huv, view_modifyToplevel]
          · rw [link, view_log, view_modifyView, if_pos rfl, view_modifyToplevel, hv] at he'
            cases he'
            exact ⟨List.Sublist.refl _, rfl⟩
  | called v ustNs => exact hrest (fun u => by rw [sendViewCallbacks_rest]; rfl) (by simp)
  | framesCleared v =>
      refine hone v (fun u huv => by rw [view_clearFrames, if_neg huv]) (by simp) fun e' he' => Or.inl ?_
      rw [view_clearFrames, if_pos rfl] at he'
      obtain ⟨e, -, rfl⟩ := Option.map_eq_some_iff.mp he'
      rfl
  | unlinked v es =>
      refine hone v (fun u huv => view_unlink huv) (by simp) fun e' he' => Or.inr ?_
      rw [view_log, view_unlink_self] at he'
      obtain ⟨e, hv, rfl⟩ := Option.map_eq_some_iff.mp he'
      exact ⟨e, hv, List.Sublist.refl _, rfl⟩
  | inserted s₀ view =>
      refine hone view.id (fun u huv => ?_) (by simp) fun e' he' => Or.inl ?_
      · exact (Table.get_insert ..).trans (if_neg huv)
      · rw [State.view, insertView, Table.get_insert, if_pos rfl] at he'
        cases he'
        rfl
  | erased s₀ v =>
      refine hone v (fun u huv => ?_) (by simp) fun e' he' => ?_
      · exact (Table.get_erase ..).trans (if_neg huv)
      · rw [State.view, eraseView, Table.get_erase, if_pos rfl] at he'
        cases he'
  | reported v r =>
      refine hone v (fun u huv => by rw [view_takeReport, if_neg huv]) (by simp) fun e' he' => Or.inr ?_
      rw [view_takeReport, if_pos rfl] at he'
      obtain ⟨e, hv, rfl⟩ := Option.map_eq_some_iff.mp he'
      exact ⟨e, hv, List.dropWhile_sublist _, rfl⟩
  | suspendedSet _ v suspended =>
      have howed : .watch v ∈ D \ ∅ ∪ {.watch v} := Or.inr rfl
      refine hi.except (v := v) hpast (fun u huv => ?_) ht (fun u _ => hw (by simp) u) fun e' he' => ?_
      · rw [setSuspended, view_ask, view_modifyView, if_neg huv]
      · rw [setSuspended, view_ask, view_modifyView, if_pos rfl] at he'
        obtain ⟨e, hv, rfl⟩ := Option.map_eq_some_iff.mp he'
        have hread := (hi v e hv).read
        refine ⟨(hi v e hv).ordered, fun f hf => ?_, fun _ hnot => absurd howed hnot, fun _ hnot => absurd howed hnot⟩
        exact (hread f hf).trans (w.monotone _ _ hpast.asked)
  | watchedResumed v e atNs now hv hs hat hback =>
      refine hi.watchedEntry hv (fun _ f hf hp => ?_) fun hs' => absurd (hs.symm.trans hs') (by simp)
      have hle := Frames.nextStale_le hat (hi v e hv).ordered hf hp
      by_cases hlater : now < f.submittedNs
      · refine Or.inl (Or.inr ⟨_, Or.inr rfl, ?_⟩)
        omega
      · refine Or.inr ⟨now, hback, Nat.le_of_not_lt hlater, Or.inr ⟨_, Or.inr rfl, ?_⟩⟩
        omega
  | targeted x =>
      refine hrest (fun u => ?_) (by simp)
      rw [addTimed_rest]
      rfl
  | ticked =>
      rw [Set.sdiff_empty]
      exact ticked_attends hi
  | _ => exact hrest (fun _ => rfl) (by simp)

end IhsWl
