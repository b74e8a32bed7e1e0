import IhsWl.Server.Lemmas.Queues

/-!
# The time a view has when it comes back

When a view is on screen again the shell is to have as long to report the frames it holds as for frames just submitted.
A tick tells what is overdue by when a frame was submitted alone, so it depends on when other work has the clock tick.
-/

namespace IhsWl

open State

/-- The view comes back on screen after `pre`, and then `mid` happens. -/
def backThen (pre : List Event) (v : ViewId) (mid : List Event) : List Event :=
  pre ++ .cmd (.viewSuspended v false) :: mid

/-- A tick of the run less than `staleNs` after the view `v` came back on screen, where it stayed. -/
structure GraceTick (w : World) (depth : Nat) (es pre : List Event) (v : ViewId) (mid : List Event) : Prop where
  split : ∃ post, es = backThen pre v mid ++ .tick :: post
  hidden : ((run w depth pre).view v).any ViewEntry.suspended = true
  shown : ∀ m, m <+: mid → ((run w depth (backThen pre v m)).view v).any (fun e => !e.suspended) = true
  armed : (run w depth (backThen pre v mid)).tick.isSome = true
  early : w.now (run w depth (backThen pre v mid)).asked < w.now (run w depth pre).asked + staleNs

/-- A tick now takes no frame of `v` as unreported: it clears no barrier of one, and none has it send callbacks. -/
def State.spares (w : World) (s : State) (v : ViewId) : Prop :=
  s.sweptView (w.now s.asked) v = (s.view v).map fun e => { entry := e }

/-- Every frame that `v` queued after `pre`, and was submitted more than `staleNs` before a tick now, has gone since,
or has nothing more to release. -/
def State.noneOverdue (w : World) (s before : State) (v : ViewId) : Prop :=
  ∀ e₀, before.view v = some e₀ → ∀ f ∈ e₀.frames, f.submittedNs + staleNs < w.now s.asked →
    ∀ e, s.view v = some e → ∀ g ∈ e.frames, g.seq = f.seq → g.submittedNs = f.submittedNs → g.pending true = false

variable {w : World} {depth : Nat} {es pre mid : List Event} {v : ViewId}

theorem flushOlder_idle {fs : Frames} {before : Nat} (h : ∀ f ∈ fs, f.submittedNs < before → f.flushed = true) :
    fs.flushOlder before = ⟨fs, false, []⟩ := by
  simp only [Frames.flushOlder, Call.mk.injEq, and_true]
  constructor
  · refine (List.map_congr_left fun f hf => ?_).trans (List.map_id fs)
    by_cases hlt : f.submittedNs < before
    · simp [h f hf hlt]
    · simp [hlt]
  · rw [List.any_eq_false]
    intro f hf
    by_cases hlt : f.submittedNs < before
    · simp [h f hf hlt]
    · simp [hlt]

theorem releaseOlder_idle {fs : Frames} {before : Nat} (h : ∀ f ∈ fs, f.submittedNs < before → f.barriers = []) :
    fs.releaseOlder before = ⟨fs, false, []⟩ := by
  simp only [Frames.releaseOlder, Call.mk.injEq]
  refine ⟨(List.map_congr_left fun f hf => ?_).trans (List.map_id fs), ?_, ?_⟩
  · split
    · rename_i hlt
      have hnone := h f hf hlt
      cases f
      simp_all [Frame.release]
    · rfl
  · rw [List.any_eq_false]
    intro f hf
    by_cases hlt : f.submittedNs < before
    · simp [Frame.hasBarriers, h f hf hlt]
    · simp [hlt]
  · rw [List.flatMap_eq_nil_iff]
    intro f hf
    split
    · rename_i hlt
      simp [Frame.release, h f hf hlt]
    · rfl

theorem Frame.pending_eq_false {f : Frame} (h : f.pending true = false) : f.barriers = [] ∧ f.flushed = true := by
  simpa [Frame.pending, Frame.hasBarriers] using h

/-- A tick takes no frame as unreported when none that has something to release is stale. -/
theorem sweepFrames_idle {now : Nat} {e : ViewEntry} (hs : e.suspended = false)
    (h : ∀ f ∈ e.frames, f.submittedNs < now - staleNs → f.pending true = false) :
    sweepFrames now e = { entry := e } := by
  have hflush := flushOlder_idle fun f hf hlt => (Frame.pending_eq_false (h f hf hlt)).2
  have hrelease := releaseOlder_idle fun f hf hlt => (Frame.pending_eq_false (h f hf hlt)).1
  rw [sweepFrames, if_neg (by simp [hs])]
  simp only [hflush, hrelease]

theorem GraceTick.spares_iff (h : GraceTick w depth es pre v mid) :
    (run w depth (backThen pre v mid)).spares w v ↔
      (run w depth (backThen pre v mid)).noneOverdue w (run w depth pre) v := by
  obtain ⟨e, hv, hs⟩ := (Option.any_eq_true _ _).mp (h.shown mid List.prefix_rfl)
  rw [Bool.not_eq_true'] at hs
  have hqueues : Queues w (run w depth pre) (run w depth (backThen pre v mid)) := by
    rw [run, run, backThen, List.foldl_append]
    exact steps_queues _ (run_paired w depth pre)
  have hearly := h.early
  unfold State.spares State.noneOverdue
  rw [State.sweptView, hv]
  simp only [Option.map_some, Option.some.injEq]
  constructor
  · rintro hidle e₀ - f - hstale _ rfl g hg - hsub
    by_contra hp
    rw [Bool.not_eq_false] at hp
    have hle := pending_sweepFrames hs (by rw [hidle]; exact hg) hp
    omega
  · intro hnone
    refine sweepFrames_idle hs fun g hg hlt => ?_
    -- A stale frame was there when the view came back.
    rcases hqueues.frames v e hv g hg with hnew | ⟨e₀, f, hv₀, hf, hlater⟩
    · omega
    · have hsub := hlater.submittedNs
      exact hnone e₀ hv₀ f hf (by omega) e rfl g hg hlater.seq hsub

/-- No tick of the run in a view's grace takes a frame as unreported, exactly when each of them comes before the frames
the view came back with are stale, or after these have nothing more to release. -/
theorem run_grace_iff (w : World) (depth : Nat) (es : List Event) :
    (∀ pre v mid, GraceTick w depth es pre v mid → (run w depth (backThen pre v mid)).spares w v) ↔
      ∀ pre v mid, GraceTick w depth es pre v mid →
        (run w depth (backThen pre v mid)).noneOverdue w (run w depth pre) v :=
  forall₄_congr fun _ _ _ h => h.spares_iff

/-- A world in which 20 ms pass with each answer, and another 100 before the tenth. -/
def slowWorld : World := { World.granting with
  now := fun i => 20_000_000 * i + if i < 10 then 0 else 100_000_000
  monotone := by
    intro i j h
    split <;> split <;> omega }

/-- A view leaves the scene with two frames unreported. -/
def leftRun : List Event := [.newToplevel 1, .cmd (.viewCreated { uid := 0, id := 1 }),
  .commit { main := { surface := 1 } }, .cmd (.viewSuspended 1 true)]

/-- The view is back after 160 ms, and the tick that was armed for its first frame comes after 300. -/
theorem graceTick_slow : GraceTick slowWorld 1 (backThen leftRun 1 [] ++ [.tick]) leftRun 1 [] where
  split := ⟨[], rfl⟩
  hidden := by decide +kernel
  shown := by
    intro m hm
    obtain rfl := List.prefix_nil.mp hm
    decide +kernel
  armed := by decide +kernel
  early := by decide +kernel

/-- The tick takes the first frame as unreported, 140 ms after the view came back. -/
theorem not_grace : ¬∀ (w : World) (depth : Nat) (es pre : List Event) (v : ViewId) (mid : List Event),
    GraceTick w depth es pre v mid → (run w depth (backThen pre v mid)).spares w v := by
  intro h
  have hspared := congrArg (Option.map Swept.flushed) (h _ _ _ _ _ _ graceTick_slow)
  revert hspared
  decide +kernel

end IhsWl
