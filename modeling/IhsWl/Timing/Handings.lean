import Mathlib.Data.List.Basic
import Mathlib.Data.List.Nodup
import Mathlib.Data.List.GetD
import IhsWl.Timing.Queue

/-!
# What is handed over, each time it is

A callback or a barrier is one object however often it is handed over: a barrier not signaled yet comes with the next
frame again. The queue looks at neither. So the calls can be made with a name of its own for each handing, and what
becomes of the names is what becomes of the handings.
-/

namespace IhsWl

/-- The callbacks and barriers names stand for. -/
structure Naming where
  callback : Nat → Nat
  barrier : Barrier → Barrier

variable (ρ : Naming)

def Feedback.named (fb : Feedback) : Feedback := { fb with callback := ρ.callback fb.callback }

def Taken.named (t : Taken) : Taken where
  feedback := t.feedback.map (Feedback.named ρ)
  barriers := t.barriers.map ρ.barrier

def Frame.named (f : Frame) : Frame :=
  { f with feedback := f.feedback.map (Feedback.named ρ), barriers := f.barriers.map ρ.barrier }

def Push.named (p : Push) : Push := { p with taken := p.taken.named ρ }

def FramesOp.named : FramesOp → FramesOp
  | .push p => .push (p.named ρ)
  | op => op

def Effect.named : Effect → Effect
  | .signal b => .signal (ρ.barrier b)
  | .presented cb r => .presented (ρ.callback cb) r
  | .discarded cb => .discarded (ρ.callback cb)
  | e => e

def Call.named (c : Call) : Call where
  frames := c.frames.map (Frame.named ρ)
  returned := c.returned
  effects := c.effects.map (Effect.named ρ)

/-! ## Calls under other names -/

namespace Frame

theorem submitted_named (now seq : Nat) (shown : List (Nat × Nat)) (t : Taken) :
    submitted now seq shown (t.named ρ) = (submitted now seq shown t).named ρ := by
  simp only [submitted, named, Taken.named, List.filter_map]
  rfl

theorem hasBarriers_named (f : Frame) : (f.named ρ).hasBarriers = f.hasBarriers := by
  simp [hasBarriers, named]

theorem release_named (f : Frame) :
    (f.named ρ).release = (f.release.1.named ρ, f.release.2.map (Effect.named ρ)) := by
  simp [release, named, Function.comp_def, Effect.named]

theorem dropUnshown_named (f : Frame) : (f.named ρ).dropUnshown = f.dropUnshown.map (Effect.named ρ) := by
  simp only [dropUnshown, release_named, List.map_append]
  simp [named, Function.comp_def, Effect.named, Feedback.named]

theorem report_named (shown : List (Nat × Nat)) (r : Report) (f : Frame) :
    (f.named ρ).report shown r = (f.report shown r).map (Effect.named ρ) := by
  simp only [report, release_named, List.map_append]
  congr 1
  simp only [named, List.map_map]
  refine List.map_congr_left fun fb _ => ?_
  rw [Function.comp_apply, Function.comp_apply, apply_ite (Effect.named ρ)]
  rfl

end Frame

namespace Frames

theorem flatMap_named {fs : Frames} {g : Frame → List Effect}
    (hg : ∀ f : Frame, g (f.named ρ) = (g f).map (Effect.named ρ)) :
    (fs.map (Frame.named ρ)).flatMap g = (fs.flatMap g).map (Effect.named ρ) := by
  rw [List.flatMap_map, List.map_flatMap]
  exact congrArg (List.flatMap · fs) (funext hg)

theorem any_named {fs : Frames} {g : Frame → Bool} (hg : ∀ f : Frame, g (f.named ρ) = g f) :
    (fs.map (Frame.named ρ)).any g = fs.any g := by
  rw [List.any_map]
  exact congrArg (List.any fs) (funext hg)

theorem shownBy_named (fs : Frames) (seq : Nat) : shownBy (fs.map (Frame.named ρ)) seq = fs.shownBy seq := by
  have hfind : (fs.map (Frame.named ρ)).find? (fun f => f.seq == seq) = (fs.find? fun f => f.seq == seq).map (Frame.named ρ) :=
    List.find?_map ..
  rw [shownBy, hfind, shownBy]
  cases fs.find? fun f => f.seq == seq <;> rfl

theorem releaseOlder_named (fs : Frames) (before : Nat) :
    releaseOlder (fs.map (Frame.named ρ)) before = (fs.releaseOlder before).named ρ := by
  simp only [releaseOlder, Call.named, Call.mk.injEq, List.map_map]
  refine ⟨List.map_congr_left fun f _ => ?_, any_named ρ fun f => ?_, flatMap_named ρ fun f => ?_⟩
  · simp only [Function.comp_apply, Frame.release_named]
    rw [show (f.named ρ).submittedNs = f.submittedNs from rfl]
    split <;> rfl
  · rw [Frame.hasBarriers_named]
    rfl
  · rw [show (f.named ρ).submittedNs = f.submittedNs from rfl, Frame.release_named]
    split <;> rfl

theorem push_named (fs : Frames) (p : Push) :
    push (fs.map (Frame.named ρ)) p.now p.seq p.shown (p.taken.named ρ) =
      (fs.push p.now p.seq p.shown p.taken).named ρ := by
  have hgrown : fs.map (Frame.named ρ) ++ [Frame.submitted p.now p.seq p.shown (p.taken.named ρ)] =
      (fs ++ [Frame.submitted p.now p.seq p.shown p.taken]).map (Frame.named ρ) := by
    rw [List.map_append, Frame.submitted_named]
    rfl
  have hunshown : ((p.taken.named ρ).feedback.filter fun fb => !p.shown.contains (fb.layer, fb.generation)).map
        (fun fb => Effect.discarded fb.callback) =
      ((p.taken.feedback.filter fun fb => !p.shown.contains (fb.layer, fb.generation)).map
        fun fb => Effect.discarded fb.callback).map (Effect.named ρ) := by
    simp only [Taken.named, List.filter_map, List.map_map]
    rfl
  simp only [push, hgrown, hunshown, Call.named, Call.mk.injEq, excess, List.length_map, ← List.map_take]
  rw [flatMap_named ρ (Frame.dropUnshown_named ρ)]
  exact ⟨List.map_drop.symm, any_named ρ (Frame.hasBarriers_named ρ), List.map_append.symm⟩

theorem presented_named (fs : Frames) (r : Report) :
    presented (fs.map (Frame.named ρ)) r = (fs.presented r).named ρ := by
  have hseq : ((fun f : Frame => decide (f.seq ≤ r.seq)) ∘ Frame.named ρ) = fun f => decide (f.seq ≤ r.seq) := rfl
  simp only [presented, shownBy_named, List.takeWhile_map, List.dropWhile_map, hseq, Call.named, Call.mk.injEq]
  exact ⟨trivial, any_named ρ (Frame.hasBarriers_named ρ), flatMap_named ρ (Frame.report_named ρ _ r)⟩

/-- No call looks at what a name stands for. -/
theorem call_named (fs : Frames) (op : FramesOp) : (op.named ρ).call (fs.map (Frame.named ρ)) = (op.call fs).named ρ := by
  cases op with
  | push p => exact push_named ρ fs p
  | presented r => exact presented_named ρ fs r
  | releaseOlder before => exact releaseOlder_named ρ fs before
  | releaseAll => exact releaseOlder_named ρ fs u64Max
  | flushOlder before =>
      simp only [FramesOp.named, FramesOp.call, flushOlder, Call.named, Call.mk.injEq, List.map_map, List.map_nil, and_true]
      refine ⟨List.map_congr_left fun f _ => ?_, any_named ρ fun _ => rfl⟩
      simp only [Function.comp_apply]
      rw [show (f.named ρ).submittedNs = f.submittedNs from rfl, show (f.named ρ).flushed = f.flushed from rfl]
      split <;> rfl
  | clear =>
      simp only [FramesOp.named, FramesOp.call, clear, Call.named, Call.mk.injEq, List.map_nil, true_and]
      exact ⟨any_named ρ (Frame.hasBarriers_named ρ), flatMap_named ρ (Frame.dropUnshown_named ρ)⟩

/-- Nor does a run. -/
theorem run_named (ops : List FramesOp) :
    run (ops.map (FramesOp.named ρ)) = ((run ops).1.map (Frame.named ρ), (run ops).2.map (Effect.named ρ)) := by
  refine Ledger.run_map (f := List.map (Frame.named ρ)) (fun fs op => ?_) [] ops
  rw [call_named]
  rfl

end Frames

/-! ## A name for each handing -/

namespace FramesOp

/-- What is handed over is numbered on from `c` callbacks and `b` barriers. -/
def numberPush (c b : Nat) (p : Push) : Push :=
  { p with taken := {
    feedback := (p.taken.feedback.zipIdx c).map fun x => { x.1 with callback := x.2 }
    barriers := (p.taken.barriers.zipIdx b).map fun x => { x.1 with id := x.2 } } }

def numberFrom (c b : Nat) : List FramesOp → List FramesOp
  | [] => []
  | .push p :: ops =>
      .push (numberPush c b p) :: numberFrom (c + p.callbacks.length) (b + p.barriers.length) ops
  | op :: ops => op :: numberFrom c b ops

/-- The calls with each handing under a name of its own: its number. -/
def numbered (ops : List FramesOp) : List FramesOp := numberFrom 0 0 ops

/-- All that was handed over, in order. -/
def callbacks (ops : List FramesOp) : List Nat := (pushes ops).flatMap Push.callbacks

def barriers (ops : List FramesOp) : List Barrier := (pushes ops).flatMap Push.barriers

/-- What the numbers stand for. -/
def naming (cs : List Nat) (bs : List Barrier) : Naming where
  callback k := cs.getD k 0
  barrier b := bs.getD b.id b

variable {cs : List Nat} {bs : List Barrier} {p : Push} {ops : List FramesOp}

theorem pushes_push : pushes (.push p :: ops) = p :: pushes ops := rfl

theorem getD_middle {α : Type*} (l r : List α) {m : List α} (d : α) {i : Nat} (hi : i < m.length) :
    (l ++ (m ++ r)).getD (l.length + i) d = m[i] := by
  rw [List.getD_append_right _ _ _ _ (Nat.le_add_right ..), Nat.add_sub_cancel_left, List.getD_append _ _ _ _ hi,
    List.getD_eq_getElem _ _ hi]

/-- A push numbered is the push, once the numbers are read. -/
theorem named_numberPush (cs' : List Nat) (bs' : List Barrier) :
    (numberPush cs.length bs.length p).named (naming (cs ++ (p.callbacks ++ cs')) (bs ++ (p.barriers ++ bs'))) = p := by
  obtain ⟨now, seq, shown, feedback, barriers⟩ := p
  simp only [Push.named, numberPush, Taken.named, Push.mk.injEq, Taken.mk.injEq, true_and, List.map_map]
  constructor
  · refine List.ext_getElem (by simp) fun i hi hi' => ?_
    have hcallback := getD_middle cs cs' (m := feedback.map Feedback.callback) 0 (by simpa using hi')
    rw [List.getElem_map] at hcallback
    simp only [List.getElem_map, Function.comp_apply, List.getElem_zipIdx, Feedback.named, naming, Push.callbacks, hcallback]
  · refine List.ext_getElem (by simp) fun i hi hi' => ?_
    simp only [List.getElem_map, Function.comp_apply, List.getElem_zipIdx, naming, Push.barriers]
    exact getD_middle bs bs' _ hi'

theorem named_numberFrom (cs : List Nat) (bs : List Barrier) (ops : List FramesOp) :
    (numberFrom cs.length bs.length ops).map (named (naming (cs ++ callbacks ops) (bs ++ barriers ops))) = ops := by
  induction ops generalizing cs bs with
  | nil => rfl
  | cons op ops ih =>
      cases op with
      | push p =>
          have hrest := ih (cs ++ p.callbacks) (bs ++ p.barriers)
          rw [List.length_append, List.length_append, List.append_assoc, List.append_assoc] at hrest
          have hpush : (numberPush cs.length bs.length p).named
              (naming (cs ++ callbacks (.push p :: ops)) (bs ++ barriers (.push p :: ops))) = p :=
            named_numberPush (callbacks ops) (barriers ops)
          rw [numberFrom, List.map_cons, named, hpush]
          exact congrArg _ hrest
      | _ => exact congrArg _ (ih cs bs)

/-- The numbered calls are the calls made. -/
theorem named_numbered (ops : List FramesOp) : (numbered ops).map (named (naming (callbacks ops) (barriers ops))) = ops :=
  named_numberFrom [] [] ops

theorem callbacks_numberFrom (c b : Nat) (ops : List FramesOp) :
    callbacks (numberFrom c b ops) = List.range' c (callbacks ops).length := by
  induction ops generalizing c b with
  | nil => rfl
  | cons op ops ih =>
      cases op with
      | push p =>
          have hfirst : (numberPush c b p).callbacks = List.range' c p.callbacks.length := by
            simp [Push.callbacks, numberPush, Function.comp_def, List.zipIdx_map_snd]
          simp only [numberFrom, callbacks, pushes_push, List.flatMap_cons, List.length_append, List.range'_append_1.symm, hfirst]
          exact congrArg _ (ih ..)
      | _ => exact ih c b

theorem barriers_numberFrom (c b : Nat) (ops : List FramesOp) :
    (barriers (numberFrom c b ops)).map Barrier.id = List.range' b (barriers ops).length := by
  induction ops generalizing c b with
  | nil => rfl
  | cons op ops ih =>
      cases op with
      | push p =>
          have hfirst : (numberPush c b p).barriers.map Barrier.id = List.range' b p.barriers.length := by
            simp [Push.barriers, numberPush, Function.comp_def, List.zipIdx_map_snd]
          simp only [numberFrom, barriers, pushes_push, List.flatMap_cons, List.map_append, List.length_append,
            List.range'_append_1.symm, hfirst]
          exact congrArg _ (ih ..)
      | _ => exact ih c b

/-- No two handings have a number in common. -/
theorem nodup_callbacks (ops : List FramesOp) : (callbacks (numbered ops)).Nodup := by
  rw [numbered, callbacks_numberFrom]
  exact List.nodup_range'

theorem nodup_barriers (ops : List FramesOp) : (barriers (numbered ops)).Nodup := by
  refine List.Nodup.of_map Barrier.id ?_
  rw [numbered, barriers_numberFrom]
  exact List.nodup_range'

theorem seqs_numberFrom (c b : Nat) (ops : List FramesOp) :
    (pushes (numberFrom c b ops)).map Push.seq = (pushes ops).map Push.seq := by
  induction ops generalizing c b with
  | nil => rfl
  | cons op ops ih =>
      cases op with
      | push p => exact congrArg (p.seq :: ·) (ih ..)
      | _ => exact ih c b

end FramesOp

end IhsWl
