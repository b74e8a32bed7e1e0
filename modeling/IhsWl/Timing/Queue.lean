import IhsWl.Lib.Ledger
import IhsWl.Timing

/-!
# Runs of the frame queue

The calls a view makes on its queue over its life, and what every one of them keeps: the queued frames
are in the order of their seqs, at most `maxInFlight`, and each is the frame some `push` made.
-/

namespace IhsWl

/-- What one `push` is handed. -/
structure Push where
  now : Nat
  seq : Nat
  shown : List (Nat × Nat)
  taken : Taken
  deriving DecidableEq, Repr

/-- The calls on a view's queue. A view's unbinding is a `clear`; its seqs go on after it. -/
inductive FramesOp where
  | push (p : Push)
  | presented (r : Report)
  | releaseOlder (before : Nat)
  | releaseAll
  | flushOlder (before : Nat)
  | clear
  deriving DecidableEq, Repr

namespace FramesOp

/-- The call. -/
def call (fs : Frames) : FramesOp → Call
  | .push p => fs.push p.now p.seq p.shown p.taken
  | .presented r => fs.presented r
  | .releaseOlder before => fs.releaseOlder before
  | .releaseAll => fs.releaseAll
  | .flushOlder before => fs.flushOlder before
  | .clear => fs.clear

/-- The pushes among the calls. -/
def pushes (ops : List FramesOp) : List Push :=
  ops.filterMap fun
    | .push p => some p
    | _ => none

/-- Whether the call's result tells of barriers. -/
def tellsOfBarriers : FramesOp → Bool
  | .flushOlder _ => false
  | _ => true

end FramesOp

/-- The feedback callbacks and barriers a push hands over. -/
def Push.callbacks (p : Push) : List Nat := p.taken.feedback.map Feedback.callback

def Push.barriers (p : Push) : List Barrier := p.taken.barriers

namespace Frames

def queuedCallbacks (fs : Frames) : List Nat := fs.flatMap fun f => f.feedback.map Feedback.callback

def queuedBarriers (fs : Frames) : List Barrier := fs.flatMap Frame.barriers

/-- The queue and everything done, after `ops` on an empty queue. -/
def run (ops : List FramesOp) : Frames × List Effect :=
  Ledger.run (fun fs op => ((op.call fs).frames, (op.call fs).effects)) [] ops

end Frames

/-- The callback an effect answers. -/
@[simp] def Effect.answers : Effect → Option Nat
  | .presented cb _ => some cb
  | .discarded cb => some cb
  | _ => none

/-- The barrier an effect signals. -/
@[simp] def Effect.signals : Effect → Option Barrier
  | .signal b => some b
  | _ => none

/-! ## What a frame does as it leaves -/

namespace Frame

@[simp] theorem answers_release (f : Frame) : f.release.2.filterMap Effect.answers = [] := by
  simp [release]

@[simp] theorem signals_release (f : Frame) : f.release.2.filterMap Effect.signals = f.barriers := by
  simp [release, Function.comp_def]

@[simp] theorem answers_dropUnshown (f : Frame) :
    f.dropUnshown.filterMap Effect.answers = f.feedback.map Feedback.callback := by
  simp [dropUnshown, Function.comp_def, List.filterMap_eq_map']

@[simp] theorem signals_dropUnshown (f : Frame) : f.dropUnshown.filterMap Effect.signals = f.barriers := by
  simp [dropUnshown]

theorem answers_ite (c : Prop) [Decidable c] (cb : Nat) (r : Report) :
    (if c then Effect.presented cb r else .discarded cb).answers = some cb := by
  split <;> rfl

theorem signals_ite (c : Prop) [Decidable c] (cb : Nat) (r : Report) :
    (if c then Effect.presented cb r else .discarded cb).signals = none := by
  split <;> rfl

@[simp] theorem answers_report (shown : List (Nat × Nat)) (r : Report) (f : Frame) :
    (f.report shown r).filterMap Effect.answers = f.feedback.map Feedback.callback := by
  simp only [report, List.filterMap_append, List.filterMap_map, Function.comp_def, answers_ite,
    answers_release, List.append_nil]
  exact congrFun (List.filterMap_eq_map' ..) _

@[simp] theorem signals_report (shown : List (Nat × Nat)) (r : Report) (f : Frame) :
    (f.report shown r).filterMap Effect.signals = f.barriers := by
  simp only [report, List.filterMap_append, List.filterMap_map, Function.comp_def, signals_ite,
    signals_release]
  simp

end Frame

theorem filterMap_flatMap_of {β γ δ : Type*} {g : γ → Option δ} {f : β → List γ} {k : β → List δ}
    (h : ∀ b, (f b).filterMap g = k b) (l : List β) : (l.flatMap f).filterMap g = l.flatMap k := by
  induction l with
  | nil => rfl
  | cons b l ih => simp [h, ih]

/-! ## What each call does to the barriers -/

namespace Frames

theorem any_hasBarriers (fs : Frames) : fs.any Frame.hasBarriers = true ↔ fs.queuedBarriers ≠ [] := by
  simp [queuedBarriers, Frame.hasBarriers, List.flatMap_eq_nil_iff]

/-- A push appends its frame and evicts from the front. -/
theorem push_spec (fs : Frames) (now seq : Nat) (shown : List (Nat × Nat)) (taken : Taken) :
    ∃ evicted, fs ++ [Frame.submitted now seq shown taken] =
        evicted ++ (fs.push now seq shown taken).frames ∧
      (fs.push now seq shown taken).frames.length ≤ maxInFlight ∧
      (fs.push now seq shown taken).returned = evicted.any Frame.hasBarriers ∧
      (fs.push now seq shown taken).effects =
        (taken.feedback.filter fun fb => !shown.contains (fb.layer, fb.generation)).map
          (fun fb => .discarded fb.callback) ++ evicted.flatMap Frame.dropUnshown := by
  refine ⟨_, (List.take_append_drop _ _).symm, ?_, rfl, rfl⟩
  simp only [push, excess, List.length_drop]
  omega

theorem queuedBarriers_append (fs gs : Frames) :
    queuedBarriers (fs ++ gs) = fs.queuedBarriers ++ gs.queuedBarriers := List.flatMap_append

theorem queuedCallbacks_append (fs gs : Frames) :
    queuedCallbacks (fs ++ gs) = fs.queuedCallbacks ++ gs.queuedCallbacks := List.flatMap_append

theorem signals_push {fs evicted : Frames} {now seq : Nat} {shown : List (Nat × Nat)} {taken : Taken}
    (he : (fs.push now seq shown taken).effects =
      (taken.feedback.filter fun fb => !shown.contains (fb.layer, fb.generation)).map
        (fun fb => .discarded fb.callback) ++ evicted.flatMap Frame.dropUnshown) :
    (fs.push now seq shown taken).effects.filterMap Effect.signals = evicted.queuedBarriers := by
  rw [he, List.filterMap_append, filterMap_flatMap_of Frame.signals_dropUnshown]
  simp [queuedBarriers]

theorem signals_presented (fs : Frames) (r : Report) :
    (fs.presented r).effects.filterMap Effect.signals =
      queuedBarriers (fs.takeWhile fun f => f.seq ≤ r.seq) :=
  filterMap_flatMap_of (Frame.signals_report _ r) _

theorem signals_releaseOlder (fs : Frames) (before : Nat) :
    (fs.releaseOlder before).effects.filterMap Effect.signals =
      fs.flatMap fun f => if f.submittedNs < before then f.barriers else [] := by
  refine filterMap_flatMap_of (fun f => ?_) fs
  split <;> simp

theorem queuedBarriers_releaseOlder (fs : Frames) (before : Nat) :
    (fs.releaseOlder before).frames.queuedBarriers =
      fs.flatMap fun f => if f.submittedNs < before then [] else f.barriers := by
  simp only [queuedBarriers, releaseOlder, List.flatMap_map]
  congr 1
  funext f
  split <;> rfl

theorem signals_clear (fs : Frames) : fs.clear.effects.filterMap Effect.signals = fs.queuedBarriers :=
  filterMap_flatMap_of Frame.signals_dropUnshown _

theorem releaseOlder_barriers (fs : Frames) (before : Nat) :
    fs.queuedBarriers.Perm ((fs.releaseOlder before).effects.filterMap Effect.signals ++
      (fs.releaseOlder before).frames.queuedBarriers) := by
  rw [signals_releaseOlder, queuedBarriers_releaseOlder]
  refine List.Perm.trans ?_ (List.flatMap_append_perm _ _ _).symm
  refine List.Perm.of_eq (congrArg (List.flatMap · fs) (funext fun f => ?_))
  split <;> simp

theorem takeWhile_dropWhile_barriers (fs : Frames) (p : Frame → Bool) :
    queuedBarriers (fs.takeWhile p) ++ queuedBarriers (fs.dropWhile p) = fs.queuedBarriers := by
  rw [← queuedBarriers_append, List.takeWhile_append_dropWhile]

/-- A call moves barriers: what was queued or handed in is signaled or queued. -/
theorem call_barriers (fs : Frames) (op : FramesOp) :
    (fs.queuedBarriers ++ (FramesOp.pushes [op]).flatMap Push.barriers).Perm
      ((op.call fs).effects.filterMap Effect.signals ++ (op.call fs).frames.queuedBarriers) := by
  cases op with
  | push p =>
      obtain ⟨evicted, hall, -, -, he⟩ := push_spec fs p.now p.seq p.shown p.taken
      rw [FramesOp.call, signals_push he, ← queuedBarriers_append, ← hall, queuedBarriers_append]
      simp [FramesOp.pushes, Push.barriers, queuedBarriers, Frame.submitted]
  | presented r =>
      rw [FramesOp.call, signals_presented]
      simp [FramesOp.pushes, presented, takeWhile_dropWhile_barriers]
  | releaseOlder before => simpa [FramesOp.pushes, FramesOp.call] using releaseOlder_barriers fs before
  | releaseAll => simpa [FramesOp.pushes, FramesOp.call, releaseAll] using releaseOlder_barriers fs u64Max
  | flushOlder before =>
      refine List.Perm.of_eq ?_
      simp only [FramesOp.call, flushOlder, queuedBarriers, FramesOp.pushes, List.flatMap_map,
        List.filterMap_cons, List.filterMap_nil, List.flatMap_nil, List.append_nil, List.nil_append]
      congr 1
      funext f
      split <;> rfl
  | clear =>
      rw [FramesOp.call, signals_clear]
      simp [FramesOp.pushes, clear, queuedBarriers]

/-- A call that tells of barriers tells the truth. -/
theorem call_returned (fs : Frames) (op : FramesOp) (h : op.tellsOfBarriers = true) :
    (op.call fs).returned = true ↔ (op.call fs).effects.filterMap Effect.signals ≠ [] := by
  have hold : ∀ before, (fs.releaseOlder before).returned = true ↔
      (fs.releaseOlder before).effects.filterMap Effect.signals ≠ [] := by
    intro before
    rw [signals_releaseOlder]
    simp [releaseOlder, Frame.hasBarriers, List.flatMap_eq_nil_iff]
  cases op with
  | push p =>
      obtain ⟨evicted, -, -, hr, he⟩ := push_spec fs p.now p.seq p.shown p.taken
      rw [FramesOp.call, hr, signals_push he, any_hasBarriers]
  | presented r => rw [FramesOp.call, signals_presented]; exact any_hasBarriers _
  | releaseOlder before => exact hold before
  | releaseAll => exact hold u64Max
  | flushOlder before => cases h
  | clear => rw [FramesOp.call, signals_clear]; exact any_hasBarriers _

/-! ## What each call does to the feedback -/

theorem answers_releaseOlder (fs : Frames) (before : Nat) :
    (fs.releaseOlder before).effects.filterMap Effect.answers = [] := by
  rw [show (fs.releaseOlder before).effects.filterMap Effect.answers = fs.flatMap fun _ => [] from
    filterMap_flatMap_of (fun f => by split <;> simp) fs]
  simp

/-- Calls that keep the frames keep their feedback. -/
theorem queuedCallbacks_map (fs : Frames) (g : Frame → Frame) (hg : ∀ f, (g f).feedback = f.feedback) :
    queuedCallbacks (fs.map g) = fs.queuedCallbacks := by
  simp [queuedCallbacks, List.flatMap_map, hg]

theorem queuedCallbacks_releaseOlder (fs : Frames) (before : Nat) :
    (fs.releaseOlder before).frames.queuedCallbacks = fs.queuedCallbacks :=
  queuedCallbacks_map fs _ fun f => by split <;> rfl

/-- A call moves feedback: what was queued or handed in is answered or queued. -/
theorem call_callbacks (fs : Frames) (op : FramesOp) :
    (fs.queuedCallbacks ++ (FramesOp.pushes [op]).flatMap Push.callbacks).Perm
      ((op.call fs).effects.filterMap Effect.answers ++ (op.call fs).frames.queuedCallbacks) := by
  cases op with
  | push p =>
      obtain ⟨evicted, hall, -, -, he⟩ := push_spec fs p.now p.seq p.shown p.taken
      have hq := congrArg queuedCallbacks hall
      simp only [queuedCallbacks_append] at hq
      rw [FramesOp.call, he, List.filterMap_append, filterMap_flatMap_of Frame.answers_dropUnshown,
        List.append_assoc]
      rw [show evicted.flatMap (fun f => f.feedback.map Feedback.callback) = evicted.queuedCallbacks from rfl,
        ← hq]
      -- What the frame keeps and what it does not show make up what was taken.
      have hp := (List.filter_append_perm
        (fun fb : Feedback => p.shown.contains (fb.layer, fb.generation)) p.taken.feedback).map
          Feedback.callback
      rw [List.map_append] at hp
      simp only [FramesOp.pushes, List.filterMap_cons, List.filterMap_nil, List.flatMap_cons,
        List.flatMap_nil, List.append_nil, Push.callbacks, List.filterMap_map, Function.comp_def,
        Effect.answers, queuedCallbacks, Frame.submitted]
      rw [show (p.taken.feedback.filter fun fb => !p.shown.contains (fb.layer, fb.generation)).filterMap
          (fun fb => some fb.callback) = (p.taken.feedback.filter fun fb =>
            !p.shown.contains (fb.layer, fb.generation)).map Feedback.callback from
        congrFun (List.filterMap_eq_map' ..) _]
      refine (hp.symm.append_left _).trans ?_
      rw [← List.append_assoc]
      exact List.perm_append_comm
  | presented r =>
      rw [FramesOp.call, show (fs.presented r).effects.filterMap Effect.answers =
        queuedCallbacks (fs.takeWhile fun f => f.seq ≤ r.seq) from
          filterMap_flatMap_of (Frame.answers_report _ r) _]
      simp only [FramesOp.pushes, presented, ← queuedCallbacks_append, List.takeWhile_append_dropWhile]
      simp
  | releaseOlder before =>
      simp [FramesOp.call, FramesOp.pushes, answers_releaseOlder, queuedCallbacks_releaseOlder]
  | releaseAll =>
      simp [FramesOp.call, FramesOp.pushes, releaseAll, answers_releaseOlder, queuedCallbacks_releaseOlder]
  | flushOlder before =>
      have h := queuedCallbacks_map fs
        (fun f => if f.submittedNs < before && !f.flushed then { f with flushed := true } else f)
        fun f => by split <;> rfl
      simp only [FramesOp.call, flushOlder, h, FramesOp.pushes, List.filterMap_cons, List.filterMap_nil,
        List.flatMap_nil, List.append_nil, List.nil_append]
      exact .refl _
  | clear =>
      rw [FramesOp.call, show fs.clear.effects.filterMap Effect.answers = fs.queuedCallbacks from
        filterMap_flatMap_of Frame.answers_dropUnshown _]
      simp [FramesOp.pushes, clear, queuedCallbacks]

/-! ## What each call does to the frames -/

end Frames

/-- `g` is frame `f` later in its life: it may have lost its barriers, or been flushed. -/
structure Frame.Later (f g : Frame) : Prop where
  seq : g.seq = f.seq
  submittedNs : g.submittedNs = f.submittedNs
  shown : g.shown = f.shown
  feedback : g.feedback = f.feedback
  barriers : g.barriers = f.barriers ∨ g.barriers = []

namespace Frame.Later

theorem refl (f : Frame) : f.Later f := ⟨rfl, rfl, rfl, rfl, Or.inl rfl⟩

theorem trans {f g h : Frame} (h₁ : f.Later g) (h₂ : g.Later h) : f.Later h where
  seq := h₂.seq.trans h₁.seq
  submittedNs := h₂.submittedNs.trans h₁.submittedNs
  shown := h₂.shown.trans h₁.shown
  feedback := h₂.feedback.trans h₁.feedback
  barriers := by
    rcases h₂.barriers with h | h
    · rw [h]; exact h₁.barriers
    · exact Or.inr h

theorem mem_barriers {f g : Frame} (h : f.Later g) {b : Barrier} (hb : b ∈ g.barriers) : b ∈ f.barriers := by
  rcases h.barriers with he | he
  · rwa [he] at hb
  · rw [he] at hb; cases hb

end Frame.Later

namespace Frames

/-- The frames a push adds. -/
def made (ops : List FramesOp) : Frames :=
  (FramesOp.pushes ops).map fun p => Frame.submitted p.now p.seq p.shown p.taken

/-- The queue after a call: frames of the queue before it or just pushed, in the same order. -/
theorem call_frames (fs : Frames) (op : FramesOp) :
    ∃ gs : Frames, gs.Sublist (fs ++ made [op]) ∧ List.Forall₂ Frame.Later gs (op.call fs).frames := by
  have hmap : ∀ g : Frame → Frame, (∀ f : Frame, f.Later (g f)) → List.Forall₂ Frame.Later fs (fs.map g) := by
    intro g hg
    rw [List.forall₂_map_right_iff]
    exact List.forall₂_same.mpr fun (f : Frame) _ => hg f
  have hrel : ∀ before : Nat, ∀ f : Frame, f.Later (if f.submittedNs < before then f.release.1 else f) := by
    intro before f
    split
    · exact ⟨rfl, rfl, rfl, rfl, Or.inr rfl⟩
    · exact .refl f
  cases op with
  | push p =>
      obtain ⟨evicted, hall, -, -, -⟩ := push_spec fs p.now p.seq p.shown p.taken
      refine ⟨_, ?_, List.forall₂_same.mpr fun f _ => Frame.Later.refl f⟩
      rw [show fs ++ made [.push p] = fs ++ [Frame.submitted p.now p.seq p.shown p.taken] from rfl, hall]
      exact List.sublist_append_right _ _
  | presented r =>
      exact ⟨_, (List.dropWhile_sublist _).trans (List.sublist_append_left _ _),
        List.forall₂_same.mpr fun f _ => Frame.Later.refl f⟩
  | releaseOlder before => exact ⟨fs, List.sublist_append_left _ _, hmap _ (hrel before)⟩
  | releaseAll => exact ⟨fs, List.sublist_append_left _ _, hmap _ (hrel u64Max)⟩
  | flushOlder before =>
      refine ⟨fs, List.sublist_append_left _ _, hmap _ fun f => ?_⟩
      split
      · exact ⟨rfl, rfl, rfl, rfl, Or.inl rfl⟩
      · exact .refl f
  | clear => exact ⟨[], List.nil_sublist _, .nil⟩

end Frames

end IhsWl
