import IhsWl.Base

/-!
# Frame timing

The display's refresh cycle as last reported, and a view's frames awaiting the shell's report. A frame
carries the presentation feedback and the fifo barriers taken from the trees it was submitted with.
-/

namespace IhsWl

/-- Assumed until the shell reports the display's own. -/
def defaultRefreshNs : Nat := 16_666_667

/-- How early a vblank may fall and still count as at a target time. -/
def targetSlackNs : Nat := 500_000

/-- Frames of a view held for their report, before the oldest is taken as never shown. -/
def maxInFlight : Nat := 16

/-- How long a frame of a view on screen may go unreported. -/
def staleNs : Nat := 250_000_000

/-! ## The clock -/

/-- The display's refresh cycle, as last reported. -/
structure FrameClock where
  ustNs : Nat := 0
  refreshNs : Nat := defaultRefreshNs
  deriving DecidableEq, Repr

namespace FrameClock

/-- A frame started to show at `ustNs`; `refreshNs` is 0 when unknown. -/
def update (c : FrameClock) (ustNs refreshNs : Nat) : FrameClock :=
  { ustNs := if ustNs > c.ustNs then ustNs else c.ustNs
    refreshNs := if refreshNs > 0 then refreshNs else c.refreshNs }

/-- The first predicted vblank after `t`. -/
def nextVblank (c : FrameClock) (t : Nat) : Nat :=
  if t < c.ustNs then c.ustNs
  else
    let periods := (t - c.ustNs) / c.refreshNs + 1
    satAdd c.ustNs (satMul periods c.refreshNs)

/-- The latest target an update applied at `now` can meet. -/
def due (c : FrameClock) (now : Nat) : Nat :=
  satAdd (c.nextVblank now) targetSlackNs

/-- The latest time an update may be applied to be shown at the first vblank at or after `target`. -/
def releaseAt (c : FrameClock) (target : Nat) : Nat :=
  let t := target - targetSlackNs
  let vblank := c.nextVblank (t - 1)
  vblank - c.refreshNs

end FrameClock

/-! ## Frames -/

/-- A surface's feedback: the layer and the content generation it was asked for, and the callback. -/
structure Feedback where
  layer : Nat
  generation : Nat
  callback : Nat
  deriving DecidableEq, Repr

/-- What a tree's current content updates wait on the screen for. -/
structure Taken where
  feedback : List Feedback := []
  barriers : List Barrier := []
  deriving DecidableEq, Repr

/-- Nothing of it will be shown: the feedback is discarded, the barriers are handed back. -/
def Taken.notShown (t : Taken) : List Barrier × List Effect :=
  (t.barriers, t.feedback.map fun fb => .discarded fb.callback)

/-- A submitted frame, until the shell reports it or it is taken as never shown. -/
structure Frame where
  seq : Nat
  submittedNs : Nat
  /-- The content generation of each layer it shows, by layer id. -/
  shown : List (Nat × Nat)
  feedback : List Feedback
  barriers : List Barrier
  /-- Gone stale on screen, and its frame callbacks sent for it. -/
  flushed : Bool
  deriving DecidableEq, Repr

namespace Frame

/-- A frame as it is submitted: of the feedback taken with it, it keeps what it shows. -/
def submitted (now seq : Nat) (shown : List (Nat × Nat)) (taken : Taken) : Frame where
  seq := seq
  submittedNs := now
  shown := shown
  feedback := taken.feedback.filter fun fb => shown.contains (fb.layer, fb.generation)
  barriers := taken.barriers
  flushed := false

/-- Whether it still holds a barrier. -/
def hasBarriers (f : Frame) : Bool := !f.barriers.isEmpty

/-- Clear its barriers. -/
def release (f : Frame) : Frame × List Effect :=
  ({ f with barriers := [] }, f.barriers.map .signal)

/-- Never shown: discard its feedback and clear its barriers. -/
def dropUnshown (f : Frame) : List Effect :=
  f.feedback.map (fun fb => .discarded fb.callback) ++ f.release.2

/-- Shown, or replaced before it was: feedback for content of the frame on screen is presented. -/
def report (shown : List (Nat × Nat)) (r : Report) (f : Frame) : List Effect :=
  f.feedback.map (fun fb =>
    if shown.contains (fb.layer, fb.generation) then .presented fb.callback r
    else .discarded fb.callback) ++ f.release.2

end Frame

/-- A view's frames awaiting the shell's report, oldest first. -/
abbrev Frames := List Frame

/-- A call on the queue: the frames it leaves, what it returns, and what it did. -/
structure Call where
  frames : Frames
  returned : Bool
  effects : List Effect

namespace Frames

/-- How many of the oldest frames go for the rest to be at most `maxInFlight`. -/
def excess (fs : Frames) : Nat := fs.length - maxInFlight

/-- Frame `seq` was submitted, showing `shown`. Feedback for surfaces it does not show is discarded
now. Returns whether barriers were cleared to make room. -/
def push (fs : Frames) (now seq : Nat) (shown : List (Nat × Nat)) (taken : Taken) : Call :=
  let unshown := taken.feedback.filter fun fb => !shown.contains (fb.layer, fb.generation)
  let grown : Frames := fs ++ [Frame.submitted now seq shown taken]
  let evicted := grown.take grown.excess
  { frames := grown.drop grown.excess
    returned := evicted.any Frame.hasBarriers
    effects := unshown.map (fun fb => .discarded fb.callback) ++ evicted.flatMap Frame.dropUnshown }

/-- What the frame `seq` shows; nothing when it was already taken as never shown. -/
def shownBy (fs : Frames) (seq : Nat) : List (Nat × Nat) :=
  match fs.find? (fun f => f.seq == seq) with
  | some f => f.shown
  | none => []

/-- The shell showed frame `r.seq`. Frames before it were replaced before they were shown, but content
of theirs still in it was shown with it. Returns whether any barrier was cleared. -/
def presented (fs : Frames) (r : Report) : Call :=
  let shown := fs.shownBy r.seq
  let popped := fs.takeWhile fun f => f.seq ≤ r.seq
  { frames := fs.dropWhile fun f => f.seq ≤ r.seq
    returned := popped.any Frame.hasBarriers
    effects := popped.flatMap (Frame.report shown r) }

/-- Clear the barriers of frames submitted before `before`, keeping them for their report. -/
def releaseOlder (fs : Frames) (before : Nat) : Call :=
  { frames := fs.map fun f => if f.submittedNs < before then f.release.1 else f
    returned := fs.any fun f => f.submittedNs < before && f.hasBarriers
    effects := fs.flatMap fun f => if f.submittedNs < before then f.release.2 else [] }

/-- Clear every barrier, keeping the frames for their report. -/
def releaseAll (fs : Frames) : Call := fs.releaseOlder u64Max

/-- Take the frames submitted before `before` as unreported on screen. Returns whether one was not
already: then the view's frame callbacks are due. -/
def flushOlder (fs : Frames) (before : Nat) : Call :=
  { frames := fs.map fun f => if f.submittedNs < before && !f.flushed then { f with flushed := true } else f
    returned := fs.any fun f => f.submittedNs < before && !f.flushed
    effects := [] }

/-- When the oldest frame with something still to release goes stale. -/
def nextStale (fs : Frames) (onScreen : Bool) : Option Nat :=
  (fs.find? fun f => f.hasBarriers || (onScreen && !f.flushed)).map fun f => satAdd f.submittedNs staleNs

/-- The view is gone or unbound: nothing more will be shown. -/
def clear (fs : Frames) : Call :=
  { frames := []
    returned := fs.any Frame.hasBarriers
    effects := fs.flatMap Frame.dropUnshown }

end Frames

end IhsWl
