import IhsWl.Server.Handlers
import Mathlib.Logic.Function.Basic

/-!
# What the shell shows

All that is done to the buffers of views, in any order, and beside it what the shell shows: the layers of the
last frame of a view it accepted, and what holds their buffers.
-/

namespace IhsWl

/-- What holds the buffer of a layer on screen. Nothing does once its fence signaled, or when its fence could
not be watched. -/
inductive Hold where
  | unfenced
  | fence (key : Nat)
  | free
  deriving DecidableEq, Repr

namespace Holds

/-- What comes to hold the buffers of a frame's layers, after the last key given out. -/
def tags (last : Nat) : List (Held × Release) → List (Held × Hold)
  | [] => []
  | (buffer, .unfenced) :: rest => (buffer, .unfenced) :: tags last rest
  | (buffer, .fenced) :: rest => (buffer, .fence (last + 1)) :: tags (last + 1) rest
  | (buffer, .unregistered) :: rest => (buffer, .free) :: tags (last + 1) rest

/-- The buffers held. -/
def buffers (h : Holds) : List Held := (h.fenced ++ h.unfenced).map Prod.snd

end Holds

/-- The server, and what the shell shows of each view. -/
structure Screens where
  state : State
  shown : ViewId → List (Held × Hold) := fun _ => []

/-- What is done to a view's buffers: a scene is submitted, nothing is shown any more, the shell reports, a
release fence signals, a toplevel is bound and let go, and views come and go. -/
inductive ScreenOp where
  | submits (v : ViewId) (roots : List WlSurface)
  | clears (v : ViewId)
  | reports (v : ViewId) (r : Report)
  | signals (v : ViewId) (key : Nat)
  | binds (v : ViewId) (t : ToplevelId)
  | unbinds (v : ViewId)
  | creates (view : ViewHandle)
  | disposes (v : ViewId)
  deriving DecidableEq, Repr

open State

variable (w : World)

namespace State

/-- Whether the shell accepts what it is handed next. -/
def accepts (s : State) : Bool :=
  match w.submit s.asked with
  | .accepted _ => true
  | _ => false

/-- Whether `clearView` submits an empty frame of `v`. -/
def clears (s : State) (v : ViewId) : Bool := (s.view v).any fun e => !e.cleared && e.seq != 0

/-- The layers of the scene `roots` as the shell took them, with what it handed back for each. -/
def released (s : State) (roots : List WlSurface) (release : List Release) : List (Held × Release) :=
  ((s.build w roots).take w.maxLayers).zipIdx.map fun l => (l.1.held, release.getD l.2 .unfenced)

end State

namespace ScreenOp

def apply (s : State) : ScreenOp → State
  | .submits v roots => (s.submitTree w v roots).2
  | .clears v => s.clearView w v
  | .reports v r => (s.takeReport v r).2
  | .signals v key => s.modifyView v fun e => { e with holds := e.holds.signaled key }
  | .binds v t => s.link v t
  -- `unbindView`, after the frames were dropped.
  | .unbinds v => (s.clearView w v).unlink v
  | .creates view => s.insertView view
  | .disposes v => s.eraseView v

/-- What is shown of `v` once `clearView` ran. -/
def emptied (c : Screens) (s : State) (v : ViewId) : ViewId → List (Held × Hold) :=
  if s.clears v && s.accepts w then Function.update c.shown v [] else c.shown

/-- What the shell shows then. A new view shows nothing, whoever showed what under its id before. -/
def shows (c : Screens) : ScreenOp → ViewId → List (Held × Hold)
  | .submits v roots =>
      if (c.state.build w roots).isEmpty then emptied w c c.state.ask v
      else
        match c.state.view v, w.submit c.state.ask.asked with
        | some e, .accepted release =>
            Function.update c.shown v (Holds.tags e.holds.nextKey (c.state.released w roots release))
        | _, _ => c.shown
  | .clears v => emptied w c c.state v
  | .unbinds v => emptied w c c.state v
  | .signals v key =>
      Function.update c.shown v ((c.shown v).map fun l => if l.2 = .fence key then (l.1, .free) else l)
  | .creates view => Function.update c.shown view.id []
  | .disposes v => Function.update c.shown v []
  | _ => c.shown

end ScreenOp

namespace Screens

def step (c : Screens) (op : ScreenOp) : Screens := { state := op.apply w c.state, shown := op.shows w c }

/-- Nothing happened yet. -/
def start : Screens := { state := IhsWl.run w 0 [] }

def run (ops : List ScreenOp) : Screens := ops.foldl (step w) (start w)

/-- Every buffer on screen is held. -/
def Kept (c : Screens) : Prop :=
  ∀ v e, c.state.view v = some e → ∀ l ∈ c.shown v, l.2 ≠ .free → l.1 ∈ e.holds.buffers

/-- A view lets its toplevel go only when the shell shows nothing of it that is held, or accepts to show nothing,
and no report is of a frame the view did not submit. -/
def holdsOn (c : Screens) : ScreenOp → Bool
  | .unbinds v => !c.state.clears v || c.state.accepts w || (c.shown v).all fun l => l.2 == .free
  | .reports v r => (c.state.view v).all fun e => r.seq ≤ e.seq
  | _ => true

end Screens

end IhsWl
