import IhsWl.Seat.Handlers

/-!
# Window requests

What a client asks of its window, and what Dart hears of a view: its bindings and such requests, in the order they are
posted.
-/

namespace IhsWl

/-- The requests among `IhsWlViewEvent`. -/
inductive WindowRequest where
  | maximize
  | unmaximize
  | minimize
  | fullscreen
  | unfullscreen
  deriving DecidableEq, Repr

/-- What `wm_capabilities` lists the request under. -/
def WindowRequest.capability : WindowRequest → WmCapability
  | .maximize | .unmaximize => .maximize
  | .minimize => .minimize
  | .fullscreen | .unfullscreen => .fullscreen

/-- The `IhsWlCapability` bit. -/
def WmCapability.bit : WmCapability → Nat
  | .maximize => 1
  | .minimize => 2
  | .fullscreen => 4

/-- An `IhsWlViewEvent`. -/
inductive Heard where
  | event (e : ViewEvent)
  | request (r : WindowRequest)
  deriving DecidableEq, Repr

/-- What an effect posts. -/
def Effect.post : Effect → Option (ViewId × Heard)
  | .posted e v => some (v, .event e)
  | _ => none

/-- The seat, and the events posted to Dart. -/
structure Port where
  seat : Seat := {}
  heard : List (ViewId × Heard) := []

inductive PortOp where
  | seat (op : SeatOp)
  /-- The client of the toplevel `x` makes a request. -/
  | request (x : WlSurface) (r : WindowRequest)
  deriving DecidableEq, Repr

namespace Seat

/-- The view showing toplevel `x`, if one does and its app handles `capability`. -/
def viewHandling (x : WlSurface) (capability : WmCapability) (c : Seat) : Option ViewId := do
  let id ← c.state.idOf x
  let t ← c.state.toplevel id
  let v ← t.view
  let _ ← c.state.view v
  if (c.grants v).capabilities &&& capability.bit ≠ 0 then some v else none

/-- A configure that repeats what the toplevel has, once it had its first. -/
def sendConfigure (id : ToplevelId) (c : Seat) : Seat :=
  let t := c.windows id
  { c with windows := fun i =>
      if i = id ∧ t.configures ≠ [] then { t with configures := t.configures ++ [t.pending] } else c.windows i }

end Seat

namespace Port

/-- Pass a request on to the app showing `x`, if it handles that. -/
def postRequest (x : WlSurface) (r : WindowRequest) (p : Port) : Port :=
  match p.seat.viewHandling x r.capability with
  | none => p
  | some v => { p with heard := p.heard ++ [(v, .request r)] }

/-- Pass a request on and answer it. -/
def windowRequest (x : WlSurface) (r : WindowRequest) (p : Port) : Port :=
  let p := p.postRequest x r
  match p.seat.state.idOf x with
  | none => p
  | some id => { p with seat := p.seat.sendConfigure id }

/-- The handlers of the requests. -/
def request (x : WlSurface) (r : WindowRequest) (p : Port) : Port :=
  match r with
  -- xdg-shell gives minimize no configure to wait for.
  | .minimize => p.postRequest x .minimize
  | r => p.windowRequest x r

def step (w : SeatWorld) (depth : Nat) (p : Port) : PortOp → Port
  | .seat op =>
      let seat := p.seat.step w depth op
      { seat, heard := p.heard ++ (seat.state.trace.drop p.seat.state.trace.length).filterMap Effect.post }
  | .request x r => if (p.seat.state.surfaces x).hasToplevel then p.request x r else p

/-- The ops one after another. -/
def run (w : SeatWorld) (depth : Nat) (ops : List PortOp) : Port := ops.foldl (step w depth) { seat := Seat.run w depth [] }

end Port

end IhsWl
