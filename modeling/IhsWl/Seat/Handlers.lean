import IhsWl.Seat

/-!
# The seat's events
-/

namespace IhsWl

namespace Seat

variable (w : SeatWorld) (frees : Frees)

/-! ## Commands -/

def viewCreated (view : ViewHandle) (c : Seat) : Seat :=
  let c := if (c.state.view view.id).isSome then c.unbindView w frees view.id else c
  let c : Seat := { c with
    state := c.state.insertView view
    grants := fun v => if v = view.id then w.grants view else c.grants v }
  c.tryBindView w frees view.id

def viewDisposed (v : ViewId) (c : Seat) : Seat := (c.unbindView w frees v).onState (State.eraseView v)

/-- Show what the view last showed at its current fit, if it shows anything. -/
def refitView (v : ViewId) (c : Seat) : Seat := c.submitView frees v

def viewResized (v : ViewId) (size : Int × Int) (c : Seat) : Seat :=
  match c.state.view v with
  | none => c
  | some e =>
      let c := (c.onState (State.modifyView · v fun e => { e with size := some size })).configureView w v
      if e.requested.isSome then c.refitView frees v else c

def viewRequestSize (v : ViewId) (size : Option (Int × Int)) (c : Seat) : Seat :=
  match c.state.view v with
  | none => c
  | some e =>
      if e.requested = size then c
      else ((c.onState (State.modifyView · v fun e => { e with requested := size })).configureView w v).refitView frees v

/-- What the app grants view `v` changes. -/
def grant (v : ViewId) (f : Grants → Grants) (c : Seat) : Seat :=
  match c.state.view v with
  | none => c
  | some _ => ({ c with grants := fun u => if u = v then f (c.grants v) else c.grants u } : Seat).configureView w v

/-- The view left or re-entered the scene. -/
def viewSuspended (v : ViewId) (suspended : Bool) (c : Seat) : Seat :=
  match c.state.view v with
  | none => c
  | some _ =>
      let c := c.onState (State.setSuspended w.toWorld v suspended)
      frees (if suspended then c.onState (State.dismissPopups v) else c)

def focusInput (v : ViewId) (focused : Bool) (c : Seat) : Seat :=
  if focused then
    if c.state.focusedView = some v then c
    else (c.onState fun s => { s with focusedView := some v }).refreshKeyboardFocus w
  else if c.state.focusedView = some v then
    (c.onState fun s => ({ s with focusedView := none } : State).dismissPopups v).refreshKeyboardFocus w
  else c

def handleCmd (cmd : Cmd) (c : Seat) : Seat :=
  match cmd with
  | .viewCreated view => c.viewCreated w frees view
  | .viewDisposed v => c.viewDisposed w frees v
  | .viewResized v size => c.viewResized w frees v size
  | .viewRequestSize v size => c.viewRequestSize w frees v size
  | .presented _ _ => frees c
  | .viewSuspended v suspended => (c.viewSuspended w frees v suspended).refreshKeyboardFocus w
  | .focus v focused => c.focusInput w v focused
  | .issueToken => c.onState (State.issueActivationToken w.toWorld)

/-! ## Toplevels and popups -/

def newToplevel (x : WlSurface) (c : Seat) : Seat :=
  let state := c.state.newToplevel x
  { c with state, windows := fun id => if id = state.toplevels.nextId then {} else c.windows id }

def toplevelDestroyed (x : WlSurface) (c : Seat) : Seat :=
  match c.state.idOf x with
  | none => c
  | some id =>
      -- A dialog's view, looked up while its parent is still known.
      let dialogView := if (c.state.surfaces x).parent.isSome then c.state.boundViewOf x else none
      let c := (c.unbindToplevel w frees id).onState (State.removeToplevel id)
      match dialogView with
      | none => c
      | some v => (c.submitView frees v).refreshKeyboardFocus w

/-- Now a dialog of another view, or none: show it where it belongs. -/
def parentChanged (c : Seat) : Seat :=
  ((c.state.viewIds w.toWorld).foldl (fun c v =>
    if (c.state.view v).any fun e => e.toplevel.isSome then c.submitView frees v else c) c).refreshKeyboardFocus w

def popupDestroyed (x : WlSurface) (c : Seat) : Seat :=
  let view := (c.state.surfaces x).popupParent.bind c.state.boundViewOf
  let c := c.onState (State.untrackPopup x)
  match view with
  | none => c
  | some v => c.submitView frees v

/-! ## Activation -/

/-- The client of `x` activates it with `token`, one smithay knows. -/
def requestActivation (x : WlSurface) (token : Token) (c : Seat) : Seat :=
  if !token.issued then c
  else
    match c.state.idOf (c.state.toplevelOf x) with
    | none => c
    | some id =>
        match c.state.toplevel id with
        | none => c.onState fun s => { s with tokens := s.tokens.filter fun t => t.value ≠ token.value }
        | some t =>
            let c := c.onState (State.markActivated id token.value)
            match t.view with
            | none => c.bindWaitingViews w frees
            | some v =>
                if (c.state.view v).any (fun e => e.handle.params.token == some token.value) then c
                else if !c.state.named token.value then c
                else (c.unbindView w frees v).bindWaitingViews w frees

/-! ## Events -/

/-- What a valid event does. -/
def handle (e : Event) (c : Seat) : Seat :=
  match e with
  | .cmd cmd => c.handleCmd w frees cmd
  | .commit u => c.applyUpdate w frees u
  -- The clock may not run: then all is released.
  | .target _ _ => frees c
  | .newToplevel x => c.newToplevel x
  | .destroyToplevel x => (c.toplevelDestroyed w frees x).onState (State.resetToplevel x)
  | .setParent x parent => (c.onState (State.setParent x parent)).parentChanged w frees
  | .setAppId x appId => c.onState (State.setAppId x appId)
  | .newPopup x parent => c.onState (State.newPopup x parent)
  | .destroyPopup x => c.popupDestroyed frees x
  | .getSubsurface x parent => c.onState (State.getSubsurface x parent)
  | .destroySubsurface x => c.onState (State.destroySubsurface x)
  | .destroySurface x => c.onState (State.destroySurface x)
  | .clientToken => c.onState (State.clientToken w.toWorld)
  | .activate x value =>
      match c.state.tokens.find? (fun t => t.value == value) with
      | none => c
      | some token => c.requestActivation w frees x token
  | .disconnect client => c.onState fun s =>
      { s with connected := fun d => if d = client then false else s.connected d }
  | .fence _ _ => c
  | .tick => frees c

/-- Whether a request names live objects. The clock ticks at any time. -/
def valid (c : Seat) : Event → Bool
  | .tick => true
  | e => c.state.valid w.toWorld e

end Seat

/-- One op; `depth` bounds how deep what waited nests. -/
def Seat.step (w : SeatWorld) (depth : Nat) (c : Seat) : SeatOp → Seat
  | .event e => if c.valid w e then c.handle w (lets w depth) e else c
  | .viewState v state => c.grant w v fun g => { g with windowState := state }
  | .viewCapabilities v capabilities => c.grant w v fun g => { g with capabilities }
  | .scanoutHint v hint =>
      { c with scanout := c.scanout.scanoutHint w.caps (w.layerId c.state.asked) c.state v hint }

theorem Seat.start_bounded : ∀ id, id ∈ (∅ : Std.TreeMap ToplevelId ToplevelEntry) → id ≤ 0 :=
  fun _ h => absurd h Std.TreeMap.not_mem_emptyc

/-- The ops one after another. -/
def Seat.run (w : SeatWorld) (depth : Nat) (ops : List SeatOp) : Seat :=
  ops.foldl (Seat.step w depth) { state := { toplevels := { bounded := start_bounded } } }

end IhsWl
