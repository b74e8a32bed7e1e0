import IhsWl.Scanout
import IhsWl.Server.Handlers

/-!
# The seat

What the handlers tell a client beside its frames: the states of its windows, the keyboard, and the feedback of its
surfaces. Submissions, frames and the clock are the server's; of these it only matters here that they let through
commits that waited.
-/

namespace IhsWl

inductive WmCapability where
  | maximize
  | minimize
  | fullscreen
  deriving DecidableEq, Repr

/-- A toplevel's pending state. It is tiled on every edge or on none. -/
structure Pending where
  size : Option (Int × Int) := none
  capabilities : List WmCapability := []
  tiled : Bool := false
  maximized : Bool := false
  fullscreen : Bool := false
  activated : Bool := false
  suspended : Bool := false
  deriving DecidableEq, Repr

/-- An `xdg_toplevel`: its pending state, and the states it was configured with, the first not before the client's
first commit. -/
structure XdgToplevel where
  pending : Pending := {}
  configures : List Pending := []
  deriving DecidableEq, Repr

/-- The window-state changes a view's app handles (`IhsWlCapability` bits) and the states it grants
(`IhsWlWindowState` bits). -/
structure Grants where
  capabilities : Nat := 0
  windowState : Nat := 0
  deriving DecidableEq, Repr

/-- What else the handlers ask. `tiles` is whether the surface's client knows the tiled states, `logical` a view's
size in logical pixels, and `layerId` what a surface's layer goes by, once it had one. -/
structure SeatWorld extends World where
  keyboard : Bool
  tiles : WlSurface → Bool
  grants : ViewHandle → Grants
  logical : ViewHandle → Int × Int → Int × Int
  layerId : Nat → WlSurface → Option Nat
  caps : Caps

/-- A seat with a keyboard, whose layers go by their surfaces, and a shell that imports one format. -/
def SeatWorld.granting : SeatWorld where
  toWorld := .granting
  keyboard := true
  tiles _ := true
  grants _ := {}
  logical _ size := size
  layerId _ x := some x
  caps := { renderDevice := some 0, formats := [(1, 0)], defaults := true, builds := fun _ => true }

structure Seat where
  state : State := {}
  windows : ToplevelId → XdgToplevel := fun _ => {}
  grants : ViewId → Grants := fun _ => {}
  /-- `current_focus`. -/
  focus : Option WlSurface := none
  scanout : Scanout := {}

/-- What the seat hears of: an event of the server, what the app grants, and the shell's hints. -/
inductive SeatOp where
  | event (e : Event)
  | viewState (v : ViewId) (state : Nat)
  | viewCapabilities (v : ViewId) (capabilities : Nat)
  | scanoutHint (v : ViewId) (hint : Hint)
  deriving DecidableEq, Repr

/-- Barriers may have been cleared: what waited on them is applied. -/
abbrev Frees := Seat → Seat

namespace State

/-- The window of view `v` that has the keyboard: its topmost. -/
def focusWindow (s : State) (v : ViewId) : Option WlSurface := (s.viewWindows v).getLast?

/-- Whether the toplevel view `v` shows is the active window: the view has the focus and is in the scene. -/
def viewActivated (s : State) (v : ViewId) : Bool := s.focusedView == some v && (s.view v).any fun e => !e.suspended

/-- The view the toplevel `x` belongs to, if there is one. -/
def homeOf (s : State) (x : WlSurface) : Option ViewId := (s.boundViewOf x).filter fun v => (s.view v).isSome

/-- What `sync_states` has the toplevel `x` activated by: of a view's windows, the topmost is the active one. -/
def activates (s : State) (x : WlSurface) : Bool :=
  (s.homeOf x).any fun v => s.viewActivated v && s.focusWindow v == some x

/-- What `sync_states` has the toplevel `x` suspended by. -/
def suspends (s : State) (x : WlSurface) : Bool :=
  (s.homeOf x).any fun v => (s.view v).any ViewEntry.suspended

/-- Where the keyboard goes: to the topmost window of the focused view, while that is in the scene. -/
def target (s : State) : Option WlSurface :=
  (s.focusedView.filter fun v => (s.view v).any fun e => !e.suspended).bind s.focusWindow

end State

namespace Seat

variable (w : SeatWorld) (frees : Frees)

def onState (f : State → State) (c : Seat) : Seat := { c with state := f c.state }

/-! ## States -/

/-- The toplevel's pending state changes. A change is sent once the client had its first configure. -/
def withPending (id : ToplevelId) (f : Pending → Pending) (c : Seat) : Seat :=
  let t := c.windows id
  let pending := f t.pending
  let configures :=
    if pending ≠ t.pending ∧ t.configures ≠ [] then t.configures ++ [pending] else t.configures
  { c with windows := fun i => if i = id then { pending, configures } else c.windows i }

/-- Give the toplevel the activated and suspended states it should have now. -/
def syncToplevel (c : Seat) (id : ToplevelId) : Seat :=
  match c.state.toplevel id with
  | none => c
  | some t => c.withPending id fun p =>
      { p with activated := c.state.activates t.surface, suspended := c.state.suspends t.surface }

def syncStates (c : Seat) : Seat := c.state.toplevels.byId.keys.foldl syncToplevel c

/-- Point the keyboard, and the activated state, at what the focused view shows now, and mark suspended toplevels. -/
def refreshKeyboardFocus (c : Seat) : Seat :=
  let c := c.syncStates
  if w.keyboard then { c with focus := c.state.target } else c

def wmCapabilities (mask : Nat) : List WmCapability :=
  ([(1, WmCapability.maximize), (2, .minimize), (4, .fullscreen)].filter fun c => mask &&& c.1 != 0).map Prod.snd

/-- The size the view's client is configured to: the requested size, else the view's own. -/
def clientSize (e : ViewEntry) : Option (Int × Int) := e.requested <|> e.size.map (w.logical e.handle)

/-- The states `configure_view` gives the toplevel `t` of view `v`. -/
def configured (v : ViewId) (e : ViewEntry) (id : ToplevelId) (t : ToplevelEntry) (size : Int × Int) (c : Seat)
    (p : Pending) : Pending :=
  let fullscreen := (c.grants v).windowState &&& 2 != 0
  let tiled := w.tiles t.surface
  { p with
    size := some (max size.1 1, max size.2 1)
    capabilities := wmCapabilities (c.grants v).capabilities
    tiled := tiled
    maximized := (c.grants v).windowState &&& 1 != 0 || (!tiled && !fullscreen)
    fullscreen := fullscreen
    activated := c.state.viewActivated v && (c.state.focusWindow v).any fun x => c.state.idOf x == some id
    suspended := e.suspended }

/-- Size the view's toplevel to its client size. -/
def configureView (v : ViewId) (c : Seat) : Seat :=
  match c.state.view v with
  | none => c
  | some e =>
      match e.toplevel, clientSize w e with
      | some id, some size =>
          match c.state.toplevel id with
          | none => c
          | some t => c.withPending id (c.configured w v e id t size)
      | _, _ => c

/-! ## Binding -/

/-- The view's layers are handed to the shell, if it shows a toplevel. -/
def submitView (v : ViewId) (c : Seat) : Seat :=
  match c.state.viewRoot v with
  | none => c
  | some _ => frees c

def tryBindView (c : Seat) (v : ViewId) : Seat :=
  match c.state.view v with
  | none => c
  | some e =>
      if e.toplevel.isSome then c
      else
        match c.state.pick w.toWorld e.handle.params with
        | none => c
        | some t =>
            (((c.onState (State.link v t)).configureView w v).refreshKeyboardFocus w).submitView frees v

def bindWaitingViews (c : Seat) : Seat := c.state.waiting.foldl (tryBindView w frees) c

/-- The view shows nothing more: what its frames held is cleared. -/
def dropFrames (v : ViewId) (c : Seat) : Seat :=
  match c.state.view v with
  | none => c
  | some _ => frees c

/-- Break the view's binding. -/
def unbindView (v : ViewId) (c : Seat) : Seat :=
  let c := ({ c with scanout := c.scanout.forgetScanout w.caps c.state v } : Seat).dropFrames frees v
  match c.state.view v with
  | none => c
  | some _ => (c.onState (State.unlink v)).refreshKeyboardFocus w

def unbindToplevel (id : ToplevelId) (c : Seat) : Seat :=
  match (c.state.toplevel id).bind ToplevelEntry.view with
  | none => c
  | some v => (c.unbindView w frees v).onState (State.log · [.posted .closed v])

/-! ## Commits -/

/-- The toplevel's first configure goes at its first commit. -/
def sendInitial (id : ToplevelId) (c : Seat) : Seat :=
  { c with windows := fun i =>
      if i = id ∧ (c.windows i).configures = [] then { c.windows i with configures := [(c.windows i).pending] }
      else c.windows i }

def toplevelCommit (x : WlSurface) (c : Seat) : Seat :=
  match c.state.idOf x with
  | none => c
  | some id =>
      match c.state.toplevel id with
      | none => c
      | some t =>
          let c := c.sendInitial id
          if t.mapped then c
          else ((c.onState (State.markMapped id)).bindWaitingViews w frees).refreshKeyboardFocus w

def commit (sync : Bool) (x : WlSurface) (c : Seat) : Seat :=
  if sync then c
  else
    let c := c.toplevelCommit w frees x
    match c.state.boundViewOf x with
    | some v => c.submitView frees v
    -- The barriers of what no view shows may all be let go.
    | none => frees c

def applyCommit (main : Commit) (sync : Bool) (c : Seat) (of : Commit) : Seat :=
  if c.state.committable w.toWorld of.surface then
    c.commit w frees (sync && c.state.isSync w.toWorld main of) of.surface
  else c

def applyUpdate (c : Seat) (u : Update) : Seat :=
  (u.synced.foldl (applyCommit w frees u.main true) c).applyCommit w frees u.main false u.main

end Seat

/-- What waited on barriers is applied, and lets others through in turn, `depth` deep. -/
def lets (w : SeatWorld) : Nat → Frees
  | 0, c => c
  | depth + 1, c => (w.applied c.state.asked).foldl (Seat.applyUpdate w (lets w depth)) (c.onState State.ask)

end IhsWl
