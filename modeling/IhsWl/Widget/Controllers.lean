import Mathlib.Data.Finset.Fold
import IhsWl.Seat.Requests
import IhsWl.Widget

/-!
# Views and their controllers

The widgets that show toplevels, the controllers the app gives them, and what they tell the module. A controller goes
from one view to another as the app rebuilds. The shell's answer to a create may come late.
-/

namespace IhsWl

inductive WaylandWindowState where
  | maximized
  | fullscreen
  deriving DecidableEq, Repr

namespace WaylandWindowState

/-- The `IhsWlWindowState` bit. -/
def bit : WaylandWindowState → Nat
  | maximized => 1
  | fullscreen => 2

end WaylandWindowState

/-- `notified` is what its listeners found each time they were. -/
structure WaylandToplevelController where
  state : Finset WaylandWindowState := ∅
  capabilities : Finset WmCapability := ∅
  viewId : Option ViewId := none
  bound : Bool := false
  client : Option ClientId := none
  notified : List (Bool × Option ClientId) := []

namespace WaylandToplevelController

/-- `_state` as `IhsWlWindowState` bits. -/
def stateBits (c : WaylandToplevelController) : Nat := c.state.fold (· ||| ·) 0 WaylandWindowState.bit

/-- `_capabilities` as `IhsWlCapability` bits. -/
def capabilityBits (c : WaylandToplevelController) : Nat := c.capabilities.fold (· ||| ·) 0 WmCapability.bit

/-- Whose toplevel is shown: `client` is what the module answers. -/
def shown (bound : Bool) (client : ViewId → Option ClientId) (c : WaylandToplevelController) : Option ClientId :=
  if bound then c.viewId.bind client else none

/-- Whether a toplevel is shown, and then whose. -/
def update (bound : Bool) (client : ViewId → Option ClientId) (c : WaylandToplevelController) : WaylandToplevelController :=
  if bound != c.bound || c.shown bound client != c.client then
    { c with bound, client := c.shown bound client, notified := c.notified ++ [(bound, c.shown bound client)] }
  else c

/-- The view this controls, and whether it shows a toplevel; none when detached. -/
def attach (viewId : Option ViewId) (bound : Bool) (client : ViewId → Option ClientId) (c : WaylandToplevelController) :
    WaylandToplevelController :=
  { c with viewId }.update bound client

def setBound (value : Bool) (client : ViewId → Option ClientId) (c : WaylandToplevelController) : WaylandToplevelController :=
  if c.bound != value then c.update value client else c

end WaylandToplevelController

/-- `WaylandToplevelView`: what the app says of it that may change. -/
structure WaylandToplevelView (α : Type) where
  controller : Option Nat
  requestedSize : Option (Size α) := none
  sizeOnScreen : Bool := true
  deriving DecidableEq, Repr

/-- `_WaylandToplevelViewState`. -/
structure WaylandToplevelViewState (α : Type) where
  widget : WaylandToplevelView α
  mounted : Bool := true
  viewId : Option ViewId := none
  watchedId : Option ViewId := none
  bound : Bool := false
  layoutSize : Option (Size α) := none
  deriving DecidableEq, Repr

/-- The size to ask the client for instead of the view's on screen. -/
def WaylandToplevelViewState.askedSize {α : Type} (s : WaylandToplevelViewState α) : Option (Size α) :=
  s.widget.requestedSize.or (if s.widget.sizeOnScreen then none else s.layoutSize)

/-- What the module is told of a view: with its create, or by a call. -/
inductive ToModule (α : Type) where
  | create (v : ViewId) (grants : Grants) (requested : Option (Size α))
  | capabilities (v : ViewId) (bits : Nat)
  | windowState (v : ViewId) (bits : Nat)
  | requestSize (v : ViewId) (size : Option (Size α))
  | close (v : ViewId)
  deriving DecidableEq, Repr

/-- The app's controllers and views. `watched` is `ViewEvents`' and `nextId` Flutter's next view id. `taken` are the
events handed to views and `requests` those passed on to the app; `asks` counts how often the module was asked for a
client. -/
structure App (α : Type) where
  controllers : Nat → WaylandToplevelController := fun _ => {}
  views : Nat → Option (WaylandToplevelViewState α) := fun _ => none
  watched : ViewId → Option Nat := fun _ => none
  nextId : Nat := 0
  told : List (ToModule α) := []
  taken : List (ViewId × Heard) := []
  requests : List (Nat × WindowRequest) := []
  asks : Nat := 0

/-- What the app does, what Flutter does with the widgets `w`, and the events that come. -/
inductive AppOp (α : Type) where
  | windowState (c : Nat) (value : Finset WaylandWindowState)
  | windowCapabilities (c : Nat) (value : Finset WmCapability)
  | close (c : Nat)
  | createState (w : Nat) (widget : WaylandToplevelView α)
  | createView (w : Nat)
  | created (w : Nat)
  | didUpdateWidget (w : Nat) (widget : WaylandToplevelView α)
  | onLayout (w : Nat) (size : Size α)
  | dispatch (v : ViewId) (event : Heard)
  | dispose (w : Nat)

namespace App

variable {α : Type} [DecidableEq α]

def tell (m : ToModule α) (a : App α) : App α := { a with told := a.told ++ [m] }

def modifyController (c : Nat) (f : WaylandToplevelController → WaylandToplevelController) (a : App α) : App α :=
  { a with controllers := Function.update a.controllers c (f (a.controllers c)) }

def modifyView (w : Nat) (f : WaylandToplevelViewState α → WaylandToplevelViewState α) (a : App α) : App α :=
  { a with views := Function.update a.views w ((a.views w).map f) }

-- What the module answers, each time it is asked.
variable (client : Nat → ViewId → Option ClientId)

/-- `_attach` of the controller there may be. -/
def attach (c : Option Nat) (viewId : Option ViewId) (bound : Bool) (a : App α) : App α :=
  match c with
  | none => a
  | some c => { a.modifyController c (·.attach viewId bound (client a.asks)) with asks := a.asks + 1 }

def setBound (c : Option Nat) (value : Bool) (a : App α) : App α :=
  match c with
  | none => a
  | some c => { a.modifyController c (·.setBound value (client a.asks)) with asks := a.asks + 1 }

/-- What the controller sets, or the defaults without one. -/
def grants (c : Option Nat) (a : App α) : Grants :=
  match c with
  | none => {}
  | some c => { capabilities := (a.controllers c).capabilityBits, windowState := (a.controllers c).stateBits }

/-- What the controller sets for the view. -/
def sendController (c : Option Nat) (v : ViewId) (a : App α) : App α :=
  (a.tell (.capabilities v (a.grants c).capabilities)).tell (.windowState v (a.grants c).windowState)

def sendRequestedSize (w : Nat) (a : App α) : App α :=
  match a.views w with
  | none => a
  | some s =>
      match s.viewId with
      | none => a
      | some v => a.tell (.requestSize v s.askedSize)

/-- `onCreatePlatformView`: the id is watched before the create goes out. -/
def createView (w : Nat) (s : WaylandToplevelViewState α) (a : App α) : App α :=
  let v : ViewId := a.nextId
  let a := a.modifyView w fun s => { s with watchedId := some v, bound := false }
  { a with watched := Function.update a.watched v (some w), nextId := a.nextId + 1 }.tell
    (.create v (a.grants s.widget.controller) s.askedSize)

/-- `_created`. -/
def created (w : Nat) (v : ViewId) (s : WaylandToplevelViewState α) (a : App α) : App α :=
  let a := a.modifyView w fun s => { s with viewId := some v }
  let a := a.attach client s.widget.controller (some v) s.bound
  -- As the creation params carried them; the controller may have changed.
  (a.sendController s.widget.controller v).sendRequestedSize w

def didUpdateWidget (w : Nat) (widget : WaylandToplevelView α) (s : WaylandToplevelViewState α) (a : App α) : App α :=
  let a := a.modifyView w fun s => { s with widget }
  let a :=
    if widget.controller ≠ s.widget.controller then
      let a := a.attach client s.widget.controller none false
      let a := a.attach client widget.controller s.viewId s.bound
      match s.viewId with
      | none => a
      | some v => a.sendController widget.controller v
    else a
  if widget.requestedSize ≠ s.widget.requestedSize ∨ widget.sizeOnScreen ≠ s.widget.sizeOnScreen then a.sendRequestedSize w
  else a

def onLayout (w : Nat) (size : Size α) (s : WaylandToplevelViewState α) (a : App α) : App α :=
  let a := a.modifyView w fun s => { s with layoutSize := some size }
  if !s.widget.sizeOnScreen && s.widget.requestedSize.isNone then a.sendRequestedSize w else a

/-- `_onViewEvent`. -/
def onViewEvent (w : Nat) (event : Heard) (s : WaylandToplevelViewState α) (a : App α) : App α :=
  match event with
  | .request r =>
      match s.widget.controller with
      | none => a
      | some c => { a with requests := a.requests ++ [(c, r)] }
  | .event e =>
      let bound := e == .bound
      (a.modifyView w fun s => { s with bound }).setBound client s.widget.controller bound

def dispose (w : Nat) (s : WaylandToplevelViewState α) (a : App α) : App α :=
  let a :=
    match s.watchedId with
    | none => a
    | some v => { a with watched := Function.update a.watched v none }
  (a.modifyView w fun s => { s with mounted := false }).attach client s.widget.controller none false

/-- The view, if Flutter has it still. -/
def mounted (w : Nat) (a : App α) : Option (WaylandToplevelViewState α) := (a.views w).filter fun s => s.mounted

def step (a : App α) : AppOp α → App α
  | .windowState c value =>
      if value = (a.controllers c).state then a
      else
        let a := a.modifyController c fun c => { c with state := value }
        match (a.controllers c).viewId with
        | none => a
        | some v => a.tell (.windowState v (a.controllers c).stateBits)
  | .windowCapabilities c value =>
      if value = (a.controllers c).capabilities then a
      else
        let a := a.modifyController c fun c => { c with capabilities := value }
        match (a.controllers c).viewId with
        | none => a
        | some v => a.tell (.capabilities v (a.controllers c).capabilityBits)
  | .close c =>
      match (a.controllers c).viewId with
      | none => a
      | some v => if (a.controllers c).bound then a.tell (.close v) else a
  | .createState w widget =>
      if (a.views w).isSome then a else { a with views := Function.update a.views w (some { widget }) }
  | .createView w =>
      match a.mounted w with
      | none => a
      | some s => if s.watchedId.isSome then a else a.createView w s
  | .created w =>
      match a.views w with
      | none => a
      | some s =>
          match s.watchedId, s.viewId with
          | some v, none => a.created client w v s
          | _, _ => a
  | .didUpdateWidget w widget =>
      match a.mounted w with
      | none => a
      | some s => a.didUpdateWidget client w widget s
  | .onLayout w size =>
      match a.mounted w with
      | none => a
      | some s => a.onLayout w size s
  | .dispatch v event =>
      match a.watched v with
      | none => a
      | some w =>
          match a.views w with
          | none => a
          | some s => { a.onViewEvent client w event s with taken := a.taken ++ [(v, event)] }
  | .dispose w =>
      match a.mounted w with
      | none => a
      | some s => a.dispose client w s

/-- The ops one after another, from before there is a view. -/
def run (ops : List (AppOp α)) : App α := ops.foldl (step client) {}

end App

end IhsWl
