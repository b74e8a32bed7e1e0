import Mathlib.Logic.Function.Basic
import IhsWl.Base
import IhsWl.Lib.Runs

/-!
# The widget's view controller

`_ToplevelViewController` of the widget, which has the shell create the view and dispose of it. Creation waits twice:
for the scale the view is drawn at, and for the shell's answer. Every call runs to its next wait before another one.
-/

namespace IhsWl

structure Size (α : Type) where
  width : α
  height : α
  deriving DecidableEq, Repr

structure Offset (α : Type) where
  dx : α
  dy : α
  deriving DecidableEq, Repr

/-- What the controller has the shell and the module do. `creationParams` and the view's id are the same in all. -/
inductive ToShell (α : Type) where
  | create (width height : α)
  | resize (size : Size α)
  | dispose
  | setViewScale (scale : Offset α)
  | onCreated
  deriving DecidableEq, Repr

def ToShell.isCreate {α : Type} : ToShell α → Bool
  | .create .. => true
  | _ => false

/-- How far `_creation` is, with the size the view was laid out at. -/
inductive Creation (α : Type) where
  | none
  | measuring (laidOut : Option (Size α))
  | creating (laidOut : Option (Size α))
  | ended
  deriving DecidableEq, Repr

/-- `sent` is in order. -/
structure ToplevelViewController (α : Type) where
  scale : Offset α
  measured : Bool
  creation : Creation α := .none
  created : Bool := false
  sentSize : Option (Size α) := none
  laidOut : Option (Size α) := none
  sent : List (ToShell α) := []

/-- The calls on a controller, and the waits of its creation that end: the scale is known, and the shell answered the
create, with a view or an error. -/
inductive ViewCall (α : Type) where
  | create (size : Option (Size α))
  | laidOut (size : Size α)
  | drawnAt (scale : Offset α)
  | dispose
  | measured
  | replied (ok : Bool)
  deriving DecidableEq, Repr

namespace ToplevelViewController

variable {α : Type}

/-- `scale` is the one the view is known to be drawn at. -/
def new [One α] (scale : Option (Offset α)) : ToplevelViewController α :=
  { scale := scale.getD ⟨1, 1⟩, measured := scale.isSome }

def send (c : ToplevelViewController α) (m : ToShell α) : ToplevelViewController α := { c with sent := c.sent ++ [m] }

/-- A size laid out, as it is on screen. -/
def onScreen [Mul α] (c : ToplevelViewController α) (size : Size α) : Size α :=
  ⟨size.width * c.scale.dx, size.height * c.scale.dy⟩

def resize (c : ToplevelViewController α) (size : Size α) : ToplevelViewController α :=
  { c with sentSize := some size }.send (.resize size)

variable [Mul α] [BEq α]

def sameSize (size : Size α) : Option (Size α) → Bool
  | some s => size.width == s.width && size.height == s.height
  | none => false

def sendSize (c : ToplevelViewController α) : ToplevelViewController α :=
  match c.laidOut with
  | some laidOut =>
      if c.created && !sameSize (c.onScreen laidOut) c.sentSize then c.resize (c.onScreen laidOut) else c
  | none => c

def create (c : ToplevelViewController α) (size : Option (Size α)) : ToplevelViewController α :=
  match c.creation with
  | .none => { c with creation := .measuring size }
  | _ => c

/-- The view was laid out: tell the shell if it has another size. -/
def layOut (c : ToplevelViewController α) (size : Size α) : ToplevelViewController α :=
  sendSize { c with laidOut := some size }

/-- The view is drawn `scale` times its layout size on screen. -/
def drawnAt (c : ToplevelViewController α) (scale : Offset α) : ToplevelViewController α :=
  let c := { c with measured := true }
  if scale.dx == c.scale.dx && scale.dy == c.scale.dy then c
  else
    let c := { c with scale := scale }
    sendSize (if c.created then c.send (.setViewScale scale) else c)

variable [Zero α] [One α]

/-- `_createOnce`, from where the scale is known to the create. -/
def createMeasured (c : ToplevelViewController α) : ToplevelViewController α :=
  match c.creation with
  | .measuring laidOut =>
      if c.measured then
        let size := laidOut.map c.onScreen
        { c with sentSize := size, creation := .creating laidOut }.send
          (.create ((size.map Size.width).getD 0) ((size.map Size.height).getD 0))
      else c
  | _ => c

/-- `_createOnce`, from the shell's answer on. An error is thrown out of it. -/
def createReplied (c : ToplevelViewController α) (ok : Bool) : ToplevelViewController α :=
  match c.creation with
  | .creating laidOut =>
      let c := { c with creation := .ended }
      if ok then
        let c := ({ c with created := true }.send (.setViewScale c.scale)).send .onCreated
        -- Laid out again, or drawn at another scale, while the create was in flight.
        sendSize { c with laidOut := c.laidOut.or laidOut }
      else c
  | _ => c

def dispose (c : ToplevelViewController α) : ToplevelViewController α :=
  if !c.created then c else (c.send (.setViewScale ⟨1, 1⟩)).send .dispose

def step (c : ToplevelViewController α) : ViewCall α → ToplevelViewController α
  | .create size => c.create size
  | .laidOut size => c.layOut size
  | .drawnAt scale => c.drawnAt scale
  | .dispose => c.dispose
  | .measured => c.createMeasured
  | .replied ok => c.createReplied ok

def run (scale : Option (Offset α)) (calls : List (ViewCall α)) : ToplevelViewController α := calls.foldl step (new scale)

/-- The creates sent. -/
def creates (c : ToplevelViewController α) : List (ToShell α) := c.sent.filter ToShell.isCreate

/-- Whether a wait of the creation ends with the call: for the scale, or for the shell's view. -/
def goesOn (c : ToplevelViewController α) : ViewCall α → Bool
  | .measured => match c.creation with
      | .measuring _ => c.measured
      | _ => false
  | .replied ok => match c.creation with
      | .creating _ => ok
      | _ => false
  | _ => false

end ToplevelViewController

/-! ## Input -/

/-- `WaylandInput`: the scales of the views that are not drawn at 1. -/
structure WaylandInput (α : Type) where
  scales : ViewId → Option (Offset α) := fun _ => none

namespace WaylandInput

variable {α : Type}

/-- The view is drawn `scale` times its layout size on screen. -/
def setViewScale [One α] [DecidableEq α] (i : WaylandInput α) (viewId : ViewId) (scale : Offset α) : WaylandInput α :=
  { scales := Function.update i.scales viewId (if scale = ⟨1, 1⟩ then none else some scale) }

/-- An offset over the view's layout, as it is on screen. -/
def onScreen [Mul α] (i : WaylandInput α) (viewId : ViewId) (offset : Offset α) : Offset α :=
  match i.scales viewId with
  | none => offset
  | some scale => ⟨offset.dx * scale.dx, offset.dy * scale.dy⟩

/-- What the view's controller tells. -/
def hear [One α] [DecidableEq α] (viewId : ViewId) (i : WaylandInput α) : ToShell α → WaylandInput α
  | .setViewScale scale => i.setViewScale viewId scale
  | _ => i

end WaylandInput

end IhsWl
