import IhsWl.Params.Views
import IhsWl.Seat.Handlers

/-!
# Pointing

Pointer events come for a view, in its logical pixels. What is under a point is looked for in the trees the view shows;
the rest is the seat library's, whose pointer keeps its focus while a grab holds it.
-/

namespace IhsWl

/-- A point, in logical pixels. -/
abbrev Point := Double × Double

/-- `==` -/
def Double.eq (a b : Double) : Bool := !a.isNaN && !b.isNaN && (a == b || (a.isZero && b.isZero))

def samePoint (p q : Point) : Bool := p.1.eq q.1 && p.2.eq q.2

/-- `IhsWlPointerKind` -/
inductive PointerKind where
  | enter
  | leave
  | motion
  | button
  | axis
  deriving DecidableEq, Repr

/-- `IhsWlPointerEvent` -/
structure PointerEvent where
  kind : PointerKind
  position : Point := (.zero, .zero)
  timeUs : Nat := 0
  button : Nat := 0
  pressed : Nat := 0
  axis : Point := (.zero, .zero)
  value120 : Int × Int := (0, 0)
  axisSource : Nat := 0
  deriving DecidableEq, Repr

inductive AxisSource where
  | wheel
  | finger
  | continuous
  | wheelTilt
  deriving DecidableEq, Repr

inductive Axis where
  | horizontal
  | vertical
  deriving DecidableEq, Repr

structure AxisFrame where
  time : Nat
  source : AxisSource
  values : List (Axis × Double) := []
  v120s : List (Axis × Int) := []
  deriving DecidableEq, Repr

/-- A pointer of the seat library, in states `π`. A focus is a surface and where its origin is; `button` is given a code,
whether it was pressed and the time. -/
structure PointerHandle (π : Type) where
  motion : π → Option (WlSurface × Point) → Point → Nat → π
  button : π → Nat → Bool → Nat → π
  axis : π → AxisFrame → π
  frame : π → π
  currentFocus : π → Option WlSurface
  currentLocation : π → Point
  isGrabbed : π → Bool

/-- Without a grab the pointer is where it was last moved. -/
structure PointerHandle.Lawful {π : Type} (d : PointerHandle π) : Prop where
  motion : ∀ p focus position time, d.isGrabbed p = false →
    d.currentFocus (d.motion p focus position time) = focus.map Prod.fst ∧ d.isGrabbed (d.motion p focus position time) = false
  frame : ∀ p, d.currentFocus (d.frame p) = d.currentFocus p ∧ d.isGrabbed (d.frame p) = d.isGrabbed p

/-- A pointer with no grab but the one a press starts. -/
structure ClickPointer where
  focus : Option WlSurface := none
  location : Point := (.zero, .zero)
  pressed : List Nat := []
  deriving DecidableEq, Repr

/-- The pointer that is moved while no button is down. -/
def PointerHandle.click : PointerHandle ClickPointer where
  motion p focus location _ := { p with location, focus := if p.pressed = [] then focus.map Prod.fst else p.focus }
  button p code pressed _ :=
    { p with pressed := if pressed then code :: p.pressed else p.pressed.filter (· ≠ code) }
  axis p _ := p
  frame p := p
  currentFocus := ClickPointer.focus
  currentLocation := ClickPointer.location
  isGrabbed p := !p.pressed.isEmpty

/-- What the pointer asks beside what the seat does: `under` is the surface of a tree that is under a point, and where its
origin is, `clientPoint` a point of a view in its client's logical pixels, and `clientScroll` a scroll distance there. -/
structure PointWorld extends SeatWorld where
  under : Seat → ViewId → WlSurface → Point → Option (WlSurface × Point)
  clientPoint : Seat → ViewId → Point → Point
  clientScroll : Seat → ViewId → Double → Double

/-- What is under a point of a tree is one of its surfaces. -/
def PointWorld.Lawful (w : PointWorld) : Prop := ∀ c v root position x origin,
  w.under c v root position = some (x, origin) → x ∈ c.state.tree root

/-- A seat where every point is on the topmost tree, and views are shown as their clients are. -/
def PointWorld.flat : PointWorld where
  toSeatWorld := .granting
  under _ _ root position := some (root, position)
  clientPoint _ _ position := position
  clientScroll _ _ distance := distance

/-- Protocol times are milliseconds that wrap. -/
def timeMs (timeUs : Nat) : Nat := timeUs / 1000 % 2 ^ 32

structure Pointing (π : Type) where
  seat : Seat
  pointer : π
  /-- The pointer left its view mid-click: nothing is under it once the buttons are up. -/
  left : Bool := false
  /-- The presses and releases, each with the surface the pointer was on. -/
  clicks : List (Option WlSurface × Nat × Bool) := []

inductive PointingOp (π : Type) where
  | pointer (v : ViewId) (ev : PointerEvent)
  | seat (op : SeatOp)
  /-- A grab begins or ends, or a surface goes. -/
  | turns (pointer : π)

namespace Pointing

variable {π : Type} (d : PointerHandle π) (w : PointWorld) (depth : Nat)

/-- The surface under a point of view `v`, and its origin. -/
def surfaceUnder (v : ViewId) (position : Point) (t : Pointing π) : Option (WlSurface × Point) :=
  -- Topmost first.
  (t.seat.state.viewTrees v).reverse.findSome? fun root => w.under t.seat v root position

def pointerInView (v : ViewId) (t : Pointing π) : Bool :=
  (d.currentFocus t.pointer).any fun x => t.seat.state.boundViewOf x == some v

def motion (focus : Option (WlSurface × Point)) (position : Point) (time : Nat) (t : Pointing π) : Pointing π :=
  { t with pointer := d.motion t.pointer focus position time }

def button (code : Nat) (pressed : Bool) (time : Nat) (t : Pointing π) : Pointing π :=
  { t with
    pointer := d.button t.pointer code pressed time
    clicks := t.clicks ++ [(d.currentFocus t.pointer, code, pressed)] }

def frame (t : Pointing π) : Pointing π := { t with pointer := d.frame t.pointer }

/-- The pointer is over what it presses. -/
def approach (v : ViewId) (position : Point) (time : Nat) (t : Pointing π) : Pointing π :=
  if !samePoint (d.currentLocation t.pointer) position || !t.pointerInView d v then
    t.motion d (t.surfaceUnder w v position) position time
  else t

/-- The pointer is moved where it is not already. -/
def refocus (focus : Option (WlSurface × Point)) (position : Point) (time : Nat) (t : Pointing π) : Pointing π :=
  if focus.map Prod.fst ≠ d.currentFocus t.pointer then t.motion d focus position time else t

/-- The implicit grab ends with the last button up, and leaves the focus where the click started. -/
def settle (v : ViewId) (position : Point) (time : Nat) (t : Pointing π) : Pointing π :=
  if d.isGrabbed t.pointer then t
  else t.refocus d (if t.left then none else t.surfaceUnder w v position) position time

/-- How far an event scrolls, each axis that moves. -/
def axisFrame (v : ViewId) (ev : PointerEvent) (t : Pointing π) : AxisFrame where
  time := timeMs ev.timeUs
  source :=
    match ev.axisSource with
    | 1 => .finger
    | 2 => .continuous
    | 3 => .wheelTilt
    | _ => .wheel
  values := [(Axis.horizontal, ev.axis.1), (.vertical, ev.axis.2)].filterMap fun a =>
    if a.2.isZero then none else some (a.1, w.clientScroll t.seat v a.2)
  v120s := [(Axis.horizontal, ev.value120.1), (.vertical, ev.value120.2)].filter fun a => a.2 ≠ 0

def pointerInput (v : ViewId) (ev : PointerEvent) (t : Pointing π) : Pointing π :=
  let time := timeMs ev.timeUs
  let position := w.clientPoint t.seat v ev.position
  match ev.kind with
  | .enter | .motion =>
      let t := { t with left := false }
      (t.motion d (t.surfaceUnder w v position) position time).frame d
  | .leave =>
      -- Leaving one view may come after entering the next.
      if !t.pointerInView d v then t
      -- Mid-click, the implicit grab keeps the focus until the release.
      else (({ t with left := true } : Pointing π).motion d none position time).frame d
  | .button =>
      let t := (t.approach d w v position time).button d ev.button (ev.pressed != 0) time
      (t.settle d w v position time).frame d
  | .axis => ({ t with pointer := d.axis t.pointer (t.axisFrame w v ev) } : Pointing π).frame d

def step (t : Pointing π) : PointingOp π → Pointing π
  | .pointer v ev => t.pointerInput d w v ev
  | .seat op => { t with seat := t.seat.step w.toSeatWorld depth op }
  | .turns pointer => { t with pointer }

/-- The ops one after another. -/
def run (p : π) (ops : List (PointingOp π)) : Pointing π :=
  ops.foldl (step d w depth) { seat := Seat.run w.toSeatWorld depth [], pointer := p }

end Pointing

end IhsWl
