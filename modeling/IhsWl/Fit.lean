import Mathlib.Logic.Function.Basic
import IhsWl.Base

/-!
# Where a client's content sits in its view

The fit is worked out for input whenever it is needed, and for the layers when they are submitted.
-/

namespace IhsWl

/-- What the fit computes with. Nothing depends on how it rounds. -/
class Floats (F : Type) extends Add F, Sub F, Mul F, Div F, Min F where
  ofInt : Int → F
  /-- `round() as i32`. -/
  round : F → Int
  /-- Finite and above zero. -/
  usable : F → Bool

/-- Where the client's logical space sits in its view: scaled about the view's origin, then moved. -/
structure Fit (F : Type) where
  scale : F
  offset : F × F
  deriving DecidableEq

variable {F : Type} [Floats F]

open Floats

namespace Fit

def identity : Fit F := ⟨ofInt 1, (ofInt 0, ofInt 0)⟩

/-- `requested` scaled to fit `view`, aspect kept, centered. -/
def contain (view : F × F) (requested : Int × Int) : Fit F :=
  let rw := ofInt requested.1
  let rh := ofInt requested.2
  let scale := min (view.1 / rw) (view.2 / rh)
  if usable scale then
    { scale := scale, offset := ((view.1 - rw * scale) / ofInt 2, (view.2 - rh * scale) / ofInt 2) }
  else identity

/-- A point of the client's logical space, in the view's. -/
def toView (f : Fit F) (p : F × F) : F × F := (p.1 * f.scale + f.offset.1, p.2 * f.scale + f.offset.2)

/-- A point of the view, in the client's logical space. -/
def toClient (f : Fit F) (p : F × F) : F × F := ((p.1 - f.offset.1) / f.scale, (p.2 - f.offset.2) / f.scale)

end Fit

/-- What a view's fit depends on, and its submissions. -/
structure FitView (F : Type) where
  size : Option (Int × Int)
  dpr : F
  requested : Option (Int × Int)
  /-- The surface of the toplevel it shows. -/
  root : Option WlSurface := none
  seq : Nat := 0
  cleared : Bool := false

namespace FitView

/-- Its size in logical pixels. -/
def logicalSize (e : FitView F) : Option (Int × Int) :=
  e.size.map fun size => (round (ofInt size.1 / e.dpr), round (ofInt size.2 / e.dpr))

/-- The size its client is configured to. -/
def clientSize (e : FitView F) : Option (Int × Int) := e.requested <|> e.logicalSize

/-- Where the content of its client's `window` sits in it: the size asked for, or the window where it is larger. -/
def fit (e : FitView F) (window : Option (Int × Int)) : Fit F :=
  match e.size, e.clientSize with
  | some size, some asked =>
      let content := match window with
        | none => asked
        | some w => (max asked.1 w.1, max asked.2 w.2)
      if e.requested.isNone ∧ some content = e.logicalSize then Fit.identity
      else Fit.contain (ofInt size.1 / e.dpr, ofInt size.2 / e.dpr) content
  | _, _ => Fit.identity

/-- Whether the window is larger than asked. -/
def oversized (e : FitView F) (window : Option (Int × Int)) : Bool :=
  match e.clientSize, window with
  | some asked, some w => asked.1 < w.1 || asked.2 < w.2
  | _, _ => false

/-- Whether the last frame the shell accepted of it has layers. -/
def shows (e : FitView F) : Bool := e.seq > 0 && !e.cleared

end FitView

/-- The views, which view a toplevel's surface is bound in, the window geometry committed for it, and the fit the
layers of a view's last accepted frame were placed with. -/
structure Layouts (F : Type) where
  views : ViewId → Option (FitView F) := fun _ => none
  boundIn : WlSurface → Option ViewId := fun _ => none
  geometry : WlSurface → Option (Int × Int) := fun _ => none
  placed : ViewId → Option (Fit F) := fun _ => none

/-- What the shell is offered: whether the scene has layers, and whether it accepts what it is handed. -/
structure Offer where
  layers : Bool
  accepted : Bool

/-- What happens to views and windows. The first flag of `creates`, and that of `disposes` and `unbinds`, is whether
the shell accepts to show nothing in the view before. -/
inductive LayoutOp (F : Type) where
  | creates (v : ViewId) (clears : Bool) (size : Option (Int × Int)) (dpr : F) (requested : Option (Int × Int))
      (picked : Option WlSurface) (a : Offer)
  | disposes (v : ViewId) (clears : Bool)
  | binds (v : ViewId) (x : WlSurface) (a : Offer)
  | unbinds (v : ViewId) (clears : Bool)
  | resizes (v : ViewId) (size : Int × Int) (a : Offer)
  | requests (v : ViewId) (size : Option (Int × Int)) (a : Offer)
  | commits (x : WlSurface) (geometry : Option (Int × Int)) (a : Offer)
  | submits (v : ViewId) (a : Offer)

namespace Layouts

def setView (v : ViewId) (e : FitView F) (s : Layouts F) : Layouts F :=
  { s with views := Function.update s.views v (some e) }

/-- The size of the window view `v` shows, once its client set one. -/
def window (s : Layouts F) (e : FitView F) : Option (Int × Int) := e.root.bind s.geometry

/-- Where view `v`'s client content sits in it. -/
def viewFit (s : Layouts F) (v : ViewId) : Fit F :=
  match s.views v with
  | none => Fit.identity
  | some e => e.fit (s.window e)

/-- A point of view `v`, as its client is told it. -/
def clientPoint (s : Layouts F) (v : ViewId) (p : F × F) : F × F := (s.viewFit v).toClient p

/-- Show nothing in `v`. -/
def clearView (v : ViewId) (accepted : Bool) (s : Layouts F) : Layouts F :=
  match s.views v with
  | none => s
  | some e =>
      if e.cleared ∨ e.seq = 0 then s
      else if accepted then
        { s.setView v { e with seq := e.seq + 1, cleared := true } with placed := Function.update s.placed v none }
      else s

/-- Hand the view's scene to the shell, placed at its fit. -/
def submitView (v : ViewId) (a : Offer) (s : Layouts F) : Layouts F :=
  match s.views v with
  | none => s
  | some e =>
      if e.root.isNone then s
      else if !a.layers then s.clearView v a.accepted
      else if a.accepted then
        { s.setView v { e with seq := e.seq + 1, cleared := false } with
          placed := Function.update s.placed v (some (s.viewFit v)) }
      else s

/-- Bind `v` to the toplevel of `x` if neither is bound. -/
def bindView (v : ViewId) (x : WlSurface) (a : Offer) (s : Layouts F) : Layouts F :=
  match s.views v with
  | none => s
  | some e =>
      if e.root.isSome ∨ (s.boundIn x).isSome then s
      else
        submitView v a
          { s.setView v { e with root := some x } with boundIn := Function.update s.boundIn x (some v) }

/-- The view lets its toplevel go, once it shows nothing. -/
def unlink (v : ViewId) (s : Layouts F) : Layouts F :=
  match s.views v with
  | none => s
  | some e =>
      { s.setView v { e with root := none } with
        boundIn := match e.root with
          | none => s.boundIn
          | some x => Function.update s.boundIn x none }

def unbindView (v : ViewId) (clears : Bool) (s : Layouts F) : Layouts F := (s.clearView v clears).unlink v

/-- A new view has shown nothing yet. -/
def viewCreated (v : ViewId) (clears : Bool) (size : Option (Int × Int)) (dpr : F) (requested : Option (Int × Int))
    (picked : Option WlSurface) (a : Offer) (s : Layouts F) : Layouts F :=
  let s := s.unbindView v clears
  let s := { s.setView v { size := size, dpr := dpr, requested := requested } with
    placed := Function.update s.placed v none }
  match picked with
  | none => s
  | some x => s.bindView v x a

def viewDisposed (v : ViewId) (clears : Bool) (s : Layouts F) : Layouts F :=
  let s := s.unbindView v clears
  { s with views := Function.update s.views v none, placed := Function.update s.placed v none }

/-- Show what view `v` last showed at its current fit. -/
def refitView (v : ViewId) (a : Offer) (s : Layouts F) : Layouts F :=
  match s.views v with
  | none => s
  | some e => if e.shows then s.submitView v a else s

/-- The client keeps a size the view requested, so only then its content is moved here. -/
def viewResized (v : ViewId) (size : Int × Int) (a : Offer) (s : Layouts F) : Layouts F :=
  match s.views v with
  | none => s
  | some e =>
      let s := s.setView v { e with size := some size }
      if e.requested.isSome then s.refitView v a else s

def viewRequestSize (v : ViewId) (size : Option (Int × Int)) (a : Offer) (s : Layouts F) : Layouts F :=
  match s.views v with
  | none => s
  | some e => if e.requested = size then s else (s.setView v { e with requested := size }).refitView v a

/-- A commit of the toplevel of `x` was applied, with the window geometry it then has. -/
def commit (x : WlSurface) (geometry : Option (Int × Int)) (a : Offer) (s : Layouts F) : Layouts F :=
  let s := { s with geometry := Function.update s.geometry x geometry }
  match s.boundIn x with
  | none => s
  | some v => s.submitView v a

def step (s : Layouts F) : LayoutOp F → Layouts F
  | .creates v clears size dpr requested picked a => s.viewCreated v clears size dpr requested picked a
  | .disposes v clears => s.viewDisposed v clears
  | .binds v x a => s.bindView v x a
  | .unbinds v clears => s.unbindView v clears
  | .resizes v size a => s.viewResized v size a
  | .requests v size a => s.viewRequestSize v size a
  | .commits x geometry a => s.commit x geometry a
  | .submits v a => s.submitView v a

def run (ops : List (LayoutOp F)) : Layouts F := ops.foldl step {}

/-- Nothing moves the content of a view that shows layers, or it is submitted again and accepted. A view that did
not request a size is not submitted when it is resized. -/
def replaces (s : Layouts F) : LayoutOp F → Bool
  | .creates .. | .disposes .. | .submits .. => true
  | .binds v x a => (s.views v).all fun e =>
      e.root.isSome || (s.boundIn x).isSome || !e.shows || a.accepted || !e.oversized (s.geometry x)
  | .unbinds v clears => (s.views v).all fun e => !e.shows || clears || !e.oversized (s.window e)
  | .resizes v size a => (s.views v).all fun e => !e.shows || e.size == some size ||
      if e.requested.isSome then e.root.isSome && a.accepted
      else !e.oversized (s.window e) && !({ e with size := some size } : FitView F).oversized (s.window e)
  | .requests v size a => (s.views v).all fun e => !e.shows || e.requested == size || (e.root.isSome && a.accepted)
  | .commits x geometry a => s.geometry x == geometry || (s.boundIn x).all fun v => (s.views v).all fun e =>
      !e.shows || a.accepted || (!e.oversized (s.geometry x) && !e.oversized geometry)

end Layouts

end IhsWl
