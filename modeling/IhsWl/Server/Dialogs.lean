import IhsWl.Lib.Round
import IhsWl.Server.Scene

/-!
# Where dialogs are

The windows of a view with where each is: its toplevel at the view's origin, each dialog centered over its parent and
kept inside the view.
-/

namespace IhsWl

/-- A window of a view's scene, and where its geometry's origin lands in the view. -/
abbrev Window := WlSurface × (Int × Int)

/-- The sizes windows are placed by: the geometry a client set for a surface, what its tree covers, and the size a
view's client is configured to. -/
structure WindowSizes where
  geometry : WlSurface → Option (Int × Int)
  bbox : WlSurface → Int × Int
  clientSize : ViewId → Option (Int × Int)

/-- The size of a surface's window: its geometry, or what its tree covers before it set one. -/
def WindowSizes.windowSize (g : WindowSizes) (x : WlSurface) : Int × Int := (g.geometry x).getD (g.bbox x)

/-- The size dialogs are kept inside of: the view's, or its toplevel's before it has one. -/
def WindowSizes.bounds (g : WindowSizes) (v : ViewId) (root : WlSurface) : Int × Int :=
  (g.clientSize v).getD (g.windowSize root)

/-- An `i32`, unless it overflows. -/
def i32 (n : Int) : Option Int := Round.checked i32Min i32Max n

/-- `i32::clamp`, which takes a range. -/
def clampI32 (n lo hi : Int) : Option Int := if lo ≤ hi then some (Round.clamp lo hi n) else none

/-- One axis of a dialog of `size`, over a parent of `parent` at `base`. Division cuts towards zero. -/
def placeAxis (bounds base parent size : Int) : Option Int := do
  let room ← i32 (parent - size)
  let middle ← i32 (base + room.tdiv 2)
  let last ← i32 (bounds - size)
  clampI32 middle 0 (max last 0)

namespace State

variable (s : State) (g : WindowSizes)

/-- The windows with dialog `t` over them, if it is one of `root`'s and its parent is among them. -/
def placeDialog (root : WlSurface) (bounds : Int × Int) (windows : List Window) (t : ToplevelEntry) :
    Option (List Window) :=
  match (s.surfaces t.surface).parent with
  | none => some windows
  | some parent =>
      if !t.mapped ∨ s.windowRoot t.surface ≠ root then some windows
      else
        match windows.find? fun window => window.1 = s.toplevelOf parent with
        | none => some windows
        | some (_, base) => do
            let parentSize := g.windowSize (s.toplevelOf parent)
            let size := g.windowSize t.surface
            let x ← placeAxis bounds.1 base.1 parentSize.1 size.1
            let y ← placeAxis bounds.2 base.2 parentSize.2 size.2
            some (windows ++ [(t.surface, (x, y))])

/-- The windows `v` shows of the toplevels `ts`, bottom to top, unless a sum overflows. -/
def placedWindows (v : ViewId) (ts : List ToplevelEntry) : Option (List Window) :=
  match s.viewRoot v with
  | none => some []
  | some root => ts.foldlM (s.placeDialog g root (g.bounds v root)) [(root, (0, 0))]

end State

end IhsWl
