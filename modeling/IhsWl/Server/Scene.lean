import IhsWl.Lib.Climb
import IhsWl.Server.State

/-!
# Scenes

A view shows its toplevel, then the dialogs over it, each with its popups above it. A surface is routed
the other way: up its subsurface and popup parents to a toplevel, then up the dialogs' parents.
-/

namespace IhsWl

/-- Parents followed at most: a loop in a client's parents ends here. -/
def maxDepth : Nat := 16

namespace State

variable (s : State)

/-! ## Trees -/

def subParent (x : WlSurface) : Option WlSurface := s.subsurfaces.lookup x

/-- The surface `x`'s tree is rooted at: `get_parent`, until there is none. -/
def rootOf (x : WlSurface) : WlSurface := Climb.climb s.subParent s.subsurfaces.length x

/-- The surfaces of the tree at `root`. -/
def tree (root : WlSurface) : List WlSurface :=
  root :: (s.subsurfaces.map Prod.fst).filter fun x => x ≠ root ∧ s.rootOf x = root

/-- The toplevel `x` belongs to: through its subsurface parents, then its popup parents. -/
def toplevelOf (x : WlSurface) : WlSurface :=
  let root := s.rootOf x
  if (s.surfaces root).role = some .popup then
    match s.popups.find? (fun p => p.surface = root) with
    | some p => p.root
    | none => root
  else root

/-! ## Routing -/

/-- The toplevel id in the surface's data. -/
def idOf (x : WlSurface) : Option ToplevelId := (s.surfaces x).toplevelId

/-- The window `x`, a dialog, is shown over. -/
def windowAbove (x : WlSurface) : Option WlSurface :=
  ((s.idOf x).bind s.toplevel).bind fun t => (s.surfaces t.surface).parent.map s.toplevelOf

/-- The toplevel surface `x` is shown with. -/
def windowRoot (x : WlSurface) : WlSurface := Climb.climb s.windowAbove maxDepth (s.toplevelOf x)

/-- The view showing the toplevel `x` belongs to, popups and dialogs included. -/
def boundViewOf (x : WlSurface) : Option ViewId :=
  ((s.idOf (s.windowRoot x)).bind s.toplevel).bind ToplevelEntry.view

/-! ## Scenes -/

/-- The toplevel surface view `v` shows. -/
def viewRoot (v : ViewId) : Option WlSurface :=
  (((s.view v).bind ViewEntry.toplevel).bind s.toplevel).map ToplevelEntry.surface

/-- `t` joins the windows over `root` when it is a mapped dialog of one of them. -/
def addDialog (root : WlSurface) (windows : List WlSurface) (t : ToplevelEntry) : List WlSurface :=
  match (s.surfaces t.surface).parent with
  | none => windows
  | some parent =>
      if !t.mapped ∨ s.windowRoot t.surface ≠ root then windows
      else if s.toplevelOf parent ∈ windows then windows ++ [t.surface]
      else windows

/-- The windows over `root`, bottom to top: in one pass over the toplevels, by id. -/
def windowsOver (root : WlSurface) : List WlSurface :=
  (s.toplevels.byId.keys.filterMap s.toplevel).foldl (s.addDialog root) [root]

/-- The windows view `v` shows: its toplevel, then each mapped dialog over it, oldest first. -/
def viewWindows (v : ViewId) : List WlSurface :=
  match s.viewRoot v with
  | none => []
  | some root => s.windowsOver root

/-- The popups rooted at `window`, below their children. -/
def popupsOf (window : WlSurface) : List WlSurface :=
  (s.popups.filter fun p => p.root = window).map Popup.surface

/-- The roots of the trees of view `v`'s scene, bottom to top. -/
def viewTrees (v : ViewId) : List WlSurface :=
  (s.viewWindows v).flatMap fun window => window :: s.popupsOf window

/-- The client of the toplevel `v` shows. -/
def viewClient (w : World) (v : ViewId) : Option ClientId := (s.viewRoot v).bind (s.clientOf w)

end State

end IhsWl
