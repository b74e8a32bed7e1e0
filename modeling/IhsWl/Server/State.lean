import IhsWl.Holds
import IhsWl.Timing
import IhsWl.Lib.Table

/-!
# The server's state

What smithay keeps of the clients' objects, what the module keeps of toplevels, views and the frame
clock, and the world that answers what the handlers ask. Windows' placement, buffers' staging, input
and the configures sent are not part of it: no handler modelled here reads them.
-/

namespace IhsWl

open Std

/-! ## Smithay's side -/

/-- A surface's role, given once. -/
inductive Role where
  | toplevel
  | popup
  | subsurface
  deriving DecidableEq, Repr

/-- A surface and its shell data. `hasToplevel` is whether its `xdg_toplevel` lives; the role and the
toplevel id in the data map outlive it. -/
structure Surface where
  alive : Bool := true
  role : Option Role := none
  toplevelId : Option ToplevelId := none
  hasToplevel : Bool := false
  parent : Option WlSurface := none
  appId : String := ""
  popupParent : Option WlSurface := none
  popupRoot : Option WlSurface := none
  deriving DecidableEq, Repr

/-- A commit timer: one content update waiting for its target time. -/
structure Timer where
  id : Nat
  deadline : Nat
  deriving DecidableEq, Repr

/-- What the content updates applied to a surface left to be answered. -/
structure Content where
  frameCallbacks : List Nat := []
  feedback : List Nat := []
  barrier : Option Barrier := none
  generation : Nat := 0
  timers : List Timer := []
  deriving DecidableEq, Repr

/-- A popup the manager tracks, and the surface it is rooted at. -/
structure Popup where
  surface : WlSurface
  root : WlSurface
  deriving DecidableEq, Repr

structure SecurityContext where
  appId : Option String
  deriving DecidableEq, Repr

/-- An activation token smithay knows; `issued` when the module made it. -/
structure Token where
  value : String
  issued : Bool
  deriving DecidableEq, Repr

/-- A surface's content update. Its barrier is the surface's client's. -/
structure Commit where
  surface : WlSurface
  callbacks : List Nat := []
  feedback : List Nat := []
  barrier : Option Nat := none
  deriving DecidableEq, Repr

/-- What is applied at once: a commit, and before it those of the synchronized subsurfaces that
waited for it. -/
structure Update where
  synced : List Commit := []
  main : Commit
  deriving DecidableEq, Repr

/-! ## The shell's side -/

structure ViewParams where
  token : Option String := none
  appId : Option String := none
  sandboxAppId : Option String := none
  requested : Option (Int × Int) := none
  deriving DecidableEq, Repr

/-- A view as the factory made it. `uid` is the identity of the shared object. -/
structure ViewHandle where
  uid : Nat
  id : ViewId
  params : ViewParams := {}
  size : Option (Int × Int) := none
  deriving DecidableEq, Repr

/-- How a submission of layers ended. -/
inductive Submission where
  | dupFailed
  | noLink
  | refused
  | accepted (release : List Release)
  deriving DecidableEq, Repr

/-- What the handlers ask and cannot know. An answer is numbered by how many were given before; the
clock never runs backwards. `visit` is the order a hash map is gone through in. -/
structure World where
  client : WlSurface → ClientId
  context : ClientId → Option SecurityContext
  now : Nat → Nat
  timer : Nat → Bool
  mint : Nat → String
  layer : Nat → WlSurface → Option Held
  submit : Nat → Submission
  applied : Nat → List Update
  maxLayers : Nat
  visit : Nat → List ViewId → List ViewId
  monotone : ∀ i j, i ≤ j → now i ≤ now j
  visits : ∀ i ids, (visit i ids).Perm ids

/-- A world that grants whatever is asked of it. Surfaces come ten to a client, and the second client
runs in a sandbox. -/
def World.granting : World where
  client x := x / 10
  context c := if c = 1 then some ⟨some "org.a"⟩ else none
  now i := 1000 * i
  timer _ := true
  mint i := String.ofList (List.replicate i 'a')
  layer _ x := some (.client x)
  submit _ := .accepted []
  applied _ := []
  maxLayers := 64
  visit _ ids := ids
  monotone _ _ h := Nat.mul_le_mul_left 1000 h
  visits _ _ := .refl _

theorem World.mint_granting : Function.Injective World.granting.mint := by
  intro i j h
  have hlen := congrArg String.length h
  simpa [granting] using hlen

/-! ## The module's side -/

structure ToplevelEntry where
  surface : WlSurface
  mapped : Bool := false
  view : Option ViewId := none
  token : Option String := none
  deriving DecidableEq, Repr

/-- The toplevels the server knows, by an id it counts up. -/
structure Toplevels where
  nextId : ToplevelId := 0
  byId : TreeMap ToplevelId ToplevelEntry := ∅
  bounded : ∀ id, id ∈ byId → id ≤ nextId := by exact fun _ h => absurd h TreeMap.not_mem_emptyc

structure ViewEntry where
  handle : ViewHandle
  toplevel : Option ToplevelId := none
  size : Option (Int × Int) := none
  seq : Nat := 0
  holds : Holds := {}
  cleared : Bool := false
  frames : Frames := []
  suspended : Bool := false
  hiddenReleaseNs : Nat := 0
  requested : Option (Int × Int) := none
  deriving DecidableEq, Repr

/-- A barrier of an update no view shows. -/
structure Loose where
  barrier : Barrier
  client : ClientId
  dueNs : Nat
  deriving DecidableEq, Repr

/-- The whole state. `asked` numbers the world's next answer, `registered` the next commit timer, and
`minted` the next token; `trace` is what was done so far. -/
structure State where
  surfaces : WlSurface → Surface := fun _ => {}
  contents : WlSurface → Content := fun _ => {}
  subsurfaces : List (WlSurface × WlSurface) := []
  popups : List Popup := []
  connected : ClientId → Bool := fun _ => true
  tokens : List Token := []
  minted : Nat := 0
  registered : Nat := 0
  toplevels : Toplevels := {}
  views : TreeMap ViewId ViewEntry := ∅
  focusedView : Option ViewId := none
  clock : FrameClock := {}
  timed : List WlSurface := []
  loose : List Loose := []
  unsubmitted : List (ViewId × Nat) := []
  tick : Option Nat := none
  asked : Nat := 0
  trace : List Effect := []

namespace Toplevels

/-- A new toplevel, under the next id. -/
def insert (ts : Toplevels) (surface : WlSurface) : Toplevels where
  nextId := ts.nextId + 1
  byId := ts.byId.insert (ts.nextId + 1) { surface }
  bounded := by
    intro i hi
    rcases TreeMap.mem_insert.mp hi with h | h
    · exact Nat.le_of_eq (Std.compare_eq_iff_eq.mp h).symm
    · exact Nat.le_succ_of_le (ts.bounded i h)

def remove (ts : Toplevels) (id : ToplevelId) : Toplevels where
  nextId := ts.nextId
  byId := ts.byId.erase id
  bounded := fun i hi => ts.bounded i (TreeMap.mem_of_mem_erase hi)

def modify (ts : Toplevels) (id : ToplevelId) (f : ToplevelEntry → ToplevelEntry) : Toplevels where
  nextId := ts.nextId
  byId := ts.byId.modify id f
  bounded := fun i hi => ts.bounded i (TreeMap.mem_modify.mp hi)

/-- The entry of an id. -/
def get (ts : Toplevels) (id : ToplevelId) : Option ToplevelEntry := ts.byId[id]?

@[simp] theorem get_insert (ts : Toplevels) (x : WlSurface) (id : ToplevelId) :
    (ts.insert x).get id = if id = ts.nextId + 1 then some { surface := x } else ts.get id :=
  Table.get_insert ..

@[simp] theorem get_remove (ts : Toplevels) (t id : ToplevelId) :
    (ts.remove t).get id = if id = t then none else ts.get id :=
  Table.get_erase ..

@[simp] theorem get_modify (ts : Toplevels) (t id : ToplevelId) (f : ToplevelEntry → ToplevelEntry) :
    (ts.modify t f).get id = if id = t then (ts.get t).map f else ts.get id :=
  Table.get_modify ..

@[simp] theorem get_empty (id : ToplevelId) : ({} : Toplevels).get id = none := by
  simp [get]

theorem le_nextId {ts : Toplevels} {id : ToplevelId} {t : ToplevelEntry} (h : ts.get id = some t) :
    id ≤ ts.nextId :=
  ts.bounded id (TreeMap.mem_iff_isSome_getElem?.mpr (by rw [show ts.byId[id]? = some t from h]; rfl))

end Toplevels

namespace State

/-- The entry of a view. -/
def view (s : State) (v : ViewId) : Option ViewEntry := s.views[v]?

/-- The entry of a toplevel. -/
def toplevel (s : State) (id : ToplevelId) : Option ToplevelEntry := s.toplevels.get id

/-- The toplevel a view shows. -/
def shows (s : State) (v : ViewId) : Option ToplevelId := (s.view v).bind ViewEntry.toplevel

/-- The view a toplevel is shown in. -/
def shownIn (s : State) (t : ToplevelId) : Option ViewId := (s.toplevel t).bind ToplevelEntry.view

def modifyView (s : State) (v : ViewId) (f : ViewEntry → ViewEntry) : State :=
  { s with views := s.views.modify v f }

def modifyToplevel (s : State) (id : ToplevelId) (f : ToplevelEntry → ToplevelEntry) : State :=
  { s with toplevels := s.toplevels.modify id f }

def log (s : State) (es : List Effect) : State := { s with trace := s.trace ++ es }

/-- An answer was used. -/
def ask (s : State) : State := { s with asked := s.asked + 1 }

/-- The views in the order the map is gone through. -/
def viewIds (w : World) (s : State) : List ViewId := w.visit s.asked s.views.keys

/-- `surface.client()`: none once it is disconnected. -/
def clientOf (w : World) (s : State) (x : WlSurface) : Option ClientId :=
  if s.connected (w.client x) then some (w.client x) else none

@[simp] theorem view_modifyView (s : State) (v v' : ViewId) (f : ViewEntry → ViewEntry) :
    (s.modifyView v f).view v' = if v' = v then (s.view v).map f else s.view v' :=
  Table.get_modify ..

@[simp] theorem toplevel_modifyView (s : State) (v : ViewId) (f : ViewEntry → ViewEntry) (t : ToplevelId) :
    (s.modifyView v f).toplevel t = s.toplevel t := rfl

@[simp] theorem toplevel_modifyToplevel (s : State) (t id : ToplevelId)
    (f : ToplevelEntry → ToplevelEntry) :
    (s.modifyToplevel t f).toplevel id = if id = t then (s.toplevel t).map f else s.toplevel id := by
  simp [modifyToplevel, toplevel]

@[simp] theorem view_modifyToplevel (s : State) (t : ToplevelId) (f : ToplevelEntry → ToplevelEntry)
    (v : ViewId) : (s.modifyToplevel t f).view v = s.view v := rfl

@[simp] theorem view_log (s : State) (es : List Effect) (v : ViewId) : (s.log es).view v = s.view v := rfl

@[simp] theorem toplevel_log (s : State) (es : List Effect) (t : ToplevelId) :
    (s.log es).toplevel t = s.toplevel t := rfl

@[simp] theorem view_ask (s : State) (v : ViewId) : s.ask.view v = s.view v := rfl

theorem mem_viewIds {w : World} {s : State} {v : ViewId} : v ∈ s.viewIds w ↔ (s.view v).isSome := by
  rw [viewIds, (w.visits _ _).mem_iff, Table.mem_keys, view]

theorem clientOf_eq_some {w : World} {s : State} {x : WlSurface} {c : ClientId} :
    s.clientOf w x = some c ↔ s.connected c = true ∧ w.client x = c := by
  unfold clientOf
  split
  · rename_i h
    rw [Option.some.injEq]
    exact ⟨fun hc => ⟨hc ▸ h, hc⟩, And.right⟩
  · rename_i h
    simp only [reduceCtorEq, false_iff, not_and]
    rintro hc rfl
    exact h hc

end State

end IhsWl
