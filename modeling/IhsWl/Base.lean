import Mathlib.Data.List.Basic

/-!
# Names shared by every part of the server

The identifiers handed around between the shell, smithay and the module, and the list of what a
handler does to the world outside the state: signals, wake-ups, answers, submissions and events.
-/

namespace IhsWl

/-- A Flutter platform-view id (`i32`). -/
abbrev ViewId := Int

/-- The id the server gives a toplevel: a counter from 1. -/
abbrev ToplevelId := Nat

/-- A client's surface object. -/
abbrev WlSurface := Nat

/-- A connected client. -/
abbrev ClientId := Nat

def i32Min : Int := -2_147_483_648

def i32Max : Int := 2_147_483_647

/-- The largest `u64`. -/
def u64Max : Nat := 18_446_744_073_709_551_615

/-- `u64::saturating_add`. -/
def satAdd (a b : Nat) : Nat := min (a + b) u64Max

/-- `u64::saturating_mul`. -/
def satMul (a b : Nat) : Nat := min (a * b) u64Max

/-- A fifo barrier: one shared flag. `client` is whose surface set it; no handler reads it. -/
structure Barrier where
  id : Nat
  client : ClientId
  deriving DecidableEq, Repr

/-- What keeps a layer's buffer from the client until the shell is done with it. -/
inductive Held where
  | client (buffer : Nat)
  | staged (slot : Nat)
  deriving DecidableEq, Repr

/-- Why a held buffer goes back to its client. -/
inductive GaveBack where
  | shown
  | overflow
  | cleared
  | unregistered
  deriving DecidableEq, Repr

/-- What the shell reported for a shown frame. -/
structure Report where
  seq : Nat
  ustNs : Nat
  refreshNs : Nat
  msc : Nat
  flags : Nat
  deriving DecidableEq, Repr

/-- The view events posted to Dart that follow a binding. -/
inductive ViewEvent where
  | bound
  | closed
  deriving DecidableEq, Repr

/-- What the handlers do, in order. `holding` and `unbinding` record a call's arguments: the length
`loose` grows to, and the barriers a view still queues when its toplevel is let go. -/
inductive Effect where
  | signal (barrier : Barrier)
  | unblock (client : ClientId)
  | presented (callback : Nat) (report : Report)
  | discarded (callback : Nat)
  | done (callback timeMs : Nat)
  | holding (length : Nat)
  | unbinding (view : ViewId) (left : List Barrier)
  | submitted (view : ViewId) (seq layers : Nat)
  | gaveBack (view : ViewId) (buffer : Held) (why : GaveBack)
  | bound (view : ViewId) (toplevel : ToplevelId)
  | unbound (view : ViewId) (toplevel : ToplevelId)
  | posted (event : ViewEvent) (view : ViewId)
  | mapped (toplevel : ToplevelId)
  | issued (token : String)
  | activated (toplevel : ToplevelId) (token : String)
  | resumed (view : ViewId) (atNs : Nat)
  deriving DecidableEq, Repr

end IhsWl
