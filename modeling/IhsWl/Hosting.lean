import IhsWl.Params.Views
import IhsWl.Server.Handlers

/-!
# The app and the server

Dart has the shell make and dispose of views, and calls the module about them. Either way a command is queued for the
server's thread, which posts its events to Dart's port.
-/

namespace IhsWl

/-- The command a running server is sent. -/
def ViewCmd.cmd : ViewCmd → Option Cmd
  | .created v params => some (.viewCreated { uid := v.toNat, id := v, params := params.toViewParams })
  | .requestSize v size => some (.viewRequestSize v size)
  -- Only the client is told of these.
  | .capabilities .. | .windowState .. | .close _ => none

/-- What reaches the server through the shell. -/
def ToModule.called (names : ViewId → ViewNames) (m : ToModule Double) : Option Cmd :=
  match m with
  | .create .. => (m.sent names).bind ViewCmd.cmd
  | _ => none

/-- What reaches it by a call. -/
def ToModule.queued (names : ViewId → ViewNames) (m : ToModule Double) : Option Cmd :=
  match m with
  | .create .. => none
  | _ => (m.sent names).bind ViewCmd.cmd

/-- The factory is given the size the view has. -/
def Cmd.sized (size : Option (Int × Int)) : Cmd → Cmd
  | .viewCreated view => .viewCreated { view with size }
  | c => c

structure Hosting where
  app : App Double := {}
  /-- What Dart asked of the shell, which has not done it. -/
  calls : List Cmd := []
  queue : List Cmd := []
  server : State := {}
  /-- The events posted that Dart has not taken. -/
  port : List (ViewId × Heard) := []

inductive HostingOp where
  | app (op : AppOp Double)
  /-- Dart takes the next event. -/
  | dispatches
  /-- Flutter disposes of the platform view of widget `w`, which is gone. -/
  | disposes (w : Nat)
  /-- The shell does what it was next asked. -/
  | shell (size : Option (Int × Int))
  /-- The server's thread takes the next command. -/
  | serves
  /-- Anything else it handles. -/
  | event (e : Event)
  /-- The client of the toplevel view `v` shows makes a request the app handles. -/
  | requests (v : ViewId) (r : WindowRequest)

namespace Hosting

variable (names : ViewId → ViewNames) (w : World) (depth : Nat)

/-- What the module answers whoever asks for the client of a view: the server's thread does once it handled the commands
queued before. -/
def answer (h : Hosting) : Nat → ViewId → Option ClientId := fun _ v => h.server.viewClient w v

def act (op : AppOp Double) (h : Hosting) : Hosting :=
  let app := h.app.step (h.answer w) op
  let told := app.told.drop h.app.told.length
  { h with
    app
    calls := h.calls ++ told.filterMap (ToModule.called names)
    queue := h.queue ++ told.filterMap (ToModule.queued names) }

def serve (e : Event) (h : Hosting) : Hosting :=
  let server := IhsWl.step w depth h.server e
  { h with
    server
    port := h.port ++ (server.trace.drop h.server.trace.length).filterMap Effect.post }

def disposes (k : Nat) (h : Hosting) : Hosting :=
  match h.app.views k with
  | none => h
  | some s =>
      if s.mounted then h
      else
        match s.watchedId with
        | none => h
        | some v => { h with calls := h.calls ++ [.viewDisposed v] }

def step (h : Hosting) : HostingOp → Hosting
  | .app op => h.act names w op
  | .dispatches =>
      match h.port with
      | [] => h
      | (v, e) :: port => ({ h with port } : Hosting).act names w (.dispatch v e)
  | .disposes k => h.disposes k
  | .shell size =>
      match h.calls with
      | [] => h
      | c :: calls => { h with calls, queue := h.queue ++ [c.sized size] }
  | .serves =>
      match h.queue with
      | [] => h
      | c :: queue => ({ h with queue } : Hosting).serve w depth (.cmd c)
  | .event e => h.serve w depth e
  | .requests v r => if (h.server.shows v).isSome then { h with port := h.port ++ [(v, .request r)] } else h

/-- The ops one after another. -/
def run (ops : List HostingOp) : Hosting := ops.foldl (step names w depth) { server := IhsWl.run w depth [] }

end Hosting

end IhsWl
