import IhsWl.Base
import IhsWl.Lib.Threads

/-!
# The server's threads

Starting and stopping the server, sending it commands, and the views the shell creates, renegotiates and disposes of,
on any threads at once, beside the threads of the servers there were. What a step does, it does under the locks it
holds. What the shell locks is a parameter.
-/

namespace IhsWl

namespace Lifecycle

/-- What the shell calls back for. `notify` is any callback that only queues a command. -/
inductive Callback where
  | factory
  | notify
  | renegotiate
  | dispose
  deriving DecidableEq, Repr

/-- What the shell is called for. `negotiate` is the factory's call, and `register` is unregistering too. -/
inductive ShellCall where
  | register
  | query
  | negotiate
  | renegotiate
  | submit
  deriving DecidableEq, Repr

/-- A shell, by the mutex of its registry: the callbacks it holds it for, and the calls that wait for it. -/
structure Shell where
  locks : Callback → Bool
  takes : ShellCall → Bool

/-- It calls the factory with the mutex held, and registering waits for it. -/
structure Shell.Guards (shell : Shell) : Prop where
  factory : shell.locks .factory = true
  register : shell.takes .register = true

/-- It lets in who it calls back: what is asked of it there does not wait for the mutex, nor does what is asked under
locks that a callback takes. -/
structure Shell.Yields (shell : Shell) : Prop where
  query : ∀ callback, shell.locks callback = true → shell.takes .query = false
  negotiate : shell.locks .factory = true → shell.takes .negotiate = false
  link : shell.locks .dispose = true ∨ shell.locks .renegotiate = true →
    shell.takes .renegotiate = false ∧ shell.takes .submit = false

inductive Lock where
  /-- `LIFECYCLE`. -/
  | lifecycle
  /-- `SERVER`. -/
  | server
  /-- The mutex of the shell's registry. -/
  | registry
  /-- A view's `link`. -/
  | link (v : Nat)
  deriving DecidableEq, Repr

/-- A `Cmd`, by what it means to the server's life. -/
inductive Msg where
  | quit
  | viewCreated (v : Nat)
  | viewDisposed (v : Nat)
  | other
  deriving DecidableEq, Repr

/-- What a call returned. -/
inductive Outcome where
  | ok
  | alreadyRunning
  | notRunning
  | failed
  | noBackend
  deriving DecidableEq, Repr

/-- A server that was started, by what its thread shares. `ready` is what it sent on the channel `start` waits at,
`closed` whether its loop and with it the queue is gone, and `finished` whether the thread can be joined. -/
structure Server where
  ready : Option Bool := none
  queue : List Msg := []
  closed : Bool := false
  stopping : Bool := false
  finished : Bool := false
  views : List Nat := []
  deriving DecidableEq, Repr

/-- How far the shell is with a view. -/
inductive ShellView where
  | live
  | disposing
  | disposed
  deriving DecidableEq, Repr

/-- A view: whether its `link` is there, and what the shell does with it. -/
structure ViewShared where
  link : Bool := true
  shell : ShellView := .live
  deriving DecidableEq, Repr

/-- `running` is what `SERVER` has, and `registered` whether the shell has the factory. -/
structure Shared where
  running : Option Nat := none
  servers : List Server := []
  registered : Bool := false
  views : List ViewShared := []
  deriving DecidableEq, Repr

/-- What a thread does next. -/
inductive At where
  | start
  | startLocked
  | startQuery
  | startSpawned (n : Nat)
  | startFailed (n : Nat)
  | startStored
  | stop
  | stopLocked
  | stopUnregister
  | stopTake
  | stopQuit (n : Nat)
  | stopJoin (n : Nat)
  | send
  | notify
  | notifySend
  | create
  | createCheck
  | createNegotiate
  | createSend
  | dispose (v : Nat)
  | disposeLink (v : Nat)
  | disposeSend (v : Nat)
  | renegotiate (v : Nat)
  | renegotiateLink (v : Nat)
  | renegotiating (v : Nat)
  | returned (o : Outcome)
  | starting (n : Nat)
  | serving (n : Nat)
  | submit (n v : Nat)
  | submitting (n v : Nat)
  | leaving (n : Nat)
  | finished (n : Nat)
  deriving DecidableEq, Repr

/-- How a step goes: as it should, or not, or what the server's loop turns to. `die` is a panic there, or the loop's
error. -/
inductive Choice where
  | go
  | fail
  | die
  | submit (v : Nat)
  | leave
  deriving DecidableEq, Repr

namespace At

def holds (shell : Shell) : At → Lock → Bool
  | startLocked, .lifecycle | startQuery, .lifecycle | startQuery, .server | startStored, .lifecycle
  | startSpawned _, .lifecycle | startSpawned _, .server | startFailed _, .lifecycle | startFailed _, .server => true
  | stopLocked, .lifecycle | stopUnregister, .lifecycle | stopTake, .lifecycle | stopQuit _, .lifecycle
  | stopJoin _, .lifecycle => true
  | notifySend, .registry => shell.locks .notify
  | createCheck, .registry | createNegotiate, .registry | createSend, .registry => shell.locks .factory
  | disposeLink _, .registry | disposeSend _, .registry => shell.locks .dispose
  | renegotiateLink _, .registry | renegotiating _, .registry => shell.locks .renegotiate
  | renegotiating v, .link u | submitting _ v, .link u => v == u
  | _, _ => false

/-- The server whose thread it is. -/
def server : At → Option Nat
  | starting n | serving n | submit n _ | submitting n _ | leaving n | finished n => some n
  | _ => none

end At

namespace Shared

/-- Whether `SERVER` has a server whose thread has not finished. -/
def isRunning (s : Shared) : Bool := s.running.any fun n => s.servers[n]?.any fun server => !server.finished

def modifyServer (n : Nat) (f : Server → Server) (s : Shared) : Shared := { s with servers := s.servers.modify n f }

def modifyView (v : Nat) (f : ViewShared → ViewShared) (s : Shared) : Shared := { s with views := s.views.modify v f }

def hasLink (s : Shared) (v : Nat) : Bool := s.views[v]?.any ViewShared.link

end Shared

namespace Server

/-- A command is queued. -/
def push (m : Msg) (server : Server) : Server :=
  if server.closed then server else { server with queue := server.queue ++ [m] }

/-- A command is handled. -/
def handle (m : Msg) (server : Server) : Server :=
  match m with
  | .quit => { server with stopping := true }
  | .viewCreated v => { server with views := server.views ++ [v] }
  | .viewDisposed v => { server with views := server.views.filter (· ≠ v) }
  | .other => server

/-- The loop is gone, and what was queued with it. -/
def close (server : Server) : Server := { server with closed := true, queue := [] }

end Server

/-- Queue a command for the running server, if its loop is there. -/
def Shared.send (m : Msg) (s : Shared) : Option Shared :=
  match s.running with
  | none => none
  | some n =>
      match s.servers[n]? with
      | none => none
      | some server =>
          if server.closed then none else some (s.modifyServer n (Server.push m))

variable (shell : Shell) (held : Lock → Bool) (s : Shared)

/-- A step under a lock that has to be free. -/
def locking (l : Lock) (r : Option (At × Shared × List At)) : Option (At × Shared × List At) := if held l then none else r

/-- The shell calls back. -/
def calledBack (callback : Callback) (r : Option (At × Shared × List At)) : Option (At × Shared × List At) :=
  if shell.locks callback && held .registry then none else r

/-- The shell is called. -/
def calling (call : ShellCall) (r : Option (At × Shared × List At)) : Option (At × Shared × List At) :=
  if shell.takes call && held .registry then none else r

/-- `start`. The thread of a server that died is joined before, and has finished. -/
def startStep (c : Choice) : At → Option (At × Shared × List At)
  | .start => locking held .lifecycle (some (.startLocked, s, []))
  | .startLocked => locking held .server <|
      if s.isRunning then some (.returned .alreadyRunning, s, []) else some (.startQuery, { s with running := none }, [])
  | .startQuery => calling shell held .query <|
      if c = .fail then some (.returned .failed, s, [])
      else some (.startSpawned s.servers.length, { s with servers := s.servers ++ [{}] }, [.starting s.servers.length])
  | .startSpawned n =>
      match s.servers[n]?.bind Server.ready with
      | none => none
      | some true => some (.startStored, { s with running := some n }, [])
      | some false => some (.startFailed n, s, [])
  | .startFailed n => if s.servers[n]?.any Server.finished then some (.returned .failed, s, []) else none
  | .startStored => calling shell held .register (some (.returned .ok, { s with registered := true }, []))
  | _ => none

def stopStep : At → Option (At × Shared × List At)
  | .stop => locking held .lifecycle (some (.stopLocked, s, []))
  | .stopLocked => locking held .server <|
      if s.running.isNone then some (.returned .notRunning, s, []) else some (.stopUnregister, s, [])
  | .stopUnregister => calling shell held .register (some (.stopTake, { s with registered := false }, []))
  | .stopTake => locking held .server <|
      match s.running with
      | none => some (.returned .notRunning, s, [])
      | some n => some (.stopQuit n, { s with running := none }, [])
  | .stopQuit n => some (.stopJoin n, s.modifyServer n (Server.push .quit), [])
  | .stopJoin n => if s.servers[n]?.any Server.finished then some (.returned .ok, s, []) else none
  | _ => none

/-- A command is sent for the app, or for the shell. -/
def sendStep : At → Option (At × Shared × List At)
  | .send | .notifySend => locking held .server <|
      match s.send .other with
      | none => some (.returned .notRunning, s, [])
      | some s' => some (.returned .ok, s', [])
  | .notify => calledBack shell held .notify (some (.notifySend, s, []))
  | _ => none

/-- What the shell calls back for a view. -/
def viewStep (c : Choice) : At → Option (At × Shared × List At)
  | .create => calledBack shell held .factory <|
      if s.registered then some (.createCheck, s, []) else some (.returned .failed, s, [])
  | .createCheck => locking held .server <|
      if s.isRunning then some (.createNegotiate, s, []) else some (.returned .noBackend, s, [])
  | .createNegotiate => calling shell held .negotiate <|
      if c = .fail then some (.returned .failed, s, []) else some (.createSend, s, [])
  | .createSend => locking held .server <|
      match s.send (.viewCreated s.views.length) with
      | none => some (.returned .noBackend, s, [])
      | some s' => some (.returned .ok, { s' with views := s'.views ++ [{}] }, [])
  | .dispose v => calledBack shell held .dispose (some (.disposeLink v, s, []))
  | .disposeLink v => locking held (.link v) (some (.disposeSend v, s.modifyView v fun view => { view with link := false }, []))
  | .disposeSend v => locking held .server <|
      let s := (s.send (.viewDisposed v)).getD s
      some (.returned .ok, s.modifyView v fun view => { view with shell := .disposed }, [])
  | .renegotiate v => calledBack shell held .renegotiate (some (.renegotiateLink v, s, []))
  | .renegotiateLink v => locking held (.link v) <|
      if s.hasLink v then some (.renegotiating v, s, []) else some (.returned .ok, s, [])
  | .renegotiating _ => calling shell held .renegotiate (some (.returned .ok, s, []))
  | _ => none

/-- `compositor_main`. A handler submits at any time to a view the server knows. -/
def compositorStep (c : Choice) : At → Option (At × Shared × List At)
  | .starting n =>
      if c = .fail then some (.leaving n, s.modifyServer n fun server => { server.close with ready := some false }, [])
      else some (.serving n, s.modifyServer n fun server => { server with ready := some true }, [])
  | .serving n =>
      match s.servers[n]?, c with
      | none, _ => none
      | some server, .go =>
          match server.queue with
          | [] => none
          | m :: rest => some (.serving n, s.modifyServer n fun server => { server with queue := rest }.handle m, [])
      | some server, .submit v => if v ∈ server.views then some (.submit n v, s, []) else none
      | some server, .leave => if server.stopping then some (.leaving n, s.modifyServer n Server.close, []) else none
      | some _, .die => some (.leaving n, s.modifyServer n Server.close, [])
      | some _, .fail => none
  | .submit n v => locking held (.link v) <|
      if s.hasLink v then some (.submitting n v, s, []) else some (.serving n, s, [])
  | .submitting n _ => calling shell held .submit (some (.serving n, s, []))
  | .leaving n => some (.finished n, s.modifyServer n fun server => { server with finished := true }, [])
  | _ => none

def next (c : Choice) : At → Option (At × Shared × List At)
  | a@.start | a@.startLocked | a@.startQuery | a@(.startSpawned _) | a@(.startFailed _) | a@.startStored =>
      startStep shell held s c a
  | a@.stop | a@.stopLocked | a@.stopUnregister | a@.stopTake | a@(.stopQuit _) | a@(.stopJoin _) => stopStep shell held s a
  | a@.send | a@.notify | a@.notifySend => sendStep shell held s a
  | a@.create | a@.createCheck | a@.createNegotiate | a@.createSend | a@(.dispose _) | a@(.disposeLink _) | a@(.disposeSend _)
  | a@(.renegotiate _) | a@(.renegotiateLink _) | a@(.renegotiating _) => viewStep shell held s c a
  | a => compositorStep shell held s c a

/-- A lock taken was free, and a server's thread starts with none. -/
theorem next_careful (c : Choice) (a b : At) (s' : Shared) (new : List At) (h : next shell held s c a = some (b, s', new)) :
    (∀ l, b.holds shell l = true → a.holds shell l = true ∨ held l = false) ∧ ∀ d ∈ new, ∀ l, d.holds shell l = false := by
  cases a <;> simp only [next, startStep, stopStep, sendStep, viewStep, compositorStep, locking, calledBack, calling] at h
  all_goals repeat' split at h
  all_goals simp only [Option.some.injEq, Prod.mk.injEq, reduceCtorEq] at h
  all_goals
    obtain ⟨rfl, rfl, rfl⟩ := h
    refine ⟨fun l => ?_, by simp [At.holds]⟩
    cases l <;> simp_all [At.holds]
  -- What is left took the link of its view.
  all_goals exact fun hv => hv ▸ ‹_›

def program : Program Lock At Shared Choice where
  holds := At.holds shell
  next := next shell
  careful held s c a b s' new h := next_careful shell held s c a b s' new h

/-- The calls that come from outside. -/
inductive Entry where
  | start
  | stop
  | send
  | notify
  | create
  | dispose (v : Nat)
  | renegotiate (v : Nat)
  deriving DecidableEq, Repr

inductive Op where
  | call (e : Entry)
  | go (i : Nat) (c : Choice)
  deriving DecidableEq, Repr

/-- A call begins. The shell calls back a view it has not disposed of. -/
def enter (e : Entry) (p : Pool At Shared) : Option (Pool At Shared) :=
  match e with
  | .start => some (p.enter .start p.shared)
  | .stop => some (p.enter .stop p.shared)
  | .send => some (p.enter .send p.shared)
  | .notify => some (p.enter .notify p.shared)
  | .create => some (p.enter .create p.shared)
  | .dispose v =>
      if p.shared.views[v]?.any fun view => view.shell == .live then
        some (p.enter (.dispose v) (p.shared.modifyView v fun view => { view with shell := .disposing }))
      else none
  | .renegotiate v =>
      if p.shared.views[v]?.any fun view => view.shell == .live then some (p.enter (.renegotiate v) p.shared) else none

def step (p : Pool At Shared) : Op → Option (Pool At Shared)
  | .call e => enter e p
  | .go i c => p.go (program shell) i c

/-- The ops one after another, from before there is a server. -/
def run (ops : List Op) : Option (Pool At Shared) := ops.foldlM (step shell) { shared := {} }

end Lifecycle

end IhsWl
