import IhsWl.Server.Submit

/-!
# Releasing what waits on the screen

Each function that may clear a barrier takes what unblocking the barrier's client does: commits it was
holding are applied, and their handlers run, before it returns.
-/

namespace IhsWl

/-- How often a suspended view's barriers are released. -/
def hiddenReleaseNs : Nat := 1_000_000_000

/-- Barriers of updates no view shows held for the clock, at most. -/
def maxLoose : Nat := 256

/-- Barriers of the client's were cleared: apply what waited on them. -/
abbrev Unblock := ClientId → State → State

namespace State

variable (w : World) (unblock : Unblock)

/-- Unblock each client once. -/
def unblockAll (clients : List ClientId) (s : State) : State :=
  clients.eraseDups.foldl (fun s c => unblock c s) s

/-! ## The clock -/

/-- The surfaces with updates waiting for their target time that are still there. -/
def watched (s : State) : List WlSurface := s.timed.filter fun x => (s.surfaces x).alive

/-- Clear every barrier held for the clock. -/
def releaseLoose (s : State) : State :=
  { s with loose := [], trace := s.trace ++ s.loose.map fun (l : Loose) => Effect.signal l.barrier }

/-- Let every timed update go. -/
def releaseTimers (s : State) : State :=
  { s with
    timed := []
    contents := fun x => if x ∈ s.watched then { s.contents x with timers := [] } else s.contents x }

/-- Release the barriers of every view's frames; whose clients were freed. -/
def releaseFrames (s : State) : List ClientId × State :=
  let released := (s.viewIds w).filter fun v =>
    (s.view v).any fun e => e.frames.releaseAll.returned
  let effects := (s.viewIds w).flatMap fun v =>
    ((s.view v).map fun e => e.frames.releaseAll.effects).getD []
  let views := s.views.map fun _ e => { e with frames := e.frames.releaseAll.frames }
  (released.filterMap (s.viewClient w), ({ s with views } : State).log effects)

/-- The clock could not run: release everything now. -/
def releaseEverything (s : State) : State :=
  let looseClients := s.loose.map Loose.client
  let timedClients := s.watched.filterMap (s.clientOf w)
  let frames := s.releaseLoose.releaseTimers.releaseFrames w
  let s := frames.2
  let views := s.viewIds w
  let now := w.now s.asked
  -- And every frame callback of a view on screen.
  let s := views.foldl (flushCallbacks w now) ({ s with unsubmitted := [] } : State).ask
  s.unblockAll unblock (looseClients ++ timedClients ++ frames.1)

/-- Run the clock at `atNs`, unless it already runs sooner. -/
def scheduleTick (atNs : Nat) (s : State) : State :=
  if s.tick.any (fun whenNs => whenNs ≤ atNs) then s
  else if w.timer s.asked then { s.ask with tick := some atNs }
  else ({ s.ask with tick := none } : State).releaseEverything w unblock

/-! ## Barriers no view shows -/

/-- `barriers` join `loose`; past `maxLoose`, the oldest are cleared early. -/
def addLoose (client : ClientId) (barriers : List Barrier) (dueNs : Nat) (s : State) : State :=
  let grown := s.loose ++ barriers.map fun b => ⟨b, client, dueNs⟩
  let excess := grown.length - maxLoose
  ({ s with loose := grown.drop excess } : State).log
    (.holding grown.length :: (grown.take excess).map fun l => Effect.signal l.barrier)

/-- `barriers` are kept for the next refresh, and when that is. -/
def admitLoose (client : Option ClientId) (barriers : List Barrier) (s : State) : Option Nat × State :=
  if barriers.isEmpty then (none, s)
  else
    match client with
    | none => (none, s.log (barriers.map .signal))
    | some client =>
        let dueNs := s.clock.nextVblank (w.now s.asked)
        (some dueNs, s.ask.addLoose client barriers dueNs)

/-- Clear `barriers` at the next refresh. -/
def holdLoose (client : Option ClientId) (barriers : List Barrier) (s : State) : State :=
  match s.admitLoose w client barriers with
  | (none, s) => s
  | (some dueNs, s) => s.scheduleTick w unblock dueNs

/-- The tree rooted at `root` committed, but no view shows it. -/
def notShown (root : WlSurface) (s : State) : State :=
  let taken := s.takeTrees [root]
  let unshown := taken.1.notShown
  (taken.2.log unshown.2).holdLoose w unblock (s.clientOf w root) unshown.1

/-! ## A view's frames -/

/-- A frame of `v` was submitted: make sure its barriers clear and its frame callbacks are sent even if
it is never reported. -/
def watchFrames (v : ViewId) (s : State) : State :=
  match s.view v with
  | none => s
  | some e =>
      if e.suspended then
        match e.frames.nextStale false with
        | none => s
        | some _ =>
            let atNs := max e.hiddenReleaseNs (s.clock.nextVblank (w.now s.asked))
            s.ask.scheduleTick w unblock atNs
      else
        match e.frames.nextStale true with
        | none => s
        | some atNs => s.scheduleTick w unblock atNs

/-- `v`'s frame callbacks go at `dueNs`, unless they already go at some refresh. -/
def listUnsubmitted (v : ViewId) (dueNs : Nat) (s : State) : State :=
  if s.unsubmitted.any (fun u => u.1 = v) then s
  else { s with unsubmitted := s.unsubmitted ++ [(v, dueNs)] }

/-- A frame of `v` could not be submitted: its frame callbacks go at the next refresh. -/
def viewUnsubmitted (v : ViewId) (s : State) : State :=
  let dueNs := s.clock.nextVblank (w.now s.asked)
  (s.ask.listUnsubmitted v dueNs).scheduleTick w unblock dueNs

/-- Hand the view's toplevel tree, as it now stands, to the shell, with what its updates wait on the
screen for. -/
def submitView (v : ViewId) (s : State) : State :=
  match s.viewRoot v with
  | none => s
  | some root =>
      let trees := s.viewTrees v
      let taken := s.takeTrees trees
      match taken.2.submitTree w v trees with
      | (none, s) =>
          let unshown := taken.1.notShown
          ((s.log unshown.2).holdLoose w unblock (s.clientOf w root) unshown.1).viewUnsubmitted w unblock v
      | (some (seq, shown), s) =>
          let pushed := s.pushFrame w v seq shown taken.1
          let s := pushed.2
          let s :=
            match pushed.1, s.clientOf w root with
            | true, some client => unblock client s
            | _, _ => s
          s.watchFrames w unblock v

/-- The view shows nothing more: its frames go. -/
def clearFrames (v : ViewId) (s : State) : Bool × State :=
  match s.view v with
  | none => (false, s)
  | some e =>
      let call := e.frames.clear
      (call.returned, (s.modifyView v fun e => { e with frames := call.frames }).log call.effects)

/-- The view shows nothing more: clear what its frames held. -/
def dropFrames (v : ViewId) (s : State) : State :=
  let client := s.viewClient w v
  let cleared := s.clearFrames v
  match cleared.1, client with
  | true, some client => unblock client cleared.2
  | _, _ => cleared.2

end State

end IhsWl
