import IhsWl.Server.Binding
import IhsWl.Timing.Queue

/-!
# Commands, requests and the clock's tick
-/

namespace IhsWl

/-- What the shell and the app ask of the server. -/
inductive Cmd where
  | viewCreated (view : ViewHandle)
  | viewDisposed (id : ViewId)
  | viewResized (id : ViewId) (size : Int × Int)
  | viewRequestSize (id : ViewId) (size : Option (Int × Int))
  | presented (id : ViewId) (report : Report)
  | viewSuspended (id : ViewId) (suspended : Bool)
  | focus (id : ViewId) (focused : Bool)
  | issueToken
  deriving DecidableEq, Repr

/-- What the loop handles, one after another: a command, a client's request that smithay found valid,
the clock, or a release fence. -/
inductive Event where
  | cmd (c : Cmd)
  | commit (u : Update)
  | target (x : WlSurface) (deadline : Nat)
  | newToplevel (x : WlSurface)
  | destroyToplevel (x : WlSurface)
  | setParent (x : WlSurface) (parent : Option WlSurface)
  | setAppId (x : WlSurface) (appId : String)
  | newPopup (x parent : WlSurface)
  | destroyPopup (x : WlSurface)
  | getSubsurface (x parent : WlSurface)
  | destroySubsurface (x : WlSurface)
  | destroySurface (x : WlSurface)
  | clientToken
  | activate (x : WlSurface) (token : String)
  | disconnect (c : ClientId)
  | fence (v : ViewId) (key : Nat)
  | tick
  deriving DecidableEq, Repr

namespace State

variable (w : World) (unblock : Unblock)

/-! ## Unbinding -/

/-- The view lets go of what it holds and of its toplevel. -/
def unlink (v : ViewId) (s : State) : State :=
  match s.view v with
  | none => s
  | some e =>
      let cleared := e.holds.clear v
      let s := (s.modifyView v fun e => { e with holds := cleared.1, toplevel := none }).log cleared.2
      match e.toplevel with
      | none => s
      | some t =>
          (s.modifyToplevel t fun t => { t with view := none }).log
            [.unbinding v e.frames.queuedBarriers, .unbound v t]

/-- Break the view's binding, handing back every buffer it held. -/
def unbindView (v : ViewId) (s : State) : State :=
  ((s.dropFrames w unblock v).clearView w v).unlink v

/-- The toplevel is going away. -/
def unbindToplevel (id : ToplevelId) (s : State) : State :=
  match (s.toplevel id).bind ToplevelEntry.view with
  | none => s
  | some v => (s.unbindView w unblock v).log [.posted .closed v]

/-! ## Commands -/

def insertView (view : ViewHandle) (s : State) : State :=
  let entry : ViewEntry := { handle := view, size := view.size, requested := view.params.requested }
  { s with views := s.views.insert view.id entry }

def viewCreated (view : ViewHandle) (s : State) : State :=
  let s := if (s.view view.id).isSome then s.unbindView w unblock view.id else s
  (s.insertView view).tryBindView w unblock view.id

def eraseView (v : ViewId) (s : State) : State :=
  { s with
    views := s.views.erase v
    focusedView := if s.focusedView = some v then none else s.focusedView }

def viewDisposed (v : ViewId) (s : State) : State := (s.unbindView w unblock v).eraseView v

/-- Show what `v` last showed at its current fit. -/
def refitView (v : ViewId) (s : State) : State :=
  match s.view v with
  | none => s
  | some e => if e.seq > 0 ∧ !e.cleared then s.submitView w unblock v else s

def viewResized (v : ViewId) (size : Int × Int) (s : State) : State :=
  match s.view v with
  | none => s
  | some e =>
      let s := s.modifyView v fun e => { e with size := some size }
      if e.requested.isSome then s.refitView w unblock v else s

def viewRequestSize (v : ViewId) (size : Option (Int × Int)) (s : State) : State :=
  match s.view v with
  | none => s
  | some e =>
      if e.requested = size then s
      else (s.modifyView v fun e => { e with requested := size }).refitView w unblock v

/-- Report `r` of `v`: what its frames and holds give up for it. -/
def takeReport (v : ViewId) (r : Report) (s : State) : Bool × State :=
  match s.view v with
  | none => (false, s)
  | some e =>
      let holds := e.holds.presented v r.seq
      let call := e.frames.presented r
      (call.returned, (s.modifyView v fun e => { e with holds := holds.1, frames := call.frames }).log
        (holds.2 ++ call.effects))

/-- Frame `r.seq` of `v` is on screen. -/
def framePresented (v : ViewId) (r : Report) (s : State) : State :=
  let s : State := { s with clock := s.clock.update r.ustNs r.refreshNs }
  match s.view v with
  | none => s
  | some _ =>
      let reported := s.takeReport v r
      let trees := reported.2.viewTrees v
      let s := trees.foldl (sendFrameCallbacks w r.ustNs) reported.2
      match reported.1, trees.head?.bind (s.clientOf w) with
      | true, some client => unblock client s
      | _, _ => s

/-- Dismiss every popup of `v`, its dialogs' included. -/
def dismissPopups (v : ViewId) (s : State) : State :=
  { s with popups := s.popups.filter fun p => p.root ∉ s.viewWindows v }

def setSuspended (v : ViewId) (suspended : Bool) (s : State) : State :=
  let releaseNs := s.clock.nextVblank (w.now s.asked)
  (s.modifyView v fun e => { e with suspended := suspended, hiddenReleaseNs := releaseNs }).ask

/-- The view left or re-entered the scene. -/
def viewSuspended (v : ViewId) (suspended : Bool) (s : State) : State :=
  match s.view v with
  | none => s
  | some _ =>
      let s := s.setSuspended w v suspended
      let s := if suspended then s.dismissPopups v else s
      match s.view v with
      | none => s
      | some e =>
          if suspended then
            match e.frames.nextStale false with
            | none => s
            | some _ => s.scheduleTick w unblock e.hiddenReleaseNs
          else
            let now := w.now s.asked
            let s := s.ask.log [.resumed v now]
            match e.frames.nextStale true with
            | none => s
            | some atNs => s.scheduleTick w unblock (max atNs (now + staleNs))

def focusInput (v : ViewId) (focused : Bool) (s : State) : State :=
  if focused then { s with focusedView := some v }
  else if s.focusedView = some v then ({ s with focusedView := none } : State).dismissPopups v
  else s

/-- A new token for a client about to be launched. Tokens clients made are kept past their lifetime:
activating with one does nothing. -/
def issueActivationToken (s : State) : State :=
  let token := w.mint s.minted
  { s with
    tokens := s.tokens ++ [⟨token, true⟩]
    minted := s.minted + 1
    trace := s.trace ++ [.issued token] }

def handleCmd (c : Cmd) (s : State) : State :=
  match c with
  | .viewCreated view => s.viewCreated w unblock view
  | .viewDisposed v => s.viewDisposed w unblock v
  | .viewResized v size => s.viewResized w unblock v size
  | .viewRequestSize v size => s.viewRequestSize w unblock v size
  | .presented v r => s.framePresented w unblock v r
  | .viewSuspended v suspended => s.viewSuspended w unblock v suspended
  | .focus v focused => s.focusInput v focused
  | .issueToken => s.issueActivationToken w

/-! ## Toplevels -/

/-- A toplevel is made: it keeps the id its surface's data already holds, if any. -/
def newToplevel (x : WlSurface) (s : State) : State :=
  let toplevels := s.toplevels.insert x
  let id := toplevels.nextId
  { s with
    toplevels := toplevels
    surfaces := fun y =>
      if y = x then { s.surfaces x with
        role := some .toplevel
        hasToplevel := true
        toplevelId := (s.surfaces x).toplevelId <|> some id }
      else s.surfaces y }

def removeToplevel (id : ToplevelId) (s : State) : State :=
  { s with toplevels := s.toplevels.remove id }

/-- The toplevel of `x` is destroyed; `x`'s role data is reset after the handler ran. -/
def toplevelDestroyed (x : WlSurface) (s : State) : State :=
  match s.idOf x with
  | none => s
  | some id =>
      let dialogView := if (s.surfaces x).parent.isSome then s.boundViewOf x else none
      let s := (s.unbindToplevel w unblock id).removeToplevel id
      match dialogView with
      | none => s
      | some v => s.submitView w unblock v

def resetToplevel (x : WlSurface) (s : State) : State :=
  { s with surfaces := fun y =>
      if y = x then { s.surfaces x with hasToplevel := false, parent := none, appId := "" }
      else s.surfaces y }

def setParent (x : WlSurface) (parent : Option WlSurface) (s : State) : State :=
  { s with surfaces := fun y => if y = x then { s.surfaces x with parent := parent } else s.surfaces y }

/-- Now a dialog of another view, or none: show it where it belongs. -/
def parentChanged (s : State) : State :=
  (s.viewIds w).foldl (fun s v =>
    if (s.view v).any (fun e => e.toplevel.isSome) then s.submitView w unblock v else s) s

def setAppId (x : WlSurface) (appId : String) (s : State) : State :=
  { s with surfaces := fun y => if y = x then { s.surfaces x with appId := appId } else s.surfaces y }

/-! ## Popups and subsurfaces -/

def newPopup (x parent : WlSurface) (s : State) : State :=
  let root :=
    if (s.surfaces parent).role = some .popup then ((s.surfaces parent).popupRoot).getD parent
    else parent
  { s with
    popups := s.popups ++ [⟨x, root⟩]
    surfaces := fun y =>
      if y = x then { s.surfaces x with
        role := some .popup, popupParent := some parent, popupRoot := some root }
      else s.surfaces y }

def untrackPopup (x : WlSurface) (s : State) : State :=
  { s with
    popups := s.popups.filter fun p => p.surface ≠ x
    surfaces := fun y =>
      if y = x then { s.surfaces x with popupParent := none, popupRoot := none } else s.surfaces y }

/-- Its layers go with it. -/
def popupDestroyed (x : WlSurface) (s : State) : State :=
  let view := (s.surfaces x).popupParent.bind s.boundViewOf
  let s := s.untrackPopup x
  match view with
  | none => s
  | some v => s.submitView w unblock v

def getSubsurface (x parent : WlSurface) (s : State) : State :=
  { s with
    subsurfaces := s.subsurfaces ++ [(x, parent)]
    surfaces := fun y => if y = x then { s.surfaces x with role := some .subsurface } else s.surfaces y }

def destroySubsurface (x : WlSurface) (s : State) : State :=
  { s with subsurfaces := s.subsurfaces.filter fun p => p.1 ≠ x }

def destroySurface (x : WlSurface) (s : State) : State :=
  { s with
    subsurfaces := s.subsurfaces.filter fun p => p.1 ≠ x ∧ p.2 ≠ x
    surfaces := fun y => if y = x then { s.surfaces x with alive := false } else s.surfaces y }

/-! ## Activation -/

/-- A token a client made, for another or for itself. -/
def clientToken (s : State) : State :=
  { s with tokens := s.tokens ++ [⟨w.mint s.minted, false⟩], minted := s.minted + 1 }

/-- The token is used up, and marks the toplevel. -/
def markActivated (id : ToplevelId) (token : String) (s : State) : State :=
  (({ s with tokens := s.tokens.filter fun t => t.value ≠ token } : State).modifyToplevel id fun t =>
    { t with token := some token }).log [.activated id token]

/-- Whether some view names `token`. -/
def named (s : State) (token : String) : Bool :=
  s.views.keys.any fun v => (s.view v).any fun e => e.handle.params.token == some token

/-- The client of `x` activates it with `token`, one smithay knows. -/
def requestActivation (x : WlSurface) (token : Token) (s : State) : State :=
  if !token.issued then s
  else
    match s.idOf (s.toplevelOf x) with
    | none => s
    | some id =>
        match s.toplevel id with
        | none => { s with tokens := s.tokens.filter fun t => t.value ≠ token.value }
        | some t =>
            let s := s.markActivated id token.value
            match t.view with
            | none => s.bindWaitingViews w unblock
            | some v =>
                if (s.view v).any (fun e => e.handle.params.token == some token.value) then s
                else if !s.named token.value then s
                else (s.unbindView w unblock v).bindWaitingViews w unblock

/-! ## The clock -/

/-- `x` is watched until its targets are due. -/
def addTimed (x : WlSurface) (s : State) : State :=
  if x ∈ s.timed then s else { s with timed := s.timed ++ [x] }

/-- The update with the target waits with a timer of its own. -/
def registerTimer (x : WlSurface) (deadline : Nat) (s : State) : State :=
  { s with
    registered := s.registered + 1
    contents := fun y =>
      if y = x then { s.contents x with timers := (s.contents x).timers ++ [⟨s.registered, deadline⟩] }
      else s.contents y }

/-- Called before a commit with a target is applied: it is watched, and worked out on the next pass. -/
def watchTarget (x : WlSurface) (deadline : Nat) (s : State) : State :=
  let s := s.addTimed x
  let now := w.now s.asked
  (s.ask.scheduleTick w unblock now).registerTimer x deadline

/-- The timers of a watched surface no vblank soon enough can show. -/
def pending (due : Nat) (c : Content) : List Timer := c.timers.filter fun t => due < t.deadline

/-- The watched surfaces that still have any. -/
def stillTimed (due : Nat) (s : State) : List WlSurface :=
  s.watched.filter fun x => !(pending due (s.contents x)).isEmpty

/-- Apply what the next vblank can show. -/
def sweepTimers (due : Nat) (s : State) : State :=
  { s with
    timed := s.stillTimed due
    contents := fun x =>
      if x ∈ s.watched then { s.contents x with timers := pending due (s.contents x) } else s.contents x }

/-- Barriers of updates nobody shows, due by `now`. -/
def looseOut (now : Nat) (s : State) : List Loose := s.loose.filter fun l => l.dueNs ≤ now

def sweepLoose (now : Nat) (s : State) : State :=
  ({ s with loose := s.loose.filter fun l => now < l.dueNs } : State).log
    ((s.looseOut now).map fun l => Effect.signal l.barrier)

/-- Views whose frame could not be submitted, due by `now`. -/
def refusedOut (now : Nat) (s : State) : List ViewId :=
  (s.unsubmitted.filter fun u => u.2 ≤ now).map Prod.fst

def sweepUnsubmitted (now : Nat) (s : State) : State :=
  { s with unsubmitted := s.unsubmitted.filter fun u => now < u.2 }

/-- A view's frames on a tick. -/
structure Swept where
  entry : ViewEntry
  effects : List Effect := []
  released : Bool := false
  flushed : Bool := false

/-- What went unreported is released, and of a view on screen flushed. -/
def sweepFrames (now : Nat) (e : ViewEntry) : Swept :=
  if e.suspended then
    if e.hiddenReleaseNs ≤ now ∧ (e.frames.nextStale false).isSome then
      let call := e.frames.releaseAll
      { entry := { e with hiddenReleaseNs := now + hiddenReleaseNs, frames := call.frames }
        effects := call.effects
        released := call.returned }
    else { entry := e }
  else
    let flushed := e.frames.flushOlder (now - staleNs)
    let call := flushed.frames.releaseOlder (now - staleNs)
    { entry := { e with frames := call.frames }
      effects := call.effects
      released := call.returned
      flushed := flushed.returned }

def sweptView (now : Nat) (s : State) (v : ViewId) : Option Swept := (s.view v).map (sweepFrames now)

def sweepViews (now : Nat) (s : State) : State :=
  ({ s with views := s.views.map fun _ e => (sweepFrames now e).entry } : State).log
    ((s.viewIds w).flatMap fun v => ((s.sweptView now v).map Swept.effects).getD [])

/-- When a view's frames next need the clock. -/
def frameWake (vblank : Nat) (e : ViewEntry) : Option Nat :=
  (e.frames.nextStale (!e.suspended)).map fun atNs =>
    if e.suspended then max e.hiddenReleaseNs vblank else atNs

/-- The clients whose updates a tick frees. -/
def freed (now : Nat) (s : State) : List ClientId :=
  let due := s.clock.due now
  let timedOut := s.watched.filter fun x => (s.contents x).timers.any fun t => t.deadline ≤ due
  let released := (s.viewIds w).filter fun v => (s.sweptView now v).any Swept.released
  timedOut.filterMap (s.clientOf w) ++ (s.looseOut now).map Loose.client ++
    released.filterMap (s.viewClient w)

/-- The views whose frame callbacks go on a tick. -/
def flushed (now : Nat) (s : State) : List ViewId :=
  let refused := s.refusedOut now
  refused ++ (s.viewIds w).filter fun v =>
    (s.sweptView now v).any Swept.flushed && !refused.contains v

/-- When what is left after a tick needs the clock. -/
def wakeTimes (now : Nat) (s : State) : List Nat :=
  let due := s.clock.due now
  let timers := (s.stillTimed due).filterMap fun x =>
    ((pending due (s.contents x)).map Timer.deadline).min?.map fun target =>
      s.clock.releaseAt (target % (u64Max + 1))
  let loose := (s.loose.filter fun l => now < l.dueNs).map Loose.dueNs
  let unsubmitted := (s.unsubmitted.filter fun u => now < u.2).map Prod.snd
  let frames := (s.viewIds w).filterMap fun v =>
    (s.sweptView now v).bind fun r => frameWake (s.clock.nextVblank now) r.entry
  timers ++ loose ++ unsubmitted ++ frames

/-- What is due at `now` is released. -/
def sweep (now : Nat) (s : State) : State :=
  (((s.sweepTimers (s.clock.due now)).sweepLoose now).sweepUnsubmitted now).sweepViews w now

/-- The timer fired: it is gone, and the time is read. -/
def disarm (s : State) : State := { s.ask with tick := none }

/-- The clock ticks. -/
def onTick (s : State) : State :=
  let now := w.now s.asked
  let s := s.disarm
  let clients := s.freed w now
  let wakes := s.wakeTimes w now
  let s := (s.flushed w now).foldl (flushCallbacks w now) (s.sweep w now)
  let s := s.unblockAll unblock clients
  match wakes.min? with
  | none => s
  -- Never a busy loop, whatever rounding says.
  | some atNs => s.scheduleTick w unblock (max atNs (now + 100_000))

/-! ## Events -/

/-- Whether a request names live objects, as smithay checks before it calls the handler. -/
def valid (s : State) : Event → Bool
  | .target x _ => s.committable w x
  | .newToplevel x => s.committable w x && !(s.surfaces x).hasToplevel &&
      ((s.surfaces x).role == none || (s.surfaces x).role == some .toplevel)
  | .destroyToplevel x => (s.surfaces x).hasToplevel
  | .setParent x parent => (s.surfaces x).hasToplevel &&
      parent.all fun p => (s.surfaces p).hasToplevel && w.client p == w.client x
  | .setAppId x _ => (s.surfaces x).hasToplevel
  | .newPopup x parent => s.committable w x && (s.surfaces x).popupParent.isNone &&
      ((s.surfaces x).role == none || (s.surfaces x).role == some .popup) &&
      w.client parent == w.client x &&
      ((s.surfaces parent).hasToplevel || (s.surfaces parent).popupParent.isSome)
  | .destroyPopup x => (s.surfaces x).popupParent.isSome
  | .getSubsurface x parent => s.committable w x && s.committable w parent &&
      w.client parent == w.client x && (s.subParent x).isNone && s.rootOf parent != x &&
      ((s.surfaces x).role == none || (s.surfaces x).role == some .subsurface)
  | .destroySurface x => (s.surfaces x).alive && !(s.surfaces x).hasToplevel &&
      (s.surfaces x).popupParent.isNone
  | .tick => s.tick.isSome
  | _ => true

/-- What a valid event does. -/
def handle (e : Event) (s : State) : State :=
  match e with
  | .cmd c => s.handleCmd w unblock c
  | .commit u => s.applyUpdate w unblock u
  | .target x deadline => s.watchTarget w unblock x deadline
  | .newToplevel x => s.newToplevel x
  | .destroyToplevel x => (s.toplevelDestroyed w unblock x).resetToplevel x
  | .setParent x parent => (s.setParent x parent).parentChanged w unblock
  | .setAppId x appId => s.setAppId x appId
  | .newPopup x parent => s.newPopup x parent
  | .destroyPopup x => s.popupDestroyed w unblock x
  | .getSubsurface x parent => s.getSubsurface x parent
  | .destroySubsurface x => s.destroySubsurface x
  | .destroySurface x => s.destroySurface x
  | .clientToken => s.clientToken w
  | .activate x value =>
      match s.tokens.find? (fun t => t.value == value) with
      | none => s
      | some token => s.requestActivation w unblock x token
  | .disconnect c => { s with connected := fun d => if d = c then false else s.connected d }
  | .fence v key => s.modifyView v fun e => { e with holds := e.holds.signaled key }
  | .tick => s.onTick w unblock

end State

/-- One event; `depth` bounds how deep unblocking nests. -/
def step (w : World) (depth : Nat) (s : State) (e : Event) : State :=
  if s.valid w e then s.handle w (unblock w depth) e else s

/-- The events one after another. -/
def run (w : World) (depth : Nat) (es : List Event) : State := es.foldl (step w depth) {}

end IhsWl
