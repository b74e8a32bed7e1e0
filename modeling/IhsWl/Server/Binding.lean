import IhsWl.Server.Pacing

/-!
# Binding views and applying commits
-/

namespace IhsWl

namespace State

variable (w : World) (unblock : Unblock)

/-! ## Which toplevel a view shows -/

/-- The sandbox the client of `x` connected through, fixed when it connected. -/
def securityContextOf (x : WlSurface) : Option SecurityContext := w.context (w.client x)

/-- Whether the toplevel's client is in the sandbox the view names, if it names one. -/
def inSandbox (params : ViewParams) (t : ToplevelEntry) : Bool :=
  match params.sandboxAppId with
  | none => true
  | some sandbox => (securityContextOf w t.surface).bind SecurityContext.appId == some sandbox

/-- A sandboxed client's app_id counts only when it is its sandbox's. -/
def ownsAppId (s : State) (t : ToplevelEntry) : Bool :=
  match securityContextOf w t.surface with
  | none => true
  | some context => context.appId == some (s.surfaces t.surface).appId

/-- Whether a view with `params` may show the toplevel: by its token when either names one, else by its
app_id when the view names one. -/
def wants (s : State) (params : ViewParams) (t : ToplevelEntry) : Bool :=
  inSandbox w params t &&
    if params.token.isSome || t.token.isSome then t.token == params.token
    else
      match params.appId with
      | some appId => s.ownsAppId w t && (s.surfaces t.surface).appId == appId
      | none => true

/-- A toplevel on its own that no view shows. A dialog is shown with its parent. -/
def free (s : State) (t : ToplevelEntry) : Bool :=
  t.mapped && t.view.isNone && (s.surfaces t.surface).parent.isNone

/-- The oldest toplevel a view with `params` may bind. -/
def pick (s : State) (params : ViewParams) : Option ToplevelId :=
  s.toplevels.byId.keys.find? fun id =>
    match s.toplevel id with
    | none => false
    | some t => s.free t && s.wants w params t

/-- View `v` and toplevel `t` are linked. -/
def link (v : ViewId) (t : ToplevelId) (s : State) : State :=
  ((s.modifyToplevel t fun e => { e with view := some v }).modifyView v fun e =>
    { e with toplevel := some t }).log [.bound v t, .posted .bound v]

/-- Bind `v` to a toplevel if it has none. -/
def tryBindView (s : State) (v : ViewId) : State :=
  match s.view v with
  | none => s
  | some e =>
      if e.toplevel.isSome then s
      else
        match s.pick w e.handle.params with
        | none => s
        | some t => (s.link v t).submitView w unblock v

/-- The views that show nothing, by id. -/
def waiting (s : State) : List ViewId :=
  s.views.keys.filter fun v => (s.view v).any fun e => e.toplevel.isNone

/-- A toplevel mapped: views waiting for one may bind it. -/
def bindWaitingViews (s : State) : State := s.waiting.foldl (tryBindView w unblock) s

/-! ## Commits -/

/-- `c` is applied: what it leaves to be answered joins what is there. Feedback of content it replaces
is discarded, and the content's generation goes up. `c.barrier` is the one of smithay's merged state, which keeps
a barrier until it is signaled: one that is not yet comes again with each later commit of the surface. -/
def applyContent (c : Commit) (s : State) : State :=
  let old := s.contents c.surface
  let content : Content := { old with
    frameCallbacks := old.frameCallbacks ++ c.callbacks
    feedback := c.feedback
    barrier := (c.barrier.map fun id => ⟨id, w.client c.surface⟩) <|> old.barrier
    generation := old.generation + 1 }
  { s with
    contents := fun x => if x = c.surface then content else s.contents x
    trace := s.trace ++ old.feedback.map .discarded }

/-- The toplevel is mapped at its first commit. -/
def markMapped (id : ToplevelId) (s : State) : State :=
  (s.modifyToplevel id fun t => { t with mapped := true }).log [.mapped id]

def toplevelCommit (x : WlSurface) (s : State) : State :=
  match s.idOf x with
  | none => s
  | some id =>
      match s.toplevel id with
      | none => s
      | some t =>
          if t.mapped then s
          else (s.markMapped id).bindWaitingViews w unblock

/-- A commit was applied; `sync` is whether its surface is a synchronized subsurface. -/
def commit (sync : Bool) (c : Commit) (s : State) : State :=
  let s := s.applyContent w c
  if sync then s
  else
    let s := s.toplevelCommit w unblock c.surface
    match s.boundViewOf c.surface with
    | some v => s.submitView w unblock v
    | none => s.notShown w unblock (s.rootOf c.surface)

/-- A surface that can still be committed to. -/
def committable (s : State) (x : WlSurface) : Bool := (s.surfaces x).alive && s.connected (w.client x)

/-- Whether `c` is applied with `main` as a synchronized subsurface of its tree. -/
def isSync (s : State) (main c : Commit) : Bool :=
  s.committable w main.surface && s.rootOf c.surface != c.surface &&
    s.rootOf c.surface == s.rootOf main.surface

/-- One commit of an update, if its surface is still there. -/
def applyCommit (main : Commit) (sync : Bool) (s : State) (c : Commit) : State :=
  if s.committable w c.surface then s.commit w unblock (sync && s.isSync w main c) c else s

/-- An update is applied: the synchronized subsurfaces', then the commit they waited for. -/
def applyUpdate (s : State) (u : Update) : State :=
  (u.synced.foldl (applyCommit w unblock u.main true) s).applyCommit w unblock u.main false u.main

end State

/-- The client's barriers were cleared: the updates that waited on them are applied, and unblock others
in turn, `depth` deep. -/
def unblock (w : World) : Nat → Unblock
  | 0, c, s => s.log [.unblock c]
  | depth + 1, c, s =>
      let s := s.log [.unblock c]
      (w.applied s.asked).foldl (State.applyUpdate w (unblock w depth)) s.ask

end IhsWl
