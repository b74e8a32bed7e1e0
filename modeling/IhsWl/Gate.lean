import IhsWl.Base
import Mathlib.Logic.Function.Basic

/-!
# The readiness gate

Commits are held until the client's rendering into their dma-bufs is done. The shell is handed no fence with a
buffer, so nothing else waits for it.
-/

namespace IhsWl

/-- An acquire point, or what the planes of a dma-buf poll for. -/
abbrev Fence := Nat

/-- Commits of one client waiting for their buffers at once, at most. -/
def maxWaits : Nat := 32

/-- What a commit attaches. -/
inductive Attached where
  | kept
  | other
  | dmabuf (buffer : Nat) (implicit : Fence)
  deriving DecidableEq, Repr

structure BufferCommit where
  surface : WlSurface
  attached : Attached
  acquire : Option Fence := none
  deriving DecidableEq, Repr

/-- What decides when the commit is ready. Explicit sync replaces implicit. -/
def BufferCommit.fence (c : BufferCommit) : Option Fence :=
  match c.attached with
  | .dmabuf _ implicit => some (c.acquire.getD implicit)
  | _ => none

/-- What trying to wait would come to: an eventfd for the acquire point, and a source in the loop. -/
structure Attempt where
  eventfd : Bool := true
  inserted : Bool := true
  deriving DecidableEq, Repr

/-- A commit in its surface's queue: the wait it is blocked on, or that none could be made. -/
structure Queued where
  commit : BufferCommit
  blocker : Option Nat := none
  unwatched : Bool := false
  deriving DecidableEq, Repr

/-- The fences that signaled, the waits of each client, the blockers cleared, and what smithay keeps of each
surface: the commits queued, and the one whose buffer it shows. -/
structure Gate where
  signaled : List Fence := []
  waits : ClientId → List (Nat × Fence) := fun _ => []
  nextWait : Nat := 0
  cleared : List Nat := []
  queue : WlSurface → List Queued := fun _ => []
  current : WlSurface → Option Queued := fun _ => none

inductive GateOp where
  | commits (c : BufferCommit) (attempt : Attempt)
  | signals (f : Fence)
  | fires (c : ClientId) (key : Nat)
  | applies (x : WlSurface)
  | reaps (c : ClientId)
  deriving DecidableEq, Repr

namespace Gate

variable (client : WlSurface → ClientId)

/-- Hold the commit until `fence` signals. A client gets at most `maxWaits` waits at a time; past that its commit
has none of its own. -/
def holdCommit (c : BufferCommit) (fence : Fence) (inserted : Bool) (g : Gate) : Gate × Queued :=
  let waits := g.waits (client c.surface)
  if waits.length ≥ maxWaits then (g, { commit := c })
  else
    let key := g.nextWait + 1
    if inserted then
      ({ g with
          nextWait := key
          waits := Function.update g.waits (client c.surface) (waits ++ [(key, fence)]) },
        { commit := c, blocker := some key })
    -- Let through, rather than wedge the client.
    else ({ g with nextWait := key }, { commit := c, unwatched := true })

/-- Called before a commit is queued. -/
def gateOnReadiness (c : BufferCommit) (attempt : Attempt) (g : Gate) : Gate × Queued :=
  match c.attached with
  | .dmabuf _ implicit =>
      match c.acquire with
      | some acquire =>
          if acquire ∈ g.signaled then (g, { commit := c })
          else if attempt.eventfd then g.holdCommit client c acquire attempt.inserted
          else (g, { commit := c, unwatched := true })
      | none =>
          if implicit ∈ g.signaled then (g, { commit := c })
          else g.holdCommit client c implicit attempt.inserted
  | _ => (g, { commit := c })

/-- The commit goes to the end of its surface's queue. -/
def enqueue (q : Queued) (g : Gate) : Gate :=
  { g with queue := Function.update g.queue q.commit.surface (g.queue q.commit.surface ++ [q]) }

/-- The source of a wait whose fence signaled is dispatched: the wait is over and its blocker cleared. -/
def fire (c : ClientId) (key : Nat) (g : Gate) : Gate :=
  if (g.waits c).any (fun wait => wait.1 == key && g.signaled.contains wait.2) then
    { g with
      waits := Function.update g.waits c ((g.waits c).filter fun wait => wait.1 ≠ key)
      cleared := key :: g.cleared }
  else g

/-- The first commit in the queue of `x` is applied, unless it is blocked. One that attaches nothing keeps the
buffer there was. -/
def applyNext (x : WlSurface) (g : Gate) : Gate :=
  match g.queue x with
  | [] => g
  | q :: rest =>
      if q.blocker.all fun key => key ∈ g.cleared then
        { g with
          queue := Function.update g.queue x rest
          current := if q.commit.attached = .kept then g.current else Function.update g.current x (some q) }
      else g

def step (g : Gate) : GateOp → Gate
  | .commits c attempt =>
      let held := g.gateOnReadiness client c attempt
      held.1.enqueue held.2
  | .signals f => { g with signaled := f :: g.signaled }
  | .fires c key => g.fire c key
  | .applies x => g.applyNext x
  | .reaps c => { g with waits := Function.update g.waits c [] }

def run (ops : List GateOp) : Gate := ops.foldl (step client) {}

/-- The buffers a submission of the surfaces `xs` hands to the shell. -/
def handed (g : Gate) (xs : List WlSurface) : List Queued := xs.filterMap g.current

/-- Whether the client is done with the buffer, or nothing could be made to wait for it. -/
def finished (g : Gate) (q : Queued) : Bool := q.commit.fence.all fun f => g.signaled.contains f || q.unwatched

/-- Whether a commit that has to wait finds a wait to be had. -/
def hasRoom (g : Gate) : GateOp → Bool
  | .commits c attempt =>
      c.fence.all fun f => g.signaled.contains f || (c.acquire.isSome && !attempt.eventfd) ||
        (g.waits (client c.surface)).length < maxWaits
  | _ => true

end Gate

end IhsWl
