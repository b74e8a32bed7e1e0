import IhsWl.Lib.Debts
import IhsWl.Server.Handlers

/-!
# Moves

What applying a commit comes down to. Commits are applied inside one another, wherever a barrier's
client is unblocked, so what one of them leaves half done is a debt while the others run: a client to
be woken, a view to be offered to the shell, a toplevel to be given away, a time the clock must run at.
-/

namespace IhsWl

/-- What a handler still has to do. -/
inductive Debt where
  /-- A barrier of the client's was cleared; it is not unblocked yet. -/
  | wake (c : ClientId)
  /-- Content in the view's scene waits for callbacks nothing would send. -/
  | offer (v : ViewId)
  /-- As `offer`, for the view the surface is routed to. -/
  | route (x : WlSurface)
  /-- The view's frames may go stale with no tick to see it. -/
  | watch (v : ViewId)
  /-- The clock may not run by then. -/
  | arm (atNs : Nat)
  /-- The view shows nothing, and did not look for a toplevel. -/
  | bind (v : ViewId)
  /-- The toplevel is free, and no view looked at it. -/
  | spare (t : ToplevelId)
  /-- The view was not told that its toplevel went. -/
  | tell (v : ViewId)

/-- An entry but for what the shell is asked for and what it was handed. -/
def ViewEntry.core (e : ViewEntry) : ViewHandle × Option ToplevelId × Frames × Bool × Nat :=
  (e.handle, e.toplevel, e.frames, e.suspended, e.hiddenReleaseNs)

/-- An effect that only the shell, or the client whose buffer goes back early, sees. -/
def Effect.quiet : Effect → Bool
  | .submitted _ _ _ => true
  | .gaveBack _ _ .overflow => true
  | .gaveBack _ _ .unregistered => true
  | _ => false

/-- Views were offered to the shell, or not: nothing else happened. -/
structure Quiet (s s' : State) : Prop where
  rest : s' = { s with views := s'.views, trace := s'.trace, asked := s'.asked }
  views : ∀ v, (s'.view v).map ViewEntry.core = (s.view v).map ViewEntry.core
  asked : s.asked ≤ s'.asked
  trace : ∃ es, s'.trace = s.trace ++ es ∧ ∀ x ∈ es, x.quiet = true

/-- The debts of clocks running no later than at `atNs`. -/
def armsFrom (atNs : Nat) : Set Debt := {d | ∃ b, atNs ≤ b ∧ d = .arm b}

/-- The debt of running the clock when `o` says. -/
def armAt (o : Option Nat) : Set Debt := {d | ∃ b, o = some b ∧ d = .arm b}

/-- The debt of waking the client, if there is one and barriers were released. -/
def wakeIf (released : Bool) (client : Option ClientId) : Set Debt :=
  {d | released = true ∧ ∃ c, client = some c ∧ d = .wake c}

/-- The debts of waking `clients`. -/
def wakes (clients : List ClientId) : Set Debt := {d | ∃ c ∈ clients, d = .wake c}

open State

variable (w : World)

/-- A move that links nothing: the state before, the debts paid, those taken on, and the state after. -/
inductive Pace : State → Set Debt → Set Debt → State → Prop
  | asked (s) : Pace s ∅ ∅ s.ask
  | unblocked (s c) : Pace s {.wake c} ∅ (s.log [.unblock c])
  | standing (s atNs) : s.tick.any (fun whenNs => whenNs ≤ atNs) = true → Pace s (armsFrom atNs) ∅ s
  | armed (s atNs) : s.tick.any (fun whenNs => whenNs ≤ atNs) = false → w.timer s.asked = true →
      Pace s (armsFrom atNs) ∅ { s.ask with tick := some atNs }
  | failed (s) : w.timer s.asked = false → Pace s (armsFrom 0) ∅ { s.ask with tick := none }
  | looseReleased (s) : (∃ k, w.timer k = false) →
      Pace s ∅ (wakes (s.loose.map Loose.client)) s.releaseLoose
  | timersReleased (s) : (∃ k, w.timer k = false) → Pace s ∅ ∅ s.releaseTimers
  | framesReleased (s) : (∃ k, w.timer k = false) →
      Pace s ∅ (wakes (s.releaseFrames w).1) (s.releaseFrames w).2
  | forgotten (s) : (∃ k, w.timer k = false) → Pace s ∅ ∅ { s with unsubmitted := [] }
  | applied (s c) : Pace s ∅ {.route c.surface} (s.applyContent w c)
  | routed (s x v) : s.boundViewOf x = some v → Pace s {.route x} {.offer v} s
  | unrouted (s x) : s.boundViewOf x = none → Pace s {.route x} ∅ s
  | joined (s x y) : s.rootOf x = s.rootOf y → Pace s {.route x} {.route y} s
  | unseen (s v) : s.viewRoot v = none → Pace s {.offer v} ∅ s
  | called (s v ustNs) : (∃ k, w.timer k = false) → Pace s {.offer v} ∅ (s.sendViewCallbacks w v ustNs)
  | quiet (s s') : Quiet s s' → Pace s ∅ ∅ s'
  | unshown (s root taken s₁ dueNs s') : s.takeTrees [root] = (taken, s₁) →
      (s₁.log taken.notShown.2).admitLoose w (s.clientOf w root) taken.barriers = (dueNs, s') →
      Pace s ∅ (armAt dueNs) s'
  | refused (s v root taken s₁ s₂ dueNs s') : s.viewRoot v = some root →
      s.takeTrees (s.viewTrees v) = (taken, s₁) → Quiet s₁ s₂ →
      (s₂.log taken.notShown.2).admitLoose w (s.clientOf w root) taken.barriers = (dueNs, s') →
      Pace s ∅ (armAt dueNs) s'
  | listed (s v dueNs) : Pace s {.offer v} {.arm dueNs} (s.listUnsubmitted v dueNs)
  | pushed (s v root taken s₁ s₂ seq shown released s') : s.viewRoot v = some root →
      s.takeTrees (s.viewTrees v) = (taken, s₁) → Quiet s₁ s₂ →
      s₂.pushFrame w v seq shown taken = (released, s') →
      Pace s {.offer v} ({.watch v} ∪ wakeIf released (s.clientOf w root)) s'
  | unwatched (s v) : (∀ e, s.view v = some e → e.frames.nextStale (!e.suspended) = none) →
      Pace s {.watch v} ∅ s
  | watchedHidden (s v e atNs) : s.view v = some e → e.suspended = true → Pace s {.watch v} {.arm atNs} s
  | watchedShown (s v e atNs) : s.view v = some e → e.suspended = false →
      e.frames.nextStale true = some atNs → Pace s {.watch v} {.arm atNs} s
  | passed (s v) : (∀ e, s.view v = some e → e.toplevel = none → s.pick w e.handle.params = none) →
      Pace s {.bind v} ∅ s
  | occupied (s t) : (∀ te, s.toplevel t = some te → s.free te = false) → Pace s {.spare t} ∅ s
  | looked (s) : Pace s {d | ∃ t, d = .spare t} {d | ∃ v ∈ s.waiting, d = .bind v} s

/-- A move. Only a toplevel's first commit and the binding of a view that waits link anything. -/
inductive Move : State → Set Debt → Set Debt → State → Prop
  | pace {s paid taken s'} : Pace w s paid taken s' → Move s paid taken s'
  | mapped (s x id t) : s.idOf x = some id → s.toplevel id = some t → t.mapped = false →
      Move s ∅ {.spare id, .route x} (s.markMapped id)
  | linked (s v e t) : s.view v = some e → e.toplevel = none → s.pick w e.handle.params = some t →
      Move s {.bind v} {.offer v} (s.link v t)

/-- Runs of moves. -/
abbrev Settles := Debts.Settles (Move w)

end IhsWl
