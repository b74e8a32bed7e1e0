import IhsWl.Server.Moves

/-!
# Deeds

What handling an event comes down to: the moves of applying commits, and what only a handler does. The
debts a handler leaves unpaid are what it forgets.
-/

namespace IhsWl

open State

variable (w : World) (guard : State → Event → Prop)

/-- What is owed once a tick took everything due: to wake who was freed, to send the frame callbacks of
the views on screen that were flushed, and to run the clock for the rest. -/
def tickDebts (s : State) : Set Debt :=
  let now := w.now s.asked
  {d | (∃ c ∈ s.disarm.freed w now, d = .wake c) ∨
    (∃ v ∈ s.disarm.flushed w now, (∃ e, s.view v = some e ∧ e.suspended = false) ∧ d = .offer v) ∨
    ∃ atNs ∈ s.disarm.wakeTimes w now, d = .arm (max atNs (now + 100_000))}

/-- A tick took everything due and sent the frame callbacks that go. -/
def State.swept (s : State) : State :=
  (s.disarm.flushed w (w.now s.asked)).foldl (flushCallbacks w (w.now s.asked)) (s.disarm.sweep w (w.now s.asked))

/-- What is owed then: to wake who was freed, and to run the clock for the rest. -/
def sweptDebts (s : State) : Set Debt :=
  wakes (s.disarm.freed w (w.now s.asked)) ∪
    {d | ∃ atNs ∈ s.disarm.wakeTimes w (w.now s.asked), d = .arm (max atNs (w.now s.asked + 100_000))}

/-- The toplevel of `x`, a dialog until now, stands on its own, and no view looked at it. -/
def loneDebts (s : State) (x : WlSurface) : Set Debt :=
  {d | ∃ id, s.idOf x = some id ∧ (s.surfaces x).parent.isSome = true ∧ s.shownIn id = none ∧
    (s.toplevel id).any ToplevelEntry.mapped = true ∧ d = .spare id}

/-- The view `v` let its toplevel go, and was told `es`. -/
def letGoDebts (s : State) (v : ViewId) (es : List Effect) : Set Debt :=
  {d | d = .bind v ∨ (∃ t, s.shows v = some t ∧ d = .spare t) ∨ (es = [] ∧ d = .tell v)}

/-- A deed: the state before, the debts paid, those taken on, and the state after. `guard` is asked of the
event it begins. -/
inductive Deed : State → Set Debt → Set Debt → State → Prop
  | move {s paid taken s'} : Move w s paid taken s' → Deed s paid taken s'
  | called (s v ustNs) : Deed s {.offer v} ∅ (s.sendViewCallbacks w v ustNs)
  | framesCleared (s v) :
      Deed s ∅ (insert (.offer v) (wakeIf (s.clearFrames v).1 (s.viewClient w v))) (s.clearFrames v).2
  | unlinked (s v es) : (es = [] ∨ (s.shows v).isSome = true ∧ es = [.posted .closed v]) →
      Deed s ∅ (letGoDebts s v es) ((s.unlink v).log es)
  | inserted (s s₀ view) : s.shows view.id = none → guard s₀ (.cmd (.viewCreated view)) →
      Deed s {.tell view.id} {.bind view.id} (s.insertView view)
  | erased (s s₀ v) : s.shows v = none → guard s₀ (.cmd (.viewDisposed v)) →
      Deed s {.bind v, .tell v} ∅ (s.eraseView v)
  | clocked (s) (r : Report) : Deed s ∅ ∅ { s with clock := s.clock.update r.ustNs r.refreshNs }
  | reported (s v r) :
      Deed s ∅ (insert (.offer v) (wakeIf (s.takeReport v r).1 (s.viewClient w v))) (s.takeReport v r).2
  | suspendedSet (s s₀ v suspended) : guard s₀ (.cmd (.viewSuspended v suspended)) →
      Deed s ∅ {.watch v} (s.setSuspended w v suspended)
  | resumed (s v) : Deed s ∅ ∅ (s.ask.log [.resumed v (w.now s.asked)])
  | watchedResumed (s v e atNs now) : s.view v = some e → e.suspended = false →
      e.frames.nextStale true = some atNs → .resumed v now ∈ s.trace →
      Deed s {.watch v} {.arm (max atNs (now + staleNs))} s
  | dismissed (s v) : Deed s ∅ ∅ (s.dismissPopups v)
  | focused (s) (v : Option ViewId) : Deed s ∅ ∅ { s with focusedView := v }
  | targeted (s x) : Deed s ∅ {.arm (w.now s.asked)} (s.addTimed x)
  | registered (s s₀ x deadline) : (x ∈ s.timed ∨ ∃ k, w.timer k = false) → guard s₀ (.target x deadline) →
      Deed s ∅ ∅ (s.registerTimer x deadline)
  | made (s x) : (s.surfaces x).hasToplevel = false →
      (s.surfaces x).role = none ∨ (s.surfaces x).role = some .toplevel → guard s (.newToplevel x) →
      Deed s ∅ ∅ (s.newToplevel x)
  | removed (s s₀ x id) : s.idOf x = some id → s.shownIn id = none → guard s₀ (.destroyToplevel x) →
      Deed s ∅ ∅ (s.removeToplevel id)
  | reset (s x) : (∀ id, s.idOf x = some id → s.toplevel id = none) → Deed s ∅ ∅ (s.resetToplevel x)
  | parentSet (s x parent) : (s.surfaces x).hasToplevel = true →
      (∀ p, parent = some p → (s.surfaces p).hasToplevel = true ∧ w.client p = w.client x) →
      guard s (.setParent x parent) →
      Deed s ∅ {d | (∃ v ∈ s.viewIds w, d = .offer v) ∨ (parent = none ∧ d ∈ loneDebts s x)}
        (s.setParent x parent)
  | named (s x appId) : (s.surfaces x).hasToplevel = true → guard s (.setAppId x appId) →
      Deed s ∅ ∅ (s.setAppId x appId)
  | popupMade (s x parent) : (s.surfaces x).popupParent = none →
      (s.surfaces x).role = none ∨ (s.surfaces x).role = some .popup → w.client parent = w.client x →
      (s.surfaces parent).hasToplevel = true ∨ (s.surfaces parent).popupParent.isSome = true →
      guard s (.newPopup x parent) → Deed s ∅ ∅ (s.newPopup x parent)
  | untracked (s x) : Deed s ∅ ∅ (s.untrackPopup x)
  | subsurfaceMade (s x parent) : w.client parent = w.client x → s.subParent x = none → s.rootOf parent ≠ x →
      (s.surfaces x).role = none ∨ (s.surfaces x).role = some .subsurface → guard s (.getSubsurface x parent) →
      Deed s ∅ ∅ (s.getSubsurface x parent)
  | subsurfaceGone (s x) : Deed s ∅ ∅ (s.destroySubsurface x)
  | surfaceGone (s x) : (s.surfaces x).hasToplevel = false → Deed s ∅ ∅ (s.destroySurface x)
  | tokenMade (s) : Deed s ∅ ∅ (s.clientToken w)
  | tokenIssued (s) : Deed s ∅ ∅ (s.issueActivationToken w)
  | tokenDropped (s value) : Deed s ∅ ∅ { s with tokens := s.tokens.filter fun t => t.value ≠ value }
  | tokenUsed (s id token) : token ∈ s.tokens → token.issued = true →
      Deed s ∅ {.spare id} (s.markActivated id token.value)
  | disconnected (s c) : Deed s ∅ ∅ { s with connected := fun d => if d = c then false else s.connected d }
  | ticked (s) : guard s .tick → Deed s ∅ (tickDebts w s) (s.disarm.sweep w (w.now s.asked))

/-- Runs of deeds. -/
abbrev Deeds := Debts.Settles (Deed w guard)

/-- The view that shows the toplevel `x` belongs to, when it is taken from it for a view naming the token. -/
def takenFrom (s : State) (x : WlSurface) (value : String) : Option ViewId :=
  ((s.idOf (s.toplevelOf x)).bind s.shownIn).filter fun v =>
    (s.tokens.find? fun t => t.value == value).any Token.issued &&
      !(s.view v).any (fun e => e.handle.params.token == some value) && s.named value

/-- What the handler of an event leaves owed: it freed a view or a toplevel and looked for no match, or did
not tell a view that its toplevel went. -/
def unpaid (s : State) : Event → Set Debt
  | .cmd (.viewCreated view) => {d | ∃ t, s.shows view.id = some t ∧ d = .spare t}
  | .cmd (.viewDisposed v) => {d | ∃ t, s.shows v = some t ∧ d = .spare t}
  | .destroyToplevel x => {d | ∃ id v, s.idOf x = some id ∧ s.shownIn id = some v ∧ d = .bind v}
  | .setParent x none => loneDebts s x
  | .activate x value => {d | ∃ v, takenFrom s x value = some v ∧ d = .tell v}
  | _ => ∅

end IhsWl
