import IhsWl.Server.Scene

/-!
# Handing a view's layers to the shell

What a submission takes from the trees it shows, what it hands over, and the frame callbacks sent once
it is shown.
-/

namespace IhsWl

namespace State

variable (w : World)

/-- Something is done to the content of every surface of the tree at `root`. -/
def visitTree (root : WlSurface) (f : Content → Content) (s : State) : State :=
  { s with contents := fun x => if x ∈ s.tree root then f (s.contents x) else s.contents x }

/-! ## Frame callbacks -/

/-- A frame callback's time: the frame's, but never later than now. -/
def callbackTimeMs (shownNs nowNs : Nat) : Nat := min shownNs nowNs / 1_000_000 % 4_294_967_296

/-- Tell every surface of the tree its frame was shown. -/
def sendFrameCallbacks (ustNs : Nat) (s : State) (root : WlSurface) : State :=
  let time := callbackTimeMs ustNs (w.now s.asked)
  let due := (s.tree root).flatMap fun x => (s.contents x).frameCallbacks
  ((s.visitTree root fun c => { c with frameCallbacks := [] }).log (due.map (.done · time))).ask

/-- Tell every surface of the trees of view `v`. -/
def sendViewCallbacks (v : ViewId) (ustNs : Nat) (s : State) : State :=
  (s.viewTrees v).foldl (sendFrameCallbacks w ustNs) s

/-- Send the frame callbacks of the trees `v` shows, unless it is off screen. -/
def flushCallbacks (now : Nat) (s : State) (v : ViewId) : State :=
  match s.view v with
  | none => s
  | some e => if e.suspended then s else s.sendViewCallbacks w v now

/-! ## What updates wait on the screen for -/

/-- Take it from every surface of the tree at `root`. -/
def takeTree (taken : Taken × State) (root : WlSurface) : Taken × State :=
  let s := taken.2
  let surfaces := s.tree root
  ({ feedback := taken.1.feedback ++ surfaces.flatMap fun x =>
        (s.contents x).feedback.map fun cb => ⟨x, (s.contents x).generation, cb⟩
     barriers := taken.1.barriers ++ surfaces.filterMap fun x => (s.contents x).barrier },
    s.visitTree root fun c => { c with feedback := [], barrier := none })

def takeTrees (roots : List WlSurface) (s : State) : Taken × State := roots.foldl takeTree ({}, s)

/-! ## Submissions -/

/-- A layer: the surface, its content generation, and the buffer held for it. -/
structure Layer where
  id : Nat
  generation : Nat
  held : Held

/-- The layers of the scene `roots`: the surfaces with something the shell can show. -/
def build (roots : List WlSurface) (s : State) : List Layer :=
  (roots.flatMap s.tree).filterMap fun x =>
    (w.layer s.asked x).map fun held => ⟨x, (s.contents x).generation, held⟩

/-- Show nothing in `v`. A view already showing nothing is left alone. -/
def clearView (v : ViewId) (s : State) : State :=
  match s.view v with
  | none => s
  | some e =>
      if e.cleared ∨ e.seq = 0 then s
      else
        let seq := e.seq + 1
        match w.submit s.asked with
        | .accepted _ =>
            ((s.ask.modifyView v fun e => { e with seq := seq, cleared := true }).log
              [.submitted v seq 0])
        | _ => s.ask

/-- The layers the shell accepted as frame `seq`, held until it is done with them. -/
def holdLayers (v : ViewId) (seq : Nat) (layers : List (Held × Release)) (s : State) : State :=
  match s.view v with
  | none => s
  | some e =>
      let held := e.holds.holdAll v seq layers
      (s.modifyView v fun e => { e with seq := seq, cleared := false, holds := held.1 }).log held.2

/-- Submit the layers of the scene `roots`: the seq it went as, and the layer id and content generation
of each layer. -/
def submitTree (v : ViewId) (roots : List WlSurface) (s : State) :
    Option (Nat × List (Nat × Nat)) × State :=
  let built := s.build w roots
  let s := s.ask
  if built.isEmpty then (none, s.clearView w v)
  else
    match s.view v with
    | none => (none, s)
    | some e =>
        let layers := built.take w.maxLayers
        let seq := e.seq + 1
        match w.submit s.asked with
        | .accepted release =>
            let released := layers.zipIdx.map fun l => (l.1.held, release.getD l.2 .unfenced)
            let s := (s.ask.holdLayers v seq released).log [.submitted v seq layers.length]
            (some (seq, layers.map fun l => (l.id, l.generation)), s)
        | _ => (none, s.ask)

/-- `entry.frames.push`: frame `seq` awaits its report. Whether barriers were cleared to make room. -/
def pushFrame (v : ViewId) (seq : Nat) (shown : List (Nat × Nat)) (taken : Taken) (s : State) :
    Bool × State :=
  match s.view v with
  | none => (false, s)
  | some e =>
      let call := e.frames.push (w.now s.asked) seq shown taken
      (call.returned, ((s.modifyView v fun e => { e with frames := call.frames }).log call.effects).ask)

end State

end IhsWl
