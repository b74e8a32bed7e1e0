import Mathlib.Logic.Function.Basic
import IhsWl.Lib.Runs
import IhsWl.Staging
import IhsWl.Timing

/-!
# What a view shows of its surfaces

The layers built of a view's trees, each with the content generation of its surface, and the frames they go in.
-/

namespace IhsWl

/-- Whether staging would show a slot of an earlier commit: every slot there may be is held outside. -/
def Staging.busy (timeline : Timeline) (t : Tries) (s : Staging) : Bool :=
  match (timeline.buffer s.now).source t.access with
  | none => false
  | some (source, fourcc) =>
      let s := s.resize source.size fourcc
      s.crowded && s.newestSlot.any fun slot => slot.commit != some s.now

/-- A surface's ring and content: its generation, the commit whose buffer each generation shows, and the feedback
asked for the current one. -/
structure Shown where
  staging : Staging := {}
  generation : Nat := 0
  commits : Nat → Nat := fun _ => 0
  feedback : List Nat := []

/-- A layer of a scene: the surface, its content generation, and the staging slot it carries, as it is then. A layer
without one is the client's own buffer. -/
structure SceneLayer where
  surface : WlSurface
  generation : Nat
  slot : Option Slot

/-- The surfaces of a scene, each once, and what staging them meets. -/
abbrev SceneWalk := { scene : List (WlSurface × Tries) // (scene.map Prod.fst).Nodup }

/-- What becomes of a scene: it is another view's, or this one's, and the shell refuses or accepts it. -/
inductive Outcome where
  | elsewhere
  | refused
  | accepted (now : Nat)

/-- The surfaces' content, the last uid given out, and a view's frames. `sent` has the layers of each frame by its
seq, `asked` every feedback by what it was asked for. -/
structure Showing where
  contents : WlSurface → Shown := fun _ => {}
  nextUid : Nat := 0
  frames : Frames := []
  seq : Nat := 0
  sent : List (Nat × List SceneLayer) := []
  asked : List Feedback := []
  log : List Effect := []

namespace Showing

variable (timelines : WlSurface → Timeline) (maxLayers : Nat)

def modify (x : WlSurface) (f : Shown → Shown) (s : Showing) : Showing :=
  { s with contents := Function.update s.contents x (f (s.contents x)) }

/-- A surface's ring, with the uids every surface takes from. -/
def stager (s : Showing) (x : WlSurface) : Staging := { (s.contents x).staging with nextUid := s.nextUid }

/-- What a surface's ring became. -/
def keep (x : WlSurface) (staging : Staging) (s : Showing) : Showing :=
  { s.modify x fun c => { c with staging := staging } with nextUid := staging.nextUid }

/-- A content update of `x` is applied, with a new buffer or not: what it asks feedback for is its own generation.
Feedback for the content it replaces is discarded. -/
def commit (x : WlSurface) (attaches : Bool) (feedback : List Nat) (s : Showing) : Showing :=
  let old := s.contents x
  let generation := old.generation + 1
  let staging := if attaches then { old.staging with now := old.staging.now + 1 } else old.staging
  { s.modify x fun old => { old with
      staging := staging
      generation := generation
      commits := Function.update old.commits generation staging.now
      feedback := feedback } with
    asked := s.asked ++ feedback.map fun cb => ⟨x, generation, cb⟩
    log := s.log ++ old.feedback.map .discarded }

/-- The layer of a surface, if it has something the shell can show. -/
def layer (x : WlSurface) (t : Tries) (s : Showing) : Option SceneLayer × Showing :=
  match (timelines x).buffer (s.contents x).staging.now with
  | .imported => (some ⟨x, (s.contents x).generation, none⟩, s)
  | _ =>
      let staged := (s.stager x).stage (timelines x) t
      let slot := staged.1.bind fun shown => staged.2.ring.slots.find? fun slot => slot.uid == shown.2
      (slot.map fun slot => ⟨x, (s.contents x).generation, some slot⟩, s.keep x staged.2)

/-- The layers of the surfaces of a scene. -/
def build : List (WlSurface × Tries) → Showing → List SceneLayer × Showing
  | [], s => ([], s)
  | (x, t) :: scene, s =>
      let first := s.layer timelines x t
      let rest := build scene first.2
      (first.1.toList ++ rest.1, rest.2)

/-- The feedback the surfaces of a scene wait for. -/
def feedback (scene : List (WlSurface × Tries)) (s : Showing) : List Feedback :=
  scene.flatMap fun p => (s.contents p.1).feedback.map fun cb => ⟨p.1, (s.contents p.1).generation, cb⟩

/-- It is taken with the scene. -/
def take (scene : List (WlSurface × Tries)) (s : Showing) : Showing :=
  scene.foldl (fun s p => s.modify p.1 fun c => { c with feedback := [] }) s

/-- Submit a scene. One without layers takes a seq, but is no frame. -/
def submit (scene : List (WlSurface × Tries)) (outcome : Outcome) (s : Showing) : Showing :=
  let feedback := s.feedback scene
  let built := (s.take scene).build timelines scene
  let s := built.2
  let discarded := { s with log := s.log ++ feedback.map fun fb => .discarded fb.callback }
  match outcome with
  | .elsewhere => s
  | .refused => discarded
  | .accepted now =>
      let layers := built.1.take maxLayers
      let seq := s.seq + 1
      if layers.isEmpty then { discarded with seq := seq }
      else
        let call := s.frames.push now seq (layers.map fun l => (l.surface, l.generation)) { feedback := feedback }
        { s with
          frames := call.frames
          seq := seq
          sent := s.sent ++ [(seq, layers)]
          log := s.log ++ call.effects }

end Showing

/-- What happens to the surfaces and the view: updates are applied, scenes submitted and frames reported, released,
flushed and cleared; holds on slots are cloned and dropped, and surfaces go. -/
inductive ShowingOp where
  | commits (x : WlSurface) (attaches : Bool) (feedback : List Nat)
  | submits (scene : SceneWalk) (outcome : Outcome)
  | reports (r : Report)
  | releases (before : Nat)
  | flushes (before : Nat)
  | clears
  | clones (x : WlSurface) (uid : Nat)
  | drops (x : WlSurface) (uid : Nat)
  | goes (x : WlSurface)

namespace Showing

variable (timelines : WlSurface → Timeline) (maxLayers : Nat)

/-- A call on the view's frames. -/
def onFrames (call : Frames → Call) (s : Showing) : Showing :=
  { s with frames := (call s.frames).frames, log := s.log ++ (call s.frames).effects }

/-- A ring's own step. -/
def onRing (x : WlSurface) (op : StagingOp) (s : Showing) : Showing :=
  s.keep x ((s.stager x).step (timelines x) op)

def step (s : Showing) : ShowingOp → Showing
  | .commits x attaches feedback => s.commit x attaches feedback
  | .submits scene outcome => s.submit timelines maxLayers scene.1 outcome
  | .reports r => s.onFrames fun fs => fs.presented r
  | .releases before => s.onFrames fun fs => fs.releaseOlder before
  | .flushes before => s.onFrames fun fs => fs.flushOlder before
  | .clears => s.onFrames Frames.clear
  | .clones x uid => s.onRing timelines x (.clones uid)
  | .drops x uid => s.onRing timelines x (.drops uid)
  | .goes x => s.onRing timelines x .goes

def run (ops : List ShowingOp) : Showing := ops.foldl (step timelines maxLayers) {}

/-- No surface of the scene is busy. -/
def Spare (s : Showing) (scene : List (WlSurface × Tries)) : Prop :=
  ∀ p ∈ scene, (s.stager p.1).busy (timelines p.1) p.2 = false

/-- The scene an event submits has no busy surface. -/
def Spares (s : Showing) : ShowingOp → Prop
  | .submits scene _ => s.Spare timelines scene.1
  | _ => True

end Showing

end IhsWl
