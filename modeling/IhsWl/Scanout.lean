import IhsWl.Server.Scene

/-!
# Scanout feedback

The surfaces whose feedback has a tranche for a KMS plane, because the shell hinted that their layer could be on one
but for its format.
-/

namespace IhsWl

/-- A fourcc and a modifier. -/
abbrev FormatModifier := Nat × Nat

/-- What the shell hinted for one layer of a view: what the planes of the device scan out. No formats withdraw the
hint. -/
structure Hint where
  layerId : Nat
  dev : Nat
  formats : List FormatModifier
  deriving DecidableEq, Repr

/-- Feedback for a surface: the main device and all the shell imports, and a scanout tranche ahead of it. -/
structure DmabufFeedback where
  main : Nat
  formats : List FormatModifier
  scanout : Option (Nat × List FormatModifier) := none
  deriving DecidableEq, Repr

/-- What the shell can do, found out at the start. `defaults` is whether feedback could be built then, and `builds`
whether it can the next time. -/
structure Caps where
  renderDevice : Option Nat
  formats : List FormatModifier
  defaults : Bool
  builds : Nat → Bool

/-- `default_feedback`. -/
def Caps.defaultFeedback (caps : Caps) : Option DmabufFeedback :=
  if caps.defaults then caps.renderDevice.map fun main => { main, formats := caps.formats } else none

/-- A surface with a scanout tranche, and its view. -/
structure Hinted where
  surface : WlSurface
  view : ViewId
  feedback : DmabufFeedback
  deriving DecidableEq, Repr

structure Built where
  dev : Nat
  hinted : List FormatModifier
  feedback : Option DmabufFeedback
  deriving DecidableEq, Repr

/-- `last` is kept while hints keep asking for the same; `tries` numbers what was built. `set` is the feedback
each surface was last set to. -/
structure Scanout where
  hinted : List Hinted := []
  last : Option Built := none
  tries : Nat := 0
  set : WlSurface → Option DmabufFeedback := fun _ => none

namespace State

/-- The surfaces view `v` shows. -/
def scene (s : State) (v : ViewId) : List WlSurface := (s.viewTrees v).flatMap s.tree

end State

namespace Scanout

variable (caps : Caps)

/-- The feedback a surface with a tranche gets when it asks for feedback after the hint came. -/
def hintedFeedback (s : State) (x : WlSurface) (c : Scanout) : Option DmabufFeedback :=
  (c.hinted.find? fun h => (s.surfaces h.surface).alive && h.surface == x).map Hinted.feedback

/-- Default feedback with a tranche for `dev` ahead of it: the hinted formats the shell also imports. None when there
are none. -/
def scanoutFeedback (main dev : Nat) (hinted : List FormatModifier) (c : Scanout) : Option DmabufFeedback × Scanout :=
  match c.last.filter fun built => built.dev == dev && built.hinted == hinted with
  | some built => (built.feedback, c)
  | none =>
      let tranche := hinted.filter fun f => caps.formats.contains f
      let feedback :=
        if tranche.isEmpty || !caps.builds c.tries then none
        else some { main, formats := caps.formats, scanout := some (dev, tranche) }
      (feedback, { c with last := some ⟨dev, hinted, feedback⟩, tries := c.tries + 1 })

/-- The shell's hint for the layer that is surface `x` of view `v`. -/
def hintSurface (s : State) (main : Nat) (default : DmabufFeedback) (v : ViewId) (hint : Hint) (x : WlSurface)
    (c : Scanout) : Scanout :=
  let built := c.scanoutFeedback caps main hint.dev hint.formats
  let kept := built.2.hinted.filter fun h => (s.surfaces h.surface).alive && h.surface != x
  { built.2 with
    hinted := kept ++ (built.1.map fun feedback => ⟨x, v, feedback⟩).toList
    set := fun y => if y = x then some (built.1.getD default) else c.set y }

/-- The shell's hint for a layer of view `v`, where `layerId` is what surfaces are known by. -/
def scanoutHint (layerId : WlSurface → Option Nat) (s : State) (v : ViewId) (hint : Hint) (c : Scanout) : Scanout :=
  if hint.formats.isEmpty then c
  else
    match caps.renderDevice, caps.defaultFeedback with
    | some main, some default =>
        match (s.scene v).find? fun x => layerId x == some hint.layerId with
        | none => c
        | some x => c.hintSurface caps s main default v hint x
    | _, _ => c

/-- View `v` no longer shows its surfaces: they go back to the default feedback. -/
def forgetScanout (s : State) (v : ViewId) (c : Scanout) : Scanout :=
  match caps.defaultFeedback with
  | none => c
  | some default =>
      { c with
        hinted := c.hinted.filter fun h => h.view != v
        set := fun x =>
          if (s.surfaces x).alive ∧ ∃ h ∈ c.hinted, h.view = v ∧ h.surface = x then some default else c.set x }

end Scanout

end IhsWl
