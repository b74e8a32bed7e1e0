import IhsWl.Pointing
import IhsWl.Widget

/-!
# The mouse

Flutter tells a view of the mouse's buttons as a mask, of each device its own; the module takes presses and releases. One
struct carries every event, and the module copies it into its queue before it returns.
-/

namespace IhsWl

namespace Double

/-- The `f64` nearest to a magnitude of `n * 2 ^ e`, halves to even. -/
def nearest (negative : Bool) (n : Nat) (e : Int) : Double :=
  -- What the last place of the significand is worth: less than the least there is for no number.
  let place := max (n.log2 + e - 52) (-1074)
  let lost := (place - e).toNat
  let kept := n * 2 ^ (e - place).toNat / 2 ^ lost
  let rest := n * 2 ^ (e - place).toNat % 2 ^ lost
  let up := 2 ^ lost < 2 * rest ∨ (2 ^ lost = 2 * rest ∧ kept % 2 = 1)
  let bits := if n = 0 then 0 else min ((place + 1074).toNat * 2 ^ 52 + kept + if up then 1 else 0) (2047 * 2 ^ 52)
  ⟨.ofNat ((if negative then 2 ^ 63 else 0) + bits)⟩

/-- `*` -/
def mul (a b : Double) : Double :=
  let negative := a.negative ^^ b.negative
  if a.isNaN || b.isNaN || (!a.isFinite && b.isZero) || (a.isZero && !b.isFinite) then ⟨0x7FF8000000000000⟩
  else if !a.isFinite || !b.isFinite then ⟨(if negative then 0xFFF0000000000000 else 0x7FF0000000000000)⟩
  else nearest negative (a.significand * b.significand) (a.scale + b.scale)

end Double

instance : Mul Double := ⟨Double.mul⟩

instance : One Double := ⟨Double.one⟩

/-- A `PointerEvent` of a mouse, by its class. -/
inductive MouseKind where
  | hover
  | move
  | down
  | up
  | cancel
  deriving DecidableEq, Repr

/-- A mouse's `PointerEvent`: its device, the mask of its buttons that are down, and where it is in the view. -/
structure MouseEvent where
  kind : MouseKind
  device : Nat
  buttons : Nat := 0
  localPosition : Offset Double := ⟨.zero, .zero⟩
  timeUs : Nat := 0
  deriving DecidableEq, Repr

/-- A `PointerScrollEvent`. -/
structure ScrollEvent where
  trackpad : Bool := false
  scrollDelta : Offset Double
  localPosition : Offset Double := ⟨.zero, .zero⟩
  timeUs : Nat := 0
  deriving DecidableEq, Repr

/-- Linux `BTN_*` codes for Flutter's mouse button bits. -/
def buttonCodes : List (Nat × Nat) := [(0x01, 0x110), (0x02, 0x111), (0x04, 0x112), (0x08, 0x113), (0x10, 0x114)]

/-- The buttons that went down or up between two masks. -/
def buttonChanges (before after : Nat) : List (Nat × Bool) :=
  (buttonCodes.filter fun b => (before ^^^ after) &&& b.1 != 0).map fun b => (b.2, after &&& b.1 != 0)

/-- `ihs_wl_pointer` takes an event that is finite. -/
def PointerEvent.valid (ev : PointerEvent) : Bool :=
  [ev.position.1, ev.position.2, ev.axis.1, ev.axis.2].all Double.isFinite

/-- Feeds the views' input to the module. -/
structure MouseInput extends WaylandInput Double where
  /-- The struct every event is sent in. -/
  pointer : PointerEvent := { kind := .enter }
  /-- Mouse buttons held, by Flutter device. -/
  buttons : Nat → Nat := fun _ => 0
  cursor : Nat := 0
  /-- What the module took. -/
  sent : List (ViewId × PointerEvent) := []

inductive InputOp where
  | setViewScale (v : ViewId) (scale : Offset Double)
  | mouse (v : ViewId) (event : MouseEvent)
  | scroll (v : ViewId) (event : ScrollEvent)
  | leave (v : ViewId) (localPosition : Offset Double) (timeUs : Nat)
  deriving DecidableEq, Repr

namespace MouseInput

-- `shape` is the cursor the module answers with, by how many events it took.
variable (shape : Nat → Nat)

def sendPointer (v : ViewId) (kind : PointerKind) (localPosition : Offset Double) (timeUs : Nat) (i : MouseInput) : MouseInput :=
  let position := i.onScreen v localPosition
  let pointer := { i.pointer with kind, position := (position.dx, position.dy), timeUs }
  if pointer.valid then { i with pointer, sent := i.sent ++ [(v, pointer)], cursor := shape i.sent.length }
  else { i with pointer }

/-- A button of the mouse went down or up. -/
def sendButton (v : ViewId) (event : MouseEvent) (i : MouseInput) (change : Nat × Bool) : MouseInput :=
  ({ i with pointer := { i.pointer with button := change.1, pressed := if change.2 then 1 else 0 } } : MouseInput).sendPointer
    shape v .button event.localPosition event.timeUs

def mouseEvent (v : ViewId) (event : MouseEvent) (i : MouseInput) : MouseInput :=
  let before := i.buttons event.device
  let after := if event.kind = .up ∨ event.kind = .cancel then 0 else event.buttons
  let i := if event.kind = .hover ∨ event.kind = .move then
      i.sendPointer shape v .motion event.localPosition event.timeUs
    else i
  let i := (buttonChanges before after).foldl (sendButton shape v event) i
  { i with buttons := fun d => if d = event.device then after else i.buttons d }

def scroll (v : ViewId) (event : ScrollEvent) (i : MouseInput) : MouseInput :=
  let pointer :=
    { i.pointer with axisSource := if event.trackpad then 1 else 0, axis := (event.scrollDelta.dx, event.scrollDelta.dy) }
  let i := ({ i with pointer } : MouseInput).sendPointer shape v .axis event.localPosition event.timeUs
  { i with pointer := { i.pointer with axis := (.zero, .zero) } }

/-- The pointer left the view: whatever it asked for no longer applies. -/
def leave (v : ViewId) (localPosition : Offset Double) (timeUs : Nat) (i : MouseInput) : MouseInput :=
  { i.sendPointer shape v .leave localPosition timeUs with cursor := 0 }

def step (i : MouseInput) : InputOp → MouseInput
  | .setViewScale v scale => { i with toWaylandInput := i.setViewScale v scale }
  | .mouse v event => i.mouseEvent shape v event
  | .scroll v event => i.scroll shape v event
  | .leave v localPosition timeUs => i.leave shape v localPosition timeUs

end MouseInput

/-! ## The mouse and the server -/

/-- What a view's widget feeds the module, what waits in the queue, and the server's pointer. -/
structure Clicking (π : Type) where
  input : MouseInput := {}
  queue : List (ViewId × PointerEvent) := []
  server : Pointing π

inductive ClickingOp (π : Type) where
  | input (op : InputOp)
  /-- The server's thread takes the next command. -/
  | serves
  /-- Anything else that happens there. -/
  | server (op : PointingOp π)

namespace Clicking

variable {π : Type} (shape : Nat → Nat) (d : PointerHandle π) (w : PointWorld) (depth : Nat)

def step (t : Clicking π) : ClickingOp π → Clicking π
  | .input op =>
      let input := t.input.step shape op
      { t with input, queue := t.queue ++ input.sent.drop t.input.sent.length }
  | .serves =>
      match t.queue with
      | [] => t
      | (v, ev) :: queue => { t with queue, server := t.server.pointerInput d w v ev }
  | .server op => { t with server := t.server.step d w depth op }

/-- The ops one after another. -/
def run (p : π) (ops : List (ClickingOp π)) : Clicking π :=
  ops.foldl (step shape d w depth) { server := Pointing.run d w depth p [] }

end Clicking

end IhsWl
