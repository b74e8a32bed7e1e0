import IhsWl.Seat.Handlers

/-!
# Typing

Flutter gives one view the focus, and the view the keys. Both are told over FFI, which only queues them for the server's
thread; that hands a key to its keyboard, which hands it to the window it is pointed at.
-/

namespace IhsWl

/-- Whether the keyboard hands a key on to the window it is pointed at. -/
inductive FilterResult where
  | forward
  | intercept
  deriving DecidableEq, Repr

/-- A keyboard of the seat library, in states `κ`: `input` is given a keycode and whether it was pressed. -/
structure Keyboard (κ : Type) where
  input : κ → Nat → Bool → FilterResult → κ
  pressedKeys : κ → List Nat

/-- `pressed_keys` are the keys pressed and not released since, whoever heard of them. -/
def Keyboard.Lawful {κ : Type} (kb : Keyboard κ) : Prop := ∀ k key pressed filter code,
  code ∈ kb.pressedKeys (kb.input k key pressed filter) ↔ if code = key then pressed = true else code ∈ kb.pressedKeys k

/-- The keyboard that is its pressed keys. -/
def Keyboard.plain : Keyboard (List Nat) where
  input k key pressed _ := if pressed then key :: k.filter (· ≠ key) else k.filter (· ≠ key)
  pressedKeys k := k

inductive KeyEventKind where
  | down
  | up
  | repeated
  deriving DecidableEq, Repr

/-- A `KeyEvent`, with its key's USB HID usage. -/
structure KeyEvent where
  kind : KeyEventKind
  usbHidUsage : Nat
  deriving DecidableEq, Repr

/-- A command in the server's queue. -/
inductive InputCmd where
  | focus (v : ViewId) (focused : Bool)
  | key (v : ViewId) (evdev : Nat) (pressed : Bool)
  | viewDisposed (v : ViewId)
  deriving DecidableEq, Repr

/-- A widget's view: `_viewId` is set once it is created. -/
inductive Life where
  | unborn
  | watched
  | created
  | gone
  deriving DecidableEq, Repr

/-- The widget is mounted. -/
def Life.mounted : Life → Bool
  | .watched | .created => true
  | _ => false

structure Typing (κ : Type) where
  seat : Seat
  keyboard : κ
  /-- The keys handed on, each to the window the keyboard was pointed at. -/
  typed : List (Option WlSurface × Nat × Bool) := []
  queue : List InputCmd := []
  /-- The view whose focus node has the focus. -/
  hasFocus : Option ViewId := none
  life : ViewId → Life := fun _ => .unborn
  /-- The keys queued so far. -/
  sent : List (Nat × Bool) := []

inductive TypingOp where
  /-- A widget is mounted, and its view has an id of its own. -/
  | mounts (v : ViewId)
  /-- The shell answers the view's create. -/
  | created (v : ViewId)
  | unmounts (v : ViewId)
  /-- The shell disposes of the view. -/
  | disposes (v : ViewId)
  /-- The focus goes elsewhere, and the focus nodes of `notified` hear of it. -/
  | focuses (next : Option ViewId) (notified : List ViewId)
  | key (e : KeyEvent)
  /-- The server's thread takes the next command. -/
  | serves
  /-- Anything else the seat hears of. -/
  | seat (op : SeatOp)
  deriving DecidableEq, Repr

/-- Highest evdev key code. -/
def keyMax : Nat := 0x2ff

/-- xkb keycodes are evdev codes offset by 8. -/
def xkbOffset : Nat := 8

namespace Typing

-- `evdevByHid` is Flutter's own Linux table, inverted.
variable {κ : Type} (kb : Keyboard κ) (w : SeatWorld) (depth : Nat) (evdevByHid : Nat → Option Nat)

/-! ## Dart -/

def post (c : InputCmd) (t : Typing κ) : Typing κ := { t with queue := t.queue ++ [c] }

def focusChanged (v : ViewId) (focused : Bool) (t : Typing κ) : Typing κ :=
  if t.life v = .created then t.post (.focus v focused) else t

/-- The part of `_created` that is about the focus. -/
def created (v : ViewId) (t : Typing κ) : Typing κ :=
  let t := { t with life := fun u => if u = v then .created else t.life u }
  if t.hasFocus = some v then t.post (.focus v true) else t

def ihsWlKey (v : ViewId) (evdev : Nat) (pressed : Bool) (t : Typing κ) : Typing κ :=
  if evdev > keyMax then t
  else { t.post (.key v evdev pressed) with sent := t.sent ++ [(evdev, pressed)] }

/-- A key event while the view has focus, and whether the client can be sent it. -/
def key (v : ViewId) (e : KeyEvent) (t : Typing κ) : Bool × Typing κ :=
  -- Clients repeat keys themselves.
  if e.kind = .repeated then (true, t)
  else
    match evdevByHid e.usbHidUsage with
    | none => (false, t)
    | some code => (true, t.ihsWlKey v code (e.kind == .down))

/-- The key goes to the view that has the focus. -/
def onKey (e : KeyEvent) (t : Typing κ) : Bool × Typing κ :=
  match t.hasFocus with
  | none => (false, t)
  | some v => if t.life v = .created then t.key evdevByHid v e else (false, t)

/-! ## The server -/

/-- Forget keys held across a focus change. -/
def releaseKeys (k : κ) : κ := (kb.pressedKeys k).foldl (fun k key => kb.input k key false .intercept) k

def keyInput (v : ViewId) (evdev : Nat) (pressed : Bool) (t : Typing κ) : Typing κ :=
  if t.seat.state.focusedView ≠ some v then t
  else if !w.keyboard then t
  else
    { t with
      keyboard := kb.input t.keyboard (evdev + xkbOffset) pressed .forward
      typed := t.typed ++ [(t.seat.focus, evdev + xkbOffset, pressed)] }

/-- The focus of view `v` changed. -/
def refocus (v : ViewId) (focused : Bool) (t : Typing κ) : Typing κ :=
  { t with
    seat := t.seat.step w depth (.event (.cmd (.focus v focused)))
    keyboard := if w.keyboard then releaseKeys kb t.keyboard else t.keyboard }

def focusInput (v : ViewId) (focused : Bool) (t : Typing κ) : Typing κ :=
  if focused then
    if t.seat.state.focusedView = some v then t else t.refocus kb w depth v true
  else if t.seat.state.focusedView = some v then t.refocus kb w depth v false
  else t

def handleCmd (c : InputCmd) (t : Typing κ) : Typing κ :=
  match c with
  | .focus v focused => t.focusInput kb w depth v focused
  | .key v evdev pressed => t.keyInput kb w v evdev pressed
  | .viewDisposed v => { t with seat := t.seat.step w depth (.event (.cmd (.viewDisposed v))) }

def step (t : Typing κ) : TypingOp → Typing κ
  | .mounts v => { t with life := fun u => if u = v then .watched else t.life u }
  | .created v => t.created v
  | .unmounts v =>
      -- Its focus node goes with it, and hears of nothing more.
      { t with
        life := fun u => if u = v then .gone else t.life u
        hasFocus := if t.hasFocus = some v then none else t.hasFocus }
  | .disposes v => t.post (.viewDisposed v)
  | .focuses next notified =>
      notified.foldl (fun t v => t.focusChanged v (decide (t.hasFocus = some v))) { t with hasFocus := next }
  | .key e => (t.onKey evdevByHid e).2
  | .serves =>
      match t.queue with
      | [] => t
      | c :: queue => ({ t with queue } : Typing κ).handleCmd kb w depth c
  | .seat op => { t with seat := t.seat.step w depth op }

/-- No view is there yet. -/
def start (k : κ) : Typing κ := { seat := Seat.run w depth [], keyboard := k }

/-- The ops one after another. -/
def run (k : κ) (ops : List TypingOp) : Typing κ := ops.foldl (step kb w depth evdevByHid) (start w depth k)

end Typing

end IhsWl
