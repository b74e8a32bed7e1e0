import IhsWl.Params
import IhsWl.Server.State
import IhsWl.Widget.Controllers
import Mathlib.Algebra.Group.Int.Defs

/-!
# What the module takes of what it is told

A view is told of with its create, whose params go through the codec, and by calls, which check what they are given. A
size is two `f64`s, which become whole pixels.
-/

namespace IhsWl

/-- An `f64`, as its bits. -/
structure Double where
  bits : UInt64
  deriving DecidableEq, Repr

namespace Double

def exponent (d : Double) : Nat := d.bits.toNat / 2 ^ 52 % 2 ^ 11

def mantissa (d : Double) : Nat := d.bits.toNat % 2 ^ 52

def negative (d : Double) : Bool := 2 ^ 63 ≤ d.bits.toNat

/-- Neither infinite nor NaN. -/
def isFinite (d : Double) : Bool := d.exponent ≠ 2047

def isNaN (d : Double) : Bool := d.exponent = 2047 ∧ d.mantissa ≠ 0

/-- Its magnitude is `significand * 2 ^ scale`, where it is finite. -/
def significand (d : Double) : Nat := if d.exponent = 0 then d.mantissa else 2 ^ 52 + d.mantissa

def scale (d : Double) : Int := (max d.exponent 1 : Int) - 1075

/-- `d > 0.0` -/
def pos (d : Double) : Bool := !d.isNaN && !d.negative && d.significand ≠ 0

/-- `d == 0.0` -/
def isZero (d : Double) : Bool := d.significand = 0

/-- The whole number nearest to its magnitude, halves away from zero. -/
def round (d : Double) : Nat :=
  if 0 ≤ d.scale then d.significand * 2 ^ d.scale.toNat
  else (2 * d.significand + 2 ^ (-d.scale).toNat) / 2 ^ ((-d.scale).toNat + 1)

/-- A positive `n as f64`: to the nearest, halves to even. The carry of a significand rounded up goes to the exponent. -/
def ofNat (n : Nat) : Double :=
  let lost := n.log2 - 52
  let kept := n * 2 ^ (52 - n.log2) / 2 ^ lost
  let rest := n % 2 ^ lost
  let up := 2 ^ lost < 2 * rest ∨ (2 ^ lost = 2 * rest ∧ kept % 2 = 1)
  ⟨.ofNat ((n.log2 + 1022) * 2 ^ 52 + kept + if up then 1 else 0)⟩

/-- `0.0` -/
def zero : Double := ⟨0⟩

/-- `1.0` -/
def one : Double := ⟨0x3FF0000000000000⟩

end Double

/-- A requested client size in whole logical pixels: none unless both sides are positive. -/
def requestedSize (width height : Double) : Option (Int × Int) :=
  -- The cast saturates.
  let side (v : Double) : Int := max (min v.round (2 ^ 31 - 1)) 1
  if width.pos && height.pos then some (side width, side height) else none

/-! ## Creation params -/

/-- `CAPABILITY_ALL` -/
def capabilityAll : Nat := 7

/-- `WINDOW_STATE_ALL` -/
def windowStateAll : Nat := 3

/-- `ViewParams`: what decides which toplevel the view binds, and the rest. -/
structure CreateParams extends ViewParams where
  dpr : Option Double := none
  grants : Grants := {}
  deriving DecidableEq, Repr

namespace CreateParams

def string (map : ParamMap) (key : String) : Option String :=
  match map key with
  | some (.string s) => if s.isEmpty then none else some s
  | _ => none

def positive (map : ParamMap) (key : String) : Option Double :=
  match map key with
  | some (.double bits) =>
      let d : Double := ⟨bits⟩
      if d.isFinite && d.pos then some d else none
  | some (.int i) => if 0 < i then some (.ofNat i.toInt.toNat) else none
  | _ => none

/-- The bits of a 32-bit field that are known. -/
def bits (map : ParamMap) (key : String) (all : Nat) : Nat :=
  match map key with
  | some (.int i) => i.toBitVec.toNat % 2 ^ 32 &&& all
  | _ => 0

def decode (bytes : List UInt8) : CreateParams :=
  let map := (decodeMap bytes).getD fun _ => none
  { token := string map "token"
    appId := string map "app_id"
    sandboxAppId := string map "sandbox_app_id"
    dpr := positive map "dpr"
    requested := requestedSize ((positive map "requested_width").getD .zero) ((positive map "requested_height").getD .zero)
    grants :=
      { capabilities := bits map "capabilities" capabilityAll
        windowState := bits map "window_state" windowStateAll } }

end CreateParams

/-- What a widget says once, when its view is created. -/
structure ViewNames where
  token : Option String := none
  appId : Option String := none
  sandboxAppId : Option String := none
  dpr : Double
  deriving DecidableEq, Repr

/-- What Dart has of a codec value: an `int` of 64 bits, written in 32 where it fits. -/
def writtenInt (i : Int64) : WireValue := if i.toInt32.toInt64 = i then .int32 i.toInt32 else .int64 i

/-- The widget's `creationParams`. -/
def creationParams (n : ViewNames) (g : Grants) (requested : Option (Size Double)) : List (String × WireValue) :=
  let string (s : Option String) : WireValue := s.elim .null .string
  let double (d : Option Double) : WireValue := d.elim .null fun d => .float64 d.bits
  [("token", string n.token), ("app_id", string n.appId), ("sandbox_app_id", string n.sandboxAppId), ("dpr", .float64 n.dpr.bits),
    ("capabilities", writtenInt (.ofNat g.capabilities)), ("window_state", writtenInt (.ofNat g.windowState)),
    ("requested_width", double (requested.map Size.width)), ("requested_height", double (requested.map Size.height))]

/-! ## Calls -/

/-- What the server is sent of a view. -/
inductive ViewCmd where
  | created (v : ViewId) (params : CreateParams)
  | capabilities (v : ViewId) (bits : Nat)
  | windowState (v : ViewId) (bits : Nat)
  | requestSize (v : ViewId) (size : Option (Int × Int))
  | close (v : ViewId)
  deriving DecidableEq, Repr

def ihsWlViewCapabilities (v : ViewId) (capabilities : Nat) : Option ViewCmd :=
  if capabilities &&& capabilityAll = capabilities then some (.capabilities v capabilities) else none

def ihsWlViewState (v : ViewId) (state : Nat) : Option ViewCmd :=
  if state &&& windowStateAll = state then some (.windowState v state) else none

def ihsWlViewSize (v : ViewId) (width height : Double) : Option ViewCmd :=
  let given (d : Double) := d.isFinite && (d.pos || d.isZero)
  if given width && given height && (width.isZero == height.isZero) then some (.requestSize v (requestedSize width height))
  else none

/-- What goes to a running server of what the app told of a view; a call that is refused goes nowhere. -/
def ToModule.sent (names : ViewId → ViewNames) : ToModule Double → Option ViewCmd
  | .create v grants requested => some (.created v (.decode (encodeMap (creationParams (names v) grants requested))))
  | .capabilities v bits => ihsWlViewCapabilities v bits
  | .windowState v bits => ihsWlViewState v bits
  | .requestSize v size => ihsWlViewSize v (size.elim .zero Size.width) (size.elim .zero Size.height)
  | .close v => some (.close v)

/-- What the server has of a view. -/
structure ServerView where
  params : ViewParams
  dpr : Double
  grants : Grants
  requested : Option (Int × Int)
  deriving DecidableEq, Repr

/-- What the command makes of the view `v`. -/
def ServerView.handleCmd (v : ViewId) (view : Option ServerView) : ViewCmd → Option ServerView
  | .created v' p =>
      if v' = v then some { params := p.toViewParams, dpr := p.dpr.getD .one, grants := p.grants, requested := p.requested } else view
  | .capabilities v' bits => if v' = v then view.map fun e => { e with grants.capabilities := bits } else view
  | .windowState v' bits => if v' = v then view.map fun e => { e with grants.windowState := bits } else view
  | .requestSize v' size => if v' = v then view.map fun e => { e with requested := size } else view
  | .close _ => view

/-- The view the server has once it handled all it was sent. -/
def serverView (names : ViewId → ViewNames) (told : List (ToModule Double)) (v : ViewId) : Option ServerView :=
  (told.filterMap (ToModule.sent names)).foldl (ServerView.handleCmd v) none

end IhsWl
