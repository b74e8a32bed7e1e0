import IhsWl.Base
import Mathlib.Logic.Function.Basic

/-!
# Who a client is

A sandbox engine makes a security context, and who connects on its listener is of its sandbox. The app is told of a
view's client in a struct, whose texts are cut at their first NUL.
-/

namespace IhsWl

namespace Sandbox

/-- A text, by the bytes of its UTF-8. -/
abbrev Utf8 := List UInt8

/-- `IDENTITY_MAX` -/
def identityMax : Nat := 255

/-! ## Connections -/

structure SecurityContext where
  sandboxEngine : Option Utf8 := none
  appId : Option Utf8 := none
  instanceId : Option Utf8 := none
  creatorClientId : ClientId
  deriving DecidableEq, Repr

structure Credentials where
  pid : Int
  uid : Nat
  gid : Nat
  deriving DecidableEq, Repr

/-- A client there is; without a context it connected on the server's own socket. -/
structure Connected where
  credentials : Credentials
  securityContext : Option SecurityContext := none
  deriving DecidableEq, Repr

structure Connections where
  /-- The contexts that are listened for. -/
  listeners : List SecurityContext := []
  clients : ClientId → Option Connected := fun _ => none
  nextId : ClientId := 0

inductive ConnectionOp where
  /-- A client asks for a context, if the manager is shown to it. -/
  | contextCreated (context : SecurityContext)
  /-- A stream comes in, on the server's socket or on a listener. -/
  | accepts (credentials : Credentials) (listener : Option Nat)
  /-- The engine closes a context. -/
  | closes (listener : Nat)
  | disconnected (c : ClientId)
  deriving DecidableEq, Repr

namespace Connections

/-- One without the server's client data counts as sandboxed: hiding is the safe default. -/
def sandboxed (c : ClientId) (s : Connections) : Bool := (s.clients c).all fun data => data.securityContext.isSome

def contextCreated (context : SecurityContext) (s : Connections) : Connections :=
  -- The listener of a context refused is closed: better than an identity cut short.
  if [context.sandboxEngine, context.appId, context.instanceId].any fun f => f.any fun f => identityMax < f.length then s
  else { s with listeners := s.listeners ++ [context] }

def acceptClient (credentials : Credentials) (securityContext : Option SecurityContext) (s : Connections) : Connections :=
  { s with
    clients := Function.update s.clients s.nextId (some { credentials, securityContext })
    nextId := s.nextId + 1 }

def step (s : Connections) : ConnectionOp → Connections
  | .contextCreated context => if s.sandboxed context.creatorClientId then s else s.contextCreated context
  | .accepts credentials none => s.acceptClient credentials none
  | .accepts credentials (some i) =>
      match s.listeners[i]? with
      | none => s
      | some context => s.acceptClient credentials (some context)
  | .closes i => { s with listeners := s.listeners.eraseIdx i }
  | .disconnected c => { s with clients := Function.update s.clients c none }

/-- The ops one after another. -/
def run (ops : List ConnectionOp) : Connections := ops.foldl step {}

end Connections

/-! ## Over FFI -/

/-- A `[c_char; 256]`. -/
structure CChars where
  chars : List Int
  length : chars.length = 256

structure IhsWlClientInfo where
  pid : Int
  uid : Nat
  gid : Nat
  sandboxed : Bool
  sandboxEngine : CChars
  sandboxAppId : CChars
  sandboxInstanceId : CChars

-- `c_char` is an `i8` or a `u8`, as the target has it.
variable (signed : Bool)

def cChar (b : UInt8) : Int := if signed then b.toInt8.toInt else b.toNat

/-- Copied NUL-terminated; what was in the array stays behind that. -/
def copyStr (out : CChars) (s : Option Utf8) : CChars where
  chars :=
    let bytes := s.getD []
    let n := min bytes.length (out.chars.length - 1)
    ((bytes.take n).map (cChar signed) ++ out.chars.drop n).set n 0
  length := by
    have hout := out.length
    simp only [List.length_set, List.length_append, List.length_map, List.length_take, List.length_drop]
    omega

/-- Filled for the client of the toplevel a view shows, if it shows one. -/
def ihsWlViewClient (client : Option Connected) (info : IhsWlClientInfo) : Int × IhsWlClientInfo :=
  match client with
  | none => (0, info)
  | some client =>
      let sandbox : Option Utf8 × Option Utf8 × Option Utf8 :=
        (client.securityContext.map fun c => (c.sandboxEngine, c.appId, c.instanceId)).getD (none, none, none)
      (1, {
        pid := client.credentials.pid
        uid := client.credentials.uid
        gid := client.credentials.gid
        sandboxed := client.securityContext.isSome
        sandboxEngine := copyStr signed info.sandboxEngine sandbox.1
        sandboxAppId := copyStr signed info.sandboxAppId sandbox.2.1
        sandboxInstanceId := copyStr signed info.sandboxInstanceId sandbox.2.2 })

/-! ## Dart -/

structure WaylandSandbox where
  engine : Option Utf8
  appId : Option Utf8
  instanceId : Option Utf8
  deriving DecidableEq, Repr

structure WaylandClient where
  pid : Int
  uid : Nat
  gid : Nat
  sandbox : Option WaylandSandbox
  deriving DecidableEq, Repr

/-- `c & 0xff` -/
def lowByte (c : Int) : UInt8 := UInt8.ofNat (c % 256).toNat

/-- A NUL-terminated string, none when empty. -/
def string (chars : CChars) : Option Utf8 :=
  let bytes := (chars.chars.takeWhile (· ≠ 0)).map lowByte
  if bytes.isEmpty then none else some bytes

def client (answer : Int × IhsWlClientInfo) : Option WaylandClient :=
  if answer.1 ≠ 1 then none
  else
    let info := answer.2
    some {
      pid := info.pid
      uid := info.uid
      gid := info.gid
      sandbox :=
        if info.sandboxed then
          some {
            engine := string info.sandboxEngine
            appId := string info.sandboxAppId
            instanceId := string info.sandboxInstanceId }
        else none }

end Sandbox

end IhsWl
