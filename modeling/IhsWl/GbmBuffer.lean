import IhsWl.Handing
import Mathlib.Algebra.Group.Nat.Defs

/-!
# Buffers shared as gbm buffers

A client hands over an fd and a metadata fd for each buffer. The vendor's libgbm works out the layout from the metadata,
and what comes back is a dma-buf with every plane on the one fd.
-/

namespace IhsWl.GbmBuffer

open Custody
open Handing (Fd Desk)

/-- `gbm_buffer_params.flags.y_invert` -/
def yInvert : Nat := 1

/-- `MAX_NUM_OF_PLANES` -/
def maxNumOfPlanes : Nat := 5

def modLinear : Nat := 0

/-- `DRM_FORMAT_MOD_QCOM_COMPRESSED` -/
def modQcomCompressed : Nat := 0x05 <<< 56 ||| 1

/-- One plane of a buffer, within its one dma-buf. -/
structure Plane where
  offset : Nat
  stride : Nat
  deriving DecidableEq, Repr

structure Planes where
  modifier : Nat
  planes : List Plane
  deriving DecidableEq, Repr

/-- `generic_plane_t`: its offset and its row pitch. -/
structure GenericPlane where
  offset : Nat := 0
  vIncrement : Int := 0
  deriving DecidableEq, Repr

/-- A buffer object of the vendor's libgbm, and what it answers of it. -/
structure GbmBo where
  ubwcRc : Int := 0
  ubwc : Int := 0
  infoRc : Int := 0
  numPlanes : Nat := 0
  planes : Fin maxNumOfPlanes → GenericPlane := fun _ => {}
  stride : Nat := 0
  offset : Nat := 0

/-- Each way a create fails. -/
inductive Failure where
  | unknownFormat
  | badSize
  | dup
  | gbmBoImport
  | ubwcStatus (rc : Int)
  | noStride
  | planes (n : Nat)
  deriving DecidableEq, Repr

/-- What the calls of one create come to: whether smithay knows the format, the dup for libgbm, the bo it makes, how many
planes' dups are made, and whether the client gets a `wl_buffer`. -/
structure Calls where
  known : Bool := true
  dup : Bool := true
  bo : Option GbmBo
  planeDups : Nat := 4
  resource : Bool := true

def close (k : Desk) (fds : List Fd) : Desk := { k with log := k.log ++ fds.map .closed }

/-- What is made of the answers for a bo. -/
def layoutOf (bo : GbmBo) : Except Failure Planes :=
  if bo.ubwcRc ≠ 0 then .error (.ubwcStatus bo.ubwcRc)
  else
    let planes :=
      if bo.infoRc = 0 ∧ 1 ≤ bo.numPlanes ∧ bo.numPlanes ≤ maxNumOfPlanes then
        ((List.ofFn bo.planes).take bo.numPlanes).map fun p => { offset := p.offset, stride := p.vIncrement.toNat }
      else [{ offset := bo.offset, stride := bo.stride }]
    if planes.any fun p => p.stride = 0 then .error .noStride
    else .ok { modifier := if bo.ubwc ≠ 0 then modQcomCompressed else modLinear, planes }

/-- The layout of a buffer shared as an fd and a metadata fd. Of libgbm it is assumed, as the source does, that a bo owns
both fds it was imported from and closes them when it is destroyed, and that a failed import leaves them alone. -/
def importGbmBuf (metadata : Fd) (calls : Calls) (k : Desk) : Except Failure Planes × Desk :=
  if !calls.dup then (.error .dup, close k [metadata])
  else
    let dup := k.next
    let k := k.dup
    match calls.bo with
    | none => (.error .gbmBoImport, close k [dup, metadata])
    | some bo => (layoutOf bo, close k [dup, metadata])

/-- A dma-buf, each plane on an fd of its own. -/
structure Dmabuf where
  width : Nat
  height : Nat
  format : Nat
  modifier : Nat
  yInverted : Bool
  planes : List (Fd × Plane)
  deriving DecidableEq, Repr

def Dmabuf.fds (d : Dmabuf) : List Fd := d.planes.map Prod.fst

/-- Add the planes, each with a dup of the fd, until a dup fails. -/
def addPlanes (dups : Nat) (added : List (Fd × Plane)) (k : Desk) :
    List Plane → Except (List (Fd × Plane)) (List (Fd × Plane)) × Desk
  | [] => (.ok added, k)
  | plane :: planes =>
      match dups with
      | 0 => (.error added, k)
      | dups + 1 => addPlanes dups (added ++ [(k.next, plane)]) k.dup planes

/-- The dma-buf behind a shared gbm buffer: every plane, on the one fd. -/
def importBuffer (fd metadata : Fd) (width height format flags : Nat) (calls : Calls) (k : Desk) : Except Failure Dmabuf × Desk :=
  if !calls.known then (.error .unknownFormat, close k [metadata, fd])
  else if width = 0 ∨ height = 0 ∨ 2 ^ 31 ≤ width ∨ 2 ^ 31 ≤ height then (.error .badSize, close k [metadata, fd])
  else
    match importGbmBuf metadata calls k with
    | (.error e, k) => (.error e, close k [fd])
    | (.ok layout, k) =>
        if layout.planes = [] ∨ 4 < layout.planes.length then (.error (.planes layout.planes.length), close k [fd])
        else
          match addPlanes calls.planeDups [] k layout.planes with
          | (.error added, k) => (.error .dup, close k (added.map Prod.fst ++ [fd]))
          | (.ok planes, k) =>
              let yInverted := flags &&& yInvert ≠ 0
              (.ok { width, height, format, modifier := layout.modifier, yInverted, planes }, close k [fd])

/-- What a params object's client is told. -/
inductive Answer where
  | created (buffer : Nat)
  | failed
  deriving DecidableEq, Repr

/-- The params objects used, the buffers there are, and what was answered. -/
structure Backend where
  desk : Desk := {}
  used : List Nat := []
  buffers : List (Nat × Dmabuf) := []
  nextBuffer : Nat := 0
  answers : List (Nat × Answer) := []

inductive Op where
  | create (params width height format flags : Nat) (calls : Calls)
  | drops (buffer : Nat)

namespace Backend

/-- The only `create` a params object gets, and any other. The request brings two fds. -/
def create (params width height format flags : Nat) (calls : Calls) (b : Backend) : Backend :=
  let fd := b.desk.next
  let k := b.desk.dup
  let metadata := k.next
  let k := k.dup
  let answer (a : Answer) (k : Desk) : Backend :=
    { b with desk := k, used := params :: b.used, answers := b.answers ++ [(params, a)] }
  if params ∈ b.used then answer .failed (close k [metadata, fd])
  else
    match importBuffer fd metadata width height format flags calls k with
    | (.error _, k) => answer .failed k
    | (.ok dmabuf, k) =>
        if calls.resource then
          let buffer := b.nextBuffer
          { answer (.created buffer) k with buffers := b.buffers ++ [(buffer, dmabuf)], nextBuffer := buffer + 1 }
        else answer .failed (close k dmabuf.fds)

/-- Nothing uses the buffer's dma-buf any more. -/
def drops (buffer : Nat) (b : Backend) : Backend :=
  { b with
    buffers := b.buffers.filter fun e => e.1 ≠ buffer
    desk := close b.desk ((b.buffers.filter fun e => e.1 = buffer).flatMap fun e => e.2.fds) }

def step (b : Backend) : Op → Backend
  | .create params width height format flags calls => b.create params width height format flags calls
  | .drops buffer => b.drops buffer

def run (ops : List Op) : Backend := ops.foldl step {}

end Backend

end IhsWl.GbmBuffer
