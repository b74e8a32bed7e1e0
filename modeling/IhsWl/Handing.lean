import IhsWl.Lib.Custody
import IhsWl.Server.State

/-!
# The fds of a submission

Each plane of a layer's dma-buf goes to the shell as a dup of its fd, one for all planes of a file; the
shell owns them once it is called. A layer may be handed back a release fence.
-/

namespace IhsWl.Handing

open Custody

/-- A dup of the module's, by how many it made before: fds open at once differ. -/
abbrev Fd := Nat

/-- The file behind an fd: its device and inode. -/
abbrev FileId := Nat × Nat

/-- A plane of a dma-buf: the file behind its fd unless `fstat` fails, and whether the fd can be dup'd. -/
structure Plane where
  file : Option FileId
  dups : Bool

inductive Content where
  | dmabuf (planes : List Plane)
  | image

/-- The fds of the planes set so far. -/
structure IhsFrame where
  planeFd : List Fd := []

/-- One fd may back several planes: each once. -/
def IhsFrame.fds (f : IhsFrame) : List Fd :=
  f.planeFd.foldl (fun closed fd => if fd ∈ closed then closed else closed ++ [fd]) []

/-- The dups made so far, and what was done with them. -/
structure Desk where
  next : Fd := 0
  log : List (Event Fd) := []

namespace Desk

def dup (k : Desk) : Desk := { next := k.next + 1, log := k.log ++ [.got k.next] }

def closeFrame (k : Desk) (f : IhsFrame) : Desk := { k with log := k.log ++ f.fds.map .closed }

end Desk

/-! ## Preparing the layers -/

/-- Give each plane its fd, until a dup fails. `files` are the files met, with the fd each went as. -/
def addPlanes (files : List (FileId × Fd)) (frame : IhsFrame) (k : Desk) :
    List Plane → Except IhsFrame IhsFrame × Desk
  | [] => (.ok frame, k)
  | plane :: planes =>
      match plane.file.bind fun id => files.lookup id with
      | some raw => addPlanes files ⟨frame.planeFd ++ [raw]⟩ k planes
      | none =>
          if plane.dups then
            let met := (plane.file.map fun id => (id, k.next)).toList
            addPlanes (files ++ met) ⟨frame.planeFd ++ [k.next]⟩ k.dup planes
          else (.error frame, k)

/-- The frame of a dma-buf, with its planes' fds dup'd; nothing left open when a dup fails. -/
def frameFor (planes : List Plane) (k : Desk) : Option IhsFrame × Desk :=
  match addPlanes [] {} k (planes.take 4) with
  | (.ok frame, k) => (some frame, k)
  | (.error frame, k) => (none, k.closeFrame frame)

/-- What goes to the shell for one layer. -/
inductive Prepared where
  | frame (f : IhsFrame)
  | image

def Prepared.fds : Prepared → List Fd
  | .frame f => f.fds
  | .image => []

def prepare (content : Content) (k : Desk) : Option Prepared × Desk :=
  match content with
  | .dmabuf planes =>
      let made := frameFor planes k
      (made.1.map .frame, made.2)
  | .image => (some .image, k)

def closePrepared (k : Desk) : Prepared → Desk
  | .frame f => k.closeFrame f
  | .image => k

/-- Prepare every layer; when one fails, those before it are closed. -/
def prepareAll (prepared : List Prepared) (k : Desk) : List Content → Option (List Prepared) × Desk
  | [] => (some prepared, k)
  | content :: contents =>
      match prepare content k with
      | (some p, k) => prepareAll (prepared ++ [p]) k contents
      | (none, k) => (none, prepared.foldl closePrepared k)

/-! ## The call -/

/-- The shell's side of a submission: whether the view's link still stands, its header's `IHS_PV_OK`,
what the call returns, and what it hands back for each layer. -/
structure Registry where
  link : Bool
  ihsPvOk : Int
  rc : Int
  release : Nat → Release

/-- A submission, and what was done with the plane fds and, by layer, the release fences. -/
structure Handed where
  outcome : Submission
  called : Bool
  planes : List (Event Fd)
  fences : List (Event Nat)

/-- The layers handed back a fence. -/
def Registry.returned (reg : Registry) (layers : Nat) : List Nat :=
  (List.range layers).filter fun i => reg.release i ≠ .unfenced

/-- A fence goes to the loop, or is closed when the loop cannot watch it. -/
def Registry.holdFence (reg : Registry) (layer : Nat) : Event Nat :=
  if reg.release layer = .fenced then .passed layer else .closed layer

/-- Hand `contents`, the layers bottom to top, to the shell. -/
def handOver (reg : Registry) (contents : List Content) : Handed :=
  match prepareAll [] {} contents with
  | (none, k) => { outcome := .dupFailed, called := false, planes := k.log, fences := [] }
  | (some prepared, k) =>
      if reg.link then
        let planes := k.log ++ (prepared.flatMap Prepared.fds).map .passed
        let returned := reg.returned contents.length
        if reg.rc = reg.ihsPvOk then
          { outcome := .accepted ((List.range contents.length).map reg.release), called := true, planes,
            fences := returned.map .got ++ returned.map reg.holdFence }
        else
          { outcome := .refused, called := true, planes,
            fences := returned.map .got ++ returned.map .closed }
      else
        { outcome := .noLink, called := false, planes := (prepared.foldl closePrepared k).log,
          fences := [] }

end IhsWl.Handing
