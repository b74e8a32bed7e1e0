import IhsWl.Base

/-!
# Held buffers

The buffers the shell may still be reading, for one view. A layer handed back a release fence is held
until the fence signals; one handed back none, until a later frame of the view is shown.
-/

namespace IhsWl

/-- Buffers held without a fence, per view, before the oldest goes back. -/
def maxUnfenced : Nat := 64

/-- What the shell handed back for a layer. A fence may fail to register with the loop. -/
inductive Release where
  | unfenced
  | fenced
  | unregistered
  deriving DecidableEq, Repr

structure Holds where
  nextKey : Nat := 0
  fenced : List (Nat × Held) := []
  /-- The seq of the frame that carried it, and the buffer. -/
  unfenced : List (Nat × Held) := []
  deriving DecidableEq, Repr

namespace Holds

/-- Hold `buffer` until its fence signals, unless nothing could watch the fence. -/
def holdFenced (h : Holds) (view : ViewId) (buffer : Held) (registered : Bool) : Holds × List Effect :=
  let key := h.nextKey + 1
  if registered then ({ h with nextKey := key, fenced := h.fenced ++ [(key, buffer)] }, [])
  else ({ h with nextKey := key }, [.gaveBack view buffer .unregistered])

/-- A buffer submitted again is held for the later frame only. -/
def holdUnfenced (h : Holds) (view : ViewId) (seq : Nat) (buffer : Held) : Holds × List Effect :=
  let grown := h.unfenced.filter (fun u => u.2 ≠ buffer) ++ [(seq, buffer)]
  let excess := if grown.length > maxUnfenced then 1 else 0
  ({ h with unfenced := grown.drop excess },
    (grown.take excess).map fun u => .gaveBack view u.2 .overflow)

/-- Hold the buffer of a layer sent with frame `seq`. -/
def hold (h : Holds) (view : ViewId) (seq : Nat) (buffer : Held) : Release → Holds × List Effect
  | .unfenced => h.holdUnfenced view seq buffer
  | .fenced => h.holdFenced view buffer true
  | .unregistered => h.holdFenced view buffer false

/-- Hold the buffers of the layers of frame `seq`. -/
def holdAll (h : Holds) (view : ViewId) (seq : Nat) : List (Held × Release) → Holds × List Effect
  | [] => (h, [])
  | (buffer, release) :: rest =>
      let one := h.hold view seq buffer release
      let all := one.1.holdAll view seq rest
      (all.1, one.2 ++ all.2)

/-- The view's frame `seq` is on screen: what earlier frames held without a fence is free. -/
def presented (h : Holds) (view : ViewId) (seq : Nat) : Holds × List Effect :=
  ({ h with unfenced := h.unfenced.filter fun u => u.1 ≥ seq },
    (h.unfenced.filter fun u => u.1 < seq).map fun u => .gaveBack view u.2 .shown)

/-- A fence signaled. -/
def signaled (h : Holds) (key : Nat) : Holds :=
  { h with fenced := h.fenced.filter fun f => f.1 ≠ key }

/-- Give everything back. -/
def clear (h : Holds) (view : ViewId) : Holds × List Effect :=
  ({ h with fenced := [], unfenced := [] },
    (h.fenced ++ h.unfenced).map fun u => .gaveBack view u.2 .cleared)

end Holds

end IhsWl
