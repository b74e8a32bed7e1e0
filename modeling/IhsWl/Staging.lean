import IhsWl.Base

/-!
# Staging

Shared-memory surfaces, shown through slots the server owns. A commit copies what changed since a free slot was
last filled.
-/

namespace IhsWl

/-- Slots per surface, at most. -/
def maxSlots : Nat := 4

/-- The four bytes of a pixel. -/
abbrev Pixel := UInt8 × UInt8 × UInt8 × UInt8

/-- The formats that are staged. -/
inductive Fourcc where
  | argb8888
  | xrgb8888
  deriving DecidableEq, Repr

/-- A surface's buffer. One the shell imports is not staged, nor is a shared-memory one of no staged format. -/
inductive ClientBuffer where
  | shm (width height stride offset : Int) (format : Option Fourcc) (pool : Nat → UInt8) (len : Nat)
  | pixel (r g b a : UInt8)
  | imported
  | other

/-- What a slot is filled from; a pixel in memory order. -/
inductive Source where
  | shm (width height : Int) (stride offset : Nat) (pool : Nat → UInt8) (len : Nat)
  | pixel (p : Pixel)

/-- The pixel at an address. -/
def pixelAt (bytes : Nat → UInt8) (a : Nat) : Pixel := (bytes a, bytes (a + 1), bytes (a + 2), bytes (a + 3))

/-- How reading the client's buffer goes. The pool may be gone before its size is read or after, or fail under the
copy, which then reads something else. -/
inductive Access where
  | reads
  | gone
  | denied
  | faults (seen : Nat → UInt8)

/-- What the surface's buffer is to be staged from, and the slots' format. -/
def ClientBuffer.source (access : Access) : ClientBuffer → Option (Source × Fourcc)
  | .shm width height stride offset format pool len =>
      match access with
      | .gone => none
      | _ => format.map fun f => (.shm width height stride.toNat offset.toNat pool len, f)
  | .pixel r g b a => some (.pixel (b, g, r, a), .argb8888)
  | .imported | .other => none

def Source.size : Source → Int × Int
  | .shm width height _ _ _ _ => (width, height)
  | .pixel _ => (1, 1)

/-- A rectangle of damage. Smithay clips it to the buffer, so its far edges are no larger than an `i32`. -/
structure Rect where
  x : Int
  y : Int
  w : Int
  h : Int
  fits : x + w ≤ 2_147_483_647 ∧ y + h ≤ 2_147_483_647

/-- A slot's memory as the CPU sees it, mapped for `h` rows of `w` pixels. -/
structure Mapping (w h : Nat) where
  stride : Nat
  len : Nat
  row : w * 4 ≤ stride
  holds : h * stride ≤ len

/-- What a call of `stage` meets: what a new slot's memory holds, if one can be allocated, the mapping, if it can be
made, and how the buffer reads. -/
structure Tries where
  memory : Option (Nat → Nat → Pixel)
  mapping : (w h : Nat) → Option (Mapping w h)
  access : Access

/-- All of it goes, and a new slot's memory is black. -/
def Tries.granted : Tries where
  memory := some fun _ _ => (0, 0, 0, 0)
  mapping w h := some ⟨w * 4, h * (w * 4), Nat.le_refl _, Nat.le_refl _⟩
  access := .reads

structure Slot where
  uid : Nat
  width : Int
  height : Int
  fourcc : Fourcc
  pixels : Nat → Nat → Pixel
  /-- The commit whose content the slot holds. -/
  commit : Option Nat := none

structure Ring where
  width : Int := 0
  height : Int := 0
  fourcc : Option Fourcc := none
  slots : List Slot := []
  /-- Index of the slot last filled. -/
  newest : Option Nat := none

/-! ## Copying -/

section Copying

variable (src : Nat → UInt8) (srcLen srcStride offset : Nat) {w h : Nat} (m : Mapping w h)

/-- Columns `x0` to `x1` of a row, from where they start in the pool. -/
def copyRow (s x0 x1 row : Nat) (pixels : Nat → Nat → Pixel) : Nat → Nat → Pixel := fun x y =>
  if y = row ∧ x0 ≤ x ∧ x < x1 then pixelAt src (s + (x - x0) * 4) else pixels x y

/-- Rows one after another, until one lies outside the pool or the mapping. Whether none did. -/
def copyRows (x0 x1 : Nat) : List Nat → (Nat → Nat → Pixel) → Bool × (Nat → Nat → Pixel)
  | [], pixels => (true, pixels)
  | row :: rows, pixels =>
      let bytes := (x1 - x0) * 4
      let s := offset + row * srcStride + x0 * 4
      let d := row * m.stride + x0 * 4
      if s + bytes ≤ srcLen ∧ d + bytes ≤ m.len then copyRows x0 x1 rows (copyRow src s x0 x1 row pixels)
      else (false, pixels)

/-- Copy what is damaged. -/
def copyRects : List Rect → (Nat → Nat → Pixel) → (Nat → Nat → Pixel)
  | [], pixels => pixels
  | rect :: rects, pixels =>
      let x0 := min rect.x.toNat w
      let y0 := min rect.y.toNat h
      let x1 := min (rect.x + rect.w).toNat w
      let y1 := min (rect.y + rect.h).toNat h
      if x1 ≤ x0 then copyRects rects pixels
      else
        let copied := copyRows src srcLen srcStride offset m x0 x1 (List.range' y0 (y1 - y0)) pixels
        if copied.1 then copyRects rects copied.2 else copied.2

end Copying

/-- Fill a slot's memory from `source`: whether it went, and what the memory then holds. -/
def Slot.write (slot : Slot) (source : Source) (damage : List Rect) (t : Tries) : Bool × (Nat → Nat → Pixel) :=
  match source with
  | .shm width height stride offset pool len =>
      match t.mapping width.toNat height.toNat with
      | none => (false, slot.pixels)
      | some m =>
          match t.access with
          | .reads => (true, copyRects pool len stride offset m damage slot.pixels)
          | .gone | .denied => (false, slot.pixels)
          | .faults seen => (false, copyRects seen len stride offset m damage slot.pixels)
  | .pixel p =>
      match t.mapping 1 1 with
      | none => (false, slot.pixels)
      | some m =>
          if 4 ≤ m.len then (true, fun x y => if x = 0 ∧ y = 0 then p else slot.pixels x y)
          else (false, slot.pixels)

/-! ## The ring -/

/-- What the surface's client shows, commit by commit, and what smithay tells was damaged since a commit. -/
structure Timeline where
  buffer : Nat → ClientBuffer
  damageSince : Option Nat → Nat → List Rect

/-- How a slot came to be shown: filled now, not changed since it was, or for want of a free one. -/
inductive Path where
  | filled
  | current
  | again
  deriving DecidableEq, Repr

/-- A surface's ring, the last uid given out, the current commit, the holds on slots outside the ring, and the slots
dropped. -/
structure Staging where
  ring : Ring := {}
  nextUid : Nat := 0
  now : Nat := 0
  outside : List Nat := []
  retired : List Nat := []

namespace Staging

variable (timeline : Timeline)

/-- A ring of another size or format is dropped. -/
def resize (size : Int × Int) (fourcc : Fourcc) (s : Staging) : Staging :=
  if s.ring.width ≠ size.1 ∨ s.ring.height ≠ size.2 ∨ s.ring.fourcc ≠ some fourcc then
    { s with
      ring := { width := size.1, height := size.2, fourcc := some fourcc }
      retired := s.retired ++ s.ring.slots.map Slot.uid }
  else s

def newestSlot (s : Staging) : Option Slot := s.ring.newest.bind fun i => s.ring.slots[i]?

/-- The first slot nobody outside holds. -/
def free (s : Staging) : Option Nat := s.ring.slots.findIdx? fun slot => !s.outside.contains slot.uid

/-- A new slot, at the end of the ring. A uid is used up whether it can be had or not. -/
def allocate (fourcc : Fourcc) (t : Tries) (s : Staging) : Option Nat × Staging :=
  let uid := s.nextUid + 1
  match t.memory with
  | none => (none, { s with nextUid := uid })
  | some memory =>
      let slot : Slot := {
        uid := uid, width := max s.ring.width 1, height := max s.ring.height 1, fourcc := fourcc, pixels := memory }
      (some s.ring.slots.length, { s with nextUid := uid, ring := { s.ring with slots := s.ring.slots ++ [slot] } })

/-- A slot to fill: a free one, else a new one while there may be more. -/
def pick (fourcc : Fourcc) (t : Tries) (s : Staging) : Option Nat × Staging :=
  match s.free with
  | some i => (some i, s)
  | none => s.allocate fourcc t

/-- Fill the slot at `i`; it is the newest once it is. -/
def fill (source : Source) (t : Tries) (i : Nat) (s : Staging) : Option (Path × Nat) × Staging :=
  match s.ring.slots[i]? with
  | none => (none, s)
  | some slot =>
      let written := slot.write source (timeline.damageSince slot.commit s.now) t
      if written.1 then
        (some (.filled, slot.uid),
          { s with
            ring := { s.ring with
              slots := s.ring.slots.set i { slot with pixels := written.2, commit := some s.now }
              newest := some i }
            outside := slot.uid :: s.outside })
      else (none, { s with ring := { s.ring with slots := s.ring.slots.set i { slot with pixels := written.2 } } })

/-- Show a slot as it is. -/
def showSlot (path : Path) (slot : Slot) (s : Staging) : Option (Path × Nat) × Staging :=
  (some (path, slot.uid), { s with outside := slot.uid :: s.outside })

/-- Whether every slot there may be is held outside. -/
def crowded (s : Staging) : Bool := s.free.isNone && maxSlots ≤ s.ring.slots.length

/-- Stage the surface's current buffer: how it is shown, and the uid of the slot. -/
def stage (t : Tries) (s : Staging) : Option (Path × Nat) × Staging :=
  match (timeline.buffer s.now).source t.access with
  | none => (none, s)
  | some (source, fourcc) =>
      let s := s.resize source.size fourcc
      match s.newestSlot.filter fun slot => slot.commit == some s.now with
      | some slot => s.showSlot .current slot
      | none =>
          if s.crowded then
            match s.newestSlot with
            | none => (none, s)
            | some slot => s.showSlot .again slot
          else
            let picked := s.pick fourcc t
            match picked.1 with
            | none => (none, picked.2)
            | some i => picked.2.fill timeline source t i

/-- The surface is gone. -/
def dropRing (s : Staging) : Staging :=
  { s with ring := {}, retired := s.retired ++ s.ring.slots.map Slot.uid }

end Staging

/-- What happens to a surface's ring: a commit changes its buffer, it is staged, holds on its slots are cloned and
dropped, other surfaces take uids, and the surface goes. -/
inductive StagingOp where
  | commits
  | stages (t : Tries)
  | clones (uid : Nat)
  | drops (uid : Nat)
  | others (n : Nat)
  | goes

namespace Staging

variable (timeline : Timeline)

def step (s : Staging) : StagingOp → Staging
  | .commits => { s with now := s.now + 1 }
  | .stages t => (s.stage timeline t).2
  | .clones uid => if uid ∈ s.outside then { s with outside := uid :: s.outside } else s
  | .drops uid => { s with outside := s.outside.erase uid }
  | .others n => { s with nextUid := s.nextUid + n }
  | .goes => s.dropRing

def run (ops : List StagingOp) : Staging := ops.foldl (step timeline) {}

end Staging

end IhsWl
