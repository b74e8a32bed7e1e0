import IhsWl.Base
import Mathlib.Logic.Function.Basic

/-!
# Buffer identity

A buffer id per `wl_buffer`, or per staging slot, the key the shell caches its import of the buffer under.
-/

namespace IhsWl

/-- What a buffer id names. -/
inductive BufferKey where
  | client (object : Nat)
  | staged (uid : Nat)
  deriving DecidableEq, Repr

/-- The id of a buffer, and the views it was submitted to. -/
structure BufferEntry where
  id : Nat
  views : List ViewId := []
  deriving DecidableEq, Repr

/-- `last` is a `u32`. -/
structure BufferIds where
  last : Nat := 0
  byBuffer : BufferKey → Option BufferEntry := fun _ => none
  bounded : last < 4_294_967_296 := by decide

namespace BufferIds

/-- The id after `last`. 0 is left unused. -/
def next (last : Nat) : Nat := max ((last + 1) % 4_294_967_296) 1

/-- The buffer's entry, made now if it has none. -/
def entryOf (ids : BufferIds) (key : BufferKey) : BufferEntry := (ids.byBuffer key).getD { id := next ids.last }

/-- The buffer's id, noted as shown in `view`. -/
def idFor (ids : BufferIds) (key : BufferKey) (view : ViewId) : Nat × BufferIds :=
  let entry := ids.entryOf key
  let views := if view ∈ entry.views then entry.views else entry.views ++ [view]
  (entry.id,
    { last := if (ids.byBuffer key).isSome then ids.last else next ids.last
      byBuffer := Function.update ids.byBuffer key (some { entry with views := views })
      bounded := by
        split
        · exact ids.bounded
        · exact Nat.max_lt.mpr ⟨Nat.mod_lt _ (by decide), by decide⟩ })

/-- The buffer is gone: its id and the views to retire it in. -/
def destroyed (ids : BufferIds) (key : BufferKey) : Option BufferEntry × BufferIds :=
  (ids.byBuffer key, { ids with byBuffer := Function.update ids.byBuffer key none })

/-- A view is gone: nothing to retire there any more. -/
def forgetView (ids : BufferIds) (view : ViewId) : BufferIds :=
  { ids with byBuffer := fun key => (ids.byBuffer key).map fun e => { e with views := e.views.filter (· ≠ view) } }

end BufferIds

/-- An id the shell was handed for a buffer in a view, and not told to retire there. -/
structure Import where
  key : BufferKey
  view : ViewId
  id : Nat
  deriving DecidableEq, Repr

/-- The ids, what each surface's content goes under, the views with whether the shell still has them, the
`wl_buffer`s destroyed, and what the shell may still have imported. -/
structure Imports where
  ids : BufferIds := {}
  content : WlSurface → Option BufferKey := fun _ => none
  linked : ViewId → Option Bool := fun _ => none
  gone : List Nat := []
  imported : List Import := []

/-- What is done with buffers: a surface shows another, or none; a scene is submitted, preparing its layers up to one
that fails; a key is retired for another reason than its `wl_buffer` going; and views come, are let go by the
shell, and go. -/
inductive ImportOp where
  | shows (x : WlSurface) (key : Option BufferKey)
  | submits (v : ViewId) (xs : List WlSurface) (failed : Option Nat)
  | retires (key : BufferKey)
  | destroys (object : Nat)
  | creates (v : ViewId)
  | unlinks (v : ViewId)
  | disposes (v : ViewId)
  deriving DecidableEq, Repr

namespace Imports

variable (maxLayers : Nat)

/-- The keys of the layers of the scene `xs` that a submission gets ids for. -/
def prepared (c : Imports) (xs : List WlSurface) (failed : Option Nat) : List BufferKey :=
  let keys := (xs.filterMap c.content).take maxLayers
  match failed with
  | none => keys
  | some n => keys.take (n + 1)

/-- A layer is prepared for view `v`. -/
def prepare (v : ViewId) (c : Imports) (key : BufferKey) : Imports :=
  let named := c.ids.idFor key v
  { c with ids := named.2, imported := ⟨key, v, named.1⟩ :: c.imported }

def submitTree (v : ViewId) (xs : List WlSurface) (failed : Option Nat) (c : Imports) : Imports :=
  if (c.linked v).isNone then c else (c.prepared maxLayers xs failed).foldl (prepare v) c

/-- The buffer `key` names is gone: every view it was shown in drops its import of it. -/
def retireKey (key : BufferKey) (c : Imports) : Imports :=
  match c.ids.destroyed key with
  | (none, _) => c
  | (some entry, ids) =>
      { c with
        ids := ids
        imported := c.imported.filter fun i =>
          !(i.id == entry.id && entry.views.contains i.view && c.linked i.view == some true) }

/-- The client destroyed a buffer. -/
def bufferDestroyed (object : Nat) (c : Imports) : Imports :=
  { c.retireKey (.client object) with gone := object :: c.gone }

def step (c : Imports) : ImportOp → Imports
  | .shows x key => { c with content := Function.update c.content x key }
  | .submits v xs failed => c.submitTree maxLayers v xs failed
  | .retires key => c.retireKey key
  | .destroys object => c.bufferDestroyed object
  -- Another view than the last of that id: the shell imported nothing for it.
  | .creates v =>
      { c with linked := Function.update c.linked v (some true), imported := c.imported.filter fun i => i.view ≠ v }
  | .unlinks v => { c with linked := Function.update c.linked v ((c.linked v).map fun _ => false) }
  | .disposes v => { c with linked := Function.update c.linked v none, ids := c.ids.forgetView v }

def run (ops : List ImportOp) : Imports := ops.foldl (step maxLayers) {}

/-- No id is left for a destroyed buffer, and none in a view the shell still has. -/
def Forgotten (c : Imports) : Prop :=
  ∀ object ∈ c.gone, c.ids.byBuffer (.client object) = none ∧
    ∀ i ∈ c.imported, i.key = .client object → c.linked i.view ≠ some true

/-- Whether no layer submitted shows a destroyed buffer. -/
def showsLiving (c : Imports) : ImportOp → Bool
  | .submits v xs failed => (c.linked v).isNone ||
      (c.prepared maxLayers xs failed).all fun key => c.gone.all fun object => key != .client object
  | _ => true

end Imports

end IhsWl
