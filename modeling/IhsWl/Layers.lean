import IhsWl.Fit.Exact

/-!
# Layers

What the shell draws of a scene: of each buffer the part shown, how that is turned, and where it lands in the view.
-/

namespace IhsWl

structure Area (α : Type) where
  x : α
  y : α
  w : α
  h : α
  deriving DecidableEq, Repr

/-! ## Orientation -/

/-- `wl_output.transform`: a mirroring across the vertical axis, if any, then quarter turns counterclockwise. -/
inductive Transform where
  | normal
  | _90
  | _180
  | _270
  | flipped
  | flipped90
  | flipped180
  | flipped270
  deriving DecidableEq, Repr

namespace Transform

/-- `transform_value`. -/
def value : Transform → Nat
  | normal => 0
  | _90 => 1
  | _180 => 2
  | _270 => 3
  | flipped => 4
  | flipped90 => 5
  | flipped180 => 6
  | flipped270 => 7

/-- Turn a buffer stored upside down. -/
def afterYFlip : Transform → Transform
  | normal => flipped180
  | _90 => flipped270
  | _180 => flipped
  | _270 => flipped90
  | flipped => _180
  | flipped90 => _270
  | flipped180 => normal
  | flipped270 => _90

end Transform

/-- The part of a buffer of `height` that is shown, and how it is turned. Of one stored bottom row first the part is
mirrored, and the mirroring undone on the way to the view. -/
def oriented {α : Type} [Add α] [Sub α] (yInverted : Bool) (height : α) (src : Area α) (transform : Transform) :
    Area α × Transform :=
  if yInverted then ({ src with y := height - (src.y + src.h) }, transform.afterYFlip) else (src, transform)

/-! ## Placement -/

/-- Where a layer lands, in the client's logical space. -/
structure Dst extends Area Int where
  loc : (i32Min ≤ x ∧ x ≤ i32Max) ∧ i32Min ≤ y ∧ y ≤ i32Max
  size : (0 ≤ w ∧ w ≤ i32Max) ∧ 0 ≤ h ∧ h ≤ i32Max

/-- A layer, before its buffer is filled in. -/
structure LayerSpec where
  layerId : Nat
  src : Area ℚ
  dst : Dst
  transform : Nat
  isOpaque : Bool

/-- What a layer's buffer is handed over as, by name. -/
inductive Prepared where
  | frame (frame : Nat)
  | image (image : Nat)

/-- A layer as the shell is given it. -/
structure IhsLayer where
  frame : Option Nat
  acquireFenceFd : Int
  layerId : Nat
  src : Area Int
  dst : Area Int
  transform : Nat
  isOpaque : Bool
  image : Option Nat
  deriving DecidableEq, Repr

def i64Min : Int := -9_223_372_036_854_775_808

def i64Max : Int := 9_223_372_036_854_775_807

def u32Max : Int := 4_294_967_295

def clampI (v : Int) : Int := Round.clamp i32Min i32Max v

def clampU (v : Int) : Int := Round.clamp 0 u32Max v

/-- 16.16 fixed point. -/
def fixed (v : ℚ) : Int := Round.clamp i64Min i64Max (Round.away (v * 65536))

/-- A logical coordinate in the view, in physical pixels. -/
def physical (v dpr : ℚ) : Int := Round.clamp i64Min i64Max (Round.away (v * dpr))

/-- The edges of a rectangle. -/
structure Edges where
  x0 : Int
  y0 : Int
  x1 : Int
  y1 : Int
  deriving DecidableEq, Repr

/-- Where a layer's edges land in the view, in physical pixels, unless a sum overflows: with the checks on, that
panics. -/
def edges (fit : Fit ℚ) (dpr : ℚ) (dst : Dst) : Option Edges := do
  let x ← Round.checked i32Min i32Max (dst.x + dst.w)
  let y ← Round.checked i32Min i32Max (dst.y + dst.h)
  let p0 := fit.toView (dst.x, dst.y)
  let p1 := fit.toView (x, y)
  some ⟨physical p0.1 dpr, physical p0.2 dpr, physical p1.1 dpr, physical p1.2 dpr⟩

/-- The layer the shell is given, which lands at `dst`. -/
def LayerSpec.layer (spec : LayerSpec) (prepared : Prepared) (dst : Area Int) : IhsLayer where
  frame := match prepared with
    | .frame frame => some frame
    | .image _ => none
  acquireFenceFd := -1
  layerId := spec.layerId
  src := ⟨clampI (fixed spec.src.x), clampI (fixed spec.src.y), clampU (fixed spec.src.w), clampU (fixed spec.src.h)⟩
  dst := dst
  transform := spec.transform
  isOpaque := spec.isOpaque
  image := match prepared with
    | .frame _ => none
    | .image image => some image

/-- Edges round, not sizes, so neighbors stay flush. -/
def layerFor (spec : LayerSpec) (prepared : Prepared) (fit : Fit ℚ) (dpr : ℚ) : Option IhsLayer := do
  let e ← edges fit dpr spec.dst
  let w ← Round.checked i64Min i64Max (e.x1 - e.x0)
  let h ← Round.checked i64Min i64Max (e.y1 - e.y0)
  some (spec.layer prepared ⟨clampI e.x0, clampI e.y0, clampU w, clampU h⟩)

end IhsWl
