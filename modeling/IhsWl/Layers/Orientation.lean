import Mathlib.Tactic.Linarith
import Mathlib.Tactic.Ring
import Mathlib.Logic.Function.Basic
import IhsWl.Layers

/-!
# Buffers stored upside down are shown upright

The part shown of a buffer stored bottom row first is mirrored in it, and the transform undoes the mirroring.
-/

namespace IhsWl

variable {K : Type} [CommRing K]

/-! ## Where pixels go -/

namespace Transform

def isFlipped : Transform → Bool
  | normal | _90 | _180 | _270 => false
  | flipped | flipped90 | flipped180 | flipped270 => true

/-- Quarter turns. -/
def turns : Transform → Nat
  | normal | flipped => 0
  | _90 | flipped90 => 1
  | _180 | flipped180 => 2
  | _270 | flipped270 => 3

end Transform

/-- Turn an image of a size counterclockwise: where a pixel goes, the side of a pixel being `u`. For points `u` is 0. -/
def turn (u : K) : Nat → K × K → K × K → K × K
  | 0, p, _ => p
  | n + 1, p, size => turn u n (p.2, size.1 - u - p.1) (size.2, size.1)

/-- Where a transform sends a pixel of an image. -/
def Transform.apply (t : Transform) (u : K) (p size : K × K) : K × K :=
  turn u t.turns (if t.isFlipped then (size.1 - u - p.1, p.2) else p) size

/-- The pixel in the same column as many rows from the bottom. -/
def upsideDown (u height : K) (p : K × K) : K × K := (p.1, height - u - p.2)

/-- The pixels of a buffer of `height` that stores an image bottom row first. -/
def bottomUp {C : Type} (u height : K) (image : K × K → C) (p : K × K) : C := image (upsideDown u height p)

theorem upsideDown_involutive (u height : K) : Function.Involutive (upsideDown u height) := fun _ =>
  Prod.ext rfl (sub_sub_cancel ..)

theorem turn_injective (u : K) (n : Nat) (size : K × K) : Function.Injective fun p => turn u n p size := by
  induction n generalizing size with
  | zero => exact fun _ _ h => h
  | succ n ih =>
      intro p q h
      have hturned := Prod.ext_iff.mp (ih (size.2, size.1) h)
      exact Prod.ext (sub_right_injective hturned.2) hturned.1

theorem Transform.apply_injective (t : Transform) (u : K) (size : K × K) :
    Function.Injective fun p => t.apply u p size := by
  intro p q h
  have hflipped := turn_injective u t.turns size h
  cases hf : t.isFlipped <;> simp only [hf] at hflipped
  · exact hflipped
  · exact Prod.ext (sub_right_injective (Prod.ext_iff.mp hflipped).1) (Prod.ext_iff.mp hflipped).2

theorem Transform.apply_afterYFlip (t : Transform) (u : K) (p size : K × K) :
    t.afterYFlip.apply u p size = t.apply u (upsideDown u size.2 p) size := by
  cases t <;> refine Prod.ext ?_ ?_ <;>
    simp only [afterYFlip, apply, turn, turns, isFlipped, upsideDown, if_true, if_false, Bool.false_eq_true] <;> ring

theorem Transform.afterYFlip_involutive : Function.Involutive Transform.afterYFlip := fun t => by cases t <;> rfl

/-! ## The part shown -/

/-- The part of a buffer of `height` stored upside down that shows what `src` does of the image. -/
def Area.mirrored (height : K) (src : Area K) : Area K := { src with y := height - (src.y + src.h) }

theorem Area.mirrored_involutive (height : K) : Function.Involutive (Area.mirrored height) := by
  rintro ⟨x, y, w, h⟩
  simp only [mirrored, Area.mk.injEq, true_and, and_true]
  ring

theorem oriented_inverted (src : Area K) (height : K) (t : Transform) :
    oriented true height src t = (src.mirrored height, t.afterYFlip) := rfl

/-- Where a pixel of the part shown goes. -/
def Area.sends (src : Area K) (t : Transform) (u : K) (p : K × K) : K × K :=
  t.apply u (p.1 - src.x, p.2 - src.y) (src.w, src.h)

theorem Area.sends_injective (src : Area K) (t : Transform) (u : K) : Function.Injective (src.sends t u) := by
  intro p q h
  have hplaces := Prod.ext_iff.mp (t.apply_injective u (src.w, src.h) h)
  exact Prod.ext (sub_left_injective hplaces.1) (sub_left_injective hplaces.2)

/-- A mirrored part sends a pixel where the image's part sends the one it is of. -/
theorem Area.sends_mirrored (src : Area K) (t : Transform) (u height : K) (p : K × K) :
    (src.mirrored height).sends t.afterYFlip u p = src.sends t u (upsideDown u height p) := by
  rw [sends, t.apply_afterYFlip, sends]
  congr 1
  refine Prod.ext rfl ?_
  simp only [upsideDown, mirrored]
  ring

section

variable [LinearOrder K] [IsStrictOrderedRing K] {src : Area K} {width height u : K} {p : K × K}

/-- A part that lies in a buffer. -/
structure Area.Inside (src : Area K) (width height : K) : Prop where
  left : 0 ≤ src.x
  right : src.x + src.w ≤ width
  top : 0 ≤ src.y
  bottom : src.y + src.h ≤ height

/-- A pixel of the part. -/
structure Area.Contains (src : Area K) (u : K) (p : K × K) : Prop where
  left : src.x ≤ p.1
  right : p.1 + u ≤ src.x + src.w
  top : src.y ≤ p.2
  bottom : p.2 + u ≤ src.y + src.h

theorem Area.Inside.mirrored (h : src.Inside width height) : (src.mirrored height).Inside width height := by
  have htop := h.top
  have hbottom := h.bottom
  refine ⟨h.left, h.right, ?_, ?_⟩ <;>
  · simp only [Area.mirrored]
    linarith

theorem Area.Contains.upsideDown (h : src.Contains u p) (height : K) :
    (src.mirrored height).Contains u (upsideDown u height p) := by
  have htop := h.top
  have hbottom := h.bottom
  refine ⟨h.left, h.right, ?_, ?_⟩ <;>
  · simp only [Area.mirrored, IhsWl.upsideDown]
    linarith

/-- Of a buffer stored bottom row first, the part shown and its transform send to each place the pixel of the image that
the given ones do. -/
theorem oriented_upright {C : Type} (image : K × K → C) (hsrc : src.Inside width height) (t : Transform) (u : K) :
    (oriented true height src t).1.Inside width height ∧
      oriented true height (oriented true height src t).1 (oriented true height src t).2 = (src, t) ∧
      (∀ p, src.Contains u p → ∃ q, (oriented true height src t).1.Contains u q ∧
        (∀ q', (oriented true height src t).1.sends (oriented true height src t).2 u q' = src.sends t u p ↔ q' = q) ∧
        bottomUp u height image q = image p) ∧
      ∀ q, (oriented true height src t).1.Contains u q → ∃ p, src.Contains u p ∧
        src.sends t u p = (oriented true height src t).1.sends (oriented true height src t).2 u q := by
  simp only [oriented_inverted, Area.sends_mirrored]
  refine ⟨hsrc.mirrored, ?_, fun p hp => ⟨upsideDown u height p, hp.upsideDown height, fun q => ?_, ?_⟩, fun q hq => ?_⟩
  · rw [Area.mirrored_involutive height src, Transform.afterYFlip_involutive t]
  · rw [(src.sends_injective t u).eq_iff, (upsideDown_involutive u height).eq_iff]
  · rw [bottomUp, upsideDown_involutive u height p]
  · have hback := hq.upsideDown height
    rw [Area.mirrored_involutive height src] at hback
    exact ⟨_, hback, rfl⟩

/-- A crop of four rows, turned. -/
theorem oriented_upright_crop :
    (oriented true 4 (⟨1, 0, 2, 3⟩ : Area Int) ._90).1.Inside 5 4 ∧
      oriented true 4 (oriented true 4 (⟨1, 0, 2, 3⟩ : Area Int) ._90).1
        (oriented true 4 (⟨1, 0, 2, 3⟩ : Area Int) ._90).2 = (⟨1, 0, 2, 3⟩, ._90) ∧
      (∀ p, (⟨1, 0, 2, 3⟩ : Area Int).Contains 1 p → ∃ q,
        (oriented true 4 (⟨1, 0, 2, 3⟩ : Area Int) ._90).1.Contains 1 q ∧
        (∀ q', (oriented true 4 (⟨1, 0, 2, 3⟩ : Area Int) ._90).1.sends
          (oriented true 4 (⟨1, 0, 2, 3⟩ : Area Int) ._90).2 1 q' = (⟨1, 0, 2, 3⟩ : Area Int).sends ._90 1 p ↔ q' = q) ∧
        bottomUp 1 4 (fun p : Int × Int => p) q = p) ∧
      ∀ q, (oriented true 4 (⟨1, 0, 2, 3⟩ : Area Int) ._90).1.Contains 1 q → ∃ p,
        (⟨1, 0, 2, 3⟩ : Area Int).Contains 1 p ∧ (⟨1, 0, 2, 3⟩ : Area Int).sends ._90 1 p =
          (oriented true 4 (⟨1, 0, 2, 3⟩ : Area Int) ._90).1.sends
            (oriented true 4 (⟨1, 0, 2, 3⟩ : Area Int) ._90).2 1 q :=
  oriented_upright (fun p => p) ⟨by decide, by decide, by decide, by decide⟩ ._90 1

end

end IhsWl
