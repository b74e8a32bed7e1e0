import Mathlib.Data.Int.Basic
import IhsWl.Lib.Versions
import IhsWl.Staging

/-!
# What a copy writes

A copy of damage writes the damaged pixels and no others. A slot's copies are those of a value that falls behind and
catches up.
-/

namespace IhsWl

/-- Whether a pixel lies in the rectangle. -/
def Rect.Covers (r : Rect) (x y : Nat) : Prop := r.x ≤ x ∧ x < r.x + r.w ∧ r.y ≤ y ∧ y < r.y + r.h

/-! ## Rows and rectangles -/

section Copying

variable {src : Nat → UInt8} {srcLen srcStride offset w h : Nat} {m : Mapping w h}

theorem copyRow_apply (row x0 x1 x y : Nat) (pixels : Nat → Nat → Pixel) :
    copyRow src (offset + row * srcStride + x0 * 4) x0 x1 row pixels x y =
      if y = row ∧ x0 ≤ x ∧ x < x1 then pixelAt src (offset + y * srcStride + x * 4) else pixels x y := by
  unfold copyRow
  split
  · rename_i hin
    obtain ⟨rfl, hle, -⟩ := hin
    congr 1
    omega
  · rfl

theorem copyRows_rest {x0 x1 x y : Nat} (rows : List Nat) (pixels : Nat → Nat → Pixel)
    (hout : ¬(y ∈ rows ∧ x0 ≤ x ∧ x < x1)) :
    (copyRows src srcLen srcStride offset m x0 x1 rows pixels).2 x y = pixels x y := by
  induction rows generalizing pixels with
  | nil => rfl
  | cons row rows ih =>
      simp only [List.mem_cons] at hout
      simp only [copyRows]
      split
      · rw [ih _ fun hin => hout ⟨Or.inr hin.1, hin.2⟩, copyRow_apply,
          if_neg fun hin => hout ⟨Or.inl hin.1, hin.2⟩]
      · rfl

/-- A row of the buffer's lies in the mapping. -/
theorem Mapping.holds_row (m : Mapping w h) {row x1 : Nat} (hrow : row < h) (hx1 : x1 ≤ w) :
    row * m.stride + x1 * 4 ≤ m.len := by
  have hline : x1 * 4 ≤ m.stride := Nat.le_trans (Nat.mul_le_mul_right 4 hx1) m.row
  calc row * m.stride + x1 * 4 ≤ row * m.stride + m.stride := Nat.add_le_add_left hline _
    _ = (row + 1) * m.stride := by rw [Nat.succ_mul]
    _ ≤ h * m.stride := Nat.mul_le_mul_right _ hrow
    _ ≤ m.len := m.holds

theorem copyRows_copied (src : Nat → UInt8) (m : Mapping w h) {x0 x1 : Nat} (hx : x0 < x1) (hx1 : x1 ≤ w)
    (hpool : ∀ y < h, offset + y * srcStride + w * 4 ≤ srcLen) (rows : List Nat) (hrows : ∀ row ∈ rows, row < h)
    (pixels : Nat → Nat → Pixel) :
    (copyRows src srcLen srcStride offset m x0 x1 rows pixels).1 = true ∧ ∀ x y, y ∈ rows → x0 ≤ x → x < x1 →
      (copyRows src srcLen srcStride offset m x0 x1 rows pixels).2 x y =
        pixelAt src (offset + y * srcStride + x * 4) := by
  induction rows generalizing pixels with
  | nil => exact ⟨rfl, fun _ _ hy => by cases hy⟩
  | cons row rows ih =>
      have hrow : row < h := hrows row (List.mem_cons_self ..)
      have hfrom := hpool row hrow
      have hto := m.holds_row hrow hx1
      have hfits : offset + row * srcStride + x0 * 4 + (x1 - x0) * 4 ≤ srcLen ∧
          row * m.stride + x0 * 4 + (x1 - x0) * 4 ≤ m.len := by omega
      have hrest := ih (fun r hr => hrows r (List.mem_cons_of_mem _ hr))
        (copyRow src (offset + row * srcStride + x0 * 4) x0 x1 row pixels)
      simp only [copyRows, if_pos hfits]
      refine ⟨hrest.1, fun x y hy hx0 hx1' => ?_⟩
      by_cases hlater : y ∈ rows
      · exact hrest.2 x y hlater hx0 hx1'
      · have hhere : y = row := (List.mem_cons.mp hy).resolve_right hlater
        rw [copyRows_rest rows _ fun hin => hlater hin.1, copyRow_apply, if_pos ⟨hhere, hx0, hx1'⟩]

/-- What no rectangle covers is left as it was, however the copy goes. -/
theorem copyRects_rest {x y : Nat} (rects : List Rect) (pixels : Nat → Nat → Pixel)
    (hout : ∀ r ∈ rects, ¬r.Covers x y) (hx : x < w) (hy : y < h) :
    copyRects src srcLen srcStride offset m rects pixels x y = pixels x y := by
  induction rects generalizing pixels with
  | nil => rfl
  | cons r rects ih =>
      have hrest := fun pixels => ih pixels fun r hr => hout r (List.mem_cons_of_mem _ hr)
      have hr := hout r (List.mem_cons_self ..)
      simp only [copyRects]
      split
      · exact hrest pixels
      · have hsame : (copyRows src srcLen srcStride offset m (min r.x.toNat w) (min (r.x + r.w).toNat w)
            (List.range' (min r.y.toNat h) (min (r.y + r.h).toNat h - min r.y.toNat h)) pixels).2 x y = pixels x y := by
          apply copyRows_rest
          simp only [List.mem_range'_1, Rect.Covers] at hr ⊢
          omega
        split
        · rw [hrest, hsame]
        · exact hsame

/-- Within a pool that holds the buffer's rows, every pixel a rectangle covers is copied. -/
theorem copyRects_copied (hpool : ∀ y < h, offset + y * srcStride + w * 4 ≤ srcLen) {x y : Nat} (rects : List Rect)
    (pixels : Nat → Nat → Pixel) (hx : x < w) (hy : y < h)
    (hin : (∃ r ∈ rects, r.Covers x y) ∨ pixels x y = pixelAt src (offset + y * srcStride + x * 4)) :
    copyRects src srcLen srcStride offset m rects pixels x y = pixelAt src (offset + y * srcStride + x * 4) := by
  induction rects generalizing pixels with
  | nil =>
      rcases hin with ⟨r, hr, -⟩ | hdone
      · cases hr
      · exact hdone
  | cons r rects ih =>
      simp only [copyRects]
      split
      · rename_i hempty
        refine ih pixels (hin.imp ?_ id)
        rintro ⟨r', hr', hcov⟩
        rcases List.mem_cons.mp hr' with rfl | hr'
        · unfold Rect.Covers at hcov
          omega
        · exact ⟨r', hr', hcov⟩
      · rename_i hsome
        have hcopied := copyRows_copied src m (Nat.lt_of_not_le hsome) (Nat.min_le_right _ _) hpool
          (List.range' (min r.y.toNat h) (min (r.y + r.h).toNat h - min r.y.toNat h)) (by
            intro row hrow
            simp only [List.mem_range'_1] at hrow
            omega) pixels
        rw [if_pos hcopied.1]
        refine ih _ ?_
        by_cases hhere : r.Covers x y
        · refine Or.inr (hcopied.2 x y ?_ ?_ ?_) <;>
            (simp only [List.mem_range'_1, Rect.Covers] at hhere ⊢; omega)
        · rcases hin with ⟨r', hr', hcov⟩ | hdone
          · rcases List.mem_cons.mp hr' with rfl | hr'
            · exact absurd hcov hhere
            · exact Or.inl ⟨r', hr', hcov⟩
          · refine Or.inr ?_
            rw [copyRows_rest _ _ ?_, hdone]
            simp only [List.mem_range'_1, Rect.Covers] at hhere ⊢
            omega

end Copying

/-! ## Clients -/

/-- A buffer's size and format, when it can be staged. -/
def ClientBuffer.shape : ClientBuffer → Option ((Int × Int) × Fourcc)
  | .shm width height _ _ format _ _ => format.map fun f => ((width, height), f)
  | .pixel _ _ _ _ => some ((1, 1), .argb8888)
  | .imported | .other => none

/-- The pixel a buffer shows at a place. -/
def ClientBuffer.shows : ClientBuffer → Nat × Nat → Pixel
  | .shm _ _ stride offset _ pool _, p => pixelAt pool (offset.toNat + p.2 * stride.toNat + p.1 * 4)
  | .pixel r g b a, _ => (b, g, r, a)
  | .imported, _ | .other, _ => (0, 0, 0, 0)

/-- The pixels of a size and format. -/
def visible (k : (Int × Int) × Fourcc) : Set (Nat × Nat) := {p | p.1 < k.1.1.toNat ∧ p.2 < k.1.2.toNat}

/-- What smithay tells of the damage from a commit to another. -/
def Timeline.damaged (timeline : Timeline) (c : Option Nat) (n : Nat) : Set (Nat × Nat) :=
  {p | ∃ r ∈ timeline.damageSince c n, r.Covers p.1 p.2}

/-- A client whose buffers lie in their pools, and whose damage is what changed. Smithay joins the damage of the
commits since, or gives the whole buffer, so what it tells only grows. -/
structure Client extends Timeline where
  rows : ∀ n width height stride offset format pool len,
    buffer n = .shm width height stride offset (some format) pool len →
      ∀ y < height.toNat, offset.toNat + y * stride.toNat + width.toNat * 4 ≤ len
  whole : ∀ n k, (buffer n).shape = some k → visible k ⊆ toTimeline.damaged none n
  covers : ∀ c n k, c ≤ n → (buffer c).shape = some k → (buffer n).shape = some k →
    ∀ p ∈ visible k, (buffer c).shows p ≠ (buffer n).shows p → p ∈ toTimeline.damaged (some c) n
  grows : ∀ c m n k, c ≤ m → m ≤ n → (buffer c).shape = some k → (buffer m).shape = some k →
    (buffer n).shape = some k → ∀ p ∈ visible k, p ∈ toTimeline.damaged (some c) m → p ∈ toTimeline.damaged (some c) n

/-- The versions of what a client shows. -/
def Client.history (client : Client) : Versions.History (Nat × Nat) Pixel ((Int × Int) × Fourcc) where
  shape n := (client.buffer n).shape
  inside := visible
  value n := (client.buffer n).shows
  changed := client.damaged
  whole := client.whole
  covers := client.covers
  grows := client.grows

/-! ## A slot -/

namespace ClientBuffer

theorem source_cases {b : ClientBuffer} {access : Access} {src : Source} {f : Fourcc}
    (hs : b.source access = some (src, f)) :
    (∃ width height stride offset pool len, b = .shm width height stride offset (some f) pool len ∧
      src = .shm width height stride.toNat offset.toNat pool len) ∨
    ∃ red green blue alpha, b = .pixel red green blue alpha ∧ src = .pixel (blue, green, red, alpha) ∧
      f = .argb8888 := by
  cases b with
  | shm width height stride offset format pool len =>
      obtain ⟨f', rfl, hsrc⟩ : ∃ f', format = some f' ∧
          (Source.shm width height stride.toNat offset.toNat pool len, f') = (src, f) := by
        cases access with
        | gone => cases hs
        | _ => exact Option.map_eq_some_iff.mp hs
      cases hsrc
      exact Or.inl ⟨width, height, stride, offset, pool, len, rfl, rfl⟩
  | pixel red green blue alpha =>
      cases hs
      exact Or.inr ⟨red, green, blue, alpha, rfl, rfl, rfl⟩
  | imported => cases hs
  | other => cases hs

theorem shape_of_source {b : ClientBuffer} {access : Access} {src : Source} {f : Fourcc}
    (hs : b.source access = some (src, f)) : b.shape = some (src.size, f) := by
  rcases source_cases hs with ⟨_, _, _, _, _, _, rfl, rfl⟩ | ⟨_, _, _, _, rfl, rfl, rfl⟩ <;> rfl

end ClientBuffer

variable {client : Client} {slot : Slot} {source : Source} {fourcc : Fourcc} {n : Nat} {t : Tries}

/-- A slot filled from the client's buffer shows the whole of it. -/
theorem Slot.write_shows (hs : (client.buffer n).source t.access = some (source, fourcc))
    (ht : Versions.Tracks client.history (source.size, fourcc) slot.commit n fun p => slot.pixels p.1 p.2)
    (hw : (slot.write source (client.damageSince slot.commit n) t).1 = true) :
    ∀ p ∈ visible (source.size, fourcc),
      (slot.write source (client.damageSince slot.commit n) t).2 p.1 p.2 = (client.buffer n).shows p := by
  have hshape : (client.history.shape n) = some (source.size, fourcc) := ClientBuffer.shape_of_source hs
  rcases ClientBuffer.source_cases hs with
    ⟨width, height, stride, offset, pool, len, hb, rfl⟩ | ⟨red, green, blue, alpha, hb, rfl, rfl⟩
  · have hrows := client.rows n width height stride offset fourcc pool len hb
    simp only [write] at hw ⊢
    cases hm : t.mapping width.toNat height.toNat with
    | none => simp [hm] at hw
    | some m =>
        cases ha : t.access with
        | reads =>
            have hvalue : ∀ p, (client.buffer n).shows p =
                pixelAt pool (offset.toNat + p.2 * stride.toNat + p.1 * 4) := by rw [hb]; exact fun _ => rfl
            refine ht.caughtUp hshape (fun p hp hchanged => ?_) fun p hp hrest => ?_
            · exact (copyRects_copied hrows _ _ hp.1 hp.2 (Or.inl hchanged)).trans (hvalue p).symm
            · exact copyRects_rest _ _ (fun r hr hcov => hrest ⟨r, hr, hcov⟩) hp.1 hp.2
        | gone => simp [hm, ha] at hw
        | denied => simp [hm, ha] at hw
        | faults seen => simp [hm, ha] at hw
  · intro p hp
    have hzero : p.1 = 0 ∧ p.2 = 0 := by
      obtain ⟨hx, hy⟩ := hp
      simp only [Source.size] at hx hy
      omega
    simp only [write] at hw ⊢
    cases hm : t.mapping 1 1 with
    | none => simp [hm] at hw
    | some m =>
        have hlen : 4 ≤ m.len := Nat.le_trans m.row (by simpa using m.holds)
        simp only [if_pos hlen, hb]
        exact if_pos hzero

/-- A copy that fails leaves what is not damaged as it was. -/
theorem Slot.write_rest (fourcc : Fourcc) (hw : (slot.write source (client.damageSince slot.commit n) t).1 = false) :
    ∀ p ∈ visible (source.size, fourcc), p ∉ client.damaged slot.commit n →
      (slot.write source (client.damageSince slot.commit n) t).2 p.1 p.2 = slot.pixels p.1 p.2 := by
  intro p hp hrest
  cases source with
  | shm width height stride offset pool len =>
      simp only [write] at hw ⊢
      cases hm : t.mapping width.toNat height.toNat with
      | none => rfl
      | some m =>
          cases ha : t.access with
          | reads => simp [hm, ha] at hw
          | gone => rfl
          | denied => rfl
          | faults seen => exact copyRects_rest _ _ (fun r hr hcov => hrest ⟨r, hr, hcov⟩) hp.1 hp.2
  | pixel q =>
      simp only [write] at hw ⊢
      cases hm : t.mapping 1 1 with
      | none => rfl
      | some m =>
          by_cases hlen : 4 ≤ m.len
          · simp [hm, hlen] at hw
          · simp [hlen]

end IhsWl
