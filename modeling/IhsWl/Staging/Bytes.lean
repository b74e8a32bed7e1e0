import IhsWl.Lib.Slices
import IhsWl.Staging.Copies

/-!
# The bytes a copy writes

The copy of damage, from the bytes of the client's pool to those of a slot's mapping.
-/

namespace IhsWl

namespace Bytes

/-- The bytes of a pixel. -/
def bpp : Nat := 4

section

variable (src : List UInt8) (srcStride offset dstStride : Nat)

/-- Columns `x0` to `x1` of a row, unless they lie outside the pool or the mapping. -/
def copyRow (x0 x1 row : Nat) (dst : List UInt8) : Option (List UInt8) :=
  let bytes := (x1 - x0) * bpp
  let s := offset + row * srcStride + x0 * bpp
  let d := row * dstStride + x0 * bpp
  match Slices.get? src s bytes, Slices.get? dst d bytes with
  | some taken, some _ => some (Slices.put dst d taken)
  | _, _ => none

/-- Rows one after another, until one lies outside. Whether none did. -/
def copyRows (x0 x1 : Nat) : List Nat → List UInt8 → Bool × List UInt8
  | [], dst => (true, dst)
  | row :: rows, dst =>
      match copyRow src srcStride offset dstStride x0 x1 row dst with
      | some dst => copyRows x0 x1 rows dst
      | none => (false, dst)

/-- What is damaged of `w` by `h` pixels. Whether no row lay outside: one that does ends the copy. -/
def copyRects (w h : Nat) : List Rect → List UInt8 → Bool × List UInt8
  | [], dst => (true, dst)
  | rect :: rects, dst =>
      let x0 := min rect.x.toNat w
      let y0 := min rect.y.toNat h
      let x1 := min (rect.x + rect.w).toNat w
      let y1 := min (rect.y + rect.h).toNat h
      if x1 ≤ x0 then copyRects w h rects dst
      else
        let copied := copyRows src srcStride offset dstStride x0 x1 (List.range' y0 (y1 - y0)) dst
        if copied.1 then copyRects w h rects copied.2 else copied

end

/-- A slot's memory: mapped as long as the slot is there, or for each copy, when it can be. -/
inductive Mem where
  | heap (map : List UInt8) (stride : Nat)
  | gbm (mapped : Option (List UInt8 × Nat))

namespace Mem

/-- The bytes a copy writes to, and their stride. -/
def mapping : Mem → Option (List UInt8 × Nat)
  | heap map stride => some (map, stride)
  | gbm mapped => mapped

/-- Write through `f`, given the mapping and its stride. -/
def write (f : List UInt8 → Nat → Option Bool × List UInt8) : Mem → Option Bool × Mem
  | heap map stride =>
      let written := f map stride
      (written.1, heap written.2 stride)
  | gbm (some (map, stride)) =>
      let written := f map stride
      (written.1, gbm (some (written.2, stride)))
  | gbm none => (none, gbm none)

theorem write_mapping (mem : Mem) {f : List UInt8 → Nat → Option Bool × List UInt8} {dst : List UInt8} {stride : Nat}
    (hmap : mem.mapping = some (dst, stride)) :
    (mem.write f).1 = (f dst stride).1 ∧ (mem.write f).2.mapping = some ((f dst stride).2, stride) := by
  cases mem with
  | heap map stride => cases hmap; exact ⟨rfl, rfl⟩
  | gbm mapped => cases hmap; exact ⟨rfl, rfl⟩

end Mem

/-- Copy what changed of a buffer of `size` from its pool, when that can be read. What went says whether all of it
did: the caller is not told. -/
def copyDamage (mem : Mem) (pool : Option (List UInt8)) (size : Int × Int) (srcStride offset : Nat)
    (damage : List Rect) : Option Bool × Mem :=
  mem.write fun dst dstStride =>
    match pool with
    | none => (none, dst)
    | some src =>
        let copied := copyRects src srcStride offset dstStride size.1.toNat size.2.toNat damage dst
        (some copied.1, copied.2)

/-! ## What a copy leaves -/

/-- The pixels `S` were copied, and no other byte was written. -/
structure Copies (src : List UInt8) (srcStride offset dstStride : Nat) (S : Set (Nat × Nat)) (dst dst' : List UInt8) :
    Prop where
  length : dst'.length = dst.length
  copied : ∀ p ∈ S, ∀ b < bpp,
    dst'[p.2 * dstStride + p.1 * bpp + b]? = src[offset + p.2 * srcStride + p.1 * bpp + b]?
  rest : ∀ i, (∀ p ∈ S, ∀ b < bpp, i ≠ p.2 * dstStride + p.1 * bpp + b) → dst'[i]? = dst[i]?

variable {src : List UInt8} {srcStride offset dstStride w h : Nat} {S T : Set (Nat × Nat)} {dst dst' dst'' : List UInt8}

/-- No two pixels of a row share a byte, nor any of two rows. -/
theorem address_unique (hrow : w * bpp ≤ dstStride) {p q : Nat × Nat} (hp : p.1 < w) (hq : q.1 < w) {b c : Nat}
    (hb : b < bpp) (hc : c < bpp) (heq : p.2 * dstStride + p.1 * bpp + b = q.2 * dstStride + q.1 * bpp + c) :
    p = q := by
  have hlt {r : Nat × Nat} {a : Nat} (hr : r.1 < w) (ha : a < bpp) : r.1 * bpp + a < dstStride := by
    unfold bpp at *
    omega
  have hline : p.2 = q.2 := by
    have hdiv := congrArg (· / dstStride) heq
    have hpos : 0 < dstStride := Nat.lt_of_le_of_lt (Nat.zero_le _) (hlt hp hb)
    simpa only [Nat.add_assoc, Nat.mul_comm _ dstStride, Nat.mul_add_div hpos, Nat.div_eq_of_lt (hlt hp hb),
      Nat.div_eq_of_lt (hlt hq hc), Nat.add_zero] using hdiv
  have hcolumn : p.1 = q.1 := by
    rw [hline] at heq
    unfold bpp at *
    omega
  exact Prod.ext hcolumn hline

namespace Copies

theorem refl (dst : List UInt8) : Copies src srcStride offset dstStride ∅ dst dst :=
  ⟨rfl, fun _ hp => absurd hp (Set.notMem_empty _), fun _ _ => rfl⟩

theorem trans (hrow : w * bpp ≤ dstStride) (hS : ∀ p ∈ S, p.1 < w) (hT : ∀ p ∈ T, p.1 < w)
    (h : Copies src srcStride offset dstStride S dst dst') (h' : Copies src srcStride offset dstStride T dst' dst'') :
    Copies src srcStride offset dstStride (S ∪ T) dst dst'' := by
  refine ⟨h'.length.trans h.length, fun p hp b hb => ?_, fun i hi => ?_⟩
  · by_cases hlater : p ∈ T
    · exact h'.copied p hlater b hb
    · have hin : p ∈ S := hp.resolve_right hlater
      rw [h'.rest _ fun q hq c hc heq => hlater (address_unique hrow (hS p hin) (hT q hq) hb hc heq ▸ hq)]
      exact h.copied p hin b hb
  · rw [h'.rest i fun p hp => hi p (Or.inr hp), h.rest i fun p hp => hi p (Or.inl hp)]

end Copies

theorem copyRow_copies {x0 x1 row : Nat} (hx : x0 ≤ x1)
    (hsrc : offset + row * srcStride + x1 * bpp ≤ src.length) (hdst : row * dstStride + x1 * bpp ≤ dst.length) :
    ∃ dst', copyRow src srcStride offset dstStride x0 x1 row dst = some dst' ∧
      Copies src srcStride offset dstStride {p | p.2 = row ∧ x0 ≤ p.1 ∧ p.1 < x1} dst dst' := by
  have hbytes : (x1 - x0) * bpp = x1 * bpp - x0 * bpp := Nat.sub_mul ..
  have hle : x0 * bpp ≤ x1 * bpp := Nat.mul_le_mul_right bpp hx
  have hfrom : offset + row * srcStride + x0 * bpp + (x1 - x0) * bpp ≤ src.length := by omega
  have hto : row * dstStride + x0 * bpp + (x1 - x0) * bpp ≤ dst.length := by omega
  obtain ⟨taken, htaken, hlen, hbyte⟩ := Slices.get?_of_le hfrom
  obtain ⟨_, hto', -⟩ := Slices.get?_of_le hto
  refine ⟨Slices.put dst (row * dstStride + x0 * bpp) taken, by simp only [copyRow, htaken, hto'], ?_⟩
  have hput := hto
  rw [← hlen] at hput
  refine ⟨Slices.length_put hput, ?_, fun i hi => Slices.getElem?_put_outside hput ?_⟩
  · rintro ⟨x, y⟩ ⟨rfl, hx0, hx1⟩ b hb
    have hin : (x - x0) * bpp + b < (x1 - x0) * bpp := by
      unfold bpp at *
      omega
    have hd : y * dstStride + x * bpp + b = y * dstStride + x0 * bpp + ((x - x0) * bpp + b) := by
      unfold bpp
      omega
    have hs : offset + y * srcStride + x * bpp + b = offset + y * srcStride + x0 * bpp + ((x - x0) * bpp + b) := by
      unfold bpp
      omega
    rw [hd, hs, Slices.getElem?_put_inside hput (by rw [hlen]; exact hin), hbyte _ hin]
  · rw [hlen]
    by_contra hnot
    have hbetween : row * dstStride + x0 * bpp ≤ i ∧ i < row * dstStride + x0 * bpp + (x1 - x0) * bpp := by omega
    -- The byte is one of the pixel it lies in.
    refine hi (x0 + (i - (row * dstStride + x0 * bpp)) / bpp, row) ⟨rfl, Nat.le_add_right .., ?_⟩
      ((i - (row * dstStride + x0 * bpp)) % bpp) (Nat.mod_lt _ (by decide)) ?_ <;>
    · unfold bpp at *
      dsimp only
      omega

theorem copyRow_eq_none {x0 x1 row : Nat}
    (hout : ¬(offset + row * srcStride + x0 * bpp + (x1 - x0) * bpp ≤ src.length ∧
      row * dstStride + x0 * bpp + (x1 - x0) * bpp ≤ dst.length)) :
    copyRow src srcStride offset dstStride x0 x1 row dst = none := by
  simp only [copyRow, Slices.get?]
  by_cases hfrom : offset + row * srcStride + x0 * bpp + (x1 - x0) * bpp ≤ src.length
  · rw [if_pos hfrom, if_neg fun hto => hout ⟨hfrom, hto⟩]
  · rw [if_neg hfrom]

theorem copyRows_copies (hrow : w * bpp ≤ dstStride) {x0 x1 : Nat} (hx : x0 ≤ x1) (hx1 : x1 ≤ w) (rows : List Nat)
    (hsrc : ∀ row ∈ rows, offset + row * srcStride + x1 * bpp ≤ src.length)
    (hdst : ∀ row ∈ rows, row * dstStride + x1 * bpp ≤ dst.length) :
    ∃ dst', copyRows src srcStride offset dstStride x0 x1 rows dst = (true, dst') ∧
      Copies src srcStride offset dstStride {p | p.2 ∈ rows ∧ x0 ≤ p.1 ∧ p.1 < x1} dst dst' := by
  induction rows generalizing dst with
  | nil =>
      refine ⟨dst, rfl, ?_⟩
      have hnone : {p : Nat × Nat | p.2 ∈ ([] : List Nat) ∧ x0 ≤ p.1 ∧ p.1 < x1} = ∅ := by simp
      rw [hnone]
      exact .refl dst
  | cons row rows ih =>
      obtain ⟨dst₁, hcopied, h₁⟩ := copyRow_copies hx (hsrc row List.mem_cons_self) (hdst row List.mem_cons_self)
      obtain ⟨dst₂, hrest, h₂⟩ := ih (fun r hr => hsrc r (List.mem_cons_of_mem _ hr))
        (fun r hr => h₁.length ▸ hdst r (List.mem_cons_of_mem _ hr))
      refine ⟨dst₂, by rw [copyRows, hcopied]; exact hrest, ?_⟩
      have hboth : {p : Nat × Nat | p.2 ∈ row :: rows ∧ x0 ≤ p.1 ∧ p.1 < x1} =
          {p | p.2 = row ∧ x0 ≤ p.1 ∧ p.1 < x1} ∪ {p | p.2 ∈ rows ∧ x0 ≤ p.1 ∧ p.1 < x1} := by
        ext p
        simp only [List.mem_cons, Set.mem_ofPred_eq, Set.mem_union, or_and_right]
      rw [hboth]
      exact h₁.trans hrow (fun p hp => Nat.lt_of_lt_of_le hp.2.2 hx1) (fun p hp => Nat.lt_of_lt_of_le hp.2.2 hx1) h₂

/-- The pixels of a buffer that a rectangle covers. -/
def damaged (w h : Nat) (damage : List Rect) : Set (Nat × Nat) :=
  {p | p.1 < w ∧ p.2 < h ∧ ∃ r ∈ damage, r.Covers p.1 p.2}

theorem damaged_cons (r : Rect) (rects : List Rect) :
    damaged w h (r :: rects) = damaged w h [r] ∪ damaged w h rects := by
  ext p
  simp only [damaged, Set.mem_union, Set.mem_ofPred_eq, List.mem_cons, List.not_mem_nil, or_false, exists_eq_left,
    exists_eq_or_imp]
  tauto

/-- What a rectangle covers is what the loops over it go through. -/
theorem damaged_singleton (r : Rect) : damaged w h [r] =
    {p | p.2 ∈ List.range' (min r.y.toNat h) (min (r.y + r.h).toNat h - min r.y.toNat h) ∧ min r.x.toNat w ≤ p.1 ∧
      p.1 < min (r.x + r.w).toNat w} := by
  ext p
  simp only [damaged, Set.mem_ofPred_eq, List.mem_singleton, exists_eq_left, List.mem_range'_1, Rect.Covers]
  omega

theorem copyRects_copies (hpool : ∀ y < h, offset + y * srcStride + w * bpp ≤ src.length) (hrow : w * bpp ≤ dstStride)
    (rects : List Rect) (hlen : dstStride * h ≤ dst.length) :
    ∃ dst', copyRects src srcStride offset dstStride w h rects dst = (true, dst') ∧
      Copies src srcStride offset dstStride (damaged w h rects) dst dst' := by
  induction rects generalizing dst with
  | nil =>
      refine ⟨dst, rfl, ?_⟩
      have hnone : damaged w h [] = ∅ := by simp [damaged]
      rw [hnone]
      exact .refl dst
  | cons r rects ih =>
      rw [damaged_cons]
      by_cases hempty : min (r.x + r.w).toNat w ≤ min r.x.toNat w
      · have hnone : damaged w h [r] = ∅ := by
          rw [damaged_singleton, Set.eq_empty_iff_forall_notMem]
          exact fun p hp => absurd hempty (Nat.not_le.mpr (Nat.lt_of_le_of_lt hp.2.1 hp.2.2))
        rw [copyRects, if_pos hempty, hnone, Set.empty_union]
        exact ih hlen
      · have hx1 : min (r.x + r.w).toNat w * bpp ≤ w * bpp := Nat.mul_le_mul_right bpp (Nat.min_le_right ..)
        have hrows : ∀ row ∈ List.range' (min r.y.toNat h) (min (r.y + r.h).toNat h - min r.y.toNat h), row < h := by
          intro row hmem
          rw [List.mem_range'_1] at hmem
          omega
        have hlines : h * dstStride ≤ dst.length := Nat.mul_comm dstStride h ▸ hlen
        let m : Mapping w h := { stride := dstStride, len := dst.length, row := hrow, holds := hlines }
        obtain ⟨dst₁, hcopied, h₁⟩ := copyRows_copies hrow (Nat.le_of_not_le hempty) (Nat.min_le_right ..) _
          (fun row hmem => Nat.le_trans (Nat.add_le_add_left hx1 _) (hpool row (hrows row hmem)))
          (fun row hmem => m.holds_row (hrows row hmem) (Nat.min_le_right ..))
        obtain ⟨dst₂, hrest, h₂⟩ := ih (h₁.length ▸ hlen)
        refine ⟨dst₂, by rw [copyRects, if_neg hempty, hcopied, if_pos rfl]; exact hrest, ?_⟩
        rw [← damaged_singleton] at h₁
        exact h₁.trans hrow (fun p hp => hp.1) (fun p hp => hp.1) h₂

/-- A copy of damage writes exactly the damaged pixels of a buffer that lies in its pool, to a mapping that holds it. -/
theorem copyDamage_copies {mem : Mem} {size : Int × Int} (hmap : mem.mapping = some (dst, dstStride))
    (hpool : ∀ y < size.2.toNat, offset + y * srcStride + size.1.toNat * bpp ≤ src.length)
    (hrow : size.1.toNat * bpp ≤ dstStride) (hlen : dstStride * size.2.toNat ≤ dst.length) (damage : List Rect) :
    ∃ dst', (copyDamage mem (some src) size srcStride offset damage).1 = some true ∧
      (copyDamage mem (some src) size srcStride offset damage).2.mapping = some (dst', dstStride) ∧
      Copies src srcStride offset dstStride (damaged size.1.toNat size.2.toNat damage) dst dst' := by
  obtain ⟨dst', hcopied, hcopies⟩ := copyRects_copies hpool hrow damage hlen
  refine ⟨dst', ?_, ?_, hcopies⟩ <;>
  · simp only [copyDamage, mem.write_mapping hmap, hcopied]

/-- A rectangle that starts above and left of a buffer, and one of nothing. -/
theorem copyDamage_copies_corner : ∃ dst',
    (copyDamage (.heap (List.replicate 20 0) 10) (some [9, 9, 1, 2, 3, 4, 5, 6, 7, 8, 9, 1, 2, 3, 4, 5, 6, 7, 8])
        (2, 2) 9 2 [⟨-3, -1, 4, 2, by decide⟩, ⟨1, 1, 0, 9, by decide⟩]).1 = some true ∧
      (copyDamage (.heap (List.replicate 20 0) 10) (some [9, 9, 1, 2, 3, 4, 5, 6, 7, 8, 9, 1, 2, 3, 4, 5, 6, 7, 8])
        (2, 2) 9 2 [⟨-3, -1, 4, 2, by decide⟩, ⟨1, 1, 0, 9, by decide⟩]).2.mapping = some (dst', 10) ∧
      Copies [9, 9, 1, 2, 3, 4, 5, 6, 7, 8, 9, 1, 2, 3, 4, 5, 6, 7, 8] 9 2 10
        (damaged 2 2 [⟨-3, -1, 4, 2, by decide⟩, ⟨1, 1, 0, 9, by decide⟩]) (List.replicate 20 0) dst' :=
  copyDamage_copies rfl (by decide) (by decide) (by decide) _

/-! ## The pixels the bytes are -/

/-- The bytes of a mapping are those of the pixels. -/
structure Reads (m : Mapping w h) (dst : List UInt8) (pixels : Nat → Nat → Pixel) : Prop where
  length : dst.length = m.len
  reads : ∀ x < w, ∀ y < h, pixelAt (fun i => dst.getD i 0) (y * m.stride + x * bpp) = pixels x y

variable {m : Mapping w h} {pixels : Nat → Nat → Pixel}

theorem pixelAt_congr {xs ys : List UInt8} {a c : Nat} (heq : ∀ b < bpp, xs[a + b]? = ys[c + b]?) :
    pixelAt (fun i => xs.getD i 0) a = pixelAt (fun i => ys.getD i 0) c := by
  have hbyte (b : Nat) (hb : b < bpp) : xs.getD (a + b) 0 = ys.getD (c + b) 0 := by
    rw [List.getD_eq_getElem?_getD, List.getD_eq_getElem?_getD, heq b hb]
  simp only [pixelAt]
  rw [← Nat.add_zero a, ← Nat.add_zero c, hbyte 0 (by decide), Nat.add_zero, Nat.add_zero, hbyte 1 (by decide),
    hbyte 2 (by decide), hbyte 3 (by decide)]

theorem Reads.copyRow {x0 x1 row : Nat} (hreads : Reads m dst pixels) (hx1 : x1 ≤ w)
    (hcopies : Copies src srcStride offset m.stride {p | p.2 = row ∧ x0 ≤ p.1 ∧ p.1 < x1} dst dst') :
    Reads m dst' (IhsWl.copyRow (fun i => src.getD i 0) (offset + row * srcStride + x0 * 4) x0 x1 row pixels) := by
  refine ⟨hcopies.length.trans hreads.length, fun x hx y hy => ?_⟩
  rw [copyRow_apply]
  split
  · rename_i hin
    exact pixelAt_congr fun b hb => hcopies.copied (x, y) hin b hb
  · rename_i hout
    rw [← hreads.reads x hx y hy]
    refine pixelAt_congr fun b hb => hcopies.rest _ fun p hp c hc heq => hout ?_
    obtain rfl : (x, y) = p := address_unique m.row hx (Nat.lt_of_lt_of_le hp.2.2 hx1) hb hc heq
    exact hp

theorem Reads.copyRows (src : List UInt8) (srcStride offset : Nat) {x0 x1 : Nat} (hreads : Reads m dst pixels)
    (hx : x0 ≤ x1) (hx1 : x1 ≤ w) (rows : List Nat) :
    (copyRows src srcStride offset m.stride x0 x1 rows dst).1 =
        (IhsWl.copyRows (fun i => src.getD i 0) src.length srcStride offset m x0 x1 rows pixels).1 ∧
      Reads m (copyRows src srcStride offset m.stride x0 x1 rows dst).2
        (IhsWl.copyRows (fun i => src.getD i 0) src.length srcStride offset m x0 x1 rows pixels).2 := by
  induction rows generalizing dst pixels with
  | nil => exact ⟨rfl, hreads⟩
  | cons row rows ih =>
      have hcolumns : x0 * bpp + (x1 - x0) * bpp = x1 * bpp := by rw [← Nat.add_mul, Nat.add_sub_cancel' hx]
      by_cases hfits : offset + row * srcStride + x0 * 4 + (x1 - x0) * 4 ≤ src.length ∧
          row * m.stride + x0 * 4 + (x1 - x0) * 4 ≤ dst.length
      · have hsrc : offset + row * srcStride + x1 * bpp ≤ src.length := by
          rw [← hcolumns, ← Nat.add_assoc]
          exact hfits.1
        have hdst : row * m.stride + x1 * bpp ≤ dst.length := by
          rw [← hcolumns, ← Nat.add_assoc]
          exact hfits.2
        obtain ⟨dst₁, hcopied, h₁⟩ := copyRow_copies hx hsrc hdst
        rw [hreads.length] at hfits
        simp only [Bytes.copyRows, IhsWl.copyRows, hcopied, if_pos hfits]
        exact ih (hreads.copyRow hx1 h₁)
      · have hnone := copyRow_eq_none hfits
        rw [hreads.length] at hfits
        simp only [Bytes.copyRows, IhsWl.copyRows, hnone, if_neg hfits]
        exact ⟨trivial, hreads⟩

/-- A copy of bytes is the copy of the pixels they are, also where it stops. -/
theorem Reads.copyRects (hreads : Reads m dst pixels) (rects : List Rect) :
    Reads m (copyRects src srcStride offset m.stride w h rects dst).2
      (IhsWl.copyRects (fun i => src.getD i 0) src.length srcStride offset m rects pixels) := by
  induction rects generalizing dst pixels with
  | nil => exact hreads
  | cons r rects ih =>
      simp only [Bytes.copyRects, IhsWl.copyRects]
      split
      · exact ih hreads
      · rename_i hsome
        obtain ⟨hwent, hrows⟩ := hreads.copyRows src srcStride offset (Nat.le_of_not_le hsome) (Nat.min_le_right ..)
          (List.range' (min r.y.toNat h) (min (r.y + r.h).toNat h - min r.y.toNat h))
        rw [hwent]
        split
        · exact ih hrows
        · exact hrows

end Bytes

end IhsWl
