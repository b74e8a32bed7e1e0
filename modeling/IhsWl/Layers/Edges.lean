import IhsWl.Layers

/-!
# Layers land where they should

Layers land at their edges rounded to physical pixels, as long as the far ones are no larger than an `i32`.
-/

namespace IhsWl

variable {fit : Fit ℚ} {dpr scale offset : ℚ} {dst a b : Dst} {e e' : Edges} {spec : LayerSpec} {prepared : Prepared}
  {layer : IhsLayer} {l m : Int}

/-! ## Edges -/

/-- The physical pixel of a logical coordinate along an axis. -/
def edgeAt (scale offset dpr : ℚ) (l : Int) : Int := Round.away ((l * scale + offset) * dpr)

theorem edgeAt_mono (hscale : 0 < scale) (hdpr : 0 < dpr) (h : l ≤ m) :
    edgeAt scale offset dpr l ≤ edgeAt scale offset dpr m := by
  have hscaled : (l : ℚ) * scale ≤ m * scale := mul_le_mul_of_nonneg_right (Int.cast_le.mpr h) hscale.le
  exact Round.away_mono (mul_le_mul_of_nonneg_right (by linarith) hdpr.le)

/-- The edges a layer should have. -/
def exactEdges (fit : Fit ℚ) (dpr : ℚ) (dst : Dst) : Edges where
  x0 := edgeAt fit.scale fit.offset.1 dpr dst.x
  y0 := edgeAt fit.scale fit.offset.2 dpr dst.y
  x1 := edgeAt fit.scale fit.offset.1 dpr (dst.x + dst.w)
  y1 := edgeAt fit.scale fit.offset.2 dpr (dst.y + dst.h)

/-- Edges as an `i64` holds them. -/
def Edges.clamped (e : Edges) : Edges where
  x0 := Round.clamp i64Min i64Max e.x0
  y0 := Round.clamp i64Min i64Max e.y0
  x1 := Round.clamp i64Min i64Max e.x1
  y1 := Round.clamp i64Min i64Max e.y1

theorem edges_eq_some_iff : edges fit dpr dst = some e ↔
    dst.x + dst.w ≤ i32Max ∧ dst.y + dst.h ≤ i32Max ∧ (exactEdges fit dpr dst).clamped = e := by
  have hx : i32Min ≤ dst.x + dst.w := le_add_of_le_of_nonneg dst.loc.1.1 dst.size.1.1
  have hy : i32Min ≤ dst.y + dst.h := le_add_of_le_of_nonneg dst.loc.2.1 dst.size.2.1
  simp only [edges, Option.bind_eq_bind, Option.bind_eq_some_iff, Round.checked_eq_some_iff, Option.some.injEq]
  constructor
  · rintro ⟨_, ⟨rfl, -, hw⟩, _, ⟨rfl, -, hh⟩, rfl⟩
    exact ⟨hw, hh, rfl⟩
  · rintro ⟨hw, hh, rfl⟩
    exact ⟨_, ⟨rfl, hx, hw⟩, _, ⟨rfl, hy, hh⟩, rfl⟩

theorem layerFor_eq_some_iff : layerFor spec prepared fit dpr = some layer ↔
    ∃ e, edges fit dpr spec.dst = some e ∧ (i64Min ≤ e.x1 - e.x0 ∧ e.x1 - e.x0 ≤ i64Max) ∧
      (i64Min ≤ e.y1 - e.y0 ∧ e.y1 - e.y0 ≤ i64Max) ∧
      spec.layer prepared ⟨clampI e.x0, clampI e.y0, clampU (e.x1 - e.x0), clampU (e.y1 - e.y0)⟩ = layer := by
  simp only [layerFor, Option.bind_eq_bind, Option.bind_eq_some_iff, Round.checked_eq_some_iff, Option.some.injEq]
  constructor
  · rintro ⟨e, he, _, ⟨rfl, hw⟩, _, ⟨rfl, hh⟩, rfl⟩
    exact ⟨e, he, hw, hh, rfl⟩
  · rintro ⟨e, he, hw, hh, rfl⟩
    exact ⟨e, he, _, ⟨rfl, hw⟩, _, ⟨rfl, hh⟩, rfl⟩

theorem exactEdges_le (hscale : 0 < fit.scale) (hdpr : 0 < dpr) (dst : Dst) :
    (exactEdges fit dpr dst).x0 ≤ (exactEdges fit dpr dst).x1 ∧
      (exactEdges fit dpr dst).y0 ≤ (exactEdges fit dpr dst).y1 :=
  ⟨edgeAt_mono hscale hdpr (le_add_of_nonneg_right dst.size.1.1),
    edgeAt_mono hscale hdpr (le_add_of_nonneg_right dst.size.2.1)⟩

/-! ## Exactness -/

/-- A layer lands exactly: no sum overflows, its edges are the rounded ones, and it is as large as they are apart. -/
structure Exact (fit : Fit ℚ) (dpr : ℚ) (spec : LayerSpec) (prepared : Prepared) : Prop where
  edges : edges fit dpr spec.dst = some (exactEdges fit dpr spec.dst)
  sides : 0 ≤ (exactEdges fit dpr spec.dst).x1 - (exactEdges fit dpr spec.dst).x0 ∧
    0 ≤ (exactEdges fit dpr spec.dst).y1 - (exactEdges fit dpr spec.dst).y0
  layer : layerFor spec prepared fit dpr = some (spec.layer prepared
    { x := clampI (exactEdges fit dpr spec.dst).x0
      y := clampI (exactEdges fit dpr spec.dst).y0
      w := clampU ((exactEdges fit dpr spec.dst).x1 - (exactEdges fit dpr spec.dst).x0)
      h := clampU ((exactEdges fit dpr spec.dst).y1 - (exactEdges fit dpr spec.dst).y0) })

/-- The far edges of a layer are no larger than an `i32`, and the rounded ones, and how far they are apart, not larger
than an `i64`. -/
structure Fits (fit : Fit ℚ) (dpr : ℚ) (dst : Dst) : Prop where
  logical : dst.x + dst.w ≤ i32Max ∧ dst.y + dst.h ≤ i32Max
  near : i64Min ≤ (exactEdges fit dpr dst).x0 ∧ i64Min ≤ (exactEdges fit dpr dst).y0
  far : (exactEdges fit dpr dst).x1 ≤ i64Max ∧ (exactEdges fit dpr dst).y1 ≤ i64Max
  apart : (exactEdges fit dpr dst).x1 - (exactEdges fit dpr dst).x0 ≤ i64Max ∧
    (exactEdges fit dpr dst).y1 - (exactEdges fit dpr dst).y0 ≤ i64Max

theorem Edges.clamped_eq_self_iff (hx : e.x0 ≤ e.x1) (hy : e.y0 ≤ e.y1) :
    e.clamped = e ↔ (i64Min ≤ e.x0 ∧ i64Min ≤ e.y0) ∧ e.x1 ≤ i64Max ∧ e.y1 ≤ i64Max := by
  constructor
  · intro h
    have hle : i64Min ≤ i64Max := by decide
    exact ⟨⟨(Round.clamp_eq_self (congrArg Edges.x0 h) hle).1, (Round.clamp_eq_self (congrArg Edges.y0 h) hle).1⟩,
      (Round.clamp_eq_self (congrArg Edges.x1 h) hle).2, (Round.clamp_eq_self (congrArg Edges.y1 h) hle).2⟩
  · rintro ⟨⟨hx0, hy0⟩, hx1, hy1⟩
    obtain ⟨x0, y0, x1, y1⟩ := e
    simp only [clamped, Edges.mk.injEq]
    exact ⟨Round.clamp_of_mem hx0 (hx.trans hx1), Round.clamp_of_mem hy0 (hy.trans hy1),
      Round.clamp_of_mem (hx0.trans hx) hx1, Round.clamp_of_mem (hy0.trans hy) hy1⟩

theorem exact_iff (hscale : 0 < fit.scale) (hdpr : 0 < dpr) (spec : LayerSpec) (prepared : Prepared) :
    Exact fit dpr spec prepared ↔ Fits fit dpr spec.dst := by
  obtain ⟨hx, hy⟩ := exactEdges_le hscale hdpr spec.dst
  constructor
  · rintro ⟨hedges, -, hlayer⟩
    obtain ⟨hw, hh, hclamped⟩ := edges_eq_some_iff.mp hedges
    obtain ⟨hnear, hfar⟩ := (Edges.clamped_eq_self_iff hx hy).mp hclamped
    obtain ⟨e, he, hwide, hhigh, -⟩ := layerFor_eq_some_iff.mp hlayer
    obtain rfl : exactEdges fit dpr spec.dst = e := Option.some.inj (hedges.symm.trans he)
    exact ⟨⟨hw, hh⟩, hnear, hfar, hwide.2, hhigh.2⟩
  · rintro ⟨⟨hw, hh⟩, hnear, hfar, hwide, hhigh⟩
    have hedges : edges fit dpr spec.dst = some (exactEdges fit dpr spec.dst) :=
      edges_eq_some_iff.mpr ⟨hw, hh, (Edges.clamped_eq_self_iff hx hy).mpr ⟨hnear, hfar⟩⟩
    have hmin : i64Min ≤ 0 := by decide
    have hsides := And.intro (Int.sub_nonneg_of_le hx) (Int.sub_nonneg_of_le hy)
    exact ⟨hedges, hsides, layerFor_eq_some_iff.mpr
      ⟨_, hedges, ⟨hmin.trans hsides.1, hwide⟩, ⟨hmin.trans hsides.2, hhigh⟩, rfl⟩⟩

theorem edges_flush (ha : edges fit dpr a = some e) (hb : edges fit dpr b = some e') :
    ((a.x + a.w = b.x → e.x1 = e'.x0) ∧ (a.x = b.x → e.x0 = e'.x0) ∧ (a.x + a.w = b.x + b.w → e.x1 = e'.x1)) ∧
      (a.y + a.h = b.y → e.y1 = e'.y0) ∧ (a.y = b.y → e.y0 = e'.y0) ∧ (a.y + a.h = b.y + b.h → e.y1 = e'.y1) := by
  obtain ⟨-, -, rfl⟩ := edges_eq_some_iff.mp ha
  obtain ⟨-, -, rfl⟩ := edges_eq_some_iff.mp hb
  simp only [Edges.clamped, exactEdges]
  refine ⟨⟨?_, ?_, ?_⟩, ?_, ?_, ?_⟩ <;>
  · intro h
    rw [h]

/-- A layer lands exactly if and only if it fits, and layers that share a logical edge share the physical one. -/
theorem layerFor_exact (fit : Fit ℚ) (dpr : ℚ) (hscale : 0 < fit.scale) (hdpr : 0 < dpr) :
    (∀ spec prepared, Exact fit dpr spec prepared ↔ Fits fit dpr spec.dst) ∧
      ∀ a b e e', edges fit dpr a = some e → edges fit dpr b = some e' →
        ((a.x + a.w = b.x → e.x1 = e'.x0) ∧ (a.x = b.x → e.x0 = e'.x0) ∧ (a.x + a.w = b.x + b.w → e.x1 = e'.x1)) ∧
        (a.y + a.h = b.y → e.y1 = e'.y0) ∧ (a.y = b.y → e.y0 = e'.y0) ∧ (a.y + a.h = b.y + b.h → e.y1 = e'.y1) :=
  ⟨exact_iff hscale hdpr, fun _ _ _ _ => edges_flush⟩

/-- A layer of a pixel, `x` from the client's origin. -/
def pixelSpec (x : Int) (h : i32Min ≤ x ∧ x ≤ i32Max) : LayerSpec where
  layerId := 1
  src := ⟨0, 0, 1, 1⟩
  dst := { x, y := 0, w := 1, h := 1, loc := ⟨h, by decide⟩, size := by decide }
  transform := 0
  isOpaque := false

theorem layerFor_exact_half :
    (∀ spec prepared, Exact ⟨1 / 2, (0, 50)⟩ (3 / 2) spec prepared ↔ Fits ⟨1 / 2, (0, 50)⟩ (3 / 2) spec.dst) ∧
      ∀ a b e e', edges ⟨1 / 2, (0, 50)⟩ (3 / 2) a = some e → edges ⟨1 / 2, (0, 50)⟩ (3 / 2) b = some e' →
        ((a.x + a.w = b.x → e.x1 = e'.x0) ∧ (a.x = b.x → e.x0 = e'.x0) ∧ (a.x + a.w = b.x + b.w → e.x1 = e'.x1)) ∧
        (a.y + a.h = b.y → e.y1 = e'.y0) ∧ (a.y = b.y → e.y0 = e'.y0) ∧ (a.y + a.h = b.y + b.h → e.y1 = e'.y1) :=
  layerFor_exact ⟨1 / 2, (0, 50)⟩ (3 / 2) (by norm_num) (by norm_num)

/-- The last pixel an `i32` reaches has no far edge. -/
theorem not_layerFor_exact : ¬∀ (fit : Fit ℚ) (dpr : ℚ) (spec : LayerSpec) (prepared : Prepared),
    0 < fit.scale → 0 < dpr → Exact fit dpr spec prepared := by
  intro h
  have hexact := h Fit.identity 1 (pixelSpec i32Max (by decide)) (.frame 1) Fit.identity_scale one_pos
  exact absurd (edges_eq_some_iff.mp hexact.edges).1 (by decide)

/-! ## The fits of views -/

/-- A fit that makes no client pixel larger than an `i32`, nor moves it farther than that. -/
structure Moderate (fit : Fit ℚ) (dpr : ℚ) : Prop where
  scale : fit.scale * dpr ≤ 2 ^ 31
  offset : (0 ≤ fit.offset.1 ∧ fit.offset.1 * dpr ≤ 2 ^ 31) ∧ 0 ≤ fit.offset.2 ∧ fit.offset.2 * dpr ≤ 2 ^ 31

/-- An axis of a fit: no edge is larger than an `i64`, nor are two farther apart. -/
theorem edgeAt_bounds (hscale : 0 < scale) (hdpr : 0 < dpr) (hs : scale * dpr ≤ 2 ^ 31)
    (ho : 0 ≤ offset ∧ offset * dpr ≤ 2 ^ 31) {loc size : Int} (hloc : i32Min ≤ loc)
    (hend : loc + size ≤ i32Max) (hle : size ≤ i32Max) :
    i64Min ≤ edgeAt scale offset dpr loc ∧ edgeAt scale offset dpr (loc + size) ≤ i64Max ∧
      edgeAt scale offset dpr (loc + size) - edgeAt scale offset dpr loc ≤ i64Max := by
  have hpos : 0 < scale * dpr := mul_pos hscale hdpr
  have hoffset : 0 ≤ offset * dpr := mul_nonneg ho.1 hdpr.le
  have hpixels (l : Int) : ((l : ℚ) * scale + offset) * dpr = l * (scale * dpr) + offset * dpr := by ring
  have hbelow {l : Int} (hl : l ≤ i32Max) : (l : ℚ) * (scale * dpr) ≤ 2 ^ 31 * 2 ^ 31 := by
    have hcast : (l : ℚ) ≤ 2 ^ 31 := (Int.cast_le.mpr hl).trans (by norm_num [i32Max])
    exact mul_le_mul hcast hs hpos.le (by norm_num)
  have habove : -(2 ^ 31 * 2 ^ 31) ≤ (loc : ℚ) * (scale * dpr) := by
    have hcast : (-2 ^ 31 : ℚ) ≤ loc := le_trans (by norm_num [i32Min]) (Int.cast_le.mpr hloc)
    have hscaled : -2 ^ 31 * (scale * dpr) ≤ loc * (scale * dpr) := mul_le_mul_of_nonneg_right hcast hpos.le
    linarith
  have hnear := Round.le_away ((loc * scale + offset) * dpr)
  have hfar := Round.away_le (((loc + size : Int) * scale + offset) * dpr)
  have hwidth := hbelow hle
  have hend' := hbelow hend
  rw [hpixels] at hnear hfar
  simp only [edgeAt, hpixels]
  refine ⟨?_, ?_, ?_⟩ <;> rw [← Int.cast_le (R := ℚ)]
  · have hmin : ((i64Min : Int) : ℚ) ≤ -(2 ^ 31 * 2 ^ 31) - 1 / 2 := by norm_num [i64Min]
    linarith
  · have hmax : (2 ^ 31 * 2 ^ 31 + 2 ^ 31 + 1 / 2 : ℚ) ≤ (i64Max : Int) := by norm_num [i64Max]
    linarith
  · have hmax : (2 ^ 31 * 2 ^ 31 + 1 : ℚ) ≤ (i64Max : Int) := by norm_num [i64Max]
    have hsum : ((loc + size : Int) : ℚ) * (scale * dpr) = loc * (scale * dpr) + size * (scale * dpr) := by
      push_cast
      ring
    rw [Int.cast_sub]
    linarith

/-- With a moderate fit only the far edge of a layer matters. -/
theorem Moderate.fits_iff (h : Moderate fit dpr) (hscale : 0 < fit.scale) (hdpr : 0 < dpr) (dst : Dst) :
    Fits fit dpr dst ↔ dst.x + dst.w ≤ i32Max ∧ dst.y + dst.h ≤ i32Max := by
  refine ⟨fun hfits => hfits.logical, fun hlogical => ?_⟩
  obtain ⟨hx0, hx1, hw⟩ := edgeAt_bounds hscale hdpr h.scale h.offset.1 dst.loc.1.1 hlogical.1 dst.size.1.2
  obtain ⟨hy0, hy1, hh⟩ := edgeAt_bounds hscale hdpr h.scale h.offset.2 dst.loc.2.1 hlogical.2 dst.size.2.2
  exact ⟨hlogical, ⟨hx0, hy0⟩, ⟨hx1, hy1⟩, hw, hh⟩

/-- What is scaled to fit a view is no larger than it. -/
theorem contain_moderate {view : ℚ × ℚ} {content : Int × Int} (hview : 0 < view.1 ∧ 0 < view.2) (hdpr : 0 < dpr)
    (hpixels : view.1 * dpr ≤ 2 ^ 31 ∧ view.2 * dpr ≤ 2 ^ 31) (hcontent : 0 < content.1 ∧ 0 < content.2) :
    Moderate (Fit.contain view content) dpr := by
  obtain ⟨hw, hh, -⟩ := Fit.scaleIn_fits view hcontent
  have hscale := Fit.scaleIn_pos hview hcontent
  rw [Fit.contain_eq hview hcontent]
  generalize Fit.scaleIn view content = scale at hw hh hscale
  have hoffset {side : ℚ} {shown : Int} (hshown : shown * scale ≤ side) (hpos : 0 < shown)
      (hside : side * dpr ≤ 2 ^ 31) :
      0 ≤ (side - shown * scale) / 2 ∧ (side - shown * scale) / 2 * dpr ≤ 2 ^ 31 := by
    have hcast : (0 : ℚ) < shown := Int.cast_pos.mpr hpos
    have hproduct : 0 < (shown : ℚ) * scale * dpr := mul_pos (mul_pos hcast hscale) hdpr
    have hpixels : (side - shown * scale) / 2 * dpr = (side * dpr - shown * scale * dpr) / 2 := by ring
    have hroom : shown * scale * dpr ≤ side * dpr := mul_le_mul_of_nonneg_right hshown hdpr.le
    rw [hpixels]
    exact ⟨by linarith, by linarith⟩
  refine ⟨?_, hoffset hw hcontent.1 hpixels.1, hoffset hh hcontent.2 hpixels.2⟩
  have hone : (1 : ℚ) ≤ content.1 := by exact_mod_cast hcontent.1
  calc scale * dpr ≤ content.1 * scale * dpr := by
        rw [mul_assoc]
        exact le_mul_of_one_le_left (mul_pos hscale hdpr).le hone
    _ ≤ view.1 * dpr := mul_le_mul_of_nonneg_right hw hdpr.le
    _ ≤ 2 ^ 31 := hpixels.1

theorem identity_moderate (hratio : dpr ≤ 2 ^ 31) : Moderate Fit.identity dpr := by
  have hzero : 0 ≤ ((0 : Int) : ℚ) ∧ ((0 : Int) : ℚ) * dpr ≤ 2 ^ 31 := by norm_num
  refine ⟨?_, hzero, hzero⟩
  change ((1 : Int) : ℚ) * dpr ≤ 2 ^ 31
  rw [Int.cast_one, one_mul]
  exact hratio

/-- Layers placed with the fit of a view land exactly unless their far edges are larger than an `i32`. -/
theorem layerFor_exact_of_view {e : FitView ℚ} {size : Int × Int} {window : Option (Int × Int)}
    (hsize : e.size = some size) (hpos : 0 < size.1 ∧ 0 < size.2) (hle : size.1 ≤ i32Max ∧ size.2 ≤ i32Max)
    (hdpr : 0 < e.dpr) (hratio : e.dpr ≤ 2 ^ 31) (hrequested : ∀ r, e.requested = some r → 0 < r.1 ∧ 0 < r.2)
    (hwindow : ∀ w, window = some w → 0 < w.1 ∧ 0 < w.2) (spec : LayerSpec) (prepared : Prepared) :
    Exact (e.fit window) e.dpr spec prepared ↔
      spec.dst.x + spec.dst.w ≤ i32Max ∧ spec.dst.y + spec.dst.h ≤ i32Max := by
  obtain ⟨asked, -, ⟨hfit, -⟩ | ⟨hfit, hcontent⟩⟩ := FitView.fit_cases hsize hrequested hwindow <;> rw [hfit]
  · rw [exact_iff Fit.identity_scale hdpr, (identity_moderate hratio).fits_iff Fit.identity_scale hdpr]
  · have hview := FitView.view_pos hpos hdpr
    have hscale := Fit.contain_scale hview hcontent
    have hside {n : Int} (h : n ≤ i32Max) : (n : ℚ) / e.dpr * e.dpr ≤ 2 ^ 31 := by
      rw [div_mul_cancel₀ _ hdpr.ne']
      exact (Int.cast_le.mpr h).trans (by norm_num [i32Max])
    rw [exact_iff hscale hdpr,
      (contain_moderate hview hdpr ⟨hside hle.1, hside hle.2⟩ hcontent).fits_iff hscale hdpr]

end IhsWl
