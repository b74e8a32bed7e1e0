import Mathlib.Tactic.Ring
import Mathlib.Tactic.FieldSimp
import IhsWl.Fit
import IhsWl.Lib.Round

/-!
# The fit in exact arithmetic

Nothing of a client's content is cut off, and the points of a view map to the client's and back.
-/

namespace IhsWl

/-- Exact arithmetic; what is no `i32` is rounded to the nearest that is. -/
instance : Floats ℚ where
  toAdd := inferInstance
  toSub := inferInstance
  toMul := inferInstance
  toDiv := inferInstance
  toMin := inferInstance
  ofInt n := n
  round q := Round.clamp i32Min i32Max (Round.away q)
  usable q := decide (0 < q)

/-! ## A fit -/

namespace Fit

variable {f : Fit ℚ}

/-- Where the client's origin is shown. -/
def near (f : Fit ℚ) : ℚ × ℚ := f.toView (0, 0)

/-- Where the far corner of content is shown. -/
def far (f : Fit ℚ) (content : Int × Int) : ℚ × ℚ := f.toView (content.1, content.2)

/-- Content shown whole: it exceeds the view by half a pixel at most, and only when shown as it is. Otherwise it is
centered, and as large as the view lets it. -/
structure Shows (f : Fit ℚ) (view : ℚ × ℚ) (content : Int × Int) : Prop where
  starts : 0 ≤ f.near.1 ∧ 0 ≤ f.near.2
  ends : (f.far content).1 ≤ view.1 + 1 / 2 ∧ (f.far content).2 ≤ view.2 + 1 / 2
  within : f ≠ identity → (f.far content).1 ≤ view.1 ∧ (f.far content).2 ≤ view.2
  aspect : f ≠ identity →
    ((f.far content).1 - f.near.1) * content.2 = ((f.far content).2 - f.near.2) * content.1
  touches : f ≠ identity →
    (f.near.1 = 0 ∧ (f.far content).1 = view.1) ∨ (f.near.2 = 0 ∧ (f.far content).2 = view.2)
  centered : f ≠ identity → f.near.1 = view.1 - (f.far content).1 ∧ f.near.2 = view.2 - (f.far content).2

variable {view : ℚ × ℚ} {content : Int × Int}

theorem near_eq : f.near = f.offset :=
  Prod.ext (show 0 * f.scale + f.offset.1 = _ by rw [zero_mul, zero_add])
    (show 0 * f.scale + f.offset.2 = _ by rw [zero_mul, zero_add])

theorem far_eq : f.far content = (content.1 * f.scale + f.offset.1, content.2 * f.scale + f.offset.2) := rfl

theorem toClient_toView (hscale : 0 < f.scale) (p : ℚ × ℚ) : f.toClient (f.toView p) = p := by
  have hne : f.scale ≠ 0 := hscale.ne'
  refine Prod.ext ?_ ?_ <;>
  · change (_ * f.scale + _ - _) / f.scale = _
    rw [add_sub_cancel_right, mul_div_cancel_right₀ _ hne]

theorem toView_toClient (hscale : 0 < f.scale) (q : ℚ × ℚ) : f.toView (f.toClient q) = q := by
  have hne : f.scale ≠ 0 := hscale.ne'
  refine Prod.ext ?_ ?_ <;>
  · change (_ - _) / f.scale * f.scale + _ = _
    rw [div_mul_cancel₀ _ hne, sub_add_cancel]

/-- The view's size over the content's, on the axis where it is least. -/
def scaleIn (view : ℚ × ℚ) (content : Int × Int) : ℚ := min (view.1 / content.1) (view.2 / content.2)

theorem scaleIn_pos (hview : 0 < view.1 ∧ 0 < view.2) (hcontent : 0 < content.1 ∧ 0 < content.2) :
    0 < scaleIn view content :=
  lt_min (div_pos hview.1 (Int.cast_pos.mpr hcontent.1)) (div_pos hview.2 (Int.cast_pos.mpr hcontent.2))

theorem contain_eq (hview : 0 < view.1 ∧ 0 < view.2) (hcontent : 0 < content.1 ∧ 0 < content.2) :
    contain view content = ⟨scaleIn view content,
      ((view.1 - content.1 * scaleIn view content) / 2, (view.2 - content.2 * scaleIn view content) / 2)⟩ :=
  if_pos (decide_eq_true (scaleIn_pos hview hcontent))

theorem scaleIn_fits (view : ℚ × ℚ) (hcontent : 0 < content.1 ∧ 0 < content.2) :
    content.1 * scaleIn view content ≤ view.1 ∧ content.2 * scaleIn view content ≤ view.2 ∧
      (content.1 * scaleIn view content = view.1 ∨ content.2 * scaleIn view content = view.2) := by
  have hx : (0 : ℚ) < content.1 := Int.cast_pos.mpr hcontent.1
  have hy : (0 : ℚ) < content.2 := Int.cast_pos.mpr hcontent.2
  refine ⟨?_, ?_, ?_⟩
  · rw [mul_comm]
    exact (le_div_iff₀ hx).mp (min_le_left ..)
  · rw [mul_comm]
    exact (le_div_iff₀ hy).mp (min_le_right ..)
  · rcases min_choice (view.1 / content.1) (view.2 / content.2) with h | h
    · exact Or.inl (by rw [scaleIn, h, mul_div_cancel₀ _ hx.ne'])
    · exact Or.inr (by rw [scaleIn, h, mul_div_cancel₀ _ hy.ne'])

theorem contain_shows (hview : 0 < view.1 ∧ 0 < view.2) (hcontent : 0 < content.1 ∧ 0 < content.2) :
    (contain view content).Shows view content := by
  obtain ⟨hw, hh, hfills⟩ := scaleIn_fits view hcontent
  rw [contain_eq hview hcontent]
  generalize scaleIn view content = scale at hw hh hfills
  refine ⟨?_, ?_, fun _ => ?_, fun _ => ?_, fun _ => ?_, fun _ => ?_⟩ <;> simp only [near_eq, far_eq]
  · exact ⟨by linarith, by linarith⟩
  · exact ⟨by linarith, by linarith⟩
  · exact ⟨by linarith, by linarith⟩
  · ring
  · exact hfills.imp (fun h => ⟨by linarith, by linarith⟩) fun h => ⟨by linarith, by linarith⟩
  · exact ⟨by ring, by ring⟩

theorem contain_scale (hview : 0 < view.1 ∧ 0 < view.2) (hcontent : 0 < content.1 ∧ 0 < content.2) :
    0 < (contain view content).scale := by
  rw [contain_eq hview hcontent]
  exact scaleIn_pos hview hcontent

theorem identity_scale : 0 < (identity : Fit ℚ).scale := Int.cast_pos.mpr Int.one_pos

/-- Content no larger than the view, but for half a pixel, is shown as it is. -/
theorem identity_shows (hfar : content.1 ≤ view.1 + 1 / 2 ∧ content.2 ≤ view.2 + 1 / 2) :
    (identity : Fit ℚ).Shows view content := by
  have hnear : (identity : Fit ℚ).near = (0, 0) := by
    rw [near_eq]
    exact Prod.ext Int.cast_zero Int.cast_zero
  have hends : (identity : Fit ℚ).far content = (↑content.1, ↑content.2) := by
    rw [far_eq]
    refine Prod.ext ?_ ?_ <;>
    · change _ * ((1 : Int) : ℚ) + ((0 : Int) : ℚ) = _
      rw [Int.cast_one, Int.cast_zero, mul_one, add_zero]
  refine ⟨?_, ?_, fun h => absurd rfl h, fun h => absurd rfl h, fun h => absurd rfl h, fun h => absurd rfl h⟩
  · rw [hnear]
    exact ⟨le_rfl, le_rfl⟩
  · rw [hends]
    exact hfar

end Fit

/-! ## The fit of a view -/

namespace FitView

variable {e : FitView ℚ} {size : Int × Int} {window : Option (Int × Int)}

/-- The size asked for, or the window where it is larger. -/
def content (asked : Int × Int) : Option (Int × Int) → Int × Int
  | none => asked
  | some w => (max asked.1 w.1, max asked.2 w.2)

theorem round_le {q : ℚ} (h : 0 ≤ q) : ((Floats.round q : Int) : ℚ) ≤ q + 1 / 2 := by
  have hself : Round.clamp i32Min i32Max (Round.away q) ≤ Round.away q :=
    Round.clamp_le_self (le_trans (by decide) (Round.away_nonneg h))
  exact (Int.cast_le.mpr hself).trans (Round.away_le q)

theorem content_pos {asked : Int × Int} (hwindow : ∀ w, window = some w → 0 < w.1 ∧ 0 < w.2)
    (h : (0 < asked.1 ∧ 0 < asked.2) ∨ window ≠ none) :
    0 < (content asked window).1 ∧ 0 < (content asked window).2 := by
  cases window with
  | none => exact h.resolve_right fun hne => hne rfl
  | some w => exact ⟨lt_max_of_lt_right (hwindow w rfl).1, lt_max_of_lt_right (hwindow w rfl).2⟩

/-- Unless the client fills its view as it is, its content is scaled to fit. -/
theorem fit_eq {asked : Int × Int} (hsize : e.size = some size) (hasked : e.clientSize = some asked) :
    e.fit window = if e.requested.isNone ∧ some (content asked window) = e.logicalSize then Fit.identity
      else Fit.contain (size.1 / e.dpr, size.2 / e.dpr) (content asked window) := by
  unfold fit
  rw [hsize, hasked]
  cases window <;> rfl

theorem fit_cases (hsize : e.size = some size) (hrequested : ∀ r, e.requested = some r → 0 < r.1 ∧ 0 < r.2)
    (hwindow : ∀ w, window = some w → 0 < w.1 ∧ 0 < w.2) : ∃ asked, e.clientSize = some asked ∧
      ((e.fit window = Fit.identity ∧ some (content asked window) = e.logicalSize) ∨
        (e.fit window = Fit.contain (size.1 / e.dpr, size.2 / e.dpr) (content asked window) ∧
          0 < (content asked window).1 ∧ 0 < (content asked window).2)) := by
  obtain ⟨asked, hasked⟩ : ∃ asked, e.clientSize = some asked := by
    rw [clientSize, logicalSize, hsize]
    cases e.requested <;> exact ⟨_, rfl⟩
  refine ⟨asked, hasked, ?_⟩
  rw [fit_eq hsize hasked]
  split
  · rename_i hsame
    exact Or.inl ⟨rfl, hsame.2⟩
  · rename_i hscaled
    refine Or.inr ⟨rfl, content_pos hwindow ?_⟩
    cases hr : e.requested with
    | some r =>
        have hsome : some r = some asked := by rw [← hasked, clientSize, hr]; rfl
        exact Or.inl (Option.some.inj hsome ▸ hrequested r hr)
    | none =>
        have hown : some asked = e.logicalSize := by rw [← hasked, clientSize, hr]; rfl
        exact Or.inr fun hnone => hscaled ⟨by rw [hr]; rfl, by rw [hnone]; exact hown⟩

theorem view_pos (hpos : 0 < size.1 ∧ 0 < size.2) (hdpr : 0 < e.dpr) :
    0 < ((size.1 : ℚ) / e.dpr, (size.2 : ℚ) / e.dpr).1 ∧ 0 < ((size.1 : ℚ) / e.dpr, (size.2 : ℚ) / e.dpr).2 :=
  ⟨div_pos (Int.cast_pos.mpr hpos.1) hdpr, div_pos (Int.cast_pos.mpr hpos.2) hdpr⟩

/-- However large its window, a client's content is shown whole, and points map back and forth. -/
theorem fit_shows (hsize : e.size = some size) (hpos : 0 < size.1 ∧ 0 < size.2) (hdpr : 0 < e.dpr)
    (hrequested : ∀ r, e.requested = some r → 0 < r.1 ∧ 0 < r.2) (hwindow : ∀ w, window = some w → 0 < w.1 ∧ 0 < w.2) :
    ∃ asked, e.clientSize = some asked ∧
      (e.fit window).Shows (size.1 / e.dpr, size.2 / e.dpr) (content asked window) ∧
      (∀ p, (e.fit window).toClient ((e.fit window).toView p) = p) ∧
      ∀ q, (e.fit window).toView ((e.fit window).toClient q) = q := by
  have hview := view_pos hpos hdpr
  have hmaps {f : Fit ℚ} (hscale : 0 < f.scale) :
      (∀ p, f.toClient (f.toView p) = p) ∧ ∀ q, f.toView (f.toClient q) = q :=
    ⟨Fit.toClient_toView hscale, Fit.toView_toClient hscale⟩
  obtain ⟨asked, hasked, hfit⟩ := fit_cases hsize hrequested hwindow
  refine ⟨asked, hasked, ?_⟩
  rcases hfit with ⟨hfit, hlogical⟩ | ⟨hfit, hcontent⟩ <;> rw [hfit]
  · rw [logicalSize, hsize] at hlogical
    refine ⟨Fit.identity_shows ?_, hmaps Fit.identity_scale⟩
    rw [Option.some.inj hlogical]
    exact ⟨round_le hview.1.le, round_le hview.2.le⟩
  · exact ⟨Fit.contain_shows hview hcontent, hmaps (Fit.contain_scale hview hcontent)⟩

/-- A view whose client is asked for less than it has room for. -/
def askedView : FitView ℚ := { size := some (801, 400), dpr := 2, requested := some (200, 300) }

theorem fit_shows_wide : ∃ asked, askedView.clientSize = some asked ∧
    (askedView.fit (some (500, 100))).Shows (((801 : Int) : ℚ) / 2, ((400 : Int) : ℚ) / 2)
      (content asked (some (500, 100))) ∧
    (∀ p, (askedView.fit (some (500, 100))).toClient ((askedView.fit (some (500, 100))).toView p) = p) ∧
    ∀ q, (askedView.fit (some (500, 100))).toView ((askedView.fit (some (500, 100))).toClient q) = q :=
  fit_shows (e := askedView) rfl (by decide) (by decide +kernel)
    (fun r hr => by cases hr; decide) (fun w hw => by cases hw; decide)

end FitView

end IhsWl
