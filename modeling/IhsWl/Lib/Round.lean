import Mathlib.Algebra.Order.Floor.Ring
import Mathlib.Data.Rat.Floor
import Mathlib.Tactic.Linarith

/-!
# Rounding

Rationals rounded to the nearest integer, ties away from zero, and integers brought into a range.
-/

namespace Round

/-! ## Ties away from zero -/

/-- The nearest integer, the larger in magnitude of two. -/
def away (q : ℚ) : ℤ := if 0 ≤ q then ⌊q + 1 / 2⌋ else -⌊-q + 1 / 2⌋

variable {p q : ℚ} {lo hi m n : ℤ}

theorem away_of_nonneg (h : 0 ≤ q) : away q = ⌊q + 1 / 2⌋ := if_pos h

theorem away_of_neg (h : q < 0) : away q = -⌊-q + 1 / 2⌋ := if_neg (not_le.mpr h)

theorem away_nonneg (h : 0 ≤ q) : 0 ≤ away q := by
  rw [away_of_nonneg h]
  exact Int.floor_nonneg.mpr (by linarith)

theorem away_nonpos (h : q < 0) : away q ≤ 0 := by
  rw [away_of_neg h]
  have hfloor : 0 ≤ ⌊-q + 1 / 2⌋ := Int.floor_nonneg.mpr (by linarith)
  omega

theorem away_le (q : ℚ) : (away q : ℚ) ≤ q + 1 / 2 := by
  rcases le_or_gt 0 q with h | h
  · rw [away_of_nonneg h]
    exact Int.floor_le _
  · rw [away_of_neg h, Int.cast_neg]
    have hnext := Int.lt_floor_add_one (-q + 1 / 2)
    linarith

theorem le_away (q : ℚ) : q - 1 / 2 ≤ away q := by
  rcases le_or_gt 0 q with h | h
  · rw [away_of_nonneg h]
    have hnext := Int.lt_floor_add_one (q + 1 / 2)
    linarith
  · rw [away_of_neg h, Int.cast_neg]
    have hfloor := Int.floor_le (-q + 1 / 2)
    linarith

theorem away_mono (h : p ≤ q) : away p ≤ away q := by
  rcases le_or_gt 0 p with hp | hp
  · rw [away_of_nonneg hp, away_of_nonneg (hp.trans h)]
    exact Int.floor_mono (by linarith)
  · rcases le_or_gt 0 q with hq | hq
    · exact (away_nonpos hp).trans (away_nonneg hq)
    · rw [away_of_neg hp, away_of_neg hq]
      exact neg_le_neg (Int.floor_mono (by linarith))

/-! ## Ranges -/

/-- The nearest of a range. -/
def clamp (lo hi n : ℤ) : ℤ := max lo (min hi n)

theorem le_clamp : lo ≤ clamp lo hi n := le_max_left ..

theorem clamp_le (h : lo ≤ hi) : clamp lo hi n ≤ hi := max_le h (min_le_left ..)

theorem clamp_of_mem (hlo : lo ≤ n) (hhi : n ≤ hi) : clamp lo hi n = n := by
  rw [clamp, min_eq_right hhi, max_eq_right hlo]

theorem clamp_eq_self (h : clamp lo hi n = n) (hle : lo ≤ hi) : lo ≤ n ∧ n ≤ hi := by
  rw [← h]
  exact ⟨le_clamp, clamp_le hle⟩

theorem clamp_le_self (h : lo ≤ n) : clamp lo hi n ≤ n := max_le h (min_le_right ..)

/-- A number, unless it is out of range. -/
def checked (lo hi n : ℤ) : Option ℤ := if lo ≤ n ∧ n ≤ hi then some n else none

theorem checked_of_mem (hlo : lo ≤ n) (hhi : n ≤ hi) : checked lo hi n = some n := if_pos ⟨hlo, hhi⟩

theorem checked_eq_some_iff : checked lo hi n = some m ↔ m = n ∧ lo ≤ n ∧ n ≤ hi := by
  unfold checked
  split
  · rename_i hin
    exact ⟨fun h => ⟨(Option.some.inj h).symm, hin⟩, fun h => by rw [h.1]⟩
  · rename_i hout
    exact ⟨fun h => (nomatch h), fun h => absurd h.2 hout⟩

end Round
