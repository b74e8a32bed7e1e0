import Mathlib.Order.Bounds.Basic
import Mathlib.Tactic.Ring

/-!
# Points a step apart

The points `start`, `start + step`, ... and the first of them after a given number.
-/

namespace Grid

variable {start step p q t : Nat}

def points (start step : Nat) : Set Nat := {p | ∃ k, p = start + k * step}

/-- The first point after `t`. -/
def next (start step t : Nat) : Nat :=
  if t < start then start else start + ((t - start) / step + 1) * step

theorem start_le (hp : p ∈ points start step) : start ≤ p := by
  obtain ⟨k, rfl⟩ := hp
  exact Nat.le_add_right ..

theorem next_mem (start step t : Nat) : next start step t ∈ points start step := by
  unfold next
  split
  · exact ⟨0, by simp⟩
  · exact ⟨_, rfl⟩

/-- No two points are closer than a step. -/
theorem add_step_le (hp : p ∈ points start step) (hq : q ∈ points start step) (hlt : p < q) : p + step ≤ q := by
  obtain ⟨j, rfl⟩ := hp
  obtain ⟨k, rfl⟩ := hq
  have hjk : j + 1 ≤ k := by
    by_contra hle
    have hmul := Nat.mul_le_mul_right step (Nat.le_of_lt_succ (Nat.lt_of_not_le hle))
    omega
  have hmul := Nat.mul_le_mul_right step hjk
  rw [Nat.succ_mul] at hmul
  omega

theorem lt_next (h : 0 < step) (start t : Nat) : t < next start step t := by
  unfold next
  split
  · assumption
  · have hlt := Nat.lt_mul_div_succ (t - start) h
    rw [Nat.mul_comm] at hlt
    omega

theorem next_le (hp : p ∈ points start step) (hlt : t < p) : next start step t ≤ p := by
  unfold next
  split
  · exact start_le hp
  · rename_i hstart
    have hlast : start + (t - start) / step * step ∈ points start step := ⟨_, rfl⟩
    have hle : (t - start) / step * step ≤ t - start := Nat.div_mul_le_self _ _
    have hnext := add_step_le hlast hp (by omega)
    rw [Nat.succ_mul]
    omega

theorem isLeast_next (h : 0 < step) (start t : Nat) : IsLeast {p | p ∈ points start step ∧ t < p} (next start step t) :=
  ⟨⟨next_mem .., lt_next h ..⟩, fun _ hp => next_le hp.1 hp.2⟩

/-- Unless all of them are further away, the next point is at most a step away. -/
theorem next_le_add (h : start ≤ t + step) : next start step t ≤ t + step := by
  unfold next
  split
  · exact h
  · have hle : (t - start) / step * step ≤ t - start := Nat.div_mul_le_self _ _
    rw [Nat.succ_mul]
    omega

/-- A point is the next of what it follows by a step at most. -/
theorem next_eq (hp : p ∈ points start step) (hlt : t < p) (hle : p ≤ t + step) (h : 0 < step) : next start step t = p := by
  refine Nat.le_antisymm (next_le hp hlt) ?_
  by_contra hnot
  have hstep := add_step_le (next_mem ..) hp (Nat.lt_of_not_le hnot)
  have hafter := lt_next h start t
  omega

/-- Points at or after `q` and after `t` in either order. -/
theorem next_lt_iff (h : 0 < step) : next start step t < next start step q ↔ next start step t ≤ q := by
  constructor
  · intro hlt
    by_contra hle
    exact absurd (next_le (next_mem start step t) (Nat.lt_of_not_le hle)) (Nat.not_le.mpr hlt)
  · exact fun hle => hle.trans_lt (lt_next h start q)

end Grid
