import IhsWl.Lib.Grid
import IhsWl.Timing

/-!
# The clock and its targets

The vblanks the clock predicts, when an update with a target is released, and when a tick finds it due.
-/

namespace IhsWl

/-- A target time, as commit timing compares them. -/
structure Timestamp where
  secs : Nat
  nanos : Nat
  secs_lt : secs < 18_446_744_073_709_551_616
  nanos_lt : nanos < 1_000_000_000

namespace Timestamp

/-- `Duration::as_nanos`, in 128 bits. -/
def asNanos (t : Timestamp) : Nat := t.secs * 1_000_000_000 + t.nanos

/-- Seconds first, then nanoseconds. -/
def le (t u : Timestamp) : Prop := t.secs < u.secs ∨ t.secs = u.secs ∧ t.nanos ≤ u.nanos

instance (t u : Timestamp) : Decidable (t.le u) := inferInstanceAs (Decidable (_ ∨ _))

/-- `timestamp(ns)`. -/
def ofNanos (ns : Nat) (h : ns ≤ u64Max) : Timestamp where
  secs := ns / 1_000_000_000
  nanos := ns % 1_000_000_000
  secs_lt := (Nat.div_le_self ns _).trans_lt (Nat.lt_succ_of_le h)
  nanos_lt := Nat.mod_lt _ (by decide)

theorem asNanos_ofNanos (ns : Nat) (h : ns ≤ u64Max) : (ofNanos ns h).asNanos = ns :=
  Nat.div_add_mod' ns _

theorem le_iff (t u : Timestamp) : t.le u ↔ t.asNanos ≤ u.asNanos := by
  have ht := t.nanos_lt
  have hu := u.nanos_lt
  unfold le asNanos
  omega

end Timestamp

namespace FrameClock

variable {c : FrameClock} {now t target : Nat}

/-- The clock once `reports` came. -/
def after (reports : List Report) : FrameClock := reports.foldl (fun c r => c.update r.ustNs r.refreshNs) {}

/-- Nothing saturates on the way to the vblank after `t`. -/
def Fits (c : FrameClock) (t : Nat) : Prop :=
  t < c.ustNs ∨ c.ustNs + ((t - c.ustNs) / c.refreshNs + 1) * c.refreshNs ≤ u64Max

instance (c : FrameClock) (t : Nat) : Decidable (c.Fits t) := inferInstanceAs (Decidable (_ ∨ _))

theorem due_le (c : FrameClock) (now : Nat) : c.due now ≤ u64Max := Nat.min_le_right _ _

/-- When `on_tick` wakes for the target: its nanoseconds are cast to `u64`. -/
def wakeFor (c : FrameClock) (t : Timestamp) : Nat := c.releaseAt (t.asNanos % (u64Max + 1))

/-! ## Reports -/

theorem update_refresh (h : 0 < c.refreshNs) (ustNs refreshNs : Nat) : 0 < (c.update ustNs refreshNs).refreshNs := by
  unfold update
  dsimp only
  split <;> assumption

/-- The phase never moves back. -/
theorem le_update (c : FrameClock) (ustNs refreshNs : Nat) : c.ustNs ≤ (c.update ustNs refreshNs).ustNs := by
  unfold update
  dsimp only
  split <;> omega

theorem after_keeps {P : FrameClock → Prop} (hempty : P {}) {reports : List Report}
    (hupdate : ∀ c, ∀ r ∈ reports, P c → P (c.update r.ustNs r.refreshNs)) : P (after reports) := by
  unfold after
  generalize ({} : FrameClock) = c at hempty
  induction reports generalizing c with
  | nil => exact hempty
  | cons r reports ih =>
      exact ih (fun c r hr => hupdate c r (List.mem_cons_of_mem _ hr)) _ (hupdate c r List.mem_cons_self hempty)

theorem after_concat (reports : List Report) (r : Report) :
    after (reports ++ [r]) = (after reports).update r.ustNs r.refreshNs := List.foldl_concat ..

theorem refresh_after (reports : List Report) : 0 < (after reports).refreshNs :=
  after_keeps (P := fun c => 0 < c.refreshNs) (by decide) fun _ r _ h => update_refresh h r.ustNs r.refreshNs

theorem ust_after {reports : List Report} (h : ∀ r ∈ reports, r.ustNs ≤ u64Max) : (after reports).ustNs ≤ u64Max := by
  refine after_keeps (P := fun c => c.ustNs ≤ u64Max) (by decide) fun c r hr hc => ?_
  unfold update
  dsimp only
  split
  · exact h r hr
  · exact hc

/-! ## Vblanks -/

/-- The predicted vblank is a point of the grid, or where 64 bits end. -/
theorem nextVblank_eq (hust : c.ustNs ≤ u64Max) (t : Nat) :
    c.nextVblank t = min (Grid.next c.ustNs c.refreshNs t) u64Max := by
  unfold nextVblank Grid.next satAdd satMul
  dsimp only
  split <;> omega

theorem nextVblank_fits (h : c.Fits t) : c.nextVblank t = Grid.next c.ustNs c.refreshNs t := by
  unfold Fits at h
  unfold nextVblank Grid.next satAdd satMul
  dsimp only
  split
  · rfl
  · omega

/-- One refresh before the first vblank at or after the target. -/
theorem releaseAt_fits (h : c.Fits (target - targetSlackNs - 1)) :
    c.releaseAt target = Grid.next c.ustNs c.refreshNs (target - targetSlackNs - 1) - c.refreshNs := by
  rw [releaseAt, nextVblank_fits h]

/-! ## Release and due -/

/-- The next vblank is later, unless it is past what a `u64` holds. -/
theorem lt_nextVblank (hr : 0 < c.refreshNs) (h : c.nextVblank t < u64Max) :
    t < c.nextVblank t ∧ c.ustNs ≤ c.nextVblank t := by
  unfold nextVblank satAdd satMul at h ⊢
  split
  · rename_i hlt
    exact ⟨hlt, le_rfl⟩
  · rename_i hge
    rw [if_neg hge] at h
    dsimp only at h ⊢
    have hperiods : t - c.ustNs < ((t - c.ustNs) / c.refreshNs + 1) * c.refreshNs := by
      rw [Nat.mul_comm]
      exact Nat.lt_mul_div_succ _ hr
    omega

/-- A refresh before the next vblank is no later than now. -/
theorem nextVblank_sub_le (h : c.ustNs ≤ t) : c.nextVblank t - c.refreshNs ≤ t := by
  unfold nextVblank satAdd satMul
  rw [if_neg (Nat.not_lt.mpr h)]
  dsimp only
  have hperiods : (t - c.ustNs) / c.refreshNs * c.refreshNs ≤ t - c.ustNs := Nat.div_mul_le_self _ _
  rw [Nat.succ_mul]
  omega

/-- A target the next vblank is too soon for is worked out again before it is due. -/
theorem releaseAt_le (hr : 0 < c.refreshNs) (hdue : c.due now < target) (hcap : target ≤ u64Max) :
    c.releaseAt target ≤ target - targetSlackNs ∧ now ≤ target - targetSlackNs := by
  have hslack : c.nextVblank now + targetSlackNs < target := by
    unfold due satAdd at hdue
    omega
  obtain ⟨hnow, hust⟩ := lt_nextVblank (t := now) hr (by omega)
  have hearlier : c.ustNs ≤ target - targetSlackNs - 1 := by omega
  refine ⟨?_, by omega⟩
  exact (nextVblank_sub_le hearlier).trans (Nat.sub_le _ _)

/-- The vblank an update is released for is the first at or after its target, give or take the slack. -/
theorem isLeast_target (hr : 0 < c.refreshNs) (h : targetSlackNs < target) :
    IsLeast {v | v ∈ Grid.points c.ustNs c.refreshNs ∧ target - targetSlackNs ≤ v}
      (Grid.next c.ustNs c.refreshNs (target - targetSlackNs - 1)) := by
  have hleast := Grid.isLeast_next hr c.ustNs (target - targetSlackNs - 1)
  have hafter (v : Nat) : target - targetSlackNs - 1 < v ↔ target - targetSlackNs ≤ v := by omega
  simpa only [hafter] using hleast

/-- What a target asks of the clock at `now`. -/
structure InStep (c : FrameClock) (target now : Nat) : Prop where
  refresh : 1 ≤ c.refreshNs
  forward : ∀ r : Report, c.ustNs ≤ (c.update r.ustNs r.refreshNs).ustNs
  vblank : ∀ t, c.Fits t → IsLeast {v | (∃ k, v = c.ustNs + k * c.refreshNs) ∧ t < v} (c.nextVblank t)
  applied : c.releaseAt target ≤ now → target ≤ c.due now
  notEarly : now < c.releaseAt target → c.ustNs ≤ now + c.refreshNs → c.due now < target
  held : ∀ v, IsLeast {v | (∃ k, v = c.ustNs + k * c.refreshNs) ∧ target - targetSlackNs ≤ v} v → c.refreshNs ≤ v →
    c.releaseAt target ≤ now → now < c.releaseAt target + c.refreshNs → c.nextVblank now = v

/-- What every target asks of a clock that refreshes, as long as nothing saturates. -/
theorem inStep (hr : 0 < c.refreshNs) (htarget : targetSlackNs < target) (hrelease : c.Fits (target - targetSlackNs - 1))
    (hnow : c.Fits now) (hdue : c.nextVblank now + targetSlackNs ≤ u64Max) : InStep c target now := by
  have hnext := nextVblank_fits hnow
  have hdue : c.due now = Grid.next c.ustNs c.refreshNs now + targetSlackNs := by
    rw [due, satAdd, Nat.min_eq_left hdue, hnext]
  have hat := releaseAt_fits hrelease
  have hleast := isLeast_target hr htarget
  have hmem : Grid.next c.ustNs c.refreshNs now ∈ Grid.points c.ustNs c.refreshNs := Grid.next_mem ..
  have hafter : now < Grid.next c.ustNs c.refreshNs now := Grid.lt_next hr ..
  refine ⟨hr, fun r => le_update c r.ustNs r.refreshNs, fun t ht => ?_, fun hle => ?_, fun hlt hust => ?_,
    fun v hv hfirst hle hlt => ?_⟩
  · rw [nextVblank_fits ht]
    exact Grid.isLeast_next hr c.ustNs t
  · -- A vblank before the update's is a refresh before it at least.
    have hnot : ¬Grid.next c.ustNs c.refreshNs now < Grid.next c.ustNs c.refreshNs (target - targetSlackNs - 1) := by
      intro hlt
      have hstep := Grid.add_step_le hmem hleast.1.1 hlt
      omega
    have hge := hleast.1.2
    omega
  · have hnear := Grid.next_le_add hust
    by_contra hge
    have hbound := hleast.2 ⟨hmem, by omega⟩
    omega
  · have hsame : v = Grid.next c.ustNs c.refreshNs (target - targetSlackNs - 1) := hv.unique hleast
    rw [hnext]
    exact Grid.next_eq hv.1.1 (by omega) (by omega) hr

/-- Release and due are inverse, as long as nothing saturates. -/
theorem release_inverts_due (reports : List Report) (target now : Nat) (htarget : targetSlackNs < target)
    (hrelease : (after reports).Fits (target - targetSlackNs - 1)) (hnow : (after reports).Fits now)
    (hdue : (after reports).nextVblank now + targetSlackNs ≤ u64Max) : InStep (after reports) target now :=
  inStep (refresh_after reports) htarget hrelease hnow hdue

/-- A refresh of 1 ms phased at 10 ms, and a target on a vblank. -/
theorem release_inverts_due_vblank : InStep (after [⟨1, 10_000_000, 1_000_000, 0, 0⟩]) 15_000_000 14_200_000 :=
  release_inverts_due [⟨1, 10_000_000, 1_000_000, 0, 0⟩] 15_000_000 14_200_000 (by decide) (by decide) (by decide)
    (by decide)

/-! ## Waking for a target -/

theorem lt_releaseAt_iff (hr : 0 < c.refreshNs) (hust : c.ustNs ≤ u64Max) (htarget : target ≤ u64Max) :
    now < c.releaseAt target ↔ now + c.refreshNs < u64Max ∧ (now + c.refreshNs < c.ustNs ∨ c.due now < target) := by
  have hmem : Grid.next c.ustNs c.refreshNs now ∈ Grid.points c.ustNs c.refreshNs := Grid.next_mem ..
  have hfirst := Grid.next_mem c.ustNs c.refreshNs (target - targetSlackNs - 1)
  have hafter : now < Grid.next c.ustNs c.refreshNs now := Grid.lt_next hr ..
  have hlater : now + c.refreshNs < Grid.next c.ustNs c.refreshNs (target - targetSlackNs - 1) ↔
      now + c.refreshNs < c.ustNs ∨ Grid.next c.ustNs c.refreshNs now ≤ target - targetSlackNs - 1 := by
    by_cases hfar : now + c.refreshNs < c.ustNs
    · exact ⟨fun _ => Or.inl hfar, fun _ => hfar.trans_le (Grid.start_le hfirst)⟩
    · have hnear := Grid.next_le_add (Nat.le_of_not_lt hfar)
      constructor
      · exact fun hlt => Or.inr ((Grid.next_lt_iff hr).mp (hnear.trans_lt hlt))
      · rintro (h | h)
        · exact absurd h hfar
        · have hstep := Grid.add_step_le hmem hfirst ((Grid.next_lt_iff hr).mpr h)
          omega
  unfold releaseAt due satAdd
  dsimp only
  rw [nextVblank_eq hust, nextVblank_eq hust]
  generalize u64Max = last at *
  generalize targetSlackNs = slack at *
  omega

/-- The wake for a pending target is later than now but where the cast, or the end of 64 bits, is in the way. -/
theorem wake_later_iff (reports : List Report) (hust : ∀ r ∈ reports, r.ustNs ≤ u64Max) (now : Nat) (t : Timestamp) :
    (¬t.le (.ofNanos _ ((after reports).due_le now)) → now < (after reports).wakeFor t) ↔
      t.le (.ofNanos _ ((after reports).due_le now)) ∨
        now + (after reports).refreshNs < (after reports).ustNs ∨
        now + (after reports).refreshNs < u64Max ∧ (after reports).due now < t.asNanos % (u64Max + 1) := by
  have hr := refresh_after reports
  have hbound := ust_after hust
  have hlt := Nat.le_of_lt_succ (Nat.mod_lt t.asNanos (Nat.succ_pos u64Max))
  rw [wakeFor, lt_releaseAt_iff hr hbound hlt]
  constructor
  · intro h
    by_cases hle : t.le (.ofNanos _ ((after reports).due_le now))
    · exact Or.inl hle
    · obtain ⟨hend, hfar | hdue⟩ := h hle
      · exact Or.inr (Or.inl hfar)
      · exact Or.inr (Or.inr ⟨hend, hdue⟩)
  · rintro (hle | hfar | ⟨hend, hdue⟩) hnot
    · exact absurd hle hnot
    · exact ⟨hfar.trans_le hbound, Or.inl hfar⟩
    · exact ⟨hend, Or.inr hdue⟩

/-- A second after the clock started, a target a second later. -/
theorem wake_later_second : 1_000_000_000 < (after []).wakeFor ⟨2, 0, by decide, by decide⟩ :=
  (wake_later_iff [] (by simp) 1_000_000_000 ⟨2, 0, by decide, by decide⟩).mpr (by decide) (by decide)

/-- A target whose nanoseconds take more than 64 bits is woken for as one long past. -/
theorem not_wake_later : ¬∀ (reports : List Report), (∀ r ∈ reports, r.ustNs ≤ u64Max) → ∀ (now : Nat) (t : Timestamp),
    ¬t.le (.ofNanos _ ((after reports).due_le now)) → now < (after reports).wakeFor t := by
  intro h
  have hlater := h [] (by simp) 1_000_000_000 ⟨18_446_744_074, 0, by decide, by decide⟩ (by decide)
  revert hlater
  decide

end FrameClock

end IhsWl
