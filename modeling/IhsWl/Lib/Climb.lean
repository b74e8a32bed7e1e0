import Mathlib.Logic.Relation

/-!
# Bounded climbs

Following a partial parent map upwards, at most a given number of times.
-/

namespace Climb

variable {α : Type*} {up up' : α → Option α}

/-- The end of the chain above `x`, or where `n` steps up it lead. -/
def climb (up : α → Option α) : Nat → α → α
  | 0, x => x
  | n + 1, x =>
      match up x with
      | none => x
      | some p => climb up n p

@[simp] theorem climb_zero (x : α) : climb up 0 x = x := rfl

theorem climb_succ_none {x : α} (h : up x = none) (n : Nat) : climb up (n + 1) x = x := by
  simp only [climb, h]

theorem climb_succ_some {x p : α} (h : up x = some p) (n : Nat) : climb up (n + 1) x = climb up n p := by
  simp only [climb, h]

theorem climb_top {x : α} (h : up x = none) : ∀ n, climb up n x = x
  | 0 => rfl
  | n + 1 => climb_succ_none h n

/-- What a step up keeps, a climb keeps. -/
theorem climb_keeps {P : α → Prop} (hup : ∀ x p, P x → up x = some p → P p) {x : α} (hx : P x) (n : Nat) :
    P (climb up n x) := by
  induction n generalizing x with
  | zero => exact hx
  | succ n ih =>
      cases h : up x with
      | none => rw [climb_succ_none h]; exact hx
      | some p => rw [climb_succ_some h]; exact ih (hup x p hx h)

/-! ## The way up -/

/-- What the first `n` steps up from `x` pass through, `x` first. -/
def path (up : α → Option α) : Nat → α → List α
  | 0, x => [x]
  | n + 1, x =>
      match up x with
      | none => [x]
      | some p => x :: path up n p

theorem path_top {x : α} (h : up x = none) (n : Nat) : path up n x = [x] := by
  cases n with
  | zero => rfl
  | succ n => simp only [path, h]

theorem path_succ_some {x p : α} (h : up x = some p) (n : Nat) : path up (n + 1) x = x :: path up n p := by
  simp only [path, h]

theorem self_mem_path (up : α → Option α) (n : Nat) (x : α) : x ∈ path up n x := by
  cases n with
  | zero => exact List.mem_singleton.mpr rfl
  | succ n =>
      cases h : up x with
      | none => simp [path_top h]
      | some p => simp [path_succ_some h]

theorem path_up {x p y : α} (h : up x = some p) {n : Nat} (hy : y ∈ path up n p) : y ∈ path up (n + 1) x := by
  rw [path_succ_some h]
  exact List.mem_cons_of_mem x hy

theorem mem_path {x p y : α} (h : up x = some p) {n : Nat} (hy : y ∈ path up n x) :
    y = x ∨ ∃ m, y ∈ path up m p := by
  cases n with
  | zero => exact Or.inl (List.mem_singleton.mp hy)
  | succ n =>
      rw [path_succ_some h] at hy
      rcases List.mem_cons.mp hy with hy | hy
      · exact Or.inl hy
      · exact Or.inr ⟨n, hy⟩

/-- Once the top is reached, a longer climb ends there too, from anywhere on the way. -/
theorem climb_of_mem_path {x y : α} {n m : Nat} (htop : up (climb up n x) = none) (hy : y ∈ path up n x)
    (hle : n ≤ m) : climb up m y = climb up n x := by
  induction n generalizing x y m with
  | zero =>
      rw [List.mem_singleton.mp hy]
      exact climb_top htop m
  | succ n ih =>
      cases h : up x with
      | none =>
          rw [path_top h] at hy
          rw [List.mem_singleton.mp hy, climb_top h, climb_top h]
      | some p =>
          rw [climb_succ_some h] at htop ⊢
          rw [path_succ_some h] at hy
          rcases List.mem_cons.mp hy with rfl | hy
          · obtain ⟨k, rfl⟩ := Nat.exists_eq_add_of_le' hle
            rw [Nat.add_succ, climb_succ_some h]
            exact ih htop (self_mem_path up n p) (Nat.le_add_left n k)
          · exact ih htop hy (Nat.le_of_succ_le hle)

/-- Where the chain is cut at `x`, a climb ends as before or at `x`. -/
theorem climb_cut {x : α} (hup : ∀ y, y ≠ x → up' y = up y) (hx : up' x = none) (n : Nat) (y : α) :
    climb up' n y = climb up n y ∨ climb up' n y = x ∧ x ∈ path up n y := by
  induction n generalizing y with
  | zero => exact Or.inl rfl
  | succ n ih =>
      by_cases hy : y = x
      · subst hy
        exact Or.inr ⟨climb_top hx _, self_mem_path up _ y⟩
      · cases h : up y with
        | none => exact Or.inl (by rw [climb_succ_none h, climb_succ_none ((hup y hy).trans h)])
        | some p =>
            rw [climb_succ_some h, climb_succ_some ((hup y hy).trans h)]
            rcases ih p with hsame | ⟨hend, hmem⟩
            · exact Or.inl hsame
            · exact Or.inr ⟨hend, path_up h hmem⟩

/-- Where the chain only grows above other ends, a climb that came to `r` still does. -/
theorem climb_extend {r x : α} (hup : ∀ y p, up y = some p → up' y = some p) (hr : up' r = none) {n m : Nat}
    (h : climb up n x = r) (hle : n ≤ m) : climb up' m x = r := by
  induction n generalizing x m with
  | zero =>
      rw [climb_zero] at h
      rw [h]
      exact climb_top hr m
  | succ n ih =>
      cases hx : up x with
      | none =>
          rw [climb_succ_none hx] at h
          rw [h]
          exact climb_top hr m
      | some p =>
          rw [climb_succ_some hx] at h
          obtain ⟨k, rfl⟩ := Nat.exists_eq_add_of_le' hle
          rw [Nat.add_succ, climb_succ_some (hup x p hx)]
          exact ih h (Nat.le_add_left n k)

end Climb
