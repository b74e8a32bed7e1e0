import Mathlib.Data.List.Induction
import Mathlib.Data.List.Pairwise
import Mathlib.Data.List.Sublists
import IhsWl.Lib.Climb

/-!
# A tree gathered in one pass

The members of a list that hang below `root` are gathered by going through the list once: a member joins
when its parent has joined before it. What a pass in order of age misses is exactly what has a younger
parent somewhere above it.
-/

namespace OnePass

variable {α : Type*} [DecidableEq α] {up : α → Option α} {age : α → Nat} {root x : α} {xs ys : List α}

/-- `x` joins when its parent is there. -/
def join (up : α → Option α) (ws : List α) (x : α) : List α :=
  if (up x).any (· ∈ ws) then ws ++ [x] else ws

def pass (up : α → Option α) (root : α) (xs : List α) : List α := xs.foldl (join up) [root]

/-- A chain of members leads from `x` to `root`, each older than the one below it. -/
inductive Reached (up : α → Option α) (age : α → Nat) (root : α) (xs : List α) : α → Prop
  | root : Reached up age root xs root
  | above {x p : α} : x ∈ xs → up x = some p → (p ≠ root → age p < age x) → Reached up age root xs p →
      Reached up age root xs x

@[simp] theorem pass_nil : pass up root [] = [root] := rfl

theorem pass_concat : pass up root (xs ++ [x]) = join up (pass up root xs) x := by
  simp [pass]

/-- A longer list only adds to what joined. -/
theorem pass_append (up : α → Option α) (root : α) (xs ys : List α) :
    ∃ l, pass up root (xs ++ ys) = pass up root xs ++ l ∧ l.Sublist ys := by
  induction ys using List.reverseRecOn with
  | nil => exact ⟨[], by simp, .slnil⟩
  | append_singleton ys y ih =>
      obtain ⟨l, hl, hsub⟩ := ih
      rw [← List.append_assoc, pass_concat, join, hl]
      split
      · exact ⟨l ++ [y], by simp, hsub.append_right [y]⟩
      · exact ⟨l, rfl, hsub.trans (List.sublist_append_left ys [y])⟩

theorem pass_sublist (xs : List α) : (pass up root xs).Sublist (root :: xs) := by
  obtain ⟨l, hl, hsub⟩ := pass_append up root [] xs
  rw [List.nil_append] at hl
  rw [hl]
  exact hsub.cons_cons root

theorem root_mem_pass (xs : List α) : root ∈ pass up root xs := by
  obtain ⟨l, hl, -⟩ := pass_append up root [] xs
  rw [List.nil_append] at hl
  simp [hl]

theorem nodup_pass (hroot : root ∉ xs) (hxs : xs.Nodup) : (pass up root xs).Nodup :=
  (List.nodup_cons.mpr ⟨hroot, hxs⟩).sublist (pass_sublist xs)

/-- Who joined, joined after its parent. -/
theorem parent_first (hx : x ∈ pass up root xs) (hne : x ≠ root) :
    ∃ p l₁ l₂, up x = some p ∧ pass up root xs = l₁ ++ x :: l₂ ∧ p ∈ l₁ := by
  induction xs using List.reverseRecOn with
  | nil => exact absurd (List.mem_singleton.mp hx) hne
  | append_singleton xs y ih =>
      have hold (h : x ∈ pass up root xs) : ∃ p l₁ l₂, up x = some p ∧
          join up (pass up root xs) y = l₁ ++ x :: l₂ ∧ p ∈ l₁ := by
        obtain ⟨p, l₁, l₂, hp, hl, hmem⟩ := ih h
        unfold join
        split
        · exact ⟨p, l₁, l₂ ++ [y], hp, by simp [hl], hmem⟩
        · exact ⟨p, l₁, l₂, hp, hl, hmem⟩
      rw [pass_concat] at hx ⊢
      by_cases hin : x ∈ pass up root xs
      · exact hold hin
      · unfold join at hx ⊢
        split at hx
        · rename_i hany
          obtain rfl : x = y := by
            rcases List.mem_append.mp hx with h | h
            · exact absurd h hin
            · exact List.mem_singleton.mp h
          obtain ⟨p, hp, hmem⟩ := Option.any_eq_true _ _ |>.mp hany
          rw [if_pos hany]
          exact ⟨p, pass up root xs, [], hp, rfl, by simpa using hmem⟩
        · exact absurd hx hin

omit [DecidableEq α] in
/-- What is reached is reached wherever its members, their parents and their ages are kept. -/
theorem Reached.imp {up' : α → Option α} {age' : α → Nat}
    (hkept : ∀ y ∈ xs, y ∈ ys ∧ (∀ p, up y = some p → up' y = some p) ∧ age' y = age y) (h : Reached up age root xs x) :
    Reached up' age' root ys x := by
  induction h with
  | root => exact .root
  | @above x p hx hup hage hp ih =>
      obtain ⟨hmem, hup', hsame⟩ := hkept x hx
      refine .above hmem (hup' p hup) (fun hne => ?_) ih
      have hmem : p ∈ xs := by
        cases hp with
        | root => exact absurd rfl hne
        | above hmem _ _ _ => exact hmem
      rw [hsame, (hkept p hmem).2.2]
      exact hage hne

omit [DecidableEq α] in
theorem Reached.mono (hsub : ∀ x ∈ xs, x ∈ ys) (h : Reached up age root xs x) : Reached up age root ys x :=
  h.imp fun y hy => ⟨hsub y hy, fun _ hp => hp, rfl⟩

/-- In order of age, one pass gathers exactly what is reached. -/
theorem mem_pass (hsorted : xs.Pairwise fun a b => age a < age b) :
    x ∈ pass up root xs ↔ Reached up age root xs x := by
  constructor
  · induction xs using List.reverseRecOn generalizing x with
    | nil =>
        intro hx
        rw [List.mem_singleton.mp hx]
        exact .root
    | append_singleton xs y ih =>
        intro hx
        obtain ⟨hold, -, hlast⟩ := List.pairwise_append.mp hsorted
        rw [pass_concat, join] at hx
        split at hx
        · rename_i hany
          rcases List.mem_append.mp hx with hx | hx
          · exact (ih hold hx).mono fun _ h => List.mem_append_left _ h
          · obtain rfl := List.mem_singleton.mp hx
            obtain ⟨p, hp, hmem⟩ := Option.any_eq_true _ _ |>.mp hany
            have hmem : p ∈ pass up root xs := by simpa using hmem
            refine .above (by simp) hp (fun hne => ?_) ((ih hold hmem).mono fun _ h => List.mem_append_left _ h)
            have hpx : p ∈ xs := by
              rcases List.mem_cons.mp ((pass_sublist xs).subset hmem) with h | h
              · exact absurd h hne
              · exact h
            exact hlast p hpx x (by simp)
        · exact (ih hold hx).mono fun _ h => List.mem_append_left _ h
  · intro h
    induction h with
    | root => exact root_mem_pass xs
    | @above x p hx hup hage _ ih =>
        obtain ⟨l₁, l₂, rfl⟩ := List.append_of_mem hx
        -- When `x` is visited, its parent is there.
        have hparent : p ∈ pass up root l₁ := by
          by_cases hp : p = root
          · rw [hp]; exact root_mem_pass l₁
          · obtain ⟨l, hl, hsub⟩ := pass_append up root l₁ (x :: l₂)
            rw [hl] at ih
            rcases List.mem_append.mp ih with h | h
            · exact h
            · have hlate : age x ≤ age p := by
                rcases List.mem_cons.mp (hsub.subset h) with rfl | h
                · exact Nat.le_refl _
                · have hrest := (List.pairwise_append.mp hsorted).2.1
                  exact Nat.le_of_lt ((List.pairwise_cons.mp hrest).1 p h)
              exact absurd (hage hp) (Nat.not_lt.mpr hlate)
        have hx : x ∈ pass up root (l₁ ++ [x]) := by
          rw [pass_concat, join, if_pos (by simp [hup, hparent])]
          simp
        obtain ⟨l, hl, -⟩ := pass_append up root (l₁ ++ [x]) l₂
        rw [List.append_cons, hl]
        exact List.mem_append_left _ hx

/-! ## Chains of parents -/

omit [DecidableEq α] in
/-- On the way up from what is reached, only `root` may be younger than what is below it. -/
theorem Reached.ordered (htop : up root = none) (h : Reached up age root xs x) (n : Nat) :
    ∀ y ∈ Climb.path up n x, ∀ p, up y = some p → (up p).isSome = true → age p < age y := by
  induction h generalizing n with
  | root =>
      intro y hy p hp
      rw [Climb.path_top htop] at hy
      rw [List.mem_singleton.mp hy, htop] at hp
      cases hp
  | @above x q hx hup hage _ ih =>
      intro y hy p hp hsome
      rcases Climb.mem_path hup hy with rfl | ⟨m, hy⟩
      · cases hup.symm.trans hp
        refine hage fun he => ?_
        rw [he, htop] at hsome
        cases hsome
      · exact ih m y hy p hp hsome

omit [DecidableEq α] in
/-- And where that is so, a chain of members is reached. -/
theorem reached_of_ordered (htop : up root = none) {n : Nat} (hroot : Climb.climb up n x = root)
    (hmem : ∀ y ∈ Climb.path up n x, y ≠ root → y ∈ xs)
    (hage : ∀ y ∈ Climb.path up n x, ∀ p, up y = some p → (up p).isSome = true → age p < age y) :
    Reached up age root xs x := by
  induction n generalizing x with
  | zero =>
      rw [Climb.climb_zero] at hroot
      exact hroot ▸ .root
  | succ n ih =>
      cases hx : up x with
      | none =>
          rw [Climb.climb_succ_none hx] at hroot
          exact hroot ▸ .root
      | some p =>
          rw [Climb.climb_succ_some hx] at hroot
          have hp := ih hroot (fun y hy => hmem y (Climb.path_up hx hy)) fun y hy => hage y (Climb.path_up hx hy)
          have hself := Climb.self_mem_path up (n + 1) x
          refine .above (hmem x hself fun he => ?_) hx (fun hne => hage x hself p hx ?_) hp
          · rw [he, htop] at hx
            cases hx
          · cases hp with
            | root => exact absurd rfl hne
            | above _ hup _ _ => rw [hup]; rfl

end OnePass
