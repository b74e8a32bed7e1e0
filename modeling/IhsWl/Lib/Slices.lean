import Mathlib.Data.List.Basic

/-!
# Slices

Parts of a list taken out and put back in place: what lies outside is left as it was.
-/

namespace Slices

variable {β : Type*} {xs ys : List β} {d n i : Nat}

/-- The `n` members from `d` on, when there are as many. -/
def get? (xs : List β) (d n : Nat) : Option (List β) := if d + n ≤ xs.length then some ((xs.drop d).take n) else none

/-- `ys` in place of as many members from `d` on. -/
def put (xs : List β) (d : Nat) (ys : List β) : List β := xs.take d ++ ys ++ xs.drop (d + ys.length)

theorem get?_of_le (h : d + n ≤ xs.length) :
    ∃ ys, get? xs d n = some ys ∧ ys.length = n ∧ ∀ i < n, ys[i]? = xs[d + i]? := by
  refine ⟨(xs.drop d).take n, if_pos h, ?_, fun i hi => ?_⟩
  · rw [List.length_take, List.length_drop]
    omega
  · rw [List.getElem?_take_of_lt hi, List.getElem?_drop]

theorem length_put (h : d + ys.length ≤ xs.length) : (put xs d ys).length = xs.length := by
  rw [put, List.length_append, List.length_append, List.length_take, List.length_drop]
  omega

theorem getElem?_put_inside (h : d + ys.length ≤ xs.length) (hi : i < ys.length) : (put xs d ys)[d + i]? = ys[i]? := by
  have hlen : (xs.take d).length = d := by
    rw [List.length_take]
    omega
  rw [put, List.append_assoc, List.getElem?_append_right (by omega), hlen, Nat.add_sub_cancel_left,
    List.getElem?_append_left hi]

theorem getElem?_put_outside (h : d + ys.length ≤ xs.length) (hi : i < d ∨ d + ys.length ≤ i) :
    (put xs d ys)[i]? = xs[i]? := by
  have hlen : (xs.take d).length = d := by
    rw [List.length_take]
    omega
  rw [put, List.append_assoc]
  rcases hi with hi | hi
  · rw [List.getElem?_append_left (by omega), List.getElem?_take_of_lt hi]
  · rw [List.getElem?_append_right (by omega), List.getElem?_append_right (by omega), List.getElem?_drop, hlen]
    congr 1
    omega

end Slices
