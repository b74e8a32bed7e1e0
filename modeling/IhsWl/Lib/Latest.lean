import Mathlib.Data.List.DropRight
import Mathlib.Data.List.Dedup

/-!
# The latest mention of each key

Of a list of mentions, what is left when each key keeps its last one, and the last few of those.
-/

namespace Latest

variable {α κ : Type*} [DecidableEq κ] {key : α → κ} {a x : α} {xs ys : List α} {n : Nat} {p : α → Bool}

/-- Each key's last mention, in their order. -/
def latest (key : α → κ) : List α → List α
  | [] => []
  | a :: xs => if key a ∈ xs.map key then latest key xs else a :: latest key xs

theorem latest_sublist (key : α → κ) (xs : List α) : (latest key xs).Sublist xs := by
  induction xs with
  | nil => exact .slnil
  | cons a xs ih =>
      unfold latest
      split
      · exact ih.trans (List.sublist_cons_self a xs)
      · exact ih.cons_cons a

/-- Each key that is mentioned is, once. -/
theorem map_latest (key : α → κ) (xs : List α) : (latest key xs).map key = (xs.map key).dedup := by
  induction xs with
  | nil => rfl
  | cons a xs ih =>
      unfold latest
      split
      · rename_i ha
        rw [ih, List.map_cons, List.dedup_cons_of_mem ha]
      · rename_i ha
        rw [List.map_cons, ih, List.map_cons, List.dedup_cons_of_notMem ha]

theorem nodup_keys (key : α → κ) (xs : List α) : ((latest key xs).map key).Nodup :=
  map_latest key xs ▸ List.nodup_dedup _

/-- What comes last keeps its last mentions. -/
theorem latest_append (key : α → κ) (xs ys : List α) : ∃ pre, latest key (xs ++ ys) = pre ++ latest key ys := by
  induction xs with
  | nil => exact ⟨[], rfl⟩
  | cons a xs ih =>
      obtain ⟨pre, hpre⟩ := ih
      rw [List.cons_append, latest, hpre]
      split
      · exact ⟨pre, rfl⟩
      · exact ⟨a :: pre, rfl⟩

/-- No key is mentioned twice in what names each once. -/
theorem length_filter_key_le (h : (xs.map key).Nodup) (k : κ) : (xs.filter fun a => key a = k).length ≤ 1 := by
  induction xs with
  | nil => simp
  | cons a xs ih =>
      obtain ⟨ha, hxs⟩ := List.nodup_cons.mp h
      by_cases hk : key a = k
      · have hnone : xs.filter (fun b => key b = k) = [] :=
          List.filter_eq_nil_iff.mpr fun b hb hbk => ha (List.mem_map.mpr ⟨b, hb, (of_decide_eq_true hbk).trans hk.symm⟩)
        rw [List.filter_cons_of_pos (by simpa using hk), hnone, List.length_singleton]
      · rw [List.filter_cons_of_neg (by simpa using hk)]
        exact ih hxs

/-- A new mention takes the place of the key's last. -/
theorem latest_concat (key : α → κ) (xs : List α) (x : α) :
    latest key (xs ++ [x]) = (latest key xs).filter (fun b => key b ≠ key x) ++ [x] := by
  induction xs with
  | nil => rfl
  | cons a xs ih =>
      have hkeys : key a ∈ (xs ++ [x]).map key ↔ key a ∈ xs.map key ∨ key a = key x := by simp
      rw [List.cons_append, latest, latest, ih]
      simp only [hkeys]
      by_cases hmem : key a ∈ xs.map key
      · rw [if_pos (Or.inl hmem), if_pos hmem]
      · rw [if_neg hmem]
        by_cases hx : key a = key x
        · rw [if_pos (Or.inr hx), List.filter_cons_of_neg (by simpa using hx)]
        · rw [if_neg (by simp [hmem, hx]), List.filter_cons_of_pos (by simpa using hx), List.cons_append]

/-- A mention is its key's last when none follows it. -/
theorem exists_split (hx : x ∈ latest key xs) : ∃ pre post, xs = pre ++ x :: post ∧ key x ∉ post.map key := by
  induction xs with
  | nil => cases hx
  | cons a xs ih =>
      have hlater (hx : x ∈ latest key xs) : ∃ pre post, a :: xs = pre ++ x :: post ∧ key x ∉ post.map key := by
        obtain ⟨pre, post, rfl, hpost⟩ := ih hx
        exact ⟨a :: pre, post, rfl, hpost⟩
      unfold latest at hx
      split at hx
      · exact hlater hx
      · rename_i ha
        rcases List.mem_cons.mp hx with rfl | hx
        · exact ⟨[], xs, rfl, ha⟩
        · exact hlater hx

/-- What follows a last mention is what follows it in order. -/
theorem latest_split (xs : List α) (hx : key x ∉ ys.map key) : ∃ pre, latest key (xs ++ x :: ys) = pre ++ x :: latest key ys := by
  obtain ⟨pre, hpre⟩ := latest_append key xs (x :: ys)
  refine ⟨pre, hpre.trans ?_⟩
  rw [latest, if_neg hx]

/-! ## The last few -/

theorem rtake_append_of_le (xs : List α) (h : n ≤ ys.length) : (xs ++ ys).rtake n = ys.rtake n := by
  rw [List.rtake, List.rtake, List.length_append, Nat.add_sub_assoc h, List.drop_append]
  simp

theorem rtake_of_length_le (h : xs.length ≤ n) : xs.rtake n = xs := by
  rw [List.rtake, Nat.sub_eq_zero_of_le h, List.drop_zero]

theorem length_rtake (xs : List α) (n : Nat) : (xs.rtake n).length = min n xs.length := by
  rw [List.rtake, List.length_drop]
  omega

theorem rtake_suffix (xs : List α) (n : Nat) : xs.rtake n <:+ xs := List.drop_suffix _ _

/-- What the last few leave out comes before, and nothing does when they are fewer. -/
theorem exists_rtake (xs : List α) (n : Nat) : ∃ pre, xs = pre ++ xs.rtake n ∧ ((xs.rtake n).length < n → pre = []) := by
  obtain ⟨pre, hpre⟩ := rtake_suffix xs n
  refine ⟨pre, hpre.symm, fun hlt => ?_⟩
  have hlength := congrArg List.length hpre
  rw [length_rtake] at hlt
  rw [List.length_append, length_rtake] at hlength
  exact List.eq_nil_of_length_eq_zero (by omega)

/-- Where what is wanted only comes last, it makes no difference which is done first. -/
theorem filter_rtake (h : xs.Pairwise fun a b => p a = true → p b = true) : (xs.rtake n).filter p = (xs.filter p).rtake n := by
  obtain ⟨pre, hxs, hnil⟩ := exists_rtake xs n
  have hlength := length_rtake xs n
  generalize xs.rtake n = last at *
  subst hxs
  rw [List.filter_append]
  by_cases hpre : pre.filter p = []
  · rw [hpre, List.nil_append]
    have hle : (last.filter p).length ≤ last.length := List.length_filter_le _ _
    exact (rtake_of_length_le (by omega)).symm
  · obtain ⟨a, ha⟩ := List.exists_mem_of_ne_nil _ hpre
    obtain ⟨ha, hpa⟩ := List.mem_filter.mp ha
    have hall : last.filter p = last :=
      List.filter_eq_self.mpr fun b hb => (List.pairwise_append.mp h).2.2 a ha b hb hpa
    have hn : n ≤ last.length := by
      by_contra hlt
      rw [hnil (by omega)] at ha
      cases ha
    rw [hall, rtake_append_of_le _ hn, rtake_of_length_le (by omega)]

/-- Where at most one is left out, one more than is kept is enough to look at. -/
theorem rtake_filter_rtake (h : (xs.filter fun a => !p a).length ≤ 1) :
    ((xs.rtake (n + 1)).filter p).rtake n = (xs.filter p).rtake n := by
  obtain ⟨pre, hxs, hnil⟩ := exists_rtake xs (n + 1)
  generalize xs.rtake (n + 1) = last at *
  subst hxs
  rw [List.filter_append, List.length_append] at h
  rw [List.filter_append]
  have hsplit := List.length_eq_length_filter_add p (l := last)
  by_cases hlt : last.length < n + 1
  · rw [hnil hlt]
    rfl
  · exact (rtake_append_of_le _ (by omega)).symm

/-- A last mention is among the last `n` unless `n` others follow it. -/
theorem mem_rtake_latest (hx : key x ∉ ys.map key) : x ∈ (latest key (xs ++ x :: ys)).rtake n ↔ (latest key ys).length < n := by
  obtain ⟨pre, hpre⟩ := latest_split xs hx
  have hnodup : (pre ++ x :: latest key ys).Nodup := hpre ▸ (nodup_keys key _).of_map
  rw [hpre]
  constructor
  · intro hmem
    by_contra hle
    have hcut : (pre ++ x :: latest key ys).rtake n = (latest key ys).rtake n := by
      rw [List.append_cons]
      exact rtake_append_of_le _ (Nat.le_of_not_lt hle)
    rw [hcut] at hmem
    have hlast := (rtake_suffix _ n).subset hmem
    exact (List.nodup_cons.mp (List.nodup_append.mp hnodup).2.1).1 hlast
  · intro hlt
    obtain ⟨cut, hcut⟩ : x :: latest key ys <:+ (pre ++ x :: latest key ys).rtake n := by
      refine List.suffix_of_suffix_length_le (List.suffix_append _ _) (rtake_suffix _ n) ?_
      rw [length_rtake, List.length_append, List.length_cons]
      omega
    rw [← hcut]
    exact List.mem_append_right _ List.mem_cons_self

end Latest
