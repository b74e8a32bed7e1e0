import Mathlib.Data.List.Sort
import Std.Data.TreeMap

/-!
# Tables

Reading back a `TreeMap` over lawfully ordered keys, and when two of them are gone through alike.
-/

namespace Table

open Std

variable {κ α β : Type*} [Ord κ] [TransOrd κ] [LawfulEqOrd κ]

theorem mem_keys {m : TreeMap κ α} {k : κ} : k ∈ m.keys ↔ m[k]?.isSome := by
  rw [TreeMap.mem_keys, TreeMap.mem_iff_isSome_getElem?]

variable [DecidableEq κ]

theorem get_insert (m : TreeMap κ α) (k j : κ) (a : α) :
    (m.insert k a)[j]? = if j = k then some a else m[j]? := by
  rw [TreeMap.getElem?_insert]
  simp only [Std.compare_eq_iff_eq, eq_comm (a := k)]

theorem get_erase (m : TreeMap κ α) (k j : κ) :
    (m.erase k)[j]? = if j = k then none else m[j]? := by
  rw [TreeMap.getElem?_erase]
  simp only [Std.compare_eq_iff_eq, eq_comm (a := k)]

theorem get_modify (m : TreeMap κ α) (k j : κ) (f : α → α) :
    (m.modify k f)[j]? = if j = k then m[k]?.map f else m[j]? := by
  rw [TreeMap.getElem?_modify]
  simp only [Std.compare_eq_iff_eq, eq_comm (a := k)]

end Table
