import Mathlib.Data.List.Count
import Mathlib.Data.List.Nodup
import Mathlib.Data.List.Perm.Basic

/-!
# Custody

What a component does with things it must not lose or give up twice: it gets them, closes them, or
passes them on. Beside the log of this stands what it still owns.
-/

namespace Custody

/-- What is done with one thing. -/
inductive Event (α : Type*) where
  | got (a : α)
  | closed (a : α)
  | passed (a : α)
  deriving DecidableEq, Repr

variable {α : Type*}

namespace Event

def gotten : Event α → Option α
  | got a => some a
  | _ => none

def left : Event α → Option α
  | got _ => none
  | closed a => some a
  | passed a => some a

end Event

/-- The things it got, each once, are those it gave up and those it owns. -/
structure Owns (log : List (Event α)) (own : List α) : Prop where
  nodup : (log.filterMap Event.gotten).Nodup
  kept : (log.filterMap Event.gotten).Perm (log.filterMap Event.left ++ own)

variable {log : List (Event α)} {own rest as : List α} {a : α}

theorem gotten_mem : a ∈ log.filterMap Event.gotten ↔ Event.got a ∈ log := by
  rw [List.mem_filterMap]
  constructor
  · rintro ⟨e, he, ha⟩
    cases e <;> simp only [Event.gotten, Option.some.injEq, reduceCtorEq] at ha
    exact ha ▸ he
  · intro h
    exact ⟨_, h, rfl⟩

namespace Owns

theorem nil : Owns ([] : List (Event α)) [] := ⟨List.nodup_nil, .nil⟩

theorem perm (h : Owns log own) (hp : own.Perm rest) : Owns log rest :=
  ⟨h.nodup, h.kept.trans (hp.append_left _)⟩

/-- Something it never had is got. -/
theorem got (h : Owns log own) (ha : Event.got a ∉ log) : Owns (log ++ [.got a]) (own ++ [a]) := by
  constructor
  · rw [List.filterMap_append]
    refine h.nodup.append (List.nodup_singleton a) ?_
    rw [List.disjoint_right]
    intro b hb
    rw [List.mem_singleton.mp hb, gotten_mem]
    exact ha
  · simp only [List.filterMap_append, List.filterMap_cons, List.filterMap_nil, Event.gotten, Event.left, List.append_nil]
    rw [← List.append_assoc]
    exact h.kept.append_right _

/-- Things it owns are given up. -/
theorem give {give : α → Event α} (h : Owns log (own ++ as)) (hg : ∀ a, (give a).gotten = none)
    (hl : ∀ a, (give a).left = some a) : Owns (log ++ as.map give) own := by
  have hgot : (as.map give).filterMap Event.gotten = [] := by
    rw [List.filterMap_map, List.filterMap_eq_nil_iff]
    exact fun a _ => hg a
  have hleft : (as.map give).filterMap Event.left = as := by
    rw [List.filterMap_map, show Event.left ∘ give = some from funext hl, List.filterMap_some]
  constructor
  · rw [List.filterMap_append, hgot, List.append_nil]
    exact h.nodup
  · rw [List.filterMap_append, List.filterMap_append, hgot, hleft, List.append_nil, List.append_assoc]
    exact h.kept.trans (List.perm_append_comm.append_left _)

theorem close (h : Owns log (own ++ as)) : Owns (log ++ as.map .closed) own :=
  h.give (fun _ => rfl) fun _ => rfl

theorem pass (h : Owns log (own ++ as)) : Owns (log ++ as.map .passed) own :=
  h.give (fun _ => rfl) fun _ => rfl

/-- What it got it gave up once, or owns. -/
theorem counts [DecidableEq α] (h : Owns log own) (ha : .got a ∈ log) :
    log.count (.closed a) + log.count (.passed a) + own.count a = 1 := by
  have hleft : (log.filterMap Event.left).count a + own.count a = 1 := by
    rw [← List.count_append, ← h.kept.count_eq]
    exact List.count_eq_one_of_mem h.nodup (gotten_mem.mpr ha)
  have hcount (log : List (Event α)) :
      (log.filterMap Event.left).count a = log.count (.closed a) + log.count (.passed a) := by
    induction log with
    | nil => rfl
    | cons e log ih =>
        cases e with
        | got b => simpa [List.filterMap_cons, Event.left] using ih
        | closed b =>
            simp only [List.filterMap_cons, Event.left, List.count_cons, ih, beq_iff_eq, Event.closed.injEq,
              reduceCtorEq, ↓reduceIte]
            omega
        | passed b =>
            simp only [List.filterMap_cons, Event.left, List.count_cons, ih, beq_iff_eq, Event.passed.injEq,
              reduceCtorEq, ↓reduceIte]
            omega
  rw [← hcount, hleft]

/-- With nothing owned, what it got it gave up once. -/
theorem once [DecidableEq α] (h : Owns log []) (ha : .got a ∈ log) :
    log.count (.closed a) + log.count (.passed a) = 1 := h.counts ha

end Owns

end Custody
