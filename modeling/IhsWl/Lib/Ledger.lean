import Mathlib.Data.List.Induction
import Mathlib.Data.List.Nodup
import Mathlib.Data.List.Pairwise
import Mathlib.Data.List.Perm.Basic

/-!
# Ledgers

A component that is called, keeps a stock, and reports what each call did. If every call only moves
items (what it is handed and what it had is what it gave out and what it has), so does every run.
-/

namespace Ledger

variable {σ ο ε α : Type*}

/-- One call after another, collecting what each did. -/
def run (call : σ → ο → σ × List ε) (s : σ) : List ο → σ × List ε
  | [] => (s, [])
  | op :: ops =>
      let next := call s op
      let rest := run call next.1 ops
      (rest.1, next.2 ++ rest.2)

variable {call : σ → ο → σ × List ε}

@[simp] theorem run_nil (s : σ) : run call s [] = (s, []) := rfl

theorem run_cons (s : σ) (op : ο) (ops : List ο) :
    run call s (op :: ops) =
      ((run call (call s op).1 ops).1, (call s op).2 ++ (run call (call s op).1 ops).2) := rfl

theorem run_append (s : σ) (xs ys : List ο) :
    run call s (xs ++ ys) =
      ((run call (run call s xs).1 ys).1, (run call s xs).2 ++ (run call (run call s xs).1 ys).2) := by
  induction xs generalizing s with
  | nil => rfl
  | cons x xs ih => simp only [List.cons_append, run_cons, ih, List.append_assoc]

theorem run_concat (s : σ) (ops : List ο) (op : ο) :
    run call s (ops ++ [op]) =
      ((call (run call s ops).1 op).1, (run call s ops).2 ++ (call (run call s ops).1 op).2) := by
  rw [run_append, run_cons, run_nil, List.append_nil]

/-- Calls seen otherwise, one after another, are a run seen otherwise. -/
theorem run_map {σ' ο' ε' : Type*} {call' : σ' → ο' → σ' × List ε'} {f : σ → σ'} {g : ο → ο'} {h : ε → ε'}
    (hcall : ∀ s op, call' (f s) (g op) = (f (call s op).1, (call s op).2.map h)) (s : σ) (ops : List ο) :
    run call' (f s) (ops.map g) = (f (run call s ops).1, (run call s ops).2.map h) := by
  induction ops generalizing s with
  | nil => rfl
  | cons op ops ih => simp only [List.map_cons, run_cons, hcall, ih, List.map_append]

/-- What every call extends to the calls so far holds of every run. -/
theorem run_induct {s₀ : σ} {P : List ο → σ → Prop} (h0 : P [] s₀)
    (hstep : ∀ ops op, P ops (run call s₀ ops).1 → P (ops ++ [op]) (call (run call s₀ ops).1 op).1) :
    ∀ ops, P ops (run call s₀ ops).1 := by
  intro ops
  induction ops using List.reverseRecOn with
  | nil => exact h0
  | append_singleton ops op ih => rw [run_concat]; exact hstep ops op ih

/-- A run gives out, or still has, exactly what it started with and was handed. -/
theorem conserved (gain : ο → List α) (stock : σ → List α) (spent : ε → Option α)
    (hcall : ∀ s op, (stock s ++ gain op).Perm
      ((call s op).2.filterMap spent ++ stock (call s op).1)) (s : σ) (ops : List ο) :
    (stock s ++ ops.flatMap gain).Perm
      ((run call s ops).2.filterMap spent ++ stock (run call s ops).1) := by
  induction ops generalizing s with
  | nil => simp
  | cons op ops ih =>
      simp only [run_cons, List.flatMap_cons, List.filterMap_append]
      rw [← List.append_assoc]
      have h1 := (hcall s op).append_right (ops.flatMap gain)
      refine h1.trans ?_
      rw [List.append_assoc, List.append_assoc]
      exact (ih (call s op).1).append_left _

/-- An item handed out by distinct calls is handed out by one of them only. -/
theorem giver_unique {ops : List ο} {gain : ο → List α} (h : (ops.flatMap gain).Nodup) {x y : ο}
    (hx : x ∈ ops) (hy : y ∈ ops) {a : α} (hax : a ∈ gain x) (hay : a ∈ gain y) : x = y := by
  by_contra hne
  have hp := (List.nodup_flatMap.mp h).2
  have : Std.Symm (Function.onFun List.Disjoint gain) := ⟨fun _ _ h _ ha hb => h hb ha⟩
  exact hp.forall hx hy hne hax hay

end Ledger
