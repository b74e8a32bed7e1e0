import Mathlib.Data.Set.Insert

/-!
# Debts

A component whose calls nest: a call leaves something to be done before its caller returns, and other
calls come in between. What is still to be done is a set of debts beside the state. A move pays some
and takes on others; a call is a run of moves that leaves no more than its caller owed.
-/

namespace Debts

variable {σ δ : Type*} {move : σ → Set δ → Set δ → σ → Prop}

/-- A run of moves from a state and what is owed in it. More may be owed at any time. -/
inductive Settles (move : σ → Set δ → Set δ → σ → Prop) (s : σ) (D : Set δ) : σ → Set δ → Prop
  | refl : Settles move s D s D
  | owe {s' : σ} {D' E : Set δ} : Settles move s D s' D' → D' ⊆ E → Settles move s D s' E
  | step {s' t : σ} {E paid taken : Set δ} :
      Settles move s D s' E → move s' paid taken t → Settles move s D t (E \ paid ∪ taken)

variable {s s' t : σ} {D D' E F : Set δ}

namespace Settles

theorem more (h : D ⊆ E) : Settles move s D s E := .owe .refl h

theorem trans (h : Settles move s D s' F) (h' : Settles move s' F t E) : Settles move s D t E := by
  induction h' with
  | refl => exact h
  | owe _ hsub ih => exact .owe ih hsub
  | step _ hm ih => exact .step ih hm

/-- One move, when what it leaves owed is no more than `E`. -/
theorem one {paid taken : Set δ} (hm : move s paid taken t) (h : D \ paid ∪ taken ⊆ E) :
    Settles move s D t E :=
  .owe (.step .refl hm) h

/-- Runs of moves are runs of whatever includes them. -/
theorem map {move' : σ → Set δ → Set δ → σ → Prop} (hmap : ∀ {s paid taken t}, move s paid taken t → move' s paid taken t)
    (h : Settles move s D s' E) : Settles move' s D s' E := by
  induction h with
  | refl => exact .refl
  | owe _ hsub ih => exact .owe ih hsub
  | step _ hm ih => exact .step ih (hmap hm)

/-- What every move keeps, relative to what is owed, a run keeps. -/
theorem keeps {I : Set δ → σ → Prop} (mono : ∀ {s D E}, D ⊆ E → I D s → I E s)
    (step : ∀ {s paid taken t D}, move s paid taken t → I D s → I (D \ paid ∪ taken) t)
    (h : Settles move s D s' D') (hI : I D s) : I D' s' := by
  induction h with
  | refl => exact hI
  | owe _ hsub ih => exact mono hsub ih
  | step _ hm ih => exact step hm ih

/-- What every move keeps, whatever is owed. -/
theorem invariant {P : σ → Prop} (step : ∀ {s paid taken t}, move s paid taken t → P s → P t)
    (h : Settles move s D s' D') (hP : P s) : P s' :=
  h.keeps (I := fun _ => P) (fun _ h => h) step hP

/-- What one move relates, and what composes, a run relates. -/
theorem related {R : σ → σ → Prop} (refl : ∀ s, R s s) (trans : ∀ {a b c}, R a b → R b c → R a c)
    (step : ∀ {s paid taken t}, move s paid taken t → R s t) (h : Settles move s D s' D') : R s s' :=
  h.invariant (P := R s) (fun hm hR => trans hR (step hm)) (refl s)

/-- Calls in a row. -/
theorem foldl {α : Type*} {f : σ → α → σ} (debt : α → δ) {xs : List α}
    (hf : ∀ x ∈ xs, ∀ s D, Settles move s (insert (debt x) D) (f s x) D) (s : σ) (D : Set δ) :
    Settles move s ({d | ∃ x ∈ xs, debt x = d} ∪ D) (xs.foldl f s) D := by
  induction xs generalizing s with
  | nil => exact more (by rintro d (⟨x, hx, -⟩ | hd); exacts [absurd hx List.not_mem_nil, hd])
  | cons x xs ih =>
      have hrest := ih (fun y hy => hf y (List.mem_cons_of_mem _ hy)) (f s x)
      refine trans ?_ hrest
      refine trans (more ?_) (hf x List.mem_cons_self s _)
      rintro d (⟨y, hy, rfl⟩ | hd)
      · rcases List.mem_cons.mp hy with rfl | hy
        · exact Set.mem_insert _ _
        · exact Set.mem_insert_of_mem _ (Or.inl ⟨y, hy, rfl⟩)
      · exact Set.mem_insert_of_mem _ (Or.inr hd)

end Settles

end Debts
