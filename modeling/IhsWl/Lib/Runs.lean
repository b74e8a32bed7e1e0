import Mathlib.Logic.Basic

/-!
# Runs

The states a step function goes through, one event after another, and what all of them share when every
step meets a condition.
-/

namespace Runs

variable {σ ε : Type*}

/-- Every step of the run from `s` meets `ok`. -/
def Meets (step : σ → ε → σ) (ok : σ → ε → Prop) : σ → List ε → Prop
  | _, [] => True
  | s, e :: es => ok s e ∧ Meets step ok (step s e) es

variable {step : σ → ε → σ} {ok : σ → ε → Prop} {P : σ → Prop} {s : σ}

instance [∀ s e, Decidable (ok s e)] : (s : σ) → (es : List ε) → Decidable (Meets step ok s es)
  | _, [] => .isTrue trivial
  | s, e :: es =>
      have : Decidable (Meets step ok (step s e) es) := instDecidableMeets (step s e) es
      inferInstanceAs (Decidable (ok s e ∧ Meets step ok (step s e) es))

/-- A prefix of such a run is one. -/
theorem Meets.left {es es' : List ε} (h : Meets step ok s (es ++ es')) : Meets step ok s es := by
  induction es generalizing s with
  | nil => trivial
  | cons e es ih => exact ⟨h.1, ih h.2⟩

/-- The last step of such a run meets the condition. -/
theorem Meets.last {es : List ε} {e : ε} (h : Meets step ok s (es ++ [e])) : ok (es.foldl step s) e := by
  induction es generalizing s with
  | nil => exact h.1
  | cons a es ih => exact ih h.2

theorem meets_concat {es : List ε} {e : ε} :
    Meets step ok s (es ++ [e]) ↔ Meets step ok s es ∧ ok (es.foldl step s) e := by
  refine ⟨fun h => ⟨h.left, h.last⟩, ?_⟩
  induction es generalizing s with
  | nil => exact fun h => ⟨h.2, trivial⟩
  | cons a es ih => exact fun h => ⟨h.1.1, ih ⟨h.1.2, h.2⟩⟩

theorem Meets.append {es es' : List ε} (h : Meets step ok s es) (h' : Meets step ok (es.foldl step s) es') :
    Meets step ok s (es ++ es') := by
  induction es generalizing s with
  | nil => exact h'
  | cons e es ih => exact ⟨h.1, ih h.2 h'⟩

/-- A run meets the condition when every step of it does. -/
theorem meets_of_splits {es : List ε} (h : ∀ pre e post, es = pre ++ e :: post → ok (pre.foldl step s) e) :
    Meets step ok s es := by
  induction es generalizing s with
  | nil => trivial
  | cons e es ih => exact ⟨h [] e es rfl, ih fun pre a post hsplit => h (e :: pre) a post (by rw [hsplit]; rfl)⟩

/-- Events that are `good` anywhere. -/
theorem meets_of_forall {good : ε → Prop} {es : List ε} (h : ∀ e ∈ es, good e) : Meets step (fun _ => good) s es :=
  meets_of_splits fun pre e post hsplit => h e (by rw [hsplit]; simp)

theorem Meets.and {ok' : σ → ε → Prop} {es : List ε} (h : Meets step ok s es) (h' : Meets step ok' s es) :
    Meets step (fun s e => ok s e ∧ ok' s e) s es := by
  induction es generalizing s with
  | nil => trivial
  | cons e es ih => exact ⟨⟨h.1, h'.1⟩, ih h.2 h'.2⟩

/-- What every step that meets the condition keeps, a run of them keeps. -/
theorem Meets.keeps (hstep : ∀ s e, ok s e → P s → P (step s e)) {es : List ε} (h : Meets step ok s es)
    (hs : P s) : P (es.foldl step s) := by
  induction es generalizing s with
  | nil => exact hs
  | cons e es ih => exact ih h.2 (hstep s e h.1 hs)

/-- What every step keeps, every run keeps. -/
theorem keeps (hstep : ∀ s e, P s → P (step s e)) (es : List ε) (hs : P s) : P (es.foldl step s) := by
  induction es generalizing s with
  | nil => exact hs
  | cons e es ih => exact ih (hstep s e hs)

/-- What every step that is `good` and does not fail keeps, a run of them keeps. -/
theorem keepsM {step : σ → ε → Option σ} {good : ε → Prop} (hstep : ∀ s e s', good e → P s → step s e = some s' → P s')
    {es : List ε} {s' : σ} (hes : ∀ e ∈ es, good e) (hs : P s) (h : es.foldlM step s = some s') : P s' := by
  induction es generalizing s with
  | nil =>
      cases h
      exact hs
  | cons e es ih =>
      rw [List.foldlM_cons, Option.bind_eq_bind, Option.bind_eq_some_iff] at h
      obtain ⟨s₁, hfirst, hrest⟩ := h
      exact ih (fun a ha => hes a (List.mem_cons_of_mem _ ha)) (hstep s e s₁ (hes e (by simp)) hs hfirst) hrest

/-- Where no step fails, no run does. -/
theorem succeeds {step : σ → ε → Option σ} (hstep : ∀ s e, P s → ∃ s', step s e = some s' ∧ P s') (es : List ε)
    (hs : P s) : ∃ s', es.foldlM step s = some s' ∧ P s' := by
  induction es generalizing s with
  | nil => exact ⟨s, rfl, hs⟩
  | cons e es ih =>
      obtain ⟨s₁, hs₁, h₁⟩ := hstep s e hs
      obtain ⟨s₂, hs₂, h₂⟩ := ih h₁
      exact ⟨s₂, by rw [List.foldlM_cons, hs₁]; exact hs₂, h₂⟩

/-- A run that succeeds is, seen through `φ`, the run of the steps its own are. -/
theorem seen_through {τ : Type*} {step : σ → ε → Option σ} {step' : τ → ε → τ} (φ : σ → τ)
    (hstep : ∀ s e s', step s e = some s' → φ s' = step' (φ s) e) {es : List ε} {s' : σ}
    (h : es.foldlM step s = some s') : φ s' = es.foldl step' (φ s) := by
  induction es generalizing s with
  | nil => exact congrArg φ (Option.some.inj h).symm
  | cons e es ih =>
      rw [List.foldlM_cons, Option.bind_eq_bind, Option.bind_eq_some_iff] at h
      obtain ⟨s₁, hfirst, hrest⟩ := h
      rw [ih hrest, hstep s e s₁ hfirst, List.foldl_cons]

/-! ## Since -/

/-- An event that is `p` came, and none that is `q` after it. -/
def Since (p q : ε → Prop) (es : List ε) : Prop := ∃ pre e post, es = pre ++ e :: post ∧ p e ∧ ∀ a ∈ post, ¬q a

variable {p q : ε → Prop}

@[simp] theorem not_since_nil : ¬Since p q [] := by
  rintro ⟨pre, e, post, hsplit, -⟩
  simp at hsplit

theorem Since.imp {p' q' : ε → Prop} {es : List ε} (h : Since p q es) (hp : ∀ e, p e → p' e) (hq : ∀ e, q' e → q e) :
    Since p' q' es := by
  obtain ⟨pre, e, post, hsplit, he, hnone⟩ := h
  exact ⟨pre, e, post, hsplit, hp e he, fun a ha hqa => hnone a ha (hq a hqa)⟩

theorem Since.append {es es' : List ε} (h : Since p q es) (hnone : ∀ a ∈ es', ¬q a) : Since p q (es ++ es') := by
  obtain ⟨pre, e, post, rfl, he, hpost⟩ := h
  refine ⟨pre, e, post ++ es', by simp, he, fun a ha => ?_⟩
  rcases List.mem_append.mp ha with ha | ha
  · exact hpost a ha
  · exact hnone a ha

@[simp] theorem since_concat {es : List ε} {e : ε} : Since p q (es ++ [e]) ↔ p e ∨ Since p q es ∧ ¬q e := by
  constructor
  · rintro ⟨pre, a, post, hsplit, ha, hnone⟩
    rcases List.eq_nil_or_concat post with rfl | ⟨post, b, rfl⟩
    · obtain ⟨-, heq⟩ := List.append_inj' hsplit rfl
      simp only [List.cons.injEq, and_true] at heq
      exact Or.inl (heq ▸ ha)
    · rw [List.concat_eq_append, ← List.cons_append, ← List.append_assoc] at hsplit
      obtain ⟨rfl, heq⟩ := List.append_inj' hsplit rfl
      simp only [List.cons.injEq, and_true] at heq
      exact Or.inr ⟨⟨pre, a, post, rfl, ha, fun c hc => hnone c (by simp [hc])⟩, heq ▸ hnone b (by simp)⟩
  · rintro (he | ⟨⟨pre, a, post, rfl, ha, hnone⟩, he⟩)
    · exact ⟨es, e, [], rfl, he, by simp⟩
    · refine ⟨pre, a, post ++ [e], by simp, ha, fun c hc => ?_⟩
      rcases List.mem_append.mp hc with hc | hc
      · exact hnone c hc
      · exact List.mem_singleton.mp hc ▸ he

end Runs
