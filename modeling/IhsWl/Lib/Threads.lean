import IhsWl.Lib.Runs

/-!
# Threads and locks

Threads that take atomic steps in any order. A step sees what they share and which locks are taken, and takes only locks
that are free. What one step keeps, of its own thread and of any other that holds no lock it needs, all keep.
-/

/-- The program every thread runs: the locks a thread holds where it is, and its next step, by what a choice says. A
step says where the thread is then, what it leaves shared, and the threads it starts. -/
structure Program (κ α σ χ : Type*) where
  holds : α → κ → Bool
  next : (κ → Bool) → σ → χ → α → Option (α × σ × List α)
  careful : ∀ held s c a b s' new, next held s c a = some (b, s', new) →
    (∀ l, holds b l = true → holds a l = true ∨ held l = false) ∧ ∀ d ∈ new, ∀ l, holds d l = false

/-- Threads, by where each is, and what they share. -/
structure Pool (α σ : Type*) where
  threads : List α := []
  shared : σ

namespace Pool

variable {κ α σ χ : Type*} (P : Program κ α σ χ)

def held (p : Pool α σ) (l : κ) : Bool := p.threads.any fun a => P.holds a l

/-- The thread `i` takes a step. -/
def go (i : Nat) (c : χ) (p : Pool α σ) : Option (Pool α σ) :=
  match p.threads[i]? with
  | none => none
  | some a => (P.next (p.held P) p.shared c a).map fun r =>
      { threads := p.threads.set i r.1 ++ r.2.2, shared := r.2.1 }

/-- A thread comes from outside. -/
def enter (a : α) (s : σ) (p : Pool α σ) : Pool α σ := { threads := p.threads ++ [a], shared := s }

variable {P} {p p' : Pool α σ}

theorem held_iff {l : κ} : p.held P l = true ↔ ∃ a ∈ p.threads, P.holds a l = true := by
  rw [held, List.any_eq_true]

theorem go_cases {i : Nat} {c : χ} (h : p.go P i c = some p') : ∃ a b s new, p.threads[i]? = some a ∧
    P.next (p.held P) p.shared c a = some (b, s, new) ∧ p' = { threads := p.threads.set i b ++ new, shared := s } := by
  unfold go at h
  split at h
  · cases h
  · rename_i a ha
    obtain ⟨⟨b, s, new⟩, hnext, rfl⟩ := Option.map_eq_some_iff.mp h
    exact ⟨a, b, s, new, ha, hnext, rfl⟩

/-! ## Invariants -/

/-- Two threads are apart: they share no lock, and `R` holds of them. -/
structure Apart (P : Program κ α σ χ) (R : α → α → Prop) (a b : α) : Prop where
  locks : ∀ l, P.holds a l = true → P.holds b l = false
  rest : R a b

theorem Apart.symm {R : α → α → Prop} (hR : ∀ {a b}, R a b → R b a) {a b : α} (h : Apart P R a b) : Apart P R b a := by
  refine ⟨fun l hb => ?_, hR h.rest⟩
  cases ha : P.holds a l with
  | false => rfl
  | true => rw [h.locks l ha] at hb; cases hb

/-- What the threads share is as `G` says, each thread is as `Ok` says, and any two are apart. -/
structure Keeps (P : Program κ α σ χ) (G : σ → Prop) (Ok : σ → α → Prop) (R : α → α → Prop) (p : Pool α σ) : Prop where
  shared : G p.shared
  each : ∀ (i : Nat) a, p.threads[i]? = some a → Ok p.shared a
  apart : ∀ (i j : Nat) a b, p.threads[i]? = some a → p.threads[j]? = some b → i ≠ j → Apart P R a b

/-- What is to be shown of a program, that its invariant is one of any number of threads whose choices are `allowed`: of
the thread that takes a step, of a thread beside it, and of the one it may start. -/
structure Sound (P : Program κ α σ χ) (allowed : χ → Prop) (G : σ → Prop) (Ok : σ → α → Prop) (R : α → α → Prop) : Prop where
  symm : ∀ {a b}, R a b → R b a
  own : ∀ {held s c a b s' new}, P.next held s c a = some (b, s', new) → allowed c → G s → Ok s a →
    G s' ∧ Ok s' b ∧ ∀ d ∈ new, Ok s' d
  beside : ∀ {held s c a b s' new d}, P.next held s c a = some (b, s', new) → allowed c → G s → Ok s a → Ok s d →
    Apart P R a d → (∀ l, P.holds d l = true → held l = true) → Ok s' d ∧ R b d ∧ ∀ e ∈ new, R e d
  fresh : ∀ {held s c a b s' new}, P.next held s c a = some (b, s', new) → G s → Ok s a →
    (∀ e ∈ new, R e b) ∧ new.length ≤ 1

variable {allowed : χ → Prop} {G : σ → Prop} {Ok : σ → α → Prop} {R : α → α → Prop}

theorem Keeps.go (h : Keeps P G Ok R p) (hP : Sound P allowed G Ok R) {i : Nat} {c : χ} (hc : allowed c)
    (hgo : p.go P i c = some p') : Keeps P G Ok R p' := by
  obtain ⟨a, b, s, new, ha, hnext, rfl⟩ := go_cases hgo
  obtain ⟨hcareful, hbare⟩ := P.careful _ _ _ _ _ _ _ hnext
  have hok := h.each i a ha
  obtain ⟨hshared, hown, hnew⟩ := hP.own hnext hc h.shared hok
  obtain ⟨hfresh, hone⟩ := hP.fresh hnext h.shared hok
  have hi : i < p.threads.length := (List.getElem?_eq_some_iff.mp ha).1
  have hheld {j : Nat} {d : α} (hd : p.threads[j]? = some d) : ∀ l, P.holds d l = true → p.held P l = true :=
    fun l hl => held_iff.mpr ⟨d, List.mem_of_getElem? hd, hl⟩
  have hbeside {j : Nat} {d : α} (hd : p.threads[j]? = some d) (hij : i ≠ j) :=
    hP.beside hnext hc h.shared hok (h.each j d hd) (h.apart i j a d ha hd hij) (hheld hd)
  -- A thread is the one that took the step, one beside it, or one it started.
  have hthread {j : Nat} {d : α} (hd : (p.threads.set i b ++ new)[j]? = some d) :
      (j = i ∧ d = b) ∨ (j ≠ i ∧ p.threads[j]? = some d) ∨ (j = p.threads.length ∧ d ∈ new) := by
    rw [List.getElem?_append] at hd
    split at hd
    · rw [List.getElem?_set] at hd
      split at hd
      · rename_i hij
        exact Or.inl ⟨hij.symm, (Option.some.inj hd).symm⟩
      · rename_i hij
        exact Or.inr (Or.inl ⟨Ne.symm hij, hd⟩)
    · rename_i hj
      obtain ⟨hlt, -⟩ := List.getElem?_eq_some_iff.mp hd
      rw [List.length_set] at hj hlt
      exact Or.inr (Or.inr ⟨by omega, List.mem_of_getElem? hd⟩)
  have hlocks {j : Nat} {d : α} (hd : p.threads[j]? = some d) (hij : i ≠ j) : Apart P R b d := by
    refine ⟨fun l hl => ?_, (hbeside hd hij).2.1⟩
    rcases hcareful l hl with hl | hfree
    · exact (h.apart i j a d ha hd hij).locks l hl
    · cases hdl : P.holds d l with
      | false => rfl
      | true => rw [hheld hd l hdl] at hfree; cases hfree
  have hstarted {e d : α} (he : e ∈ new) (hR : R e d) : Apart P R e d := by
    refine ⟨fun l hl => ?_, hR⟩
    rw [hbare e he l] at hl
    cases hl
  refine ⟨hshared, fun j d hd => ?_, fun j k d e hd he hjk => ?_⟩
  · rcases hthread hd with ⟨-, rfl⟩ | ⟨hji, hd'⟩ | ⟨-, hd'⟩
    · exact hown
    · exact (hbeside hd' (Ne.symm hji)).1
    · exact hnew d hd'
  · rcases hthread hd with ⟨rfl, rfl⟩ | ⟨hji, hd'⟩ | ⟨rfl, hd'⟩ <;>
      rcases hthread he with ⟨rfl, rfl⟩ | ⟨hki, he'⟩ | ⟨rfl, he'⟩
    · exact absurd rfl hjk
    · exact hlocks he' hjk
    · exact (hstarted he' (hfresh e he')).symm hP.symm
    · exact (hlocks hd' (Ne.symm hjk)).symm hP.symm
    · exact h.apart j k d e hd' he' hjk
    · exact (hstarted he' ((hbeside hd' (Ne.symm hji)).2.2 e he')).symm hP.symm
    · exact hstarted hd' (hfresh d hd')
    · exact hstarted hd' ((hbeside he' (Ne.symm hki)).2.2 d hd')
    · exact absurd rfl hjk

/-- A thread that comes from outside holds no lock. -/
theorem Keeps.enter (h : Keeps P G Ok R p) (hR : ∀ {a b}, R a b → R b a) {a : α} {s : σ} (hbare : ∀ l, P.holds a l = false)
    (hG : G s) (hown : Ok s a) (hbeside : ∀ d ∈ p.threads, Ok p.shared d → Ok s d ∧ R a d) : Keeps P G Ok R (p.enter a s) := by
  have hthread {j : Nat} {d : α} (hd : (p.threads ++ [a])[j]? = some d) :
      p.threads[j]? = some d ∨ (j = p.threads.length ∧ d = a) := by
    rw [List.getElem?_append] at hd
    split at hd
    · exact Or.inl hd
    · obtain ⟨hlt, heq⟩ := List.getElem?_eq_some_iff.mp hd
      rw [List.length_singleton] at hlt
      exact Or.inr ⟨by omega, by simpa using heq.symm⟩
  have hapart {j : Nat} {d : α} (hd : p.threads[j]? = some d) : Apart P R a d := by
    refine ⟨fun l hl => ?_, (hbeside d (List.mem_of_getElem? hd) (h.each j d hd)).2⟩
    rw [hbare l] at hl
    cases hl
  refine ⟨hG, fun j d hd => ?_, fun j k d e hd he hjk => ?_⟩
  · rcases hthread hd with hd' | ⟨-, rfl⟩
    · exact (hbeside d (List.mem_of_getElem? hd') (h.each j d hd')).1
    · exact hown
  · rcases hthread hd with hd' | ⟨rfl, rfl⟩ <;> rcases hthread he with he' | ⟨rfl, rfl⟩
    · exact h.apart j k d e hd' he' hjk
    · exact (hapart hd').symm hR
    · exact hapart he'
    · exact absurd rfl hjk

/-! ## No thread waits forever -/

/-- Where whoever waits, waits for a thread of higher rank, some thread does not wait. -/
theorem exists_moving {ι : Type*} {busy moves : ι → Prop} {rank : ι → Nat} {top : Nat} (htop : ∀ a, busy a → rank a ≤ top)
    (hwait : ∀ a, busy a → moves a ∨ ∃ b, busy b ∧ rank a < rank b) {a : ι} (ha : busy a) : ∃ b, busy b ∧ moves b := by
  have hclimb (n : Nat) : ∀ a, busy a → top - rank a ≤ n → ∃ b, busy b ∧ moves b := by
    induction n with
    | zero =>
        intro a ha hn
        rcases hwait a ha with hmoves | ⟨b, hb, hlt⟩
        · exact ⟨a, ha, hmoves⟩
        · have hle := htop b hb
          omega
    | succ n ih =>
        intro a ha hn
        rcases hwait a ha with hmoves | ⟨b, hb, hlt⟩
        · exact ⟨a, ha, hmoves⟩
        · exact ih b hb (by have hle := htop b hb; omega)
  exact hclimb _ a ha (Nat.le_refl _)

end Pool
