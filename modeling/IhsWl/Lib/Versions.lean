import Mathlib.Data.Set.Basic

/-!
# Copies that fall behind

A value that changes version by version at some of its positions, and copies of it brought up to date by copying
what changed since their own version. A copy may be left half done.
-/

namespace Versions

variable {π ν κ : Type*}

/-- The versions of a value. A shape says which positions there are; `changed` tells what changed from a version, or
from none, up to another. -/
structure History (π ν κ : Type*) where
  shape : Nat → Option κ
  inside : κ → Set π
  value : Nat → π → ν
  changed : Option Nat → Nat → Set π
  whole : ∀ n k, shape n = some k → inside k ⊆ changed none n
  covers : ∀ c n k, c ≤ n → shape c = some k → shape n = some k → ∀ p ∈ inside k, value c p ≠ value n p →
    p ∈ changed (some c) n
  grows : ∀ c m n k, c ≤ m → m ≤ n → shape c = some k → shape m = some k → shape n = some k →
    ∀ p ∈ inside k, p ∈ changed (some c) m → p ∈ changed (some c) n

variable {h : History π ν κ} {k : κ} {mark : Option Nat} {n : Nat} {f f' : π → ν}

/-- `f` is its version `mark`, but for what a copy up to a later version, no later than `n`, may have left half
done. -/
def Tracks (h : History π ν κ) (k : κ) (mark : Option Nat) (n : Nat) (f : π → ν) : Prop :=
  ∀ c, mark = some c → c ≤ n ∧ h.shape c = some k ∧ ∀ p ∈ h.inside k, f p = h.value c p ∨
    ∃ m, c < m ∧ m ≤ n ∧ h.shape m = some k ∧ p ∈ h.changed (some c) m

namespace Tracks

theorem fresh (f : π → ν) : Tracks h k none n f := fun _ hc => by cases hc

theorem exact (hn : h.shape n = some k) (hf : ∀ p ∈ h.inside k, f p = h.value n p) : Tracks h k (some n) n f := by
  intro c hc
  cases hc
  exact ⟨Nat.le_refl n, hn, fun p hp => Or.inl (hf p hp)⟩

/-- The value changes, and the copy does not. -/
theorem later {n' : Nat} (ht : Tracks h k mark n f) (hle : n ≤ n') : Tracks h k mark n' f := by
  intro c hc
  obtain ⟨hcn, hshape, hp⟩ := ht c hc
  refine ⟨Nat.le_trans hcn hle, hshape, fun p hin => (hp p hin).imp id ?_⟩
  rintro ⟨m, hcm, hmn, hm⟩
  exact ⟨m, hcm, Nat.le_trans hmn hle, hm⟩

/-- A copy that was begun and given up wrote nothing but what changed since its version. -/
theorem abandoned (ht : Tracks h k mark n f) (hn : h.shape n = some k) (hbehind : mark ≠ some n)
    (hrest : ∀ p ∈ h.inside k, p ∉ h.changed mark n → f' p = f p) : Tracks h k mark n f' := by
  rintro c rfl
  obtain ⟨hcn, hshape, hp⟩ := ht c rfl
  have hlt : c < n := Nat.lt_of_le_of_ne hcn fun heq => hbehind (by rw [heq])
  refine ⟨hcn, hshape, fun p hin => ?_⟩
  by_cases hchanged : p ∈ h.changed (some c) n
  · exact Or.inr ⟨n, hlt, Nat.le_refl n, hn, hchanged⟩
  · rw [hrest p hin hchanged]
    exact hp p hin

/-- Copying what changed since its version brings a copy up to date, whatever was left half done before. -/
theorem caughtUp (ht : Tracks h k mark n f) (hn : h.shape n = some k)
    (hcopied : ∀ p ∈ h.inside k, p ∈ h.changed mark n → f' p = h.value n p)
    (hrest : ∀ p ∈ h.inside k, p ∉ h.changed mark n → f' p = f p) : ∀ p ∈ h.inside k, f' p = h.value n p := by
  intro p hin
  by_cases hchanged : p ∈ h.changed mark n
  · exact hcopied p hin hchanged
  · rw [hrest p hin hchanged]
    cases mark with
    | none => exact absurd (h.whole n k hn hin) hchanged
    | some c =>
        obtain ⟨hcn, hshape, hp⟩ := ht c rfl
        rcases hp p hin with hsame | ⟨m, hcm, hmn, hm, hdone⟩
        · by_contra hne
          rw [hsame] at hne
          exact hchanged (h.covers c n k hcn hshape hn p hin hne)
        · exact absurd (h.grows c m n k (Nat.le_of_lt hcm) hmn hshape hm hn p hin hdone) hchanged

/-- A copy of the version there is now is that version. -/
theorem current (ht : Tracks h k (some n) n f) : ∀ p ∈ h.inside k, f p = h.value n p := by
  intro p hin
  obtain ⟨-, -, hp⟩ := ht n rfl
  rcases hp p hin with hsame | ⟨m, hnm, hmn, -⟩
  · exact hsame
  · exact absurd hnm (Nat.not_lt.mpr hmn)

end Tracks

end Versions
