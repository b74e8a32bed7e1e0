import Mathlib.Data.List.Basic
import Mathlib.Algebra.Group.Nat.Defs

/-!
# Decoding by position

Decoders that read on from a position of a message, for formats in which what is written depends on where. A writer
appends; what it appended is read back from a message that has it all, and nothing is from one cut short.
-/

namespace Decode

variable {τ α β ε : Type}

/-- A message, and how far it is read. -/
structure Cursor (τ : Type) where
  bytes : List τ
  pos : Nat

abbrev Decoder (τ α : Type) := StateT (Cursor τ) Option α

/-- From `b` on, `f` reads `x` where the message goes on to `b'`, and fails where it ends on the way there. -/
structure Reads (f : Decoder τ α) (b b' : List τ) (x : α) : Prop where
  grows : b <+: b'
  whole : ∀ bytes, b' <+: bytes → f ⟨bytes, b.length⟩ = some (x, ⟨bytes, b'.length⟩)
  cut : ∀ bytes, b <+: bytes → bytes <+: b' → bytes.length < b'.length → f ⟨bytes, b.length⟩ = none

/-- Where the message is read from. -/
def position : Decoder τ Nat := fun c => some (c.pos, c)

variable {f : Decoder τ α} {g : α → Decoder τ β} {b b' b'' : List τ} {x : α} {y : β}

theorem Reads.pure (b : List τ) (x : α) : Reads (Pure.pure x : Decoder τ α) b b x where
  grows := List.prefix_rfl
  whole _ _ := rfl
  cut bytes h h' hlt := by
    have hle := h.length_le
    omega

theorem Reads.position (b : List τ) : Reads Decode.position b b b.length where
  grows := List.prefix_rfl
  whole _ _ := rfl
  cut bytes h h' hlt := by
    have hle := h.length_le
    omega

theorem bind_apply (f : Decoder τ α) (g : α → Decoder τ β) (c : Cursor τ) :
    (f >>= g) c = (f c).bind fun r => g r.1 r.2 := rfl

theorem Reads.bind (hf : Reads f b b' x) (hg : Reads (g x) b' b'' y) : Reads (f >>= g) b b'' y where
  grows := hf.grows.trans hg.grows
  whole bytes h := by
    rw [bind_apply, hf.whole bytes (hg.grows.trans h)]
    exact hg.whole bytes h
  cut bytes h h' hlt := by
    rw [bind_apply]
    -- The message ends before `b'`, or after it.
    rcases List.prefix_or_prefix_of_prefix h' hg.grows with hshort | hlong
    · by_cases heq : bytes.length < b'.length
      · rw [hf.cut bytes h hshort heq]
        rfl
      · have hall := hshort.eq_of_length_le (Nat.le_of_not_lt heq)
        rw [hf.whole bytes (hall ▸ List.prefix_rfl)]
        exact hg.cut bytes (hall ▸ List.prefix_rfl) h' hlt
    · rw [hf.whole bytes hlong]
      exact hg.cut bytes hlong h' hlt

theorem Reads.returns (hf : Reads f b b' x) (hy : g x = Pure.pure y) : Reads (f >>= g) b b' y :=
  hf.bind (hy ▸ Reads.pure b' y)

/-- What a decoder cannot go on from, none of it is read from. -/
theorem Reads.bind_none (hf : Reads f b b' x) {bytes : List τ} (h : b' <+: bytes)
    (hg : g x ⟨bytes, b'.length⟩ = none) : (f >>= g) ⟨bytes, b.length⟩ = none := by
  rw [bind_apply, hf.whole bytes h]
  exact hg

/-! ## Items one after another -/

/-- The items a decoder finds, `n` at most, up to the first it cannot read. -/
def items (f : Decoder τ α) : Nat → Cursor τ → List α
  | 0, _ => []
  | n + 1, c =>
      match f c with
      | none => []
      | some (x, c) => x :: items f n c

variable {item : Decoder τ α} {w : List τ → ε → List τ} {φ : ε → α} {xs : List ε}

/-- The items, each with where it ends. -/
def placed (w : List τ → ε → List τ) : List τ → List ε → List (ε × Nat)
  | _, [] => []
  | b, x :: xs => (x, (w b x).length) :: placed w (w b x) xs

/-- The items that lie within the first `n` of the message. -/
def within (w : List τ → ε → List τ) (b : List τ) (xs : List ε) (n : Nat) : List ε :=
  ((placed w b xs).filter fun p => p.2 ≤ n).map Prod.fst

theorem items_succ (item : Decoder τ α) (n : Nat) (c : Cursor τ) :
    items item (n + 1) c = ((item c).map fun r => r.1 :: items item n r.2).getD [] := by
  rw [items]
  cases item c <;> rfl

theorem prefix_foldl (hw : ∀ x ∈ xs, ∀ b, b <+: w b x) (b : List τ) : b <+: xs.foldl w b := by
  induction xs generalizing b with
  | nil => exact List.prefix_rfl
  | cons x xs ih =>
      exact (hw x (by simp) b).trans (ih (fun y hy => hw y (List.mem_cons_of_mem x hy)) (w b x))

theorem within_nil_of_lt (hw : ∀ x ∈ xs, ∀ b, b <+: w b x) {n : Nat} (hlt : n < b.length) : within w b xs n = [] := by
  induction xs generalizing b with
  | nil => rfl
  | cons x xs ih =>
      have hlen := (hw x (by simp) b).length_le
      have hrest := ih (fun y hy => hw y (List.mem_cons_of_mem x hy)) (show n < (w b x).length by omega)
      simp only [within, placed, List.filter_cons]
      rw [if_neg (by simp; omega)]
      exact hrest

/-- From a message that goes on after the items written, they are read and then what follows. -/
theorem items_written (hread : ∀ x ∈ xs, ∀ b, Reads item b (w b x) (φ x)) {n : Nat} {bytes : List τ}
    (h : xs.foldl w b <+: bytes) :
    items item (xs.length + n) ⟨bytes, b.length⟩ =
      xs.map φ ++ items item n ⟨bytes, (xs.foldl w b).length⟩ := by
  induction xs generalizing b with
  | nil => simp
  | cons x xs ih =>
      have hrest : ∀ y ∈ xs, ∀ b, Reads item b (w b y) (φ y) := fun y hy => hread y (List.mem_cons_of_mem x hy)
      have hnext : w b x <+: bytes := (prefix_foldl (fun y hy b => (hrest y hy b).grows) _).trans h
      rw [List.length_cons, Nat.succ_add, items_succ, (hread x (by simp) b).whole bytes hnext]
      simp only [Option.map_some, Option.getD_some, List.map_cons, List.cons_append, List.foldl_cons]
      rw [ih hrest h]

/-- From a message cut short the items that lie within it are read. -/
theorem items_cut (hread : ∀ x ∈ xs, ∀ b, Reads item b (w b x) (φ x)) {n : Nat} (hn : b.length ≤ n) :
    items item xs.length ⟨(xs.foldl w b).take n, b.length⟩ = (within w b xs n).map φ := by
  induction xs generalizing b with
  | nil => rfl
  | cons x xs ih =>
      have hrest : ∀ y ∈ xs, ∀ b, Reads item b (w b y) (φ y) := fun y hy => hread y (List.mem_cons_of_mem x hy)
      have hgrows : ∀ y ∈ xs, ∀ b, b <+: w b y := fun y hy b => (hrest y hy b).grows
      have hfirst := hread x (by simp) b
      have hpre : w b x <+: xs.foldl w (w b x) := prefix_foldl hgrows _
      rw [List.length_cons, items_succ, List.foldl_cons]
      by_cases hle : (w b x).length ≤ n
      · rw [hfirst.whole _ (List.prefix_take_iff.mpr ⟨hpre, hle⟩)]
        simp only [Option.map_some, Option.getD_some]
        rw [ih hrest hle]
        simp [within, placed, hle]
      · -- The first item is cut, and every other lies behind it.
        have hcut : (xs.foldl w (w b x)).take n = (w b x).take n := by
          obtain ⟨rest, hsplit⟩ := hpre
          rw [← hsplit, List.take_append_of_le_length (by omega)]
        rw [hcut, hfirst.cut _ (List.prefix_take_iff.mpr ⟨hfirst.grows, hn⟩) (List.take_prefix _ _) (by simp; omega)]
        have hnone := within_nil_of_lt hgrows (Nat.lt_of_not_le hle)
        simp only [within, placed, List.filter_cons] at hnone ⊢
        rw [if_neg (by simpa using hle), hnone]
        rfl

/-! ## Numbers -/

/-- The low `k` bytes of `v`, lowest first. -/
def leBytes : Nat → Nat → List UInt8
  | 0, _ => []
  | k + 1, v => UInt8.ofNat v :: leBytes k (v / 256)

/-- The number bytes stand for, lowest first. -/
def ofLe : List UInt8 → Nat
  | [] => 0
  | d :: ds => d.toNat + 256 * ofLe ds

@[simp] theorem length_leBytes (k v : Nat) : (leBytes k v).length = k := by
  induction k generalizing v with
  | zero => rfl
  | succ k ih => simp [leBytes, ih]

theorem ofLe_leBytes (k v : Nat) : ofLe (leBytes k v) = v % 256 ^ k := by
  induction k generalizing v with
  | zero => simp [leBytes, ofLe, Nat.mod_one]
  | succ k ih =>
      rw [leBytes, ofLe, ih, Nat.pow_succ, Nat.mul_comm (256 ^ k), Nat.mod_mul]
      simp

end Decode
