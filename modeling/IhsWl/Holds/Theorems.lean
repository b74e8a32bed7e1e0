import IhsWl.Holds
import IhsWl.Lib.Latest
import IhsWl.Lib.Runs

/-!
# Buffers held without a fence

The list a view's frames build up is what its history says: the latest buffers sent, down to the frame on
screen.
-/

namespace IhsWl

open Latest

/-- The calls on the buffers a view holds without a fence. -/
inductive HoldsOp where
  | hold (seq : Nat) (buffer : Held)
  | presented (seq : Nat)
  | clear
  deriving DecidableEq, Repr

namespace HoldsOp

/-- The latest seq submitted. -/
def lastSeq (last : Nat) : HoldsOp → Nat
  | .hold seq _ => seq
  | _ => last

/-- Seqs never decrease, and no frame is reported before it was submitted. -/
def inOrder (last : Nat) : HoldsOp → Prop
  | .hold seq _ => last ≤ seq
  | .presented seq => seq ≤ last
  | .clear => True

instance (last : Nat) (op : HoldsOp) : Decidable (op.inOrder last) :=
  match op with
  | .hold seq _ => inferInstanceAs (Decidable (last ≤ seq))
  | .presented seq => inferInstanceAs (Decidable (seq ≤ last))
  | .clear => .isTrue trivial

/-- The buffer sent, with its frame. -/
def sends : HoldsOp → Option (Nat × Held)
  | .hold seq buffer => some (seq, buffer)
  | _ => none

/-- The frame reported. -/
def shows : HoldsOp → Option Nat
  | .presented seq => some seq
  | _ => none

end HoldsOp

namespace Holds

variable {view : ViewId} {ops : List HoldsOp} {op : HoldsOp}

def step (view : ViewId) (h : Holds) : HoldsOp → Holds
  | .hold seq buffer => (h.holdUnfenced view seq buffer).1
  | .presented seq => (h.presented view seq).1
  | .clear => (h.clear view).1

def run (view : ViewId) (ops : List HoldsOp) : Holds := ops.foldl (step view) {}

/-- What a view's calls promise. -/
abbrev InOrder (ops : List HoldsOp) : Prop := Runs.Meets HoldsOp.lastSeq (fun last op => op.inOrder last) 0 ops

/-! ## The history -/

def sinceClear (ops : List HoldsOp) : List HoldsOp := ops.rtakeWhile (· ≠ .clear)

/-- What was sent since the last clear. -/
def sent (ops : List HoldsOp) : List (Nat × Held) := (sinceClear ops).filterMap HoldsOp.sends

/-- The highest frame reported since. -/
def top (ops : List HoldsOp) : Nat := ((sinceClear ops).filterMap HoldsOp.shows).foldl max 0

/-- The most recent buffers, by the last frame that sent each, that no frame after it was reported over. -/
def recent (ops : List HoldsOp) : List (Nat × Held) :=
  ((latest Prod.snd (sent ops)).rtake maxUnfenced).filter fun u => top ops ≤ u.1

theorem sinceClear_concat (h : op ≠ .clear) : sinceClear (ops ++ [op]) = sinceClear ops ++ [op] :=
  List.rtakeWhile_concat_pos _ _ _ (by simpa using h)

theorem sinceClear_clear : sinceClear (ops ++ [.clear]) = [] :=
  List.rtakeWhile_concat_neg _ _ _ (by simp)

@[simp] theorem sent_hold (seq : Nat) (buffer : Held) : sent (ops ++ [.hold seq buffer]) = sent ops ++ [(seq, buffer)] := by
  rw [sent, sinceClear_concat (by simp), List.filterMap_append]
  rfl

@[simp] theorem sent_presented (seq : Nat) : sent (ops ++ [.presented seq]) = sent ops := by
  rw [sent, sinceClear_concat (by simp), List.filterMap_append]
  exact List.append_nil _

@[simp] theorem sent_clear : sent (ops ++ [.clear]) = [] := by
  rw [sent, sinceClear_clear]
  rfl

@[simp] theorem top_hold (seq : Nat) (buffer : Held) : top (ops ++ [.hold seq buffer]) = top ops := by
  rw [top, sinceClear_concat (by simp), List.filterMap_append]
  exact congrArg (List.foldl max 0) (List.append_nil _)

@[simp] theorem top_presented (seq : Nat) : top (ops ++ [.presented seq]) = max (top ops) seq := by
  rw [top, sinceClear_concat (by simp), List.filterMap_append, List.foldl_append]
  rfl

@[simp] theorem top_clear : top (ops ++ [.clear]) = 0 := by
  rw [top, sinceClear_clear]
  rfl

/-- Frames are sent in order, and none is reported that was not. -/
structure Sent (ops : List HoldsOp) : Prop where
  sorted : (sent ops).Pairwise fun u v => u.1 ≤ v.1
  bounded : ∀ u ∈ sent ops, u.1 ≤ ops.foldl HoldsOp.lastSeq 0
  top : top ops ≤ ops.foldl HoldsOp.lastSeq 0

theorem sent_of_inOrder (h : InOrder ops) : Sent ops := by
  induction ops using List.reverseRecOn with
  | nil => constructor <;> simp [sent, top, sinceClear]
  | append_singleton ops op ih =>
      have hlast := h.last
      have hi := ih h.left
      cases op with
      | hold seq buffer =>
          change ops.foldl HoldsOp.lastSeq 0 ≤ seq at hlast
          refine ⟨?_, fun u hu => ?_, ?_⟩
          · rw [sent_hold]
            refine List.pairwise_append.mpr ⟨hi.sorted, List.pairwise_singleton _ _, fun u hu v hv => ?_⟩
            rw [List.mem_singleton.mp hv]
            exact (hi.bounded u hu).trans hlast
          · rw [List.foldl_append]
            change u.1 ≤ seq
            rw [sent_hold] at hu
            rcases List.mem_append.mp hu with hu | hu
            · exact (hi.bounded u hu).trans hlast
            · rw [List.mem_singleton.mp hu]
          · rw [top_hold, List.foldl_append]
            exact hi.top.trans hlast
      | presented seq =>
          refine ⟨?_, ?_, ?_⟩
          · rw [sent_presented]
            exact hi.sorted
          · rw [sent_presented, List.foldl_append]
            exact hi.bounded
          · rw [top_presented, List.foldl_append]
            exact max_le hi.top hlast
      | clear => constructor <;> simp

/-! ## The list -/

theorem sorted_latest (h : Sent ops) : (latest Prod.snd (sent ops)).Pairwise fun u v => u.1 ≤ v.1 :=
  h.sorted.sublist (latest_sublist Prod.snd _)

/-- What was reported over only comes first, so it may be dropped before the oldest are. -/
theorem recent_eq (h : Sent ops) : recent ops =
    ((latest Prod.snd (sent ops)).filter fun u => top ops ≤ u.1).rtake maxUnfenced :=
  filter_rtake ((sorted_latest h).imp fun hle htop => decide_eq_true ((of_decide_eq_true htop).trans hle))

theorem unfenced_holdUnfenced (h : Holds) (seq : Nat) (buffer : Held) (hle : h.unfenced.length ≤ maxUnfenced) :
    (h.holdUnfenced view seq buffer).1.unfenced =
      (h.unfenced.filter fun u => u.2 ≠ buffer).rtake (maxUnfenced - 1) ++ [(seq, buffer)] := by
  have hmax : 0 < maxUnfenced := by decide
  have hkept : (h.unfenced.filter fun u => u.2 ≠ buffer).length ≤ h.unfenced.length := List.length_filter_le _ _
  unfold holdUnfenced
  dsimp only
  generalize h.unfenced.filter (fun u => u.2 ≠ buffer) = kept at *
  rw [List.length_append, List.length_singleton]
  split
  · rename_i hfull
    rw [List.drop_append_of_le_length (by omega), List.rtake, show kept.length - (maxUnfenced - 1) = 1 by omega]
  · rw [List.drop_zero, rtake_of_length_le (by omega)]

theorem length_recent (ops : List HoldsOp) : (recent ops).length ≤ maxUnfenced := by
  refine (List.length_filter_le _ _).trans ?_
  rw [length_rtake]
  exact Nat.min_le_left _ _

theorem unfenced_eq_recent (view : ViewId) (h : InOrder ops) : (run view ops).unfenced = recent ops := by
  induction ops using List.reverseRecOn with
  | nil => rfl
  | append_singleton ops op ih =>
      have hi := ih h.left
      have hsent := sent_of_inOrder h
      have hbefore := sent_of_inOrder h.left
      have hlast := h.last
      rw [run, List.foldl_append, ← run]
      cases op with
      | hold seq buffer =>
          change ops.foldl HoldsOp.lastSeq 0 ≤ seq at hlast
          have hle : (run view ops).unfenced.length ≤ maxUnfenced := hi ▸ length_recent ops
          change ((run view ops).holdUnfenced view seq buffer).1.unfenced = _
          rw [unfenced_holdUnfenced _ seq buffer hle, hi, recent_eq hbefore, recent_eq hsent, sent_hold, top_hold,
            latest_concat]
          -- The list names no buffer twice, so the buffer sent again leaves one place.
          have hnames : (((latest Prod.snd (sent ops)).filter fun u => top ops ≤ u.1).map Prod.snd).Nodup :=
            (nodup_keys Prod.snd (sent ops)).sublist (List.filter_sublist.map _)
          have hone : (((latest Prod.snd (sent ops)).filter fun u => top ops ≤ u.1).filter
              fun u => !decide (u.2 ≠ buffer)).length ≤ 1 := by
            simpa using length_filter_key_le hnames buffer
          have hnew : [(seq, buffer)].filter (fun u => top ops ≤ u.1) = [(seq, buffer)] := by
            simpa using hbefore.top.trans hlast
          rw [show maxUnfenced = 63 + 1 from rfl, rtake_filter_rtake hone, List.filter_append, hnew, List.filter_filter,
            List.filter_filter, List.rtake_concat_succ]
          simp only [Bool.and_comm]
      | presented seq =>
          change ((run view ops).presented view seq).1.unfenced = _
          rw [Holds.presented]
          dsimp only
          rw [hi, recent, recent, sent_presented, top_presented, List.filter_filter]
          refine List.filter_congr fun u _ => ?_
          simp only [ge_iff_le, Nat.max_le, Bool.decide_and, Bool.and_comm]
      | clear =>
          rw [recent, sent_clear]
          rfl

/-! ## What goes back -/

theorem mem_recent {u : Nat × Held} : u ∈ recent ops ↔ u ∈ (latest Prod.snd (sent ops)).rtake maxUnfenced ∧ top ops ≤ u.1 := by
  rw [recent, List.mem_filter, decide_eq_true_iff]

/-- A buffer the list holds is sent by its frame, and not again. -/
theorem split_of_recent {u : Nat × Held} (h : u ∈ recent ops) :
    ∃ pre post, sent ops = pre ++ u :: post ∧ u.2 ∉ post.map Prod.snd :=
  exists_split ((rtake_suffix _ _).subset (mem_recent.mp h).1)

/-- What a view's frames hold without a fence. -/
structure HeldAsSent (view : ViewId) (ops : List HoldsOp) : Prop where
  list : (run view ops).unfenced = recent ops
  back : ∀ op, InOrder (ops ++ [op]) → ∀ seq buffer, (seq, buffer) ∈ (run view ops).unfenced →
    (∀ n, (n, buffer) ∉ (run view (ops ++ [op])).unfenced) → op = .clear ∨ (∃ n, op = .presented n ∧ seq < n) ∨
      ∃ pre post, sent (ops ++ [op]) = pre ++ (seq, buffer) :: post ∧ buffer ∉ post.map Prod.snd ∧
        maxUnfenced ≤ (post.map Prod.snd).dedup.length
  lastTwo : (∀ n, ((sent ops).filter fun u => u.1 = n).length ≤ maxUnfenced / 2) →
    ∀ seq buffer, (seq, buffer) ∈ sent ops → top ops ≤ seq → (∃ last, ∀ u ∈ sent ops, seq < u.1 → u.1 = last) →
      ∃ n, seq ≤ n ∧ (n, buffer) ∈ (run view ops).unfenced

/-- A buffer goes back for a frame reported over the last that sent it, for as many others sent after it as the
list holds, or with the view. -/
theorem gone_because (view : ViewId) (hop : InOrder (ops ++ [op])) {seq : Nat} {buffer : Held}
    (hmem : (seq, buffer) ∈ (run view ops).unfenced) (hgone : ∀ n, (n, buffer) ∉ (run view (ops ++ [op])).unfenced) :
    op = .clear ∨ (∃ n, op = .presented n ∧ seq < n) ∨
      ∃ pre post, sent (ops ++ [op]) = pre ++ (seq, buffer) :: post ∧ buffer ∉ post.map Prod.snd ∧
        maxUnfenced ≤ (post.map Prod.snd).dedup.length := by
  have hlast := hgone seq
  rw [unfenced_eq_recent view hop.left] at hmem
  rw [unfenced_eq_recent view hop] at hlast
  obtain ⟨hrecent, htop⟩ := mem_recent.mp hmem
  cases op with
  | clear => exact Or.inl rfl
  | presented n =>
      refine Or.inr (Or.inl ⟨n, rfl, ?_⟩)
      by_contra hle
      refine hlast (mem_recent.mpr ?_)
      rw [sent_presented, top_presented]
      exact ⟨hrecent, max_le htop (Nat.le_of_not_lt hle)⟩
  | hold n other =>
      refine Or.inr (Or.inr ?_)
      have hne : buffer ≠ other := by
        rintro rfl
        refine hgone n ?_
        have hnew := @unfenced_holdUnfenced view (run view ops) n buffer
          (unfenced_eq_recent view hop.left ▸ length_recent ops)
        rw [run, List.foldl_append, ← run]
        change (n, buffer) ∈ ((run view ops).holdUnfenced view n buffer).1.unfenced
        rw [hnew]
        exact List.mem_append_right _ (List.mem_singleton.mpr rfl)
      obtain ⟨pre, post, hsent, hpost⟩ := split_of_recent hmem
      have hafter : sent (ops ++ [.hold n other]) = pre ++ (seq, buffer) :: (post ++ [(n, other)]) := by
        rw [sent_hold, hsent, List.append_assoc, List.cons_append]
      have hnot : buffer ∉ (post ++ [(n, other)]).map Prod.snd := by
        simpa [hne] using hpost
      refine ⟨pre, post ++ [(n, other)], hafter, hnot, ?_⟩
      rw [← map_latest, List.length_map]
      by_contra hfew
      refine hlast (mem_recent.mpr ⟨?_, by rw [top_hold]; exact htop⟩)
      rw [hafter]
      exact (mem_rtake_latest hnot).mpr (Nat.lt_of_not_le hfew)

/-- Two frames never fill the list. -/
theorem lastTwo_held (h : InOrder ops) (hlayers : ∀ n, ((sent ops).filter fun u => u.1 = n).length ≤ maxUnfenced / 2)
    {seq : Nat} {buffer : Held} (hmem : (seq, buffer) ∈ sent ops) (htop : top ops ≤ seq)
    (hlast : ∃ last, ∀ u ∈ sent ops, seq < u.1 → u.1 = last) : ∃ n, seq ≤ n ∧ (n, buffer) ∈ recent ops := by
  obtain ⟨last, hlast⟩ := hlast
  have hkey : buffer ∈ (latest Prod.snd (sent ops)).map Prod.snd := by
    rw [map_latest, List.mem_dedup]
    exact List.mem_map.mpr ⟨_, hmem, rfl⟩
  obtain ⟨u, hu, rfl⟩ := List.mem_map.mp hkey
  obtain ⟨pre, post, hsent, hpost⟩ := exists_split hu
  have hsorted := (sent_of_inOrder h).sorted
  rw [hsent] at hsorted
  obtain ⟨-, hrest, hbefore⟩ := List.pairwise_append.mp hsorted
  have hle : seq ≤ u.1 := by
    rw [hsent] at hmem
    rcases List.mem_append.mp hmem with hmem | hmem
    · exact hbefore _ hmem _ List.mem_cons_self
    · rcases List.mem_cons.mp hmem with he | hmem
      · exact Nat.le_of_eq (congrArg Prod.fst he)
      · exact absurd (List.mem_map.mpr ⟨_, hmem, rfl⟩) hpost
  refine ⟨u.1, hle, mem_recent.mpr ⟨?_, htop.trans hle⟩⟩
  -- What comes after is of the same frame, or of the one after it.
  have hsub : (u :: post).Sublist (sent ops) := hsent ▸ List.sublist_append_right pre _
  have hsame : ((u :: post).filter fun v => v.1 = u.1).length ≤ maxUnfenced / 2 :=
    ((hsub.filter _).length_le).trans (hlayers u.1)
  have hothers : ((u :: post).filter fun v => !decide (v.1 = u.1)).length ≤ maxUnfenced / 2 := by
    refine le_trans ?_ (((hsub.filter fun v => decide (v.1 = last)).length_le).trans (hlayers last))
    rw [← List.countP_eq_length_filter, ← List.countP_eq_length_filter]
    refine List.countP_mono_left fun v hv hne => decide_eq_true (hlast v (hsub.subset hv) ?_)
    rcases List.mem_cons.mp hv with rfl | hv
    · simp at hne
    · have hafter := (List.pairwise_cons.mp hrest).1 v hv
      have hne : v.1 ≠ u.1 := by simpa using hne
      omega
  have hsplit := List.length_eq_length_filter_add (fun v : Nat × Held => v.1 = u.1) (l := u :: post)
  have hfew : (latest Prod.snd post).length ≤ post.length := (latest_sublist Prod.snd post).length_le
  rw [hsent]
  refine (mem_rtake_latest hpost).mpr ?_
  have hmax : maxUnfenced = 64 := rfl
  rw [List.length_cons] at hsplit
  omega

theorem heldAsSent (view : ViewId) (ops : List HoldsOp) (h : InOrder ops) : HeldAsSent view ops where
  list := unfenced_eq_recent view h
  back _ hop _ _ hmem hgone := gone_because view hop hmem hgone
  lastTwo hlayers _ _ hmem htop hlast := unfenced_eq_recent view h ▸ lastTwo_held h hlayers hmem htop hlast

/-- Two buffers in turn, and the second frame reported. -/
theorem heldAsSent_swapped : HeldAsSent 1 [.hold 1 (.client 1), .hold 2 (.client 2), .presented 2, .hold 3 (.client 1)] :=
  heldAsSent 1 _ (by decide)

end Holds

end IhsWl
