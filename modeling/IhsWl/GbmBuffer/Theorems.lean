import IhsWl.GbmBuffer
import IhsWl.Handing.Lemmas
import IhsWl.Lib.Runs

/-!
# Every fd of a gbm buffer is closed once

However a create ends, the fds it brought and those dup'd on the way are closed, but for the planes of the buffer made,
which are closed with it.
-/

namespace IhsWl.GbmBuffer

open Custody
open Handing (Fd Desk)

variable {k : Desk} {own fds : List Fd} {fd metadata : Fd} {calls : Calls}

/-- The fds still open are `own`; none goes elsewhere. -/
structure Tends (k : Desk) (own : List Fd) : Prop where
  keeps : k.Keeps own
  unpassed : ∀ fd, .passed fd ∉ k.log

namespace Tends

theorem perm {own' : List Fd} (h : Tends k own) (hp : own.Perm own') : Tends k own' := ⟨h.keeps.perm hp, h.unpassed⟩

theorem dup (h : Tends k own) : Tends k.dup (own ++ [k.next]) := by
  refine ⟨h.keeps.dup, fun fd hfd => ?_⟩
  rcases List.mem_append.mp hfd with hfd | hfd
  · exact h.unpassed fd hfd
  · cases List.mem_singleton.mp hfd

theorem close (h : Tends k (own ++ fds)) : Tends (close k fds) own := by
  refine ⟨⟨h.keeps.owns.close, fun fd hfd => ?_⟩, fun fd hfd => ?_⟩
  · rcases List.mem_append.mp hfd with hfd | hfd
    · exact h.keeps.fresh fd hfd
    · obtain ⟨_, -, he⟩ := List.mem_map.mp hfd
      cases he
  · rcases List.mem_append.mp hfd with hfd | hfd
    · exact h.unpassed fd hfd
    · obtain ⟨_, -, he⟩ := List.mem_map.mp hfd
      cases he

end Tends

theorem importGbmBuf_keeps (h : Tends k (own ++ [metadata])) : Tends (importGbmBuf metadata calls k).2 own := by
  have hdup : Tends k.dup (own ++ [k.next, metadata]) :=
    h.dup.perm (by rw [List.append_assoc]; exact (List.Perm.swap ..).append_left own)
  unfold importGbmBuf
  split
  · exact h.close
  · split
    · exact hdup.close
    · exact hdup.close

/-- The planes added, whether or not a dup failed. -/
def added : Except (List (Fd × Plane)) (List (Fd × Plane)) → List (Fd × Plane)
  | .ok planes => planes
  | .error planes => planes

theorem addPlanes_keeps (planes : List Plane) (dups : Nat) {before : List (Fd × Plane)} (h : Tends k (own ++ before.map Prod.fst)) :
    Tends (addPlanes dups before k planes).2 (own ++ (added (addPlanes dups before k planes).1).map Prod.fst) := by
  induction planes generalizing dups before k with
  | nil =>
      rw [addPlanes]
      exact h
  | cons plane planes ih =>
      cases dups with
      | zero =>
          rw [addPlanes]
          exact h
      | succ dups =>
          rw [addPlanes]
          refine ih _ ?_
          rw [List.map_append, ← List.append_assoc]
          exact h.dup

/-- The fds of what an import made. -/
def madeFds : Except Failure Dmabuf → List Fd
  | .ok d => d.fds
  | .error _ => []

theorem importBuffer_keeps (width height format flags : Nat) (calls : Calls) (h : Tends k (own ++ [metadata, fd])) :
    Tends (importBuffer fd metadata width height format flags calls k).2
      (own ++ madeFds (importBuffer fd metadata width height format flags calls k).1) := by
  have hnone (e : Failure) {k : Desk} (h : Tends k own) : Tends k (own ++ madeFds (.error e)) := h.perm (by simp [madeFds])
  have hlayout : Tends (importGbmBuf metadata calls k).2 (own ++ [fd]) :=
    importGbmBuf_keeps (h.perm (by rw [List.append_assoc]; exact (List.Perm.swap ..).append_left own))
  unfold importBuffer
  split
  · exact hnone _ (h.close)
  · split
    · exact hnone _ (h.close)
    · split
      · rename_i e k' heq
        rw [heq] at hlayout
        exact hnone e (hlayout.close)
      · rename_i layout k' heq
        rw [heq] at hlayout
        split
        · exact hnone _ (hlayout.close)
        · have hbefore : Tends k' ((own ++ [fd]) ++ ([] : List (Fd × Plane)).map Prod.fst) := hlayout.perm (by simp)
          have hplanes := addPlanes_keeps layout.planes calls.planeDups hbefore
          split
          · rename_i planes k'' hadded
            rw [hadded] at hplanes
            exact hnone _ (Tends.close (hplanes.perm (by
              rw [List.append_assoc]
              exact List.perm_append_comm.append_left own)))
          · rename_i planes k'' hadded
            rw [hadded] at hplanes
            refine Tends.close (hplanes.perm ?_)
            rw [List.append_assoc, List.append_assoc]
            exact List.perm_append_comm.append_left own

/-! ## Runs -/

namespace Backend

variable {b : Backend}

/-- The fds of the buffers there are. -/
def planeFds (b : Backend) : List Fd := b.buffers.flatMap fun e => e.2.fds

/-- Each fd open is a buffer's. -/
def Tidy (b : Backend) : Prop := Tends b.desk b.planeFds

theorem Tidy.create (h : b.Tidy) (params width height format flags : Nat) (calls : Calls) :
    (b.create params width height format flags calls).Tidy := by
  have hgot : Tends b.desk.dup.dup (b.planeFds ++ [b.desk.dup.next, b.desk.next]) :=
    h.dup.dup.perm (by rw [List.append_assoc]; exact (List.Perm.swap ..).append_left _)
  have himport := importBuffer_keeps width height format flags calls hgot
  unfold Backend.create
  dsimp only
  split
  · exact hgot.close
  · split
    · rename_i e k heq
      rw [heq] at himport
      exact himport.perm (by simp [madeFds, Backend.planeFds])
    · rename_i dmabuf k heq
      rw [heq] at himport
      split
      · exact himport.perm (by simp [madeFds, Backend.planeFds])
      · exact himport.close

theorem Tidy.drops (h : b.Tidy) (buffer : Nat) : (b.drops buffer).Tidy := by
  refine Tends.close (h.perm ?_)
  have hsplit := List.filter_append_perm (fun e : Nat × Dmabuf => decide (e.1 ≠ buffer)) b.buffers
  have hrest : (b.buffers.filter fun e => !decide (e.1 ≠ buffer)) = b.buffers.filter fun e => e.1 = buffer :=
    List.filter_congr fun e _ => by simp
  rw [hrest] at hsplit
  simp only [Backend.drops, planeFds]
  rw [← List.flatMap_append]
  exact (hsplit.flatMap_right _).symm

theorem Tidy.step (h : b.Tidy) (op : Op) : (b.step op).Tidy := by
  cases op with
  | create params width height format flags calls => exact h.create params width height format flags calls
  | drops buffer => exact h.drops buffer

/-- Whatever creates come and however they end, each fd there was is closed once, or is that of one plane of one buffer. -/
theorem run_tidy (ops : List Op) (fd : Fd) (hfd : .got fd ∈ (run ops).desk.log) :
    (run ops).desk.log.count (.closed fd) + (run ops).planeFds.count fd = 1 := by
  have hstart : ({} : Backend).Tidy := ⟨.start, fun _ h => by cases h⟩
  have htidy : (run ops).Tidy := Runs.keeps (P := Tidy) (fun _ op h => h.step op) ops hstart
  have hcounts := htidy.keeps.owns.counts hfd
  rw [List.count_eq_zero.mpr (htidy.unpassed fd)] at hcounts
  exact hcounts

/-- A buffer of two planes, the same params object again, and a buffer whose second dup fails. -/
def sharedRun : List Op :=
  [.create 1 64 32 0 0 { bo := some { numPlanes := 2, planes := fun _ => { vIncrement := 256 } } },
    .create 1 64 32 0 0 { bo := some { stride := 256 } },
    .create 2 64 32 0 0 { bo := some { numPlanes := 2, planes := fun _ => { vIncrement := 256 } }, planeDups := 1 }]

theorem run_tidy_shared : (run sharedRun).planeFds = [3, 4] ∧
    (run sharedRun).desk.log.count (.closed 10) + (run sharedRun).planeFds.count 10 = 1 :=
  ⟨by decide, run_tidy sharedRun 10 (by decide)⟩

end Backend

/-! ## What is made -/

/-- A dma-buf the shell can be handed: a size, one to four planes with a row pitch each, and a modifier of the two. -/
structure Dmabuf.Sound (d : Dmabuf) : Prop where
  width : 0 < d.width ∧ d.width < 2 ^ 31
  height : 0 < d.height ∧ d.height < 2 ^ 31
  planes : 1 ≤ d.planes.length ∧ d.planes.length ≤ 4
  strides : ∀ p ∈ d.planes, p.2.stride ≠ 0
  modifier : d.modifier = modLinear ∨ d.modifier = modQcomCompressed

theorem layoutOf_sound {bo : GbmBo} {layout : Planes} (h : layoutOf bo = .ok layout) :
    (∀ p ∈ layout.planes, p.stride ≠ 0) ∧ (layout.modifier = modLinear ∨ layout.modifier = modQcomCompressed) := by
  unfold layoutOf at h
  dsimp only at h
  split at h
  · cases h
  · generalize (if bo.infoRc = 0 ∧ 1 ≤ bo.numPlanes ∧ bo.numPlanes ≤ maxNumOfPlanes then _ else _ : List Plane) = planes at h
    split at h
    · cases h
    · rename_i hstrides
      cases h
      refine ⟨fun p hp hzero => hstrides (List.any_eq_true.mpr ⟨p, hp, by simpa using hzero⟩), ?_⟩
      dsimp only
      split
      · exact Or.inr rfl
      · exact Or.inl rfl

theorem importGbmBuf_sound {layout : Planes} {k' : Desk} (h : importGbmBuf metadata calls k = (.ok layout, k')) :
    (∀ p ∈ layout.planes, p.stride ≠ 0) ∧ (layout.modifier = modLinear ∨ layout.modifier = modQcomCompressed) := by
  unfold importGbmBuf at h
  dsimp only at h
  split at h
  · cases h
  · split at h
    · cases h
    · exact layoutOf_sound (Prod.mk.inj h).1

theorem addPlanes_planes {planes : List Plane} {dups : Nat} {before after : List (Fd × Plane)} {k' : Desk}
    (h : addPlanes dups before k planes = (.ok after, k')) : after.map Prod.snd = before.map Prod.snd ++ planes := by
  induction planes generalizing dups before k with
  | nil =>
      rw [addPlanes] at h
      cases h
      simp
  | cons plane planes ih =>
      cases dups with
      | zero =>
          rw [addPlanes] at h
          cases h
      | succ dups =>
          rw [addPlanes] at h
          rw [ih h]
          simp

theorem importBuffer_sound {width height format flags : Nat} {d : Dmabuf} {k' : Desk}
    (h : importBuffer fd metadata width height format flags calls k = (.ok d, k')) : d.Sound := by
  unfold importBuffer at h
  split at h
  · cases h
  · split at h
    · cases h
    · rename_i hsize
      split at h
      · cases h
      · rename_i layout k₁ hlayout
        obtain ⟨hstrides, hmodifier⟩ := importGbmBuf_sound hlayout
        split at h
        · cases h
        · rename_i hcount
          split at h
          · cases h
          · rename_i planes k₂ hplanes
            have hadded : planes.map Prod.snd = layout.planes := addPlanes_planes hplanes
            have hlength : planes.length = layout.planes.length := by rw [← hadded, List.length_map]
            have hpos : layout.planes.length ≠ 0 := fun hzero => hcount (Or.inl (List.length_eq_zero_iff.mp hzero))
            cases h
            refine ⟨by dsimp only; omega, by dsimp only; omega, by dsimp only; omega, fun p hp => ?_, hmodifier⟩
            exact hstrides p.2 (hadded ▸ List.mem_map_of_mem hp)

/-! ## Answers -/

namespace Backend

variable {b : Backend}

/-- The params object a create is for. -/
def creates : Op → Option Nat
  | .create params .. => some params
  | .drops _ => none

/-- Each create was answered, a buffer is one a create was answered with, and only the first of a params object was. -/
structure Answered (ops : List Op) (b : Backend) : Prop where
  answers : b.answers.map Prod.fst = ops.filterMap creates
  used : ∀ p, p ∈ b.used ↔ p ∈ b.answers.map Prod.fst
  first : ∀ pre p n post, b.answers = pre ++ (p, .created n) :: post → p ∉ pre.map Prod.fst
  made : ∀ p n, (p, .created n) ∈ b.answers → n < b.nextBuffer
  once : ∀ p p' n, (p, .created n) ∈ b.answers → (p', .created n) ∈ b.answers → p = p'
  buffers : ∀ e ∈ b.buffers, e.2.Sound ∧ ∃ p, (p, .created e.1) ∈ b.answers

variable {ops : List Op}

theorem Answered.answer (h : Answered ops b) {op : Op} {params : Nat} (hop : creates op = some params) {a : Answer} {b' : Backend}
    (hanswers : b'.answers = b.answers ++ [(params, a)]) (hused : b'.used = params :: b.used)
    (ha : ∀ n, a = .created n → params ∉ b.used ∧ n = b.nextBuffer ∧ n < b'.nextBuffer) (hnext : b.nextBuffer ≤ b'.nextBuffer)
    (hbuffers : ∀ e ∈ b'.buffers, e ∈ b.buffers ∨ e.2.Sound ∧ a = .created e.1) : Answered (ops ++ [op]) b' := by
  have hmem (x : Nat × Answer) : x ∈ b'.answers ↔ x ∈ b.answers ∨ x = (params, a) := by simp [hanswers]
  refine ⟨?_, fun p => ?_, fun pre p n post hsplit => ?_, fun p n hp => ?_, fun p p' n hp hp' => ?_, fun e he => ?_⟩
  · rw [hanswers, List.map_append, h.answers, List.filterMap_append]
    simp [hop]
  · rw [hused, hanswers, List.map_append, List.mem_cons, List.mem_append, h.used]
    simp [or_comm]
  · rw [hanswers] at hsplit
    rcases List.eq_nil_or_concat post with rfl | ⟨post, last, rfl⟩
    · obtain ⟨hpre, hlast⟩ := List.append_inj' hsplit rfl
      simp only [List.cons.injEq, Prod.mk.injEq, and_true] at hlast
      obtain ⟨hfree, -⟩ := ha n hlast.2
      rw [← hpre, ← hlast.1, ← h.used]
      exact hfree
    · rw [List.concat_eq_append, ← List.cons_append, ← List.append_assoc] at hsplit
      exact h.first pre p n post (List.append_inj' hsplit rfl).1
  · rcases (hmem _).mp hp with hp | hp
    · exact (h.made p n hp).trans_le hnext
    · exact (ha n (Prod.mk.inj hp).2.symm).2.2
  · have hlate {p : Nat} (hp : (p, .created n) = (params, a)) {p' : Nat} (hp' : (p', .created n) ∈ b.answers) : False := by
      have hnew := (ha n (Prod.mk.inj hp).2.symm).2.1
      exact absurd (h.made p' n hp') (by omega)
    rcases (hmem _).mp hp with hp | hp <;> rcases (hmem _).mp hp' with hp' | hp'
    · exact h.once p p' n hp hp'
    · exact (hlate hp' hp).elim
    · exact (hlate hp hp').elim
    · exact (Prod.mk.inj hp).1.trans (Prod.mk.inj hp').1.symm
  · rcases hbuffers e he with hold | ⟨hsound, hmade⟩
    · obtain ⟨hsound, p, hp⟩ := h.buffers e hold
      exact ⟨hsound, p, (hmem _).mpr (Or.inl hp)⟩
    · exact ⟨hsound, params, (hmem _).mpr (Or.inr (by rw [hmade]))⟩

theorem Answered.create (h : Answered ops b) (params width height format flags : Nat) (calls : Calls) :
    Answered (ops ++ [.create params width height format flags calls]) (b.create params width height format flags calls) := by
  unfold Backend.create
  dsimp only
  split
  · exact h.answer rfl rfl rfl (fun n hn => by cases hn) le_rfl fun e he => Or.inl he
  · rename_i hfree
    split
    · exact h.answer rfl rfl rfl (fun n hn => by cases hn) le_rfl fun e he => Or.inl he
    · rename_i d k hmade
      split
      · refine h.answer rfl rfl rfl (fun n hn => ?_) (Nat.le_succ _) fun e he => ?_
        · cases hn
          exact ⟨hfree, rfl, Nat.lt_succ_self _⟩
        · rcases List.mem_append.mp he with he | he
          · exact Or.inl he
          · cases List.mem_singleton.mp he
            exact Or.inr ⟨importBuffer_sound hmade, rfl⟩
      · exact h.answer rfl rfl rfl (fun n hn => by cases hn) le_rfl fun e he => Or.inl he

/-- Each create is answered once, in order. A params object makes a buffer with its first create or not at all, each buffer
is made once, and a buffer is one the shell can be handed. -/
theorem run_makes (ops : List Op) :
    (run ops).answers.map Prod.fst = ops.filterMap creates ∧
    (∀ pre p n post, (run ops).answers = pre ++ (p, .created n) :: post → p ∉ pre.map Prod.fst) ∧
    (∀ p p' n, (p, .created n) ∈ (run ops).answers → (p', .created n) ∈ (run ops).answers → p = p') ∧
    ∀ e ∈ (run ops).buffers, e.2.Sound ∧ ∃ p, (p, .created e.1) ∈ (run ops).answers := by
  have hanswered : Answered ops (run ops) := by
    induction ops using List.reverseRecOn with
    | nil => constructor <;> simp [run]
    | append_singleton ops op ih =>
        rw [run, List.foldl_append]
        cases op with
        | create params width height format flags calls => exact ih.create params width height format flags calls
        | drops buffer =>
            obtain ⟨hanswers, hused, hfirst, hmade, honce, hbuffers⟩ := ih
            refine ⟨?_, hused, hfirst, hmade, honce, fun e he => hbuffers e (List.mem_of_mem_filter he)⟩
            rw [List.filterMap_append, show [Op.drops buffer].filterMap creates = [] from rfl, List.append_nil]
            exact hanswers
  exact ⟨hanswered.answers, hanswered.first, hanswered.once, hanswered.buffers⟩

end Backend

end IhsWl.GbmBuffer
