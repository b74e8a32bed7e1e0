import Mathlib.Data.List.Induction
import IhsWl.Handing

/-!
# Nothing of a submission is lost

Every dup is handed over or closed, once, wherever the submission stops.
-/

namespace IhsWl.Handing

open Custody

namespace IhsFrame

theorem fds_append (set : List Fd) (fd : Fd) :
    (⟨set ++ [fd]⟩ : IhsFrame).fds =
      if fd ∈ (⟨set⟩ : IhsFrame).fds then (⟨set⟩ : IhsFrame).fds else (⟨set⟩ : IhsFrame).fds ++ [fd] := by
  unfold fds
  rw [List.foldl_append, List.foldl_cons, List.foldl_nil]

theorem mem_fds (f : IhsFrame) (fd : Fd) : fd ∈ f.fds ↔ fd ∈ f.planeFd := by
  obtain ⟨planeFd⟩ := f
  induction planeFd using List.reverseRecOn with
  | nil => rfl
  | append_singleton set last ih =>
      rw [fds_append, List.mem_append, ← ih, List.mem_singleton]
      split
      · rename_i h
        exact ⟨Or.inl, fun hor => hor.elim id fun heq => heq ▸ h⟩
      · rw [List.mem_append, List.mem_singleton]

theorem fds_reuse {f : IhsFrame} {fd : Fd} (h : fd ∈ f.planeFd) :
    (⟨f.planeFd ++ [fd]⟩ : IhsFrame).fds = f.fds := by
  rw [fds_append, if_pos ((mem_fds f fd).mpr h)]

theorem fds_fresh {f : IhsFrame} {fd : Fd} (h : fd ∉ f.planeFd) :
    (⟨f.planeFd ++ [fd]⟩ : IhsFrame).fds = f.fds ++ [fd] := by
  rw [fds_append, if_neg (mt (mem_fds f fd).mp h)]

end IhsFrame

/-! ## The desk -/

/-- The dups still open are `own`, and the next is a new one. -/
structure Desk.Keeps (k : Desk) (own : List Fd) : Prop where
  owns : Owns k.log own
  fresh : ∀ fd, .got fd ∈ k.log → fd < k.next

variable {k : Desk} {own : List Fd} {f : IhsFrame}

namespace Desk.Keeps

theorem start : ({} : Desk).Keeps [] := ⟨.nil, fun _ h => absurd h List.not_mem_nil⟩

theorem perm {own' : List Fd} (h : k.Keeps own) (hp : own.Perm own') : k.Keeps own' :=
  ⟨h.owns.perm hp, h.fresh⟩

theorem lt {fd : Fd} (h : k.Keeps own) (hfd : fd ∈ own) : fd < k.next :=
  h.fresh fd (gotten_mem.mp (h.owns.kept.mem_iff.mpr (List.mem_append_right _ hfd)))

theorem dup (h : k.Keeps own) : k.dup.Keeps (own ++ [k.next]) := by
  constructor
  · exact h.owns.got fun hmem => Nat.lt_irrefl _ (h.fresh _ hmem)
  · intro fd hfd
    rcases List.mem_append.mp hfd with hfd | hfd
    · exact Nat.lt_succ_of_lt (h.fresh fd hfd)
    · rw [List.mem_singleton, Event.got.injEq] at hfd
      exact hfd ▸ Nat.lt_succ_self _

theorem closeFrame (h : k.Keeps (own ++ f.fds)) : (k.closeFrame f).Keeps own := by
  constructor
  · exact h.owns.close
  · intro fd hfd
    rcases List.mem_append.mp hfd with hfd | hfd
    · exact h.fresh fd hfd
    · obtain ⟨_, -, he⟩ := List.mem_map.mp hfd
      cases he

theorem closePrepared {p : Prepared} (h : k.Keeps (own ++ p.fds)) : (closePrepared k p).Keeps own := by
  cases p with
  | frame f => exact h.closeFrame
  | image => exact h.perm (by rw [Prepared.fds, List.append_nil])

theorem closeAll {prepared : List Prepared} (h : k.Keeps (own ++ prepared.flatMap Prepared.fds)) :
    (prepared.foldl Handing.closePrepared k).Keeps own := by
  induction prepared generalizing k with
  | nil => exact h.perm (by rw [List.flatMap_nil, List.append_nil])
  | cons p prepared ih =>
      refine ih (closePrepared (h.perm ?_))
      rw [List.flatMap_cons, List.append_assoc]
      exact List.perm_append_comm.append_left own

end Desk.Keeps

/-! ## Frames -/

/-- Planes of one file go as one fd. -/
def SharesDups (planes : List Plane) (fds : List Fd) : Prop :=
  ∀ x ∈ planes.zip fds, ∀ y ∈ planes.zip fds, x.1.file.isSome → x.1.file = y.1.file → x.2 = y.2

/-- `files` are the files of the planes set, and what each went as. -/
structure Filed (files : List (FileId × Fd)) (planes : List Plane) (frame : IhsFrame) : Prop where
  length : planes.length = frame.planeFd.length
  filed : ∀ x ∈ planes.zip frame.planeFd, ∀ id, x.1.file = some id → files.lookup id = some x.2
  set : ∀ id fd, files.lookup id = some fd → fd ∈ frame.planeFd

/-- The frame as it is set, whether or not a dup failed. -/
def asSet : Except IhsFrame IhsFrame → IhsFrame
  | .ok f => f
  | .error f => f

namespace Filed

variable {files : List (FileId × Fd)} {set planes : List Plane} {plane : Plane} {fd : Fd}

theorem start : Filed [] [] {} := ⟨rfl, fun _ h => absurd h List.not_mem_nil, nofun⟩

theorem shares (h : Filed files set f) (rest : List Plane) : SharesDups (set ++ rest) f.planeFd := by
  have hzip : (set ++ rest).zip f.planeFd = set.zip f.planeFd := by
    have hright : (set ++ rest).zip (f.planeFd ++ []) = set.zip f.planeFd ++ rest.zip [] := List.zip_append h.length
    rwa [List.append_nil, List.zip_nil_right, List.append_nil] at hright
  intro x hx y hy hsome hfile
  rw [hzip] at hx hy
  obtain ⟨id, hid⟩ := Option.isSome_iff_exists.mp hsome
  have hx' := h.filed x hx id hid
  have hy' := h.filed y hy id (hfile ▸ hid)
  exact Option.some.inj (hx'.symm.trans hy')

theorem reuse (h : Filed files set f) (hsame : plane.file.bind (fun id => files.lookup id) = some fd) :
    Filed files (set ++ [plane]) ⟨f.planeFd ++ [fd]⟩ := by
  refine ⟨by simp [h.length], ?_, fun id fd' hid => List.mem_append_left _ (h.set id fd' hid)⟩
  intro x hx id hid
  rw [List.zip_append h.length] at hx
  rcases List.mem_append.mp hx with hx | hx
  · exact h.filed x hx id hid
  · rw [List.zip_cons_cons, List.zip_nil_left, List.mem_singleton] at hx
    subst hx
    rw [show plane.file = some id from hid] at hsame
    exact hsame

theorem fresh (h : Filed files set f) (hnew : plane.file.bind (fun id => files.lookup id) = none) :
    Filed (files ++ (plane.file.map fun id => (id, fd)).toList) (set ++ [plane]) ⟨f.planeFd ++ [fd]⟩ := by
  refine ⟨by simp [h.length], ?_, ?_⟩
  · intro x hx id hid
    rw [List.zip_append h.length] at hx
    rw [List.lookup_append]
    rcases List.mem_append.mp hx with hx | hx
    · rw [h.filed x hx id hid]
      rfl
    · rw [List.zip_cons_cons, List.zip_nil_left, List.mem_singleton] at hx
      subst hx
      have hfile : plane.file = some id := hid
      rw [hfile] at hnew ⊢
      rw [show files.lookup id = none from hnew]
      simp
  · intro id fd' hid
    rw [List.lookup_append] at hid
    rcases Option.or_eq_some_iff.mp hid with hid | ⟨-, hid⟩
    · exact List.mem_append_left _ (h.set id fd' hid)
    · refine List.mem_append_right _ (List.mem_singleton.mpr ?_)
      cases hfile : plane.file with
      | none => simp [hfile] at hid
      | some id' =>
          simp only [hfile, Option.map_some, Option.toList_some, List.lookup_cons, List.lookup_nil] at hid
          split at hid <;> cases hid
          rfl

end Filed

/-- However the planes' dups end, planes of one file share one. -/
theorem addPlanes_shares {files : List (FileId × Fd)} {set : List Plane} (planes : List Plane)
    (hf : Filed files set f) : SharesDups (set ++ planes) (asSet (addPlanes files f k planes).1).planeFd := by
  induction planes generalizing files set f k with
  | nil => exact hf.shares []
  | cons plane planes ih =>
      have hassoc : set ++ plane :: planes = set ++ [plane] ++ planes := by simp
      unfold addPlanes
      split
      · rename_i raw hsame
        exact hassoc ▸ ih (hf.reuse hsame)
      · rename_i hnew
        split
        · exact hassoc ▸ ih (hf.fresh hnew)
        · exact hf.shares _

/-- However the planes' dups end, the frame holds what was dup'd for it. -/
theorem addPlanes_keeps {files : List (FileId × Fd)} {set : List Plane} (planes : List Plane)
    (hk : k.Keeps (own ++ f.fds)) (hf : Filed files set f) :
    (addPlanes files f k planes).2.Keeps (own ++ (asSet (addPlanes files f k planes).1).fds) := by
  induction planes generalizing files set f k with
  | nil => exact hk
  | cons plane planes ih =>
      unfold addPlanes
      split
      · rename_i raw hsame
        have hraw : raw ∈ f.planeFd := by
          obtain ⟨id, -, hid⟩ := Option.bind_eq_some_iff.mp hsame
          exact hf.set id raw hid
        exact ih (by rwa [IhsFrame.fds_reuse hraw]) (hf.reuse hsame)
      · rename_i hnew
        split
        · have hraw : k.next ∉ f.planeFd := fun hmem =>
            Nat.lt_irrefl _ (hk.lt (List.mem_append_right own ((IhsFrame.mem_fds f _).mpr hmem)))
          refine ih ?_ (hf.fresh hnew)
          rw [IhsFrame.fds_fresh hraw, ← List.append_assoc]
          exact hk.dup
        · exact hk

theorem frameFor_keeps (hk : k.Keeps own) (planes : List Plane) :
    (frameFor planes k).2.Keeps (own ++ ((frameFor planes k).1.map IhsFrame.fds).getD []) := by
  have hk0 : k.Keeps (own ++ IhsFrame.fds {}) := hk.perm (by rw [IhsFrame.fds, List.foldl_nil, List.append_nil])
  have h := addPlanes_keeps (planes.take 4) hk0 Filed.start
  unfold frameFor
  split
  · rename_i f k' heq
    rw [heq] at h
    exact h
  · rename_i f k' heq
    rw [heq] at h
    exact h.closeFrame.perm (by rw [Option.map_none, Option.getD_none, List.append_nil])

theorem prepare_keeps (hk : k.Keeps own) (content : Content) :
    (prepare content k).2.Keeps (own ++ ((prepare content k).1.map Prepared.fds).getD []) := by
  cases content with
  | dmabuf planes =>
      have h := frameFor_keeps hk planes
      unfold prepare
      rw [Option.map_map]
      exact h
  | image => exact hk.perm (by simp [prepare, Prepared.fds])

/-- Wherever preparing stops, what is still open is what goes to the shell. -/
theorem prepareAll_keeps {prepared : List Prepared} (contents : List Content)
    (hk : k.Keeps (prepared.flatMap Prepared.fds)) :
    (prepareAll prepared k contents).2.Keeps
      (((prepareAll prepared k contents).1.getD []).flatMap Prepared.fds) := by
  induction contents generalizing prepared k with
  | nil => exact hk
  | cons content contents ih =>
      have h := prepare_keeps hk content
      unfold prepareAll
      split
      · rename_i p k' heq
        rw [heq] at h
        refine ih (h.perm ?_)
        rw [List.flatMap_append, List.flatMap_singleton, Option.map_some, Option.getD_some]
      · rename_i k' heq
        rw [heq] at h
        have hnone : ∀ k : Desk, k.Keeps ([] ++ prepared.flatMap Prepared.fds) →
            (prepared.foldl closePrepared k).Keeps [] := fun _ => Desk.Keeps.closeAll
        refine hnone _ (h.perm ?_)
        rw [Option.map_none, Option.getD_none, List.append_nil, List.nil_append]

/-! ## What is logged -/

section Logged

variable {P : Event Fd → Prop}

theorem closeFrame_logs (hc : ∀ fd, P (.closed fd)) (hk : ∀ e ∈ k.log, P e) (f : IhsFrame) :
    ∀ e ∈ (k.closeFrame f).log, P e := by
  intro e he
  rcases List.mem_append.mp he with he | he
  · exact hk e he
  · obtain ⟨fd, -, rfl⟩ := List.mem_map.mp he
    exact hc fd

theorem closeAll_logs (hc : ∀ fd, P (.closed fd)) (prepared : List Prepared) (hk : ∀ e ∈ k.log, P e) :
    ∀ e ∈ (prepared.foldl closePrepared k).log, P e := by
  induction prepared generalizing k with
  | nil => exact hk
  | cons p prepared ih =>
      refine ih ?_
      cases p with
      | frame f => exact closeFrame_logs hc hk f
      | image => exact hk

theorem addPlanes_logs {files : List (FileId × Fd)} (hg : ∀ fd, P (.got fd)) (planes : List Plane)
    (hk : ∀ e ∈ k.log, P e) : ∀ e ∈ (addPlanes files f k planes).2.log, P e := by
  induction planes generalizing files f k with
  | nil => exact hk
  | cons plane planes ih =>
      unfold addPlanes
      split
      · exact ih hk
      · split
        · refine ih fun e he => ?_
          rcases List.mem_append.mp he with he | he
          · exact hk e he
          · rw [List.mem_singleton.mp he]
            exact hg _
        · exact hk

theorem frameFor_logs (hg : ∀ fd, P (.got fd)) (planes : List Plane)
    (hc : (frameFor planes k).1 = none → ∀ fd, P (.closed fd)) (hk : ∀ e ∈ k.log, P e) :
    ∀ e ∈ (frameFor planes k).2.log, P e := by
  have h : ∀ e ∈ (addPlanes [] {} k (planes.take 4)).2.log, P e := addPlanes_logs hg (planes.take 4) hk
  unfold frameFor at hc ⊢
  split at hc <;> rename_i f k' heq <;> rw [heq] at h
  · exact h
  · exact closeFrame_logs (hc rfl) h f

/-- A layer prepared closes nothing; closing starts when one fails. -/
theorem prepareAll_logs {prepared : List Prepared} (hg : ∀ fd, P (.got fd)) (contents : List Content)
    (hc : (prepareAll prepared k contents).1 = none → ∀ fd, P (.closed fd)) (hk : ∀ e ∈ k.log, P e) :
    ∀ e ∈ (prepareAll prepared k contents).2.log, P e := by
  induction contents generalizing prepared k with
  | nil => exact hk
  | cons content contents ih =>
      have h (hc : (prepare content k).1 = none → ∀ fd, P (.closed fd)) :
          ∀ e ∈ (prepare content k).2.log, P e := by
        cases content with
        | dmabuf planes => exact frameFor_logs hg planes (fun hn => hc (by rw [prepare, hn]; rfl)) hk
        | image => exact hk
      unfold prepareAll at hc ⊢
      split at hc <;> rename_i heq <;> rw [heq] at h
      · exact ih hc (h nofun)
      · exact closeAll_logs (hc rfl) prepared (h fun _ => hc rfl)

end Logged

/-! ## The submission -/

variable (reg : Registry) (contents : List Content)

theorem handOver_owns : Owns (handOver reg contents).planes [] := by
  have hkeeps : (prepareAll [] {} contents).2.Keeps
      (((prepareAll [] {} contents).1.getD []).flatMap Prepared.fds) := prepareAll_keeps contents Desk.Keeps.start
  unfold handOver
  split <;> rename_i heq <;> rw [heq] at hkeeps
  · exact hkeeps.owns
  · split
    · rename_i prepared k _
      have howns : Owns (k.log ++ (prepared.flatMap Prepared.fds).map .passed) [] := Owns.pass hkeeps.owns
      split <;> exact howns
    · rename_i prepared k _
      have hclosed : (prepared.foldl closePrepared k).Keeps [] := Desk.Keeps.closeAll hkeeps
      exact hclosed.owns

/-- Before the call nothing is the shell's. -/
theorem handOver_uncalled (h : (handOver reg contents).called = false) (fd : Fd) :
    .passed fd ∉ (handOver reg contents).planes := by
  have hlog : ∀ e ∈ (prepareAll [] {} contents).2.log, e ≠ .passed fd :=
    prepareAll_logs (fun _ h => nomatch h) contents (fun _ _ h => nomatch h)
      fun _ he => absurd he List.not_mem_nil
  intro hmem
  revert h hmem
  unfold handOver
  split <;> rename_i heq <;> rw [heq] at hlog
  · exact fun _ hmem => hlog _ hmem rfl
  · split
    · split <;> exact nofun
    · exact fun _ hmem => closeAll_logs (fun _ h => nomatch h) _ hlog _ hmem rfl

/-- Once it is called, the module closes none. -/
theorem handOver_called (h : (handOver reg contents).called = true) (fd : Fd) :
    .closed fd ∉ (handOver reg contents).planes := by
  have hlog (hsome : (prepareAll [] {} contents).1 ≠ none) :
      ∀ e ∈ (prepareAll [] {} contents).2.log, e ≠ .closed fd :=
    prepareAll_logs (fun _ h => nomatch h) contents (fun hnone => absurd hnone hsome)
      fun _ he => absurd he List.not_mem_nil
  intro hmem
  revert h hmem
  unfold handOver
  split <;> rename_i heq <;> rw [heq] at hlog
  · exact nofun
  · have hpass (prepared : List Prepared) (k : Desk) (hk : ∀ e ∈ k.log, e ≠ .closed fd) :
        .closed fd ∉ k.log ++ (prepared.flatMap Prepared.fds).map .passed := by
      intro hmem
      rcases List.mem_append.mp hmem with hmem | hmem
      · exact hk _ hmem rfl
      · obtain ⟨_, -, he⟩ := List.mem_map.mp hmem
        cases he
    split
    · split <;> exact fun _ => hpass _ _ (hlog nofun)
    · exact nofun

/-- What the layers handed back a fence for go as. -/
theorem fences_owns (layers : List Nat) (hnodup : layers.Nodup) (away : Nat → Event Nat)
    (hgot : ∀ i, (away i).gotten = none) (hleft : ∀ i, (away i).left = some i) :
    Owns (layers.map .got ++ layers.map away) [] := by
  have hgots : (layers.map Event.got).filterMap Event.gotten = layers := by
    rw [List.filterMap_map, show Event.gotten ∘ Event.got = some from rfl, List.filterMap_some]
  have hlefts : (layers.map Event.got).filterMap Event.left = [] := by
    rw [List.filterMap_map, List.filterMap_eq_nil_iff]
    exact fun _ _ => rfl
  refine Owns.give ⟨hgots.symm ▸ hnodup, ?_⟩ hgot hleft
  rw [hgots, hlefts]
  exact .refl layers

theorem handOver_fences : Owns (handOver reg contents).fences [] := by
  have hnodup : (reg.returned contents.length).Nodup := List.nodup_range.filter _
  unfold handOver
  split
  · exact .nil
  · split
    · split
      · refine fences_owns _ hnodup reg.holdFence (fun i => ?_) fun i => ?_
        · unfold Registry.holdFence; split <;> rfl
        · unfold Registry.holdFence; split <;> rfl
      · exact fences_owns _ hnodup .closed (fun _ => rfl) fun _ => rfl
    · exact .nil

theorem handOver_returned (h : (handOver reg contents).called = true) {layer : Nat}
    (hlt : layer < contents.length) (hfence : reg.release layer ≠ .unfenced) :
    .got layer ∈ (handOver reg contents).fences := by
  have hmem : layer ∈ reg.returned contents.length :=
    List.mem_filter.mpr ⟨List.mem_range.mpr hlt, decide_eq_true hfence⟩
  revert h
  unfold handOver
  split
  · exact nofun
  · split
    · split <;> exact fun _ => List.mem_append_left _ (List.mem_map_of_mem hmem)
    · exact nofun

/-- Every dup is the shell's exactly when it is called, and else closed, once; so is every release fence
held or closed. -/
structure Accounted (reg : Registry) (contents : List Content) (h : Handed) : Prop where
  own : ∀ fd, .closed fd ∈ h.planes ∨ .passed fd ∈ h.planes → .got fd ∈ h.planes
  handed : h.called = true → ∀ fd, .got fd ∈ h.planes →
    h.planes.count (.passed fd) = 1 ∧ .closed fd ∉ h.planes
  closed : h.called = false → ∀ fd, .got fd ∈ h.planes →
    h.planes.count (.closed fd) = 1 ∧ .passed fd ∉ h.planes
  shared : ∀ planes, .dmabuf planes ∈ contents → ∀ k,
    SharesDups (planes.take 4) (asSet (addPlanes [] {} k (planes.take 4)).1).planeFd
  fences : h.called = true → ∀ layer < contents.length, reg.release layer ≠ .unfenced →
    h.fences.count (.closed layer) + h.fences.count (.passed layer) = 1

theorem handOver_accounted : Accounted reg contents (handOver reg contents) where
  own fd hleft := by
    refine gotten_mem.mp ((handOver_owns reg contents).kept.mem_iff.mpr ?_)
    rw [List.append_nil, List.mem_filterMap]
    rcases hleft with hleft | hleft <;> exact ⟨_, hleft, rfl⟩
  handed hcalled fd hgot := by
    have hnot := handOver_called reg contents hcalled fd
    have honce := (handOver_owns reg contents).once hgot
    rw [List.count_eq_zero.mpr hnot, Nat.zero_add] at honce
    exact ⟨honce, hnot⟩
  closed hcalled fd hgot := by
    have hnot := handOver_uncalled reg contents hcalled fd
    have honce := (handOver_owns reg contents).once hgot
    rw [List.count_eq_zero.mpr hnot, Nat.add_zero] at honce
    exact ⟨honce, hnot⟩
  shared planes _ k := by
    have hshares := addPlanes_shares (f := {}) (k := k) (planes.take 4) Filed.start
    rwa [List.nil_append] at hshares
  fences hcalled layer hlt hfence :=
    (handOver_fences reg contents).once (handOver_returned reg contents hcalled hlt hfence)

/-- The second layer cannot be dup'd: the fd the planes of the first share is closed. -/
example : (handOver ⟨true, 0, 0, fun _ => .unfenced⟩
    [.dmabuf [⟨some (1, 1), true⟩, ⟨some (1, 1), true⟩], .dmabuf [⟨none, false⟩]]).planes = [.got 0, .closed 0] := by
  decide

end IhsWl.Handing
