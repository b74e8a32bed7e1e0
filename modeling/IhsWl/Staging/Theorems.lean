import Mathlib.Data.List.Nodup
import IhsWl.Lib.Runs
import IhsWl.Staging.Copies

/-!
# Staging damage equals copying the buffer

Every slot is its commit's content, but for what a copy given up may have left. So a slot that is filled shows the
whole buffer, and no slot held outside is written.
-/

namespace IhsWl

/-- The slots' size and format. -/
def Ring.shape (ring : Ring) : Option ((Int × Int) × Fourcc) := ring.fourcc.map fun f => ((ring.width, ring.height), f)

/-- The slot is of the ring's size and format. -/
def Ring.Fits (ring : Ring) (slot : Slot) : Prop :=
  slot.width = max ring.width 1 ∧ slot.height = max ring.height 1 ∧ ring.fourcc = some slot.fourcc

/-- The slot is of the buffer's size and format, and shows all of it. -/
def Slot.Shows (slot : Slot) (b : ClientBuffer) : Prop :=
  ∃ k, b.shape = some k ∧ slot.width = max k.1.1 1 ∧ slot.height = max k.1.2 1 ∧ slot.fourcc = k.2 ∧
    ∀ p ∈ visible k, slot.pixels p.1 p.2 = b.shows p

namespace Staging

variable {client : Client} {s : Staging} {t : Tries}

/-- What every ring keeps: its slots track the client's content, only the newest can be current, and their uids are
their own. -/
structure Sound (client : Client) (s : Staging) : Prop where
  tracks : ∀ slot ∈ s.ring.slots, ∀ k, s.ring.shape = some k →
    Versions.Tracks client.history k slot.commit s.now fun p => slot.pixels p.1 p.2
  fits : ∀ slot ∈ s.ring.slots, s.ring.Fits slot
  last : ∀ (i : Nat) slot, s.ring.slots[i]? = some slot → slot.commit = some s.now → s.ring.newest = some i
  newest : ∀ i, s.ring.newest = some i → i < s.ring.slots.length
  uids : (s.ring.slots.map Slot.uid).Nodup
  given : ∀ slot ∈ s.ring.slots, slot.uid ≤ s.nextUid
  outside : ∀ uid ∈ s.outside, uid ≤ s.nextUid

theorem newestSlot_mem {slot : Slot} (h : s.newestSlot = some slot) : slot ∈ s.ring.slots := by
  obtain ⟨i, -, hi⟩ := Option.bind_eq_some_iff.mp h
  exact List.mem_of_getElem? hi

theorem Ring.Fits.shape {ring : Ring} {slot : Slot} (h : ring.Fits slot) :
    ring.shape = some ((ring.width, ring.height), slot.fourcc) := by
  rw [Ring.shape, h.2.2]
  rfl

namespace Sound

theorem start : Sound client {} where
  tracks _ hs := by cases hs
  fits _ hs := by cases hs
  last _ _ hs := by cases hs
  newest _ hi := by cases hi
  uids := List.nodup_nil
  given _ hs := by cases hs
  outside _ hu := by cases hu

theorem mark_le (h : Sound client s) {slot : Slot} (hs : slot ∈ s.ring.slots) {c : Nat} (hc : slot.commit = some c) :
    c ≤ s.now :=
  (h.tracks slot hs _ (Ring.Fits.shape (h.fits slot hs)) c hc).1

theorem commits (h : Sound client s) : Sound client { s with now := s.now + 1 } where
  tracks slot hs k hk := (h.tracks slot hs k hk).later (Nat.le_succ _)
  fits := h.fits
  last _ _ hs hc := absurd (h.mark_le (List.mem_of_getElem? hs) hc) (Nat.not_succ_le_self _)
  newest := h.newest
  uids := h.uids
  given := h.given
  outside := h.outside

/-- Only uids are taken. -/
theorem raised (h : Sound client s) {n : Nat} (hn : s.nextUid ≤ n) : Sound client { s with nextUid := n } where
  tracks := h.tracks
  fits := h.fits
  last := h.last
  newest := h.newest
  uids := h.uids
  given slot hs := Nat.le_trans (h.given slot hs) hn
  outside uid hu := Nat.le_trans (h.outside uid hu) hn

/-- Only holds change, to slots whose uids were given. -/
theorem held (h : Sound client s) {outside : List Nat} (ho : ∀ uid ∈ outside, uid ≤ s.nextUid) :
    Sound client { s with outside := outside } where
  tracks := h.tracks
  fits := h.fits
  last := h.last
  newest := h.newest
  uids := h.uids
  given := h.given
  outside := ho

/-- A ring without slots. -/
theorem emptied (h : Sound client s) (ring : Ring) (retired : List Nat) (hslots : ring.slots = [])
    (hnewest : ring.newest = none) : Sound client { s with ring := ring, retired := retired } where
  tracks slot hs := by rw [hslots] at hs; cases hs
  fits slot hs := by rw [hslots] at hs; cases hs
  last i slot hs := by rw [hslots] at hs; cases hs
  newest i hi := by rw [hnewest] at hi; cases hi
  uids := by rw [hslots]; exact List.nodup_nil
  given slot hs := by rw [hslots] at hs; cases hs
  outside := h.outside

theorem resize (h : Sound client s) (size : Int × Int) (fourcc : Fourcc) : Sound client (s.resize size fourcc) := by
  unfold Staging.resize
  split
  · exact h.emptied _ _ rfl rfl
  · exact h

theorem allocate (h : Sound client s) {fourcc : Fourcc} (hf : s.ring.fourcc = some fourcc) :
    Sound client (s.allocate fourcc t).2 := by
  unfold Staging.allocate
  cases t.memory with
  | none => exact h.raised (Nat.le_succ _)
  | some memory =>
      refine ⟨?_, ?_, ?_, ?_, ?_, ?_, fun uid hu => Nat.le_succ_of_le (h.outside uid hu)⟩
      · intro slot hs k hk
        rcases List.mem_append.mp hs with hs | hs
        · exact h.tracks slot hs k hk
        · cases List.mem_singleton.mp hs
          exact Versions.Tracks.fresh _
      · intro slot hs
        rcases List.mem_append.mp hs with hs | hs
        · exact h.fits slot hs
        · cases List.mem_singleton.mp hs
          exact ⟨rfl, rfl, hf⟩
      · intro i slot hs hc
        simp only [List.getElem?_append] at hs
        split at hs
        · exact h.last i slot hs hc
        · cases List.mem_singleton.mp (List.mem_of_getElem? hs)
          cases hc
      · intro i hi
        exact Nat.lt_of_lt_of_le (h.newest i hi) (by simp)
      · simp only [List.map_append, List.map_cons, List.map_nil]
        refine List.nodup_append.mpr ⟨h.uids, List.nodup_singleton _, fun u hu v hv => ?_⟩
        obtain ⟨slot, hs, rfl⟩ := List.mem_map.mp hu
        rw [List.mem_singleton.mp hv]
        exact Nat.ne_of_lt (Nat.lt_succ_of_le (h.given slot hs))
      · intro slot hs
        rcases List.mem_append.mp hs with hs | hs
        · exact Nat.le_succ_of_le (h.given slot hs)
        · cases List.mem_singleton.mp hs
          exact Nat.le_refl _

/-- A slot's memory, mark and pixels change; nothing else of the ring does. -/
theorem rewritten (h : Sound client s) {i : Nat} {slot : Slot} (hi : s.ring.slots[i]? = some slot) (slot' : Slot)
    (newest : Option Nat) (huid : slot'.uid = slot.uid) (hfits : s.ring.Fits slot')
    (hnewest : newest = s.ring.newest ∨ newest = some i)
    (htracks : ∀ k, s.ring.shape = some k →
      Versions.Tracks client.history k slot'.commit s.now fun p => slot'.pixels p.1 p.2)
    (hstale : ∀ slot ∈ s.ring.slots, slot.commit ≠ some s.now)
    (hmark : slot'.commit = some s.now → newest = some i) :
    Sound client { s with ring := { s.ring with slots := s.ring.slots.set i slot', newest := newest } } := by
  have hlt : i < s.ring.slots.length := (List.getElem?_eq_some_iff.mp hi).1
  have hmem : slot ∈ s.ring.slots := List.mem_of_getElem? hi
  refine ⟨?_, ?_, ?_, ?_, ?_, ?_, h.outside⟩
  · intro x hx k hk
    rcases List.mem_or_eq_of_mem_set hx with hx | rfl
    · exact h.tracks x hx k hk
    · exact htracks k hk
  · intro x hx
    rcases List.mem_or_eq_of_mem_set hx with hx | rfl
    · exact h.fits x hx
    · exact hfits
  · intro j x hj hc
    simp only [List.getElem?_set] at hj
    by_cases hij : i = j
    · subst hij
      rw [if_pos rfl, if_pos hlt] at hj
      cases hj
      exact hmark hc
    · rw [if_neg hij] at hj
      exact absurd hc (hstale x (List.mem_of_getElem? hj))
  · intro j hj
    simp only [List.length_set]
    rcases hnewest with rfl | rfl
    · exact h.newest j hj
    · cases hj
      exact hlt
  · have hlt' : i < (s.ring.slots.map Slot.uid).length := by rwa [List.length_map]
    have hat : slot.uid = (s.ring.slots.map Slot.uid)[i] := by
      rw [List.getElem_map, (List.getElem?_eq_some_iff.mp hi).2]
    rw [List.map_set, huid, hat, List.set_getElem_self]
    exact h.uids
  · intro x hx
    rcases List.mem_or_eq_of_mem_set hx with hx | rfl
    · exact h.given x hx
    · rw [huid]
      exact h.given slot hmem

/-- When the newest is not current, no slot is. -/
theorem stale (h : Sound client s) (hnone : (s.newestSlot.filter fun slot => slot.commit == some s.now) = none) :
    ∀ slot ∈ s.ring.slots, slot.commit ≠ some s.now := by
  intro slot hs hc
  obtain ⟨i, hi⟩ := List.mem_iff_getElem?.mp hs
  have hnewest : s.newestSlot = some slot := by rw [newestSlot, h.last i slot hi hc]; exact hi
  rw [hnewest, Option.filter_some, if_pos (by rw [hc]; exact beq_self_eq_true _)] at hnone
  cases hnone

/-- A current slot shows the buffer. -/
theorem shows (h : Sound client s) {k : (Int × Int) × Fourcc} (hring : s.ring.shape = some k)
    (hbuffer : (client.buffer s.now).shape = some k) {slot : Slot} (hs : slot ∈ s.ring.slots)
    (hp : ∀ p ∈ visible k, slot.pixels p.1 p.2 = (client.buffer s.now).shows p) :
    slot.Shows (client.buffer s.now) := by
  obtain ⟨hw, hh, hf⟩ := h.fits slot hs
  obtain rfl : ((s.ring.width, s.ring.height), slot.fourcc) = k :=
    Option.some.inj ((Ring.Fits.shape (h.fits slot hs)).symm.trans hring)
  exact ⟨_, hbuffer, hw, hh, rfl, hp⟩

end Sound

/-! ## One call -/

/-- What a call of `stage` comes to. -/
structure Staged (client : Client) (s : Staging) (r : Option (Path × Nat) × Staging) : Prop where
  sound : Sound client r.2
  now : r.2.now = s.now
  uids : s.nextUid ≤ r.2.nextUid
  shows : ∀ path uid, r.1 = some (path, uid) → ∃ slot ∈ r.2.ring.slots, slot.uid = uid ∧
    (slot.commit = some s.now ↔ path ≠ .again) ∧ (path ≠ .again → slot.Shows (client.buffer s.now))
  spares : ∀ slot ∈ r.2.ring.slots, slot.uid ∈ s.outside → slot ∈ s.ring.slots

namespace Staged

/-- A call that stages nothing. -/
theorem nothing (h : Sound client s) : Staged client s (none, s) :=
  ⟨h, rfl, Nat.le_refl _, nofun, fun _ hs _ => hs⟩

/-- What was done to the ring before is no part of it. -/
theorem after {s₁ : Staging} {r : Option (Path × Nat) × Staging} (h : Staged client s₁ r) (hnow : s₁.now = s.now)
    (huids : s.nextUid ≤ s₁.nextUid) (houtside : s₁.outside = s.outside)
    (hslots : ∀ slot ∈ s₁.ring.slots, slot.uid ∈ s.outside → slot ∈ s.ring.slots) : Staged client s r where
  sound := h.sound
  now := h.now.trans hnow
  uids := Nat.le_trans huids h.uids
  shows := by rw [← hnow]; exact h.shows
  spares slot hs hu := hslots slot (h.spares slot hs (by rwa [houtside])) hu

theorem showSlot (h : Sound client s) (path : Path) {slot : Slot} (hs : slot ∈ s.ring.slots)
    (hpath : slot.commit = some s.now ↔ path ≠ .again)
    (hshows : path ≠ .again → slot.Shows (client.buffer s.now)) : Staged client s (s.showSlot path slot) where
  sound := h.held fun uid hu => by
    rcases List.mem_cons.mp hu with rfl | hu
    · exact h.given slot hs
    · exact h.outside uid hu
  now := rfl
  uids := Nat.le_refl _
  shows p uid hr := by
    cases hr
    exact ⟨slot, hs, rfl, hpath, hshows⟩
  spares _ hs _ := hs

variable {source : Source} {fourcc : Fourcc}

theorem fill (h : Sound client s) (hs : (client.buffer s.now).source t.access = some (source, fourcc))
    (hring : s.ring.shape = some (source.size, fourcc)) (hstale : ∀ slot ∈ s.ring.slots, slot.commit ≠ some s.now)
    {i : Nat} {slot : Slot} (hi : s.ring.slots[i]? = some slot) (hfree : slot.uid ∉ s.outside) :
    Staged client s (s.fill client.toTimeline source t i) := by
  have hmem : slot ∈ s.ring.slots := List.mem_of_getElem? hi
  have ht := h.tracks slot hmem _ hring
  have hbuffer := ClientBuffer.shape_of_source hs
  -- The other slots are what they were.
  have hspares : ∀ (slot' : Slot), slot'.uid = slot.uid → ∀ x ∈ s.ring.slots.set i slot', x.uid ∈ s.outside →
      x ∈ s.ring.slots := by
    intro slot' huid x hx hu
    rcases List.mem_or_eq_of_mem_set hx with hx | rfl
    · exact hx
    · exact absurd (huid ▸ hu) hfree
  simp only [Staging.fill, hi]
  cases hw : (slot.write source (client.damageSince slot.commit s.now) t).1 with
  | true =>
      rw [if_pos rfl]
      have hshown := Slot.write_shows hs ht hw
      have hsound := h.rewritten hi
        { slot with
          pixels := (slot.write source (client.damageSince slot.commit s.now) t).2, commit := some s.now }
        (some i) rfl (h.fits slot hmem) (Or.inr rfl) (fun k hk => by
          cases hring.symm.trans hk
          exact Versions.Tracks.exact hbuffer hshown) hstale fun _ => rfl
      have hin := List.mem_set (List.getElem?_eq_some_iff.mp hi).1 { slot with
        pixels := (slot.write source (client.damageSince slot.commit s.now) t).2, commit := some s.now }
      refine ⟨hsound.held ?_, rfl, Nat.le_refl _, fun path uid hr => ?_, hspares _ rfl⟩
      · intro uid hu
        rcases List.mem_cons.mp hu with rfl | hu
        · exact h.given slot hmem
        · exact h.outside uid hu
      · cases hr
        exact ⟨_, hin, rfl, ⟨fun _ => nofun, fun _ => rfl⟩, fun _ => hsound.shows hring hbuffer hin hshown⟩
  | false =>
      rw [if_neg Bool.false_ne_true]
      have hrest := Slot.write_rest fourcc hw
      have hsound := h.rewritten hi
        { slot with pixels := (slot.write source (client.damageSince slot.commit s.now) t).2 }
        s.ring.newest rfl (h.fits slot hmem) (Or.inl rfl) (fun k hk => by
          cases hring.symm.trans hk
          exact ht.abandoned hbuffer (hstale slot hmem) hrest) hstale fun hc => absurd hc (hstale slot hmem)
      exact ⟨hsound, rfl, Nat.le_refl _, nofun, hspares _ rfl⟩

/-- A new slot is filled like a free one. -/
theorem allocated (h : Sound client s) (hs : (client.buffer s.now).source t.access = some (source, fourcc))
    (hring : s.ring.shape = some (source.size, fourcc)) (hstale : ∀ slot ∈ s.ring.slots, slot.commit ≠ some s.now) :
    Staged client s (match (s.allocate fourcc t).1 with
      | none => (none, (s.allocate fourcc t).2)
      | some i => (s.allocate fourcc t).2.fill client.toTimeline source t i) := by
  have hfourcc : s.ring.fourcc = some fourcc := by
    obtain ⟨f, hf, heq⟩ := Option.map_eq_some_iff.mp hring
    rw [hf, (Prod.mk.inj heq).2]
  have hsound := h.allocate (t := t) hfourcc
  unfold Staging.allocate at hsound ⊢
  cases hm : t.memory with
  | none => exact (nothing (h.raised (Nat.le_succ _))).after rfl (Nat.le_succ _) rfl fun _ hs _ => hs
  | some memory =>
      rw [hm] at hsound
      have hnew : s.nextUid + 1 ∉ s.outside := fun hu => Nat.not_succ_le_self _ (h.outside _ hu)
      refine Staged.after (fill hsound hs hring ?_ (List.getElem?_concat_length ..) hnew) rfl (Nat.le_succ _) rfl ?_
      · intro slot hslot
        rcases List.mem_append.mp hslot with hslot | hslot
        · exact hstale slot hslot
        · cases List.mem_singleton.mp hslot
          exact nofun
      · intro slot hslot hu
        rcases List.mem_append.mp hslot with hslot | hslot
        · exact hslot
        · cases List.mem_singleton.mp hslot
          exact absurd hu hnew

end Staged

theorem resize_now (s : Staging) (size : Int × Int) (fourcc : Fourcc) : (s.resize size fourcc).now = s.now := by
  unfold resize; split <;> rfl

theorem resize_nextUid (s : Staging) (size : Int × Int) (fourcc : Fourcc) :
    s.nextUid ≤ (s.resize size fourcc).nextUid := by
  unfold resize; split <;> exact Nat.le_refl _

theorem resize_outside (s : Staging) (size : Int × Int) (fourcc : Fourcc) :
    (s.resize size fourcc).outside = s.outside := by
  unfold resize; split <;> rfl

theorem resize_slots {size : Int × Int} {fourcc : Fourcc} {slot : Slot}
    (h : slot ∈ (s.resize size fourcc).ring.slots) : slot ∈ s.ring.slots := by
  unfold resize at h
  split at h
  · cases h
  · exact h

theorem resize_shape (s : Staging) (size : Int × Int) (fourcc : Fourcc) :
    (s.resize size fourcc).ring.shape = some (size, fourcc) := by
  unfold resize
  split
  · rfl
  · rename_i hsame
    simp only [not_or, ne_eq, not_not] at hsame
    obtain ⟨hw, hh, hf⟩ := hsame
    rw [Ring.shape, hf, hw, hh]
    rfl

theorem free_spec {i : Nat} (h : s.free = some i) : ∃ slot, s.ring.slots[i]? = some slot ∧ slot.uid ∉ s.outside := by
  obtain ⟨hlt, hfree, -⟩ := List.findIdx?_eq_some_iff_getElem.mp h
  exact ⟨_, List.getElem?_eq_getElem hlt, by simpa using hfree⟩

theorem staged (h : Sound client s) (t : Tries) : Staged client s (s.stage client.toTimeline t) := by
  unfold stage
  cases hs : (client.buffer s.now).source t.access with
  | none => exact Staged.nothing h
  | some sf =>
      obtain ⟨source, fourcc⟩ := sf
      have hsound := h.resize source.size fourcc
      have hring := resize_shape s source.size fourcc
      dsimp only
      refine Staged.after ?_ (resize_now s source.size fourcc) (resize_nextUid ..) (resize_outside ..) fun slot hslot _ =>
        resize_slots hslot
      rw [← resize_now s source.size fourcc] at hs
      generalize s.resize source.size fourcc = s₁ at hs hsound hring ⊢
      have hbuffer := ClientBuffer.shape_of_source hs
      cases hcurrent : s₁.newestSlot.filter fun slot => slot.commit == some s₁.now with
      | some slot =>
          obtain ⟨hnewest, hmark⟩ := Option.filter_eq_some_iff.mp hcurrent
          have hmark : slot.commit = some s₁.now := by simpa using hmark
          have hslot := newestSlot_mem hnewest
          have ht := hsound.tracks slot hslot _ hring
          rw [hmark] at ht
          exact Staged.showSlot hsound .current hslot ⟨fun _ => nofun, fun _ => hmark⟩
            fun _ => hsound.shows hring hbuffer hslot ht.current
      | none =>
          have hstale := hsound.stale hcurrent
          dsimp only
          split
          · cases hnewest : s₁.newestSlot with
            | none => exact Staged.nothing hsound
            | some slot =>
                have hslot := newestSlot_mem hnewest
                exact Staged.showSlot hsound .again hslot
                  ⟨fun hc => absurd hc (hstale slot hslot), fun hne => absurd rfl hne⟩ fun hne => absurd rfl hne
          · unfold pick
            cases hfree : s₁.free with
            | some i =>
                obtain ⟨slot, hi, hout⟩ := free_spec hfree
                exact Staged.fill hsound hs hring hstale hi hout
            | none => exact Staged.allocated hsound hs hring hstale

/-! ## Runs -/

theorem Sound.step (h : Sound client s) (op : StagingOp) : Sound client (s.step client.toTimeline op) := by
  cases op with
  | commits => exact h.commits
  | stages t => exact (staged h t).sound
  | clones uid =>
      unfold Staging.step
      dsimp only
      split
      · rename_i hin
        exact h.held fun u hu => by
          rcases List.mem_cons.mp hu with rfl | hu
          · exact h.outside u hin
          · exact h.outside u hu
      · exact h
  | drops uid => exact h.held fun u hu => h.outside u (List.mem_of_mem_erase hu)
  | others n => exact h.raised (Nat.le_add_right ..)
  | goes => exact h.emptied {} _ rfl rfl

theorem run_sound (client : Client) (ops : List StagingOp) : Sound client (run client.toTimeline ops) :=
  Runs.keeps (fun _ op h => h.step op) ops Sound.start

/-- Whatever was committed, staged, held and failed before, the slot a call fills, or shows as current, shows all of
the client's buffer; a slot held outside is not written; and the newest slot is of the ring's size and format. -/
theorem staging_copies_all (client : Client) (ops : List StagingOp) (t : Tries) :
    let s := run client.toTimeline ops
    let staged := s.stage client.toTimeline t
    (∀ path uid, staged.1 = some (path, uid) → path ≠ .again →
      (∃ slot ∈ staged.2.ring.slots, slot.uid = uid) ∧
        ∀ slot ∈ staged.2.ring.slots, slot.uid = uid → slot.Shows (client.buffer s.now)) ∧
    (∀ slot ∈ staged.2.ring.slots, slot.uid ∈ s.outside → slot ∈ s.ring.slots) ∧
    ∀ i, s.ring.newest = some i → ∃ slot, s.ring.slots[i]? = some slot ∧ s.ring.Fits slot := by
  have hsound := run_sound client ops
  have hstaged := staged hsound t
  refine ⟨fun path uid hr hpath => ?_, hstaged.spares, fun i hi => ?_⟩
  · obtain ⟨slot, hslot, huid, -, hshows⟩ := hstaged.shows path uid hr
    refine ⟨⟨slot, hslot, huid⟩, fun slot' hslot' huid' => ?_⟩
    rw [List.inj_on_of_nodup_map hstaged.sound.uids hslot' hslot (huid'.trans huid.symm)]
    exact hshows hpath
  · have hlt := hsound.newest i hi
    exact ⟨_, List.getElem?_eq_getElem hlt, hsound.fits _ (List.getElem_mem hlt)⟩

/-- The damage of a buffer of two pixels in a row. -/
def twoPixels : Rect := ⟨0, 0, 2, 1, by decide⟩

theorem twoPixels_covers {f : Fourcc} {p : Nat × Nat} (hp : p ∈ visible ((2, 1), f)) :
    ∃ r ∈ [twoPixels], r.Covers p.1 p.2 := by
  obtain ⟨hx, hy⟩ := hp
  refine ⟨twoPixels, List.mem_singleton.mpr rfl, ?_⟩
  unfold Rect.Covers twoPixels
  dsimp only at hx hy ⊢
  omega

/-- A client with two pixels in a pool, of another shade each commit. -/
def painting : Client where
  buffer n := .shm 2 1 8 0 (some .argb8888) (fun _ => UInt8.ofNat n) 8
  damageSince _ _ := [twoPixels]
  rows _ _ _ _ _ _ _ _ hb y hy := by
    cases hb
    dsimp only [Int.reduceToNat] at hy ⊢
    omega
  whole n k hk p hp := by
    cases hk
    exact twoPixels_covers hp
  covers c n k _ hk _ p hp _ := by
    cases hk
    exact twoPixels_covers hp
  grows _ _ _ _ _ _ _ _ _ _ _ hin := hin

/-- The pool fails under the copy, which reads something else. -/
def faulty : Tries := { Tries.granted with access := .faults fun _ => 255 }

/-- A slot is filled and given back, and the copy of the next commit into it fails. -/
def failedRun : List StagingOp := [.commits, .stages Tries.granted, .drops 1, .commits, .stages faulty]

theorem staging_copies_all_failed :
    let s := run painting.toTimeline failedRun
    let staged := s.stage painting.toTimeline Tries.granted
    (s.ring.slots.map fun slot => (slot.uid, slot.commit, slot.pixels 1 0)) = [(1, some 1, (255, 255, 255, 255))] ∧
      staged.1 = some (.filled, 1) ∧
      ∀ slot ∈ staged.2.ring.slots, slot.uid = 1 → slot.Shows (painting.buffer s.now) := by
  have hfilled : ((run painting.toTimeline failedRun).stage painting.toTimeline Tries.granted).1 = some (.filled, 1) := by
    decide +kernel
  obtain ⟨hshows, -⟩ := staging_copies_all painting failedRun Tries.granted
  exact ⟨by decide +kernel, hfilled, (hshows .filled 1 hfilled (by decide)).2⟩

end Staging

end IhsWl
