import IhsWl.Timing.Handings

/-!
# Feedback and barriers are conserved by the frame queue
-/

namespace IhsWl

namespace FramesOp

theorem pushes_append (xs ys : List FramesOp) : pushes (xs ++ ys) = pushes xs ++ pushes ys :=
  List.filterMap_append

theorem flatMap_pushes {α : Type*} (g : Push → List α) (ops : List FramesOp) :
    (pushes ops).flatMap g = ops.flatMap fun op => (pushes [op]).flatMap g := by
  induction ops with
  | nil => rfl
  | cons op ops ih =>
      rw [show op :: ops = [op] ++ ops from rfl, pushes_append, List.flatMap_append, ih]
      rfl

end FramesOp

namespace Frames

open FramesOp

/-- What the callers of a queue promise: seqs only grow. -/
def Growing (ops : List FramesOp) : Prop := ((pushes ops).map Push.seq).Pairwise (· < ·)

instance (ops : List FramesOp) : Decidable (Growing ops) :=
  inferInstanceAs (Decidable (((pushes ops).map Push.seq).Pairwise (· < ·)))

theorem Growing.of_append {xs ys : List FramesOp} (h : Growing (xs ++ ys)) : Growing xs := by
  rw [Growing, pushes_append, List.map_append] at h
  exact (List.pairwise_append.mp h).1

/-- No two handings have a name in common. -/
structure Distinct (ops : List FramesOp) : Prop where
  callbacks : (callbacks ops).Nodup
  barriers : (barriers ops).Nodup

theorem growing_numbered {ops : List FramesOp} (h : Growing ops) : Growing (numbered ops) := by
  rw [Growing, numbered, seqs_numberFrom]
  exact h

theorem distinct_numbered (ops : List FramesOp) : Distinct (numbered ops) := ⟨nodup_callbacks ops, nodup_barriers ops⟩

/-- What holds of the queue after `ops`. -/
structure Queue (ops : List FramesOp) (fs : Frames) : Prop where
  sorted : (fs.map Frame.seq).Pairwise (· < ·)
  made : ∀ f ∈ fs, ∃ p ∈ pushes ops, (Frame.submitted p.now p.seq p.shown p.taken).Later f
  bounded : fs.length ≤ maxInFlight

theorem seqs_of_forall₂ {gs fs : Frames} (h : List.Forall₂ Frame.Later gs fs) :
    fs.map Frame.seq = gs.map Frame.seq := by
  induction h with
  | nil => rfl
  | cons hf _ ih => rw [List.map_cons, List.map_cons, hf.seq, ih]

theorem mem_of_forall₂ {gs fs : Frames} (h : List.Forall₂ Frame.Later gs fs) {f : Frame} (hf : f ∈ fs) :
    ∃ g ∈ gs, g.Later f := by
  induction h with
  | nil => cases hf
  | cons hl _ ih =>
      rcases List.mem_cons.mp hf with rfl | hf
      · exact ⟨_, List.mem_cons_self, hl⟩
      · obtain ⟨g, hg, hl⟩ := ih hf
        exact ⟨g, List.mem_cons_of_mem _ hg, hl⟩

theorem mem_made {ops : List FramesOp} {g : Frame} (h : g ∈ made ops) :
    ∃ p ∈ pushes ops, g = Frame.submitted p.now p.seq p.shown p.taken := by
  obtain ⟨p, hp, rfl⟩ := List.mem_map.mp h
  exact ⟨p, hp, rfl⟩

/-- One call keeps the queue in order, bounded, and made of pushed frames. -/
theorem Queue.call {ops : List FramesOp} {fs : Frames} {op : FramesOp} (h : Queue ops fs)
    (hgrows : Growing (ops ++ [op])) : Queue (ops ++ [op]) (op.call fs).frames := by
  obtain ⟨gs, hsub, hlater⟩ := call_frames fs op
  have hmade : ∀ g ∈ fs ++ Frames.made [op], ∃ p ∈ pushes (ops ++ [op]),
      (Frame.submitted p.now p.seq p.shown p.taken).Later g := by
    intro g hg
    rw [pushes_append]
    rcases List.mem_append.mp hg with hg | hg
    · obtain ⟨p, hp, hl⟩ := h.made g hg
      exact ⟨p, List.mem_append_left _ hp, hl⟩
    · obtain ⟨p, hp, rfl⟩ := mem_made hg
      exact ⟨p, List.mem_append_right _ hp, .refl _⟩
  have hseqs : ((pushes (ops ++ [op])).map Push.seq).Pairwise (· < ·) := hgrows
  rw [pushes_append, List.map_append] at hseqs
  obtain ⟨-, hnew, hlt⟩ := List.pairwise_append.mp hseqs
  refine ⟨?_, ?_, ?_⟩
  · rw [seqs_of_forall₂ hlater]
    refine List.Pairwise.sublist (hsub.map _) ?_
    rw [List.map_append, List.pairwise_append]
    refine ⟨h.sorted, by simpa [Frames.made, Frame.submitted, Function.comp_def] using hnew, ?_⟩
    -- A frame still queued was pushed before the new one.
    intro a ha b hb
    obtain ⟨f, hf, rfl⟩ := List.mem_map.mp ha
    obtain ⟨g, hg, rfl⟩ := List.mem_map.mp hb
    obtain ⟨p, hp, hl⟩ := h.made f hf
    obtain ⟨q, hq, rfl⟩ := mem_made hg
    rw [hl.seq]
    exact hlt _ (List.mem_map_of_mem hp) _ (List.mem_map_of_mem hq)
  · intro f hf
    obtain ⟨g, hg, hl⟩ := mem_of_forall₂ hlater hf
    obtain ⟨p, hp, hl'⟩ := hmade g (hsub.subset hg)
    exact ⟨p, hp, hl'.trans hl⟩
  · cases op with
    | push p => exact (push_spec fs p.now p.seq p.shown p.taken).choose_spec.2.1
    | _ =>
        have hlen := hsub.length_le
        rw [hlater.length_eq] at hlen
        refine Nat.le_trans ?_ h.bounded
        simpa [Frames.made, pushes] using hlen

theorem run_queue (ops : List FramesOp) (hgrows : Growing ops) : Queue ops (run ops).1 := by
  refine Ledger.run_induct (P := fun ops fs => Growing ops → Queue ops fs) ?_ ?_ ops hgrows
  · exact fun _ => ⟨.nil, fun f hf => absurd hf List.not_mem_nil, Nat.zero_le _⟩
  · exact fun ops op ih hgrows => (ih hgrows.of_append).call hgrows

/-! ## Which answer a report gives -/

theorem Queue.frame_unique {ops : List FramesOp} {fs : Frames} (h : Queue ops fs) {f g : Frame}
    (hf : f ∈ fs) (hg : g ∈ fs) (he : f.seq = g.seq) : f = g :=
  List.inj_on_of_nodup_map (h.sorted.imp (fun h => Nat.ne_of_lt h)) hf hg he

theorem push_unique {ops : List FramesOp} (h : Growing ops) {p q : Push} (hp : p ∈ pushes ops)
    (hq : q ∈ pushes ops) (he : p.seq = q.seq) : p = q :=
  List.inj_on_of_nodup_map (h.imp (fun h => Nat.ne_of_lt h)) hp hq he

/-- Where what satisfies `p` comes first, a list is split into what does and what does not. -/
theorem split_of_pairwise {α : Type*} {p : α → Bool} {xs : List α} (h : xs.Pairwise fun x y => p y = true → p x = true) :
    xs.takeWhile p = xs.filter p ∧ xs.dropWhile p = xs.filter (!p ·) := by
  induction xs with
  | nil => exact ⟨rfl, rfl⟩
  | cons x xs ih =>
      rw [List.pairwise_cons] at h
      obtain ⟨htake, hdrop⟩ := ih h.2
      cases hx : p x with
      | true => simp [hx, htake, hdrop]
      | false =>
          have hnone : ∀ y ∈ xs, p y = false := fun y hy => by
            by_contra hne
            exact absurd (h.1 y hy (Bool.not_eq_false _ ▸ hne)) (by simp [hx])
          have hall : xs.filter (!p ·) = xs := List.filter_eq_self.mpr fun y hy => by simp [hnone y hy]
          have hempty : xs.filter p = [] := List.filter_eq_nil_iff.mpr fun y hy => by simp [hnone y hy]
          simp [hx, hall, hempty]

theorem Queue.split {ops : List FramesOp} {fs : Frames} (h : Queue ops fs) (n : Nat) :
    fs.takeWhile (fun f => f.seq ≤ n) = fs.filter (fun f => f.seq ≤ n) ∧
      fs.dropWhile (fun f => f.seq ≤ n) = fs.filter fun f => !decide (f.seq ≤ n) := by
  refine split_of_pairwise ((List.pairwise_map.mp h.sorted).imp fun hlt hle => ?_)
  exact decide_eq_true (Nat.le_trans (Nat.le_of_lt hlt) (of_decide_eq_true hle))

theorem Queue.mem_takeWhile {ops : List FramesOp} {fs : Frames} (h : Queue ops fs) {f : Frame} {n : Nat} :
    f ∈ fs.takeWhile (fun f => f.seq ≤ n) ↔ f ∈ fs ∧ f.seq ≤ n := by
  rw [(h.split n).1, List.mem_filter, decide_eq_true_iff]

theorem Queue.mem_dropWhile {ops : List FramesOp} {fs : Frames} (h : Queue ops fs) {f : Frame} {n : Nat} :
    f ∈ fs.dropWhile (fun f => f.seq ≤ n) ↔ f ∈ fs ∧ n < f.seq := by
  rw [(h.split n).2, List.mem_filter, Bool.not_eq_true', decide_eq_false_iff_not, Nat.not_le]

theorem Queue.mem_shownBy {ops : List FramesOp} {fs : Frames} (h : Queue ops fs) {n : Nat} {x : Nat × Nat} :
    x ∈ fs.shownBy n ↔ ∃ g ∈ fs, g.seq = n ∧ x ∈ g.shown := by
  unfold shownBy
  cases hf : fs.find? (fun f => f.seq == n) with
  | none =>
      simp only [List.not_mem_nil, false_iff, not_exists, not_and]
      intro g hg hn
      have := List.find?_eq_none.mp hf g hg
      simp [hn] at this
  | some f =>
      have hmem := List.mem_of_find?_eq_some hf
      have hseq : f.seq = n := by simpa using List.find?_some hf
      constructor
      · exact fun hx => ⟨f, hmem, hseq, hx⟩
      · rintro ⟨g, hg, hn, hx⟩
        rwa [h.frame_unique hmem hg (hseq.trans hn.symm)]

theorem presented_mem_report {shown : List (Nat × Nat)} {r : Report} {f : Frame} {cb : Nat} :
    Effect.presented cb r ∈ f.report shown r ↔
      ∃ fb ∈ f.feedback, fb.callback = cb ∧ (fb.layer, fb.generation) ∈ shown := by
  simp only [Frame.report, List.mem_append, List.mem_map, Frame.release, reduceCtorEq, and_false,
    exists_false, or_false]
  constructor
  · rintro ⟨fb, hfb, he⟩
    split at he
    · rename_i hs
      simp only [Effect.presented.injEq, and_true] at he
      exact ⟨fb, hfb, he, by simpa using hs⟩
    · cases he
  · rintro ⟨fb, hfb, rfl, hs⟩
    exact ⟨fb, hfb, by simp [hs]⟩

/-- A report presents a feedback exactly when the frame it came with showed its content and is queued
at or before the frame reported, which is queued and still shows that content. -/
theorem presented_iff {ops : List FramesOp} (hgrows : Growing ops) (hdistinct : Distinct ops) {p : Push} (hp : p ∈ pushes ops)
    {fb : Feedback} (hfb : fb ∈ p.taken.feedback) (r : Report) :
    Effect.presented fb.callback r ∈ ((run ops).1.presented r).effects ↔
      (fb.layer, fb.generation) ∈ p.shown ∧ (∃ f ∈ (run ops).1, f.seq = p.seq) ∧ p.seq ≤ r.seq ∧
        ∃ g ∈ (run ops).1, g.seq = r.seq ∧ (fb.layer, fb.generation) ∈ g.shown := by
  have hq := run_queue ops hgrows
  simp only [presented, List.mem_flatMap, hq.mem_takeWhile, presented_mem_report, hq.mem_shownBy]
  constructor
  · rintro ⟨f, ⟨hf, hle⟩, fb', hfb', hcb, hshown⟩
    obtain ⟨q, hqm, hl⟩ := hq.made f hf
    rw [hl.feedback] at hfb'
    obtain ⟨hfb', hqs⟩ := List.mem_filter.mp hfb'
    -- The callback came with one push only, and once in it.
    have hpq : p = q := Ledger.giver_unique hdistinct.callbacks hp hqm
      (List.mem_map_of_mem hfb) (hcb ▸ List.mem_map_of_mem hfb')
    subst hpq
    have hnd : (p.taken.feedback.map Feedback.callback).Nodup :=
      (List.nodup_flatMap.mp hdistinct.callbacks).1 p hp
    obtain rfl : fb' = fb := List.inj_on_of_nodup_map hnd hfb' hfb hcb
    have hseq : f.seq = p.seq := hl.seq
    exact ⟨by simpa using hqs, ⟨f, hf, hseq⟩, hseq ▸ hle, hshown⟩
  · rintro ⟨hs, ⟨f, hf, hseq⟩, hle, hshown⟩
    obtain ⟨q, hqm, hl⟩ := hq.made f hf
    obtain rfl : q = p := push_unique hgrows hqm hp (hl.seq.symm.trans hseq)
    refine ⟨f, ⟨hf, hseq ▸ hle⟩, fb, ?_, rfl, hshown⟩
    rw [hl.feedback]
    exact List.mem_filter.mpr ⟨hfb, by simpa using hs⟩

/-- No other call presents anything. -/
theorem presented_only_by_report {fs : Frames} {op : FramesOp} {cb : Nat} {r : Report}
    (h : Effect.presented cb r ∈ (op.call fs).effects) : op = .presented r := by
  have hdrop : ∀ f : Frame, Effect.presented cb r ∉ f.dropUnshown := by
    intro f; simp [Frame.dropUnshown, Frame.release]
  have hold : ∀ before, Effect.presented cb r ∉ (fs.releaseOlder before).effects := by
    intro before hm
    obtain ⟨f, -, hm⟩ := List.mem_flatMap.mp hm
    split at hm
    · simp [Frame.release] at hm
    · cases hm
  cases op with
  | push p =>
      rcases List.mem_append.mp h with h | h
      · simp at h
      · obtain ⟨f, -, hm⟩ := List.mem_flatMap.mp h
        exact absurd hm (hdrop f)
  | presented r' =>
      obtain ⟨f, -, hm⟩ := List.mem_flatMap.mp h
      rcases List.mem_append.mp hm with hm | hm
      · obtain ⟨fb, -, he⟩ := List.mem_map.mp hm
        split at he
        · rw [(Effect.presented.inj he).2]
        · cases he
      · simp [Frame.release] at hm
  | releaseOlder before => exact absurd h (hold before)
  | releaseAll => exact absurd h (hold u64Max)
  | flushOlder before => cases h
  | clear =>
      obtain ⟨f, -, hm⟩ := List.mem_flatMap.mp h
      exact absurd hm (hdrop f)

/-! ## The whole account -/

theorem mem_signals {es : List Effect} {b : Barrier} :
    b ∈ es.filterMap Effect.signals ↔ Effect.signal b ∈ es := by
  rw [List.mem_filterMap]
  constructor
  · rintro ⟨e, he, hb⟩
    cases e <;> cases hb
    exact he
  · exact fun h => ⟨_, h, rfl⟩

/-- What becomes of each handing after `ops`, where no two have a name in common. -/
structure Accounts (ops : List FramesOp) : Prop where
  /-- Every feedback handed over is answered or still queued, and there is no other. -/
  feedback : (callbacks ops).Perm ((run ops).2.filterMap Effect.answers ++ (run ops).1.queuedCallbacks)
  /-- Never both, never twice. -/
  feedbackOnce : ((run ops).2.filterMap Effect.answers ++ (run ops).1.queuedCallbacks).Nodup
  /-- When the next report presents it. -/
  presented : ∀ r, ∀ p ∈ pushes ops, ∀ fb ∈ p.taken.feedback,
    (Effect.presented fb.callback r ∈ ((run ops).1.presented r).effects ↔
      (fb.layer, fb.generation) ∈ p.shown ∧ (∃ f ∈ (run ops).1, f.seq = p.seq) ∧ p.seq ≤ r.seq ∧
        ∃ g ∈ (run ops).1, g.seq = r.seq ∧ (fb.layer, fb.generation) ∈ g.shown)
  /-- Every barrier handed over is signaled or still queued, never both, never twice. -/
  barriers : (barriers ops).Perm ((run ops).2.filterMap Effect.signals ++ (run ops).1.queuedBarriers)
  barriersOnce : ((run ops).2.filterMap Effect.signals ++ (run ops).1.queuedBarriers).Nodup
  /-- It is signaled by the time its frame leaves the queue. -/
  left : ∀ p ∈ pushes ops, (∀ f ∈ (run ops).1, f.seq ≠ p.seq) →
    ∀ b ∈ p.taken.barriers, Effect.signal b ∈ (run ops).2

/-- The account of a queue after `ops`. -/
structure Conserves (ops : List FramesOp) : Prop where
  /-- The calls are the numbered ones, and do what these do, to what the numbers stand for. -/
  calls : (numbered ops).map (named (naming (callbacks ops) (barriers ops))) = ops
  same : run ops = ((run (numbered ops)).1.map (Frame.named (naming (callbacks ops) (barriers ops))),
    (run (numbered ops)).2.map (Effect.named (naming (callbacks ops) (barriers ops))))
  /-- Each handing by its number. -/
  handings : Accounts (numbered ops)
  /-- Every answer of another call than a report is `discarded`. -/
  discarded : ∀ op : FramesOp, ∀ cb r, Effect.presented cb r ∈ (op.call (run ops).1).effects → op = .presented r
  /-- A result about barriers is whether the call signaled one. -/
  told : ∀ op : FramesOp, op.tellsOfBarriers = true →
    ((op.call (run ops).1).returned = true ↔ ∃ b, Effect.signal b ∈ (op.call (run ops).1).effects)
  /-- A report leaves exactly the frames after the one it names. -/
  reported : ∀ r, ∀ f, f ∈ ((run ops).1.presented r).frames ↔ f ∈ (run ops).1 ∧ r.seq < f.seq
  /-- In order, and no more than are kept in flight. -/
  sorted : ((run ops).1.map Frame.seq).Pairwise (· < ·)
  bounded : (run ops).1.length ≤ maxInFlight

theorem accounts {ops : List FramesOp} (hgrows : Growing ops) (hdistinct : Distinct ops) : Accounts ops := by
  have hcb : (callbacks ops).Perm ((run ops).2.filterMap Effect.answers ++ (run ops).1.queuedCallbacks) := by
    rw [callbacks, flatMap_pushes]
    exact Ledger.conserved (fun op => (pushes [op]).flatMap Push.callbacks) queuedCallbacks
      Effect.answers call_callbacks [] ops
  have hb : (barriers ops).Perm ((run ops).2.filterMap Effect.signals ++ (run ops).1.queuedBarriers) := by
    rw [barriers, flatMap_pushes]
    exact Ledger.conserved (fun op => (pushes [op]).flatMap Push.barriers) queuedBarriers
      Effect.signals call_barriers [] ops
  refine ⟨hcb, hcb.nodup_iff.mp hdistinct.callbacks, fun r p hp fb hfb => presented_iff hgrows hdistinct hp hfb r,
    hb, hb.nodup_iff.mp hdistinct.barriers, fun p hp hleft b hbp => ?_⟩
  have hmem := hb.mem_iff.mp (List.mem_flatMap.mpr ⟨p, hp, hbp⟩)
  rcases List.mem_append.mp hmem with h | h
  · exact mem_signals.mp h
  · -- A queued barrier's frame is the one it was pushed with.
    obtain ⟨f, hf, hbf⟩ := List.mem_flatMap.mp h
    obtain ⟨q, hqm, hl⟩ := (run_queue ops hgrows).made f hf
    have hpq : p = q := Ledger.giver_unique hdistinct.barriers hp hqm hbp (hl.mem_barriers hbf)
    exact absurd (hpq ▸ hl.seq) (hleft f hf)

/-- Feedback and barriers are conserved, each time they are handed over. -/
theorem frames_conserve (ops : List FramesOp) (hgrows : Growing ops) : Conserves ops := by
  have hq := run_queue ops hgrows
  have hsame := run_named (naming (callbacks ops) (barriers ops)) (numbered ops)
  rw [named_numbered] at hsame
  refine ⟨named_numbered ops, hsame, accounts (growing_numbered hgrows) (distinct_numbered ops),
    fun op cb r => presented_only_by_report, fun op hop => ?_, fun r f => hq.mem_dropWhile, hq.sorted, hq.bounded⟩
  rw [call_returned _ op hop, ne_eq, List.eq_nil_iff_forall_not_mem, not_forall]
  simp only [mem_signals, not_not]

/-- Two frames, the second carrying the content of the first and its barrier again, and the second one's report. -/
theorem frames_conserve_carried :
    Conserves [.push ⟨10, 1, [(7, 1)], ⟨[⟨7, 1, 100⟩], [⟨0, 0⟩]⟩⟩,
      .push ⟨20, 2, [(7, 1), (8, 1)], ⟨[⟨8, 2, 101⟩], [⟨0, 0⟩, ⟨1, 0⟩]⟩⟩, .presented ⟨2, 5, 0, 1, 0⟩] :=
  frames_conserve _ (by decide)

end Frames

end IhsWl
