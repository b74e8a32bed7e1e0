import IhsWl.Showing
import IhsWl.Staging.Theorems
import IhsWl.Timing.Theorems

/-!
# A layer's generation and its pixels

A layer carries the content its generation names, exactly when no slot of an earlier commit had to be shown. Then
feedback is presented only for content the reported frame had.
-/

namespace IhsWl

/-! ## Showing a slot again -/

namespace Staging

variable {timeline : Timeline} {s : Staging} {t : Tries}

theorem busy_raised (n : Nat) : ({ s with nextUid := n } : Staging).busy timeline t = s.busy timeline t := by
  unfold busy
  dsimp only
  split
  · rfl
  · unfold resize
    split <;> rfl

theorem fill_path {source : Source} {i : Nat} {path : Path} {uid : Nat}
    (h : (s.fill timeline source t i).1 = some (path, uid)) : path = .filled := by
  unfold fill at h
  split at h
  · cases h
  · dsimp only at h
    split at h
    · cases h
      rfl
    · cases h

/-- A slot is shown again when there is no other way, and only then. -/
theorem stage_again (timeline : Timeline) (s : Staging) (t : Tries) :
    (∃ uid, (s.stage timeline t).1 = some (.again, uid)) ↔ s.busy timeline t = true := by
  unfold stage busy
  cases (timeline.buffer s.now).source t.access with
  | none => simp
  | some sf =>
      obtain ⟨source, fourcc⟩ := sf
      dsimp only
      generalize s.resize source.size fourcc = s₁
      cases hcurrent : s₁.newestSlot.filter fun slot => slot.commit == some s₁.now with
      | some slot =>
          obtain ⟨hnewest, hmark⟩ := Option.filter_eq_some_iff.mp hcurrent
          have hmark : slot.commit = some s₁.now := by simpa using hmark
          simp [showSlot, hnewest, hmark]
      | none =>
          dsimp only
          split
          · rename_i hcrowded
            cases hnewest : s₁.newestSlot with
            | none => simp
            | some slot =>
                have hmark : slot.commit ≠ some s₁.now := by
                  intro hmark
                  rw [hnewest, Option.filter_some, if_pos (by rw [hmark]; exact beq_self_eq_true _)] at hcurrent
                  cases hcurrent
                simp [showSlot, hcrowded, hmark]
          · rename_i hroom
            simp only [Bool.not_eq_true] at hroom
            simp only [hroom, Bool.false_and, Bool.false_eq_true, iff_false, not_exists]
            intro uid hr
            split at hr
            · cases hr
            · exact nomatch fill_path hr

end Staging

namespace Showing

variable {clients : WlSurface → Client} {s : Showing} {maxLayers : Nat}

/-! ## The surfaces' rings -/

/-- The slot a layer carries was filled from the buffer its generation shows, and shows all of it. -/
def Carries (clients : WlSurface → Client) (s : Showing) (l : SceneLayer) : Prop :=
  ∀ slot, l.slot = some slot →
    slot.commit = some ((s.contents l.surface).commits l.generation) ∧
      slot.Shows ((clients l.surface).buffer ((s.contents l.surface).commits l.generation))

/-- The generation there is now shows the ring's current commit. -/
structure Rings (clients : WlSurface → Client) (s : Showing) : Prop where
  sound : ∀ x, Staging.Sound (clients x) (s.stager x)
  commit : ∀ x, (s.contents x).commits (s.contents x).generation = (s.contents x).staging.now

/-- The surfaces' content is the same but for their rings. -/
def Same (s s' : Showing) : Prop :=
  ∀ x, (s'.contents x).generation = (s.contents x).generation ∧ (s'.contents x).commits = (s.contents x).commits ∧
    (s'.contents x).feedback = (s.contents x).feedback

theorem Same.carries {s' : Showing} (h : Same s s') (l : SceneLayer) : Carries clients s' l ↔ Carries clients s l := by
  unfold Carries
  rw [(h l.surface).2.1]

@[simp] theorem contents_keep (x y : WlSurface) (staging : Staging) :
    (s.keep x staging).contents y = if y = x then { s.contents x with staging := staging } else s.contents y :=
  Function.update_apply ..

theorem stager_keep_self (x : WlSurface) (staging : Staging) : (s.keep x staging).stager x = staging := by
  unfold stager
  rw [contents_keep, if_pos rfl]
  rfl

theorem stager_keep_of_ne {x y : WlSurface} (hne : y ≠ x) (staging : Staging) :
    (s.keep x staging).stager y = { s.stager y with nextUid := staging.nextUid } := by
  unfold stager
  rw [contents_keep, if_neg hne]
  rfl

theorem same_keep (x : WlSurface) (staging : Staging) : Same s (s.keep x staging) := by
  intro y
  rw [contents_keep]
  split
  · rename_i heq
    subst heq
    exact ⟨rfl, rfl, rfl⟩
  · exact ⟨rfl, rfl, rfl⟩

theorem Rings.keep (h : Rings clients s) {x : WlSurface} {staging : Staging}
    (hsound : Staging.Sound (clients x) staging) (hnow : staging.now = (s.contents x).staging.now)
    (huids : s.nextUid ≤ staging.nextUid) : Rings clients (s.keep x staging) where
  sound y := by
    by_cases hy : y = x
    · subst hy
      rwa [stager_keep_self]
    · rw [stager_keep_of_ne hy]
      exact (h.sound y).raised huids
  commit y := by
    rw [contents_keep]
    split
    · rename_i hy
      subst hy
      exact (h.commit y).trans hnow.symm
    · exact h.commit y

/-! ## Layers -/

section Layers

variable {x : WlSurface} {t : Tries}

/-- What one surface adds to a scene. -/
structure Adds (clients : WlSurface → Client) (s : Showing) (x : WlSurface) (t : Tries)
    (r : Option SceneLayer × Showing) : Prop where
  rings : Rings clients r.2
  same : Same s r.2
  others : ∀ y, y ≠ x → ∃ n, r.2.stager y = { s.stager y with nextUid := n }
  frames : r.2.frames = s.frames ∧ r.2.seq = s.seq ∧ r.2.sent = s.sent ∧ r.2.asked = s.asked ∧ r.2.log = s.log
  named : ∀ l ∈ r.1, l.generation = (s.contents l.surface).generation
  carries : (∀ l ∈ r.1, Carries clients s l) ↔ (s.stager x).busy (clients x).toTimeline t = false

theorem adds_imported (h : Rings clients s) (hb : (clients x).buffer (s.contents x).staging.now = .imported) :
    Adds clients s x t (some ⟨x, (s.contents x).generation, none⟩, s) where
  rings := h
  same _ := ⟨rfl, rfl, rfl⟩
  others y _ := ⟨s.nextUid, rfl⟩
  frames := ⟨rfl, rfl, rfl, rfl, rfl⟩
  named l hl := by cases hl; rfl
  carries := by
    have hidle : (s.stager x).busy (clients x).toTimeline t = false := by
      unfold Staging.busy
      rw [show (clients x).buffer (s.stager x).now = .imported from hb]
      rfl
    simp only [hidle, iff_true]
    intro l hl slot hslot
    cases hl
    cases hslot

theorem adds_staged (h : Rings clients s) :
    let staged := (s.stager x).stage (clients x).toTimeline t
    Adds clients s x t
      ((staged.1.bind fun shown => staged.2.ring.slots.find? fun slot => slot.uid == shown.2).map fun slot =>
        ⟨x, (s.contents x).generation, some slot⟩, s.keep x staged.2) := by
  have hstaged := Staging.staged (h.sound x) t
  have hagain := Staging.stage_again (clients x).toTimeline (s.stager x) t
  dsimp only
  generalize (s.stager x).stage (clients x).toTimeline t = staged at hstaged hagain ⊢
  refine ⟨h.keep hstaged.sound hstaged.now hstaged.uids, same_keep x _, fun y hy => ⟨_, stager_keep_of_ne hy _⟩,
    ⟨rfl, rfl, rfl, rfl, rfl⟩, fun l hl => ?_, ?_⟩
  · obtain ⟨slot, -, rfl⟩ := Option.map_eq_some_iff.mp hl
    rfl
  · cases hr : staged.1 with
    | none =>
        rw [← Bool.not_eq_true, ← hagain, hr]
        simp
    | some shown =>
        obtain ⟨path, uid⟩ := shown
        obtain ⟨slot, hslot, huid, hmark, hshows⟩ := hstaged.shows path uid hr
        -- The uid is that slot's alone.
        have hfound : staged.2.ring.slots.find? (fun slot => slot.uid == uid) = some slot := by
          have hsome : (staged.2.ring.slots.find? fun slot => slot.uid == uid).isSome :=
            List.find?_isSome.mpr ⟨slot, hslot, beq_iff_eq.mpr huid⟩
          obtain ⟨slot', hslot'⟩ := Option.isSome_iff_exists.mp hsome
          have huid' : slot'.uid = uid := by
            have := List.find?_some hslot'
            simpa using this
          rw [hslot', List.inj_on_of_nodup_map hstaged.sound.uids (List.mem_of_find?_eq_some hslot') hslot
            (huid'.trans huid.symm)]
        have hcommit := h.commit x
        have hpath : path ≠ .again ↔ (s.stager x).busy (clients x).toTimeline t = false := by
          rw [← Bool.not_eq_true, ← hagain, hr, not_iff_not]
          constructor
          · rintro rfl
            exact ⟨uid, rfl⟩
          · rintro ⟨uid', heq⟩
            cases heq
            rfl
        rw [← hpath, Option.bind_some, hfound, Option.map_some]
        constructor
        · intro hall
          have hc := (hall _ rfl slot rfl).1
          exact hmark.mp (hc.trans (congrArg some hcommit))
        · intro hne l hl slot' hslot'
          cases hl
          cases hslot'
          exact ⟨(hmark.mpr hne).trans (congrArg some hcommit).symm, by
            rw [hcommit]; exact hshows hne⟩

theorem adds_layer (h : Rings clients s) (x : WlSurface) (t : Tries) :
    Adds clients s x t (s.layer (fun x => (clients x).toTimeline) x t) := by
  unfold layer
  split
  · rename_i hb
    exact adds_imported h hb
  · exact adds_staged h

end Layers

/-! ## Scenes -/

theorem Same.trans {s' s'' : Showing} (h : Same s s') (h' : Same s' s'') : Same s s'' := fun x =>
  ⟨(h' x).1.trans (h x).1, (h' x).2.1.trans (h x).2.1, (h' x).2.2.trans (h x).2.2⟩

/-- What the layers of a scene come to. -/
structure Builds (clients : WlSurface → Client) (s : Showing) (scene : List (WlSurface × Tries))
    (r : List SceneLayer × Showing) : Prop where
  rings : Rings clients r.2
  same : Same s r.2
  frames : r.2.frames = s.frames ∧ r.2.seq = s.seq ∧ r.2.sent = s.sent ∧ r.2.asked = s.asked ∧ r.2.log = s.log
  named : ∀ l ∈ r.1, l.generation = (s.contents l.surface).generation
  carries : (∀ l ∈ r.1, Carries clients s l) ↔ s.Spare (fun x => (clients x).toTimeline) scene

theorem builds (h : Rings clients s) (scene : List (WlSurface × Tries)) (hnodup : (scene.map Prod.fst).Nodup) :
    Builds clients s scene (s.build (fun x => (clients x).toTimeline) scene) := by
  induction scene generalizing s with
  | nil =>
      refine ⟨h, fun _ => ⟨rfl, rfl, rfl⟩, ⟨rfl, rfl, rfl, rfl, rfl⟩, nofun, ?_⟩
      exact iff_of_true (fun l hl => by cases hl) fun p hp => by cases hp
  | cons p scene ih =>
      obtain ⟨x, t⟩ := p
      obtain ⟨hx, hrest⟩ := List.nodup_cons.mp hnodup
      have hadds := adds_layer h x t
      have hbuilds := ih hadds.rings hrest
      unfold build
      dsimp only
      generalize s.layer (fun x => (clients x).toTimeline) x t = first at hadds hbuilds ⊢
      generalize first.2.build (fun x => (clients x).toTimeline) scene = rest at hbuilds ⊢
      -- The rest of the scene is as busy as before the first surface was staged.
      have hspare : first.2.Spare (fun x => (clients x).toTimeline) scene ↔
          s.Spare (fun x => (clients x).toTimeline) scene := by
        refine forall₂_congr fun q hq => ?_
        obtain ⟨n, hn⟩ := hadds.others q.1 fun heq => hx (List.mem_map.mpr ⟨q, hq, heq⟩)
        rw [hn, Staging.busy_raised]
      obtain ⟨hframes, hseq, hsent, hasked, hlog⟩ := hadds.frames
      obtain ⟨hframes', hseq', hsent', hasked', hlog'⟩ := hbuilds.frames
      refine ⟨hbuilds.rings, hadds.same.trans hbuilds.same, ⟨hframes'.trans hframes, hseq'.trans hseq,
        hsent'.trans hsent, hasked'.trans hasked, hlog'.trans hlog⟩, fun l hl => ?_, ?_⟩
      · rcases List.mem_append.mp hl with hl | hl
        · exact hadds.named l (Option.mem_toList.mp hl)
        · exact (hbuilds.named l hl).trans (hadds.same l.surface).1
      · have hcarries := hbuilds.carries
        simp only [hadds.same.carries] at hcarries
        have hfirst := hadds.carries
        unfold Spare at hcarries hspare ⊢
        simp only [Option.mem_def] at hfirst
        simp only [List.mem_append, Option.mem_toList, or_imp, forall_and, hcarries, hspare, hfirst, List.mem_cons,
          forall_eq]

theorem contents_modify (x y : WlSurface) (f : Shown → Shown) :
    (s.modify x f).contents y = if y = x then f (s.contents x) else s.contents y :=
  Function.update_apply ..

section Commits

variable (s : Showing) (x : WlSurface) (attaches : Bool) (feedback : List Nat)

theorem contents_commit_of_ne {y : WlSurface} (hne : y ≠ x) :
    (s.commit x attaches feedback).contents y = s.contents y :=
  Function.update_of_ne hne ..

theorem contents_commit_self : (s.commit x attaches feedback).contents x =
    let staging : Staging := if attaches then
        { (s.contents x).staging with now := (s.contents x).staging.now + 1 } else (s.contents x).staging
    { staging := staging
      generation := (s.contents x).generation + 1
      commits := Function.update (s.contents x).commits ((s.contents x).generation + 1) staging.now
      feedback := feedback } :=
  Function.update_self ..

end Commits

/-- Taking feedback takes nothing else. -/
theorem take_spec (scene : List (WlSurface × Tries)) (s : Showing) :
    (∀ x, ∃ feedback, (s.take scene).contents x = { s.contents x with feedback := feedback } ∧
      ∀ cb ∈ feedback, cb ∈ (s.contents x).feedback) ∧
    (s.take scene).nextUid = s.nextUid ∧ (s.take scene).frames = s.frames ∧ (s.take scene).seq = s.seq ∧
      (s.take scene).sent = s.sent ∧ (s.take scene).asked = s.asked ∧ (s.take scene).log = s.log := by
  induction scene generalizing s with
  | nil => exact ⟨fun x => ⟨_, rfl, fun _ hcb => hcb⟩, rfl, rfl, rfl, rfl, rfl, rfl⟩
  | cons p scene ih =>
      obtain ⟨hcontents, hrest⟩ := ih (s.modify p.1 fun c => { c with feedback := [] })
      refine ⟨fun x => ?_, hrest⟩
      obtain ⟨feedback, heq, hmem⟩ := hcontents x
      unfold take at heq ⊢
      rw [List.foldl_cons, heq]
      rw [contents_modify] at hmem ⊢
      split at hmem
      · rename_i hx
        subst hx
        rw [if_pos rfl]
        exact ⟨feedback, rfl, fun cb hcb => by cases hmem cb hcb⟩
      · rename_i hx
        rw [if_neg hx]
        exact ⟨feedback, rfl, hmem⟩

end Showing

/-! ## Frames -/

/-- What a call that pushes nothing keeps of the queue, and what it presents. -/
structure Frames.Quiet (fs : Frames) (call : Call) : Prop where
  kept : ∀ f ∈ call.frames, ∃ g ∈ fs, f.seq = g.seq ∧ f.shown = g.shown ∧ f.feedback = g.feedback
  presented : ∀ cb r, Effect.presented cb r ∈ call.effects → ∃ f ∈ fs, ∃ fb ∈ f.feedback, fb.callback = cb ∧
    ∃ g ∈ fs, g.seq = r.seq ∧ (fb.layer, fb.generation) ∈ g.shown

namespace Frames

variable (fs : Frames)

theorem quiet_presented (r : Report) : Quiet fs (fs.presented r) where
  kept f hf := ⟨f, (List.dropWhile_sublist _).subset hf, rfl, rfl, rfl⟩
  presented cb r' h := by
    obtain rfl : r = r' := FramesOp.presented.inj (presented_only_by_report h)
    obtain ⟨f, hf, hm⟩ := List.mem_flatMap.mp h
    obtain ⟨fb, hfb, hcb, hshown⟩ := presented_mem_report.mp hm
    refine ⟨f, (List.takeWhile_sublist _).subset hf, fb, hfb, hcb, ?_⟩
    unfold shownBy at hshown
    cases hfind : fs.find? fun f => f.seq == r.seq with
    | none => simp [hfind] at hshown
    | some g =>
        rw [hfind] at hshown
        exact ⟨g, List.mem_of_find?_eq_some hfind, by simpa using List.find?_some hfind, hshown⟩

theorem quiet_releaseOlder (before : Nat) : Quiet fs (fs.releaseOlder before) where
  kept f hf := by
    obtain ⟨g, hg, rfl⟩ := List.mem_map.mp hf
    refine ⟨g, hg, ?_⟩
    split <;> exact ⟨rfl, rfl, rfl⟩
  presented cb r h := 
    nomatch presented_only_by_report (show .presented cb r ∈ (FramesOp.call fs (.releaseOlder before)).effects from h)

theorem quiet_flushOlder (before : Nat) : Quiet fs (fs.flushOlder before) where
  kept f hf := by
    obtain ⟨g, hg, rfl⟩ := List.mem_map.mp hf
    refine ⟨g, hg, ?_⟩
    split <;> exact ⟨rfl, rfl, rfl⟩
  presented cb r h := by cases h

theorem quiet_clear : Quiet fs fs.clear where
  kept f hf := by cases hf
  presented cb r h := 
    nomatch presented_only_by_report (show .presented cb r ∈ (FramesOp.call fs .clear).effects from h)

end Frames

namespace Showing

/-- Every frame was sent with what it shows, its feedback was asked, and so was what a report presented, of a frame
that showed it. -/
structure Told (s : Showing) : Prop where
  asked : ∀ x, ∀ cb ∈ (s.contents x).feedback, ⟨x, (s.contents x).generation, cb⟩ ∈ s.asked
  frames : ∀ f ∈ s.frames, (∃ layers, (f.seq, layers) ∈ s.sent ∧
    f.shown = layers.map fun l => (l.surface, l.generation)) ∧ ∀ fb ∈ f.feedback, fb ∈ s.asked
  seqs : ∀ q ∈ s.sent, q.1 ≤ s.seq
  once : (s.sent.map Prod.fst).Nodup
  log : ∀ cb r, .presented cb r ∈ s.log → ∃ fb ∈ s.asked, fb.callback = cb ∧
    ∃ layers, (r.seq, layers) ∈ s.sent ∧ ∃ l ∈ layers, l.surface = fb.layer ∧ l.generation = fb.generation

variable {clients : WlSurface → Client} {s s' : Showing} {maxLayers : Nat}

namespace Told

/-- Of the surfaces' content, it is about the generations and the feedback asked for them. -/
theorem of_contents (h : Told s) (hcontents : ∀ x, (s'.contents x).generation = (s.contents x).generation ∧
      ∀ cb ∈ (s'.contents x).feedback, cb ∈ (s.contents x).feedback)
    (hrest : s'.frames = s.frames ∧ s'.seq = s.seq ∧ s'.sent = s.sent ∧ s'.asked = s.asked ∧ s'.log = s.log) :
    Told s' := by
  obtain ⟨hframes, hseq, hsent, hasked, hlog⟩ := hrest
  refine ⟨fun x cb hcb => ?_, ?_, ?_, ?_, ?_⟩
  · rw [(hcontents x).1, hasked]
    exact h.asked x cb ((hcontents x).2 cb hcb)
  · rw [hframes, hsent, hasked]
    exact h.frames
  · rw [hseq, hsent]
    exact h.seqs
  · rw [hsent]
    exact h.once
  · rw [hlog, hsent, hasked]
    exact h.log

/-- Nothing is presented. -/
theorem logged (h : Told s) {es : List Effect} (hes : ∀ cb r, .presented cb r ∉ es) :
    Told { s with log := s.log ++ es } where
  asked := h.asked
  frames := h.frames
  seqs := h.seqs
  once := h.once
  log cb r hlog := (List.mem_append.mp hlog).elim (h.log cb r) fun hin => absurd hin (hes cb r)

theorem onFrames (h : Told s) (call : Frames → Call) (hq : Frames.Quiet s.frames (call s.frames)) :
    Told (s.onFrames call) where
  asked := h.asked
  frames f hf := by
    obtain ⟨g, hg, hseq, hshown, hfeedback⟩ := hq.kept f hf
    rw [hseq, hshown, hfeedback]
    exact h.frames g hg
  seqs := h.seqs
  once := h.once
  log cb r hlog := by
    rcases List.mem_append.mp hlog with hlog | hlog
    · exact h.log cb r hlog
    · obtain ⟨f, hf, fb, hfb, hcb, g, hg, hseq, hshown⟩ := hq.presented cb r hlog
      obtain ⟨⟨layers, hsent, hlayers⟩, -⟩ := h.frames g hg
      rw [hlayers] at hshown
      obtain ⟨l, hl, hkey⟩ := List.mem_map.mp hshown
      exact ⟨fb, (h.frames f hf).2 fb hfb, hcb, layers, hseq ▸ hsent, l, hl, (Prod.mk.inj hkey).1,
        (Prod.mk.inj hkey).2⟩

theorem commit (h : Told s) (x : WlSurface) (attaches : Bool) (feedback : List Nat) :
    Told (s.commit x attaches feedback) where
  asked y cb hcb := by
    by_cases hy : y = x
    · subst hy
      rw [contents_commit_self] at hcb ⊢
      exact List.mem_append_right _ (List.mem_map_of_mem hcb)
    · rw [contents_commit_of_ne s x attaches feedback hy] at hcb ⊢
      exact List.mem_append_left _ (h.asked y cb hcb)
  frames f hf := ⟨(h.frames f hf).1, fun fb hfb => List.mem_append_left _ ((h.frames f hf).2 fb hfb)⟩
  seqs := h.seqs
  once := h.once
  log cb r hlog := by
    rcases List.mem_append.mp hlog with hlog | hlog
    · obtain ⟨fb, hfb, hrest⟩ := h.log cb r hlog
      exact ⟨fb, List.mem_append_left _ hfb, hrest⟩
    · simp at hlog

theorem mem_feedback (h : Told s) {scene : List (WlSurface × Tries)} {fb : Feedback} (hfb : fb ∈ s.feedback scene) :
    fb ∈ s.asked := by
  obtain ⟨p, -, hfb⟩ := List.mem_flatMap.mp hfb
  obtain ⟨cb, hcb, rfl⟩ := List.mem_map.mp hfb
  exact h.asked p.1 cb hcb

/-- A frame is pushed as it is sent. -/
theorem pushed (h : Told s) (now : Nat) (layers : List SceneLayer) {feedback : List Feedback}
    (hfeedback : ∀ fb ∈ feedback, fb ∈ s.asked) :
    let call := s.frames.push now (s.seq + 1) (layers.map fun l => (l.surface, l.generation)) { feedback := feedback }
    Told { s with
      frames := call.frames, seq := s.seq + 1, sent := s.sent ++ [(s.seq + 1, layers)]
      log := s.log ++ call.effects } where
  asked := h.asked
  frames f hf := by
    rcases List.mem_append.mp ((List.drop_sublist _ _).subset hf) with hf | hf
    · obtain ⟨⟨old, hsent, hshown⟩, hasked⟩ := h.frames f hf
      exact ⟨⟨old, List.mem_append_left _ hsent, hshown⟩, hasked⟩
    · cases List.mem_singleton.mp hf
      exact ⟨⟨layers, List.mem_append_right _ (List.mem_singleton.mpr rfl), rfl⟩, fun fb hfb =>
        hfeedback fb (List.mem_filter.mp hfb).1⟩
  seqs q hq := by
    rcases List.mem_append.mp hq with hq | hq
    · exact Nat.le_succ_of_le (h.seqs q hq)
    · cases List.mem_singleton.mp hq
      exact Nat.le_refl _
  once := by
    rw [List.map_append]
    refine List.nodup_append.mpr ⟨h.once, List.nodup_singleton _, fun n hn m hm => ?_⟩
    obtain ⟨q, hq, rfl⟩ := List.mem_map.mp hn
    rw [List.mem_singleton.mp hm]
    exact Nat.ne_of_lt (Nat.lt_succ_of_le (h.seqs q hq))
  log cb r hlog := by
    rcases List.mem_append.mp hlog with hlog | hlog
    · obtain ⟨fb, hfb, hcb, old, hsent, hrest⟩ := h.log cb r hlog
      exact ⟨fb, hfb, hcb, old, List.mem_append_left _ hsent, hrest⟩
    · have hpush := Frames.presented_only_by_report (show .presented cb r ∈ (FramesOp.call s.frames
        (.push ⟨now, s.seq + 1, layers.map fun l => (l.surface, l.generation), { feedback := feedback }⟩)).effects
        from hlog)
      cases hpush

end Told

/-! ## Steps -/

theorem stager_take (s : Showing) (scene : List (WlSurface × Tries)) (x : WlSurface) :
    (s.take scene).stager x = s.stager x := by
  obtain ⟨hcontents, huids, -⟩ := take_spec scene s
  obtain ⟨feedback, heq, -⟩ := hcontents x
  unfold stager
  rw [heq, huids]

theorem Rings.take (h : Rings clients s) (scene : List (WlSurface × Tries)) : Rings clients (s.take scene) where
  sound x := by
    rw [stager_take]
    exact h.sound x
  commit x := by
    obtain ⟨feedback, heq, -⟩ := (take_spec scene s).1 x
    rw [heq]
    exact h.commit x

theorem Rings.submit (h : Rings clients s) (scene : SceneWalk) (outcome : Outcome) :
    Rings clients (s.submit (fun x => (clients x).toTimeline) maxLayers scene.1 outcome) := by
  have hbuilt := (builds (h.take scene.1) scene.1 scene.2).rings
  unfold Showing.submit
  cases outcome with
  | elsewhere => exact hbuilt
  | refused => exact ⟨hbuilt.sound, hbuilt.commit⟩
  | accepted now =>
      dsimp only
      split <;> exact ⟨hbuilt.sound, hbuilt.commit⟩

theorem Rings.commits (h : Rings clients s) (x : WlSurface) (attaches : Bool) (feedback : List Nat) :
    Rings clients (s.commit x attaches feedback) where
  sound y := by
    by_cases hy : y = x
    · subst hy
      unfold stager
      rw [contents_commit_self]
      dsimp only
      split
      · exact (h.sound y).commits
      · exact h.sound y
    · unfold stager
      rw [contents_commit_of_ne s x attaches feedback hy]
      exact h.sound y
  commit y := by
    by_cases hy : y = x
    · subst hy
      rw [contents_commit_self]
      exact Function.update_self ..
    · rw [contents_commit_of_ne s x attaches feedback hy]
      exact h.commit y

theorem Rings.onRing (h : Rings clients s) (x : WlSurface) {op : StagingOp}
    (hnow : ((s.stager x).step (clients x).toTimeline op).now = (s.stager x).now)
    (huids : (s.stager x).nextUid ≤ ((s.stager x).step (clients x).toTimeline op).nextUid) :
    Rings clients (s.onRing (fun x => (clients x).toTimeline) x op) :=
  h.keep ((h.sound x).step op) hnow huids

theorem step_clones (timeline : Timeline) (r : Staging) (uid : Nat) :
    (r.step timeline (.clones uid)).now = r.now ∧ r.nextUid ≤ (r.step timeline (.clones uid)).nextUid := by
  unfold Staging.step
  dsimp only
  split <;> exact ⟨rfl, Nat.le_refl _⟩

theorem Rings.step (h : Rings clients s) (op : ShowingOp) :
    Rings clients (s.step (fun x => (clients x).toTimeline) maxLayers op) := by
  cases op with
  | commits x attaches feedback => exact h.commits x attaches feedback
  | submits scene outcome => exact h.submit scene outcome
  | reports r => exact ⟨h.sound, h.commit⟩
  | releases before => exact ⟨h.sound, h.commit⟩
  | flushes before => exact ⟨h.sound, h.commit⟩
  | clears => exact ⟨h.sound, h.commit⟩
  | clones x uid =>
      obtain ⟨hnow, huids⟩ := step_clones (clients x).toTimeline (s.stager x) uid
      exact h.onRing x hnow huids
  | drops x uid => exact h.onRing x rfl (Nat.le_refl _)
  | goes x => exact h.onRing x rfl (Nat.le_refl _)

/-- Building a scene, its feedback taken, changes nothing a frame was told of. -/
theorem Told.built (h : Told s) (hrings : Rings clients s) (scene : SceneWalk) :
    Told ((s.take scene.1).build (fun x => (clients x).toTimeline) scene.1).2 := by
  obtain ⟨hcontents, -, hframes⟩ := take_spec scene.1 s
  have hbuilt := builds (hrings.take scene.1) scene.1 scene.2
  refine Told.of_contents (h.of_contents (fun x => ?_) hframes) (fun x => ?_) hbuilt.frames
  · obtain ⟨feedback, heq, hmem⟩ := hcontents x
    rw [heq]
    exact ⟨rfl, hmem⟩
  · exact ⟨(hbuilt.same x).1, fun cb hcb => by rwa [← (hbuilt.same x).2.2]⟩

theorem Told.submit (h : Told s) (hrings : Rings clients s) (scene : SceneWalk) (outcome : Outcome) :
    Told (s.submit (fun x => (clients x).toTimeline) maxLayers scene.1 outcome) := by
  have hbuilt := h.built hrings scene
  have hframes := (take_spec scene.1 s).2.2
  have hasked := (builds (hrings.take scene.1) scene.1 scene.2).frames.2.2.2.1.trans hframes.2.2.2.1
  have hquiet : ∀ cb r, Effect.presented cb r ∉ (s.feedback scene.1).map fun fb => .discarded fb.callback := by simp
  unfold Showing.submit
  cases outcome with
  | elsewhere => exact hbuilt
  | refused => exact hbuilt.logged hquiet
  | accepted now =>
      dsimp only
      split
      · have hlogged := hbuilt.logged hquiet
        exact ⟨hlogged.asked, hlogged.frames, fun q hq => Nat.le_succ_of_le (hlogged.seqs q hq), hlogged.once,
          hlogged.log⟩
      · refine hbuilt.pushed now _ fun fb hfb => ?_
        rw [hasked]
        exact h.mem_feedback hfb

theorem Told.step (h : Told s) (hrings : Rings clients s) (op : ShowingOp) :
    Told (s.step (fun x => (clients x).toTimeline) maxLayers op) := by
  have hring : ∀ (x : WlSurface) (staging : Staging), Told (s.keep x staging) := fun x staging =>
    h.of_contents (fun y => ⟨(same_keep x staging y).1, fun cb hcb => by rwa [← (same_keep x staging y).2.2]⟩)
      ⟨rfl, rfl, rfl, rfl, rfl⟩
  cases op with
  | commits x attaches feedback => exact h.commit x attaches feedback
  | submits scene outcome => exact h.submit hrings scene outcome
  | reports r => exact h.onFrames (fun fs => fs.presented r) (Frames.quiet_presented s.frames r)
  | releases before => exact h.onFrames (fun fs => fs.releaseOlder before) (Frames.quiet_releaseOlder s.frames before)
  | flushes before => exact h.onFrames (fun fs => fs.flushOlder before) (Frames.quiet_flushOlder s.frames before)
  | clears => exact h.onFrames Frames.clear (Frames.quiet_clear s.frames)
  | clones x uid => exact hring x _
  | drops x uid => exact hring x _
  | goes x => exact hring x _

/-- Every layer sent carries what its generation shows. -/
def Right (clients : WlSurface → Client) (s : Showing) : Prop :=
  ∀ q ∈ s.sent, ∀ l ∈ q.2, l.generation ≤ (s.contents l.surface).generation ∧ Carries clients s l

theorem Right.of_same (h : Right clients s) (hsame : ∀ x, (s'.contents x).generation = (s.contents x).generation ∧
    (s'.contents x).commits = (s.contents x).commits) (hsent : s'.sent = s.sent) : Right clients s' := by
  intro q hq l hl
  rw [hsent] at hq
  unfold Carries
  rw [(hsame l.surface).1, (hsame l.surface).2]
  exact h q hq l hl

/-- A commit is of a later generation than what was sent. -/
theorem Right.commit (h : Right clients s) (x : WlSurface) (attaches : Bool) (feedback : List Nat) :
    Right clients (s.commit x attaches feedback) := by
  intro q hq l hl
  obtain ⟨hle, hcarries⟩ := h q hq l hl
  unfold Carries
  by_cases hx : l.surface = x
  · subst hx
    rw [contents_commit_self]
    refine ⟨Nat.le_succ_of_le hle, ?_⟩
    dsimp only
    rw [Function.update_of_ne (Nat.ne_of_lt (Nat.lt_succ_of_le hle))]
    exact hcarries
  · rw [contents_commit_of_ne s x attaches feedback hx]
    exact ⟨hle, hcarries⟩

theorem Right.submit (h : Right clients s) (hrings : Rings clients s) (scene : SceneWalk) (outcome : Outcome)
    (hspare : s.Spare (fun x => (clients x).toTimeline) scene.1) :
    Right clients (s.submit (fun x => (clients x).toTimeline) maxLayers scene.1 outcome) := by
  obtain ⟨hcontents, -, hframes⟩ := take_spec scene.1 s
  have hbuilt := builds (hrings.take scene.1) scene.1 scene.2
  have htaken : ∀ x, ((s.take scene.1).contents x).generation = (s.contents x).generation ∧
      ((s.take scene.1).contents x).commits = (s.contents x).commits := fun x => by
    obtain ⟨feedback, heq, -⟩ := hcontents x
    rw [heq]
    exact ⟨rfl, rfl⟩
  have hright : Right clients ((s.take scene.1).build (fun x => (clients x).toTimeline) scene.1).2 :=
    Right.of_same (h.of_same htaken hframes.2.2.1) (fun x => ⟨(hbuilt.same x).1, (hbuilt.same x).2.1⟩)
      hbuilt.frames.2.2.1
  have hlayers := hbuilt.carries.mpr fun p hp => by
    rw [stager_take]
    exact hspare p hp
  unfold Showing.submit
  cases outcome with
  | elsewhere => exact hright
  | refused => exact hright
  | accepted now =>
      dsimp only
      split
      · exact hright
      · intro q hq l hl
        rcases List.mem_append.mp hq with hq | hq
        · exact hright q hq l hl
        · cases List.mem_singleton.mp hq
          have hin := List.mem_of_mem_take hl
          refine ⟨?_, (hbuilt.same.carries l).mpr (hlayers l hin)⟩
          exact Nat.le_of_eq ((hbuilt.named l hin).trans (hbuilt.same l.surface).1.symm)

theorem Right.step (h : Right clients s) (hrings : Rings clients s) (op : ShowingOp)
    (hspares : s.Spares (fun x => (clients x).toTimeline) op) :
    Right clients (s.step (fun x => (clients x).toTimeline) maxLayers op) := by
  have hring : ∀ (x : WlSurface) (staging : Staging), Right clients (s.keep x staging) := fun x staging =>
    h.of_same (fun y => ⟨(same_keep x staging y).1, (same_keep x staging y).2.1⟩) rfl
  cases op with
  | commits x attaches feedback => exact h.commit x attaches feedback
  | submits scene outcome => exact h.submit hrings scene outcome hspares
  | reports r => exact h
  | releases before => exact h
  | flushes before => exact h
  | clears => exact h
  | clones x uid => exact hring x _
  | drops x uid => exact hring x _
  | goes x => exact hring x _

/-! ## Runs -/

theorem rings_start : Rings clients {} := ⟨fun _ => Staging.Sound.start, fun _ => rfl⟩

theorem told_start : Told {} where
  asked _ _ hcb := by cases hcb
  frames _ hf := by cases hf
  seqs _ hq := by cases hq
  once := List.nodup_nil
  log _ _ h := by cases h

theorem run_told (clients : WlSurface → Client) (maxLayers : Nat) (ops : List ShowingOp) :
    Rings clients (run (fun x => (clients x).toTimeline) maxLayers ops) ∧
      Told (run (fun x => (clients x).toTimeline) maxLayers ops) :=
  Runs.keeps (P := fun s => Rings clients s ∧ Told s) (fun _ op h => ⟨h.1.step op, h.2.step h.1 op⟩) ops
    ⟨rings_start, told_start⟩

theorem run_right {ops : List ShowingOp}
    (h : Runs.Meets (step (fun x => (clients x).toTimeline) maxLayers) (Spares (fun x => (clients x).toTimeline)) {} ops) :
    Right clients (run (fun x => (clients x).toTimeline) maxLayers ops) :=
  (h.keeps (P := fun s => Rings clients s ∧ Right clients s)
    (fun _ op hop h => ⟨h.1.step op, h.2.step h.1 op hop⟩) ⟨rings_start, fun _ hq => by cases hq⟩).2

/-- The layers of a scene all carry the content their generations name exactly when none of its surfaces is busy. In
a run of such scenes, feedback is presented only for content that a layer of the reported frame carried. -/
theorem layers_carry_generation (clients : WlSurface → Client) (maxLayers : Nat) (ops : List ShowingOp) :
    let timelines := fun x => (clients x).toTimeline
    let s := run timelines maxLayers ops
    (∀ scene : SceneWalk, (∀ l ∈ (s.build timelines scene.1).1, Carries clients s l) ↔ s.Spare timelines scene.1) ∧
    (Runs.Meets (step timelines maxLayers) (Spares timelines) {} ops → (s.sent.map Prod.fst).Nodup ∧
      ∀ cb r, .presented cb r ∈ s.log → ∃ fb ∈ s.asked, fb.callback = cb ∧ ∃ layers, (r.seq, layers) ∈ s.sent ∧
        ∃ l ∈ layers, l.surface = fb.layer ∧ l.generation = fb.generation ∧ Carries clients s l) := by
  obtain ⟨hrings, htold⟩ := run_told clients maxLayers ops
  refine ⟨fun scene => (builds hrings scene.1 scene.2).carries, fun hmeets => ⟨htold.once, fun cb r hlog => ?_⟩⟩
  obtain ⟨fb, hfb, hcb, layers, hsent, l, hl, hsurface, hgeneration⟩ := htold.log cb r hlog
  exact ⟨fb, hfb, hcb, layers, hsent, l, hl, hsurface, hgeneration, (run_right hmeets _ hsent l hl).2⟩

/-! ## Every slot held -/

/-- The damage of a one-pixel buffer. -/
def onePixel : Rect := ⟨0, 0, 1, 1, Int.le_of_lt_add_one (by decide), Int.le_of_lt_add_one (by decide)⟩

theorem onePixel_covers {f : Fourcc} {p : Nat × Nat} (hp : p ∈ visible ((1, 1), f)) :
    ∃ r ∈ [onePixel], r.Covers p.1 p.2 := by
  obtain ⟨hx, hy⟩ := hp
  refine ⟨onePixel, List.mem_singleton.mpr rfl, ?_⟩
  unfold Rect.Covers onePixel
  dsimp only at hx hy ⊢
  omega

/-- A client that shows one pixel, of another shade each commit. -/
def shading : Client where
  buffer n := .pixel (UInt8.ofNat n) (UInt8.ofNat 0) (UInt8.ofNat 0) (UInt8.ofNat 255)
  damageSince _ _ := [onePixel]
  rows _ _ _ _ _ _ _ _ hb := by cases hb
  whole n k hk p hp := by
    cases hk
    exact onePixel_covers hp
  covers c n k _ hk _ p hp _ := by
    cases hk
    exact onePixel_covers hp
  grows _ _ _ _ _ _ _ _ _ _ _ hin := hin

/-- Commits of surface 7, each shown as a frame and none reported, then a report of the last. -/
def shownInTurn (n : Nat) : List ShowingOp :=
  (List.range' 1 n).flatMap (fun cb => [.commits 7 true [cb],
    .submits ⟨[(7, Tries.granted)], List.nodup_singleton _⟩ (.accepted cb)]) ++ [.reports ⟨n, 5, 0, 1, 0⟩]

theorem layers_carry_generation_once :
    let s := run (fun _ => shading.toTimeline) 16 (shownInTurn 1)
    .presented 1 ⟨1, 5, 0, 1, 0⟩ ∈ s.log ∧ ∃ fb ∈ s.asked, fb.callback = 1 ∧ ∃ layers, (1, layers) ∈ s.sent ∧
      ∃ l ∈ layers, l.surface = fb.layer ∧ l.generation = fb.generation ∧ Carries (fun _ => shading) s l := by
  have hspare : Runs.Meets (step (fun _ => shading.toTimeline) 16) (Spares fun _ => shading.toTimeline) {}
      (shownInTurn 1) := by
    refine ⟨trivial, fun p hp => ?_, trivial, trivial⟩
    cases List.mem_singleton.mp hp
    rfl
  have hpresented : Effect.presented 1 ⟨1, 5, 0, 1, 0⟩ ∈
      (run (fun _ => shading.toTimeline) 16 (shownInTurn 1)).log := by decide
  exact ⟨hpresented, ((layers_carry_generation (fun _ => shading) 16 (shownInTurn 1)).2 hspare).2 1 _ hpresented⟩

/-- The shell still has every slot at the fifth commit: its frame carries the fourth one's pixel, and its feedback is
presented. -/
theorem layers_carry_generation_crowded :
    let s := run (fun _ => shading.toTimeline) 16 (shownInTurn 5)
    .presented 5 ⟨5, 5, 0, 1, 0⟩ ∈ s.log ∧
      ∃ layers, (5, layers) ∈ s.sent ∧ layers ≠ [] ∧ ∀ l ∈ layers, ¬Carries (fun _ => shading) s l := by
  have hpresented : Effect.presented 5 ⟨5, 5, 0, 1, 0⟩ ∈
      (run (fun _ => shading.toTimeline) 16 (shownInTurn 5)).log := by decide
  obtain ⟨-, -, -, layers, hsent, _, hin, -⟩ := (run_told (fun _ => shading) 16 (shownInTurn 5)).2.log 5 _ hpresented
  refine ⟨hpresented, layers, hsent, List.ne_nil_of_mem hin, fun l hl hcarries => ?_⟩
  have hall : ∀ q ∈ (run (fun _ => shading.toTimeline) 16 (shownInTurn 5)).sent.map (fun q => (q.1, q.2.map fun l =>
      (l.surface, l.generation, l.slot.bind Slot.commit))), q.1 = 5 → q.2 = [(7, 5, some 4)] := by decide
  have hlayers := hall _ (List.mem_map_of_mem hsent) rfl
  have hl' : (l.surface, l.generation, l.slot.bind Slot.commit) ∈ layers.map fun l =>
      (l.surface, l.generation, l.slot.bind Slot.commit) := List.mem_map_of_mem hl
  rw [show layers.map (fun l => (l.surface, l.generation, l.slot.bind Slot.commit)) = [(7, 5, some 4)] from hlayers,
    List.mem_singleton, Prod.mk.injEq, Prod.mk.injEq] at hl'
  obtain ⟨hsurface, hgeneration, hcommit⟩ := hl'
  obtain ⟨slot, hslot, hcommit⟩ := Option.bind_eq_some_iff.mp hcommit
  have hnamed := (hcarries slot hslot).1
  rw [hsurface, hgeneration, hcommit] at hnamed
  exact absurd hnamed (by decide)

end Showing

end IhsWl
