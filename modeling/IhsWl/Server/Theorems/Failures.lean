import IhsWl.Handing.Lemmas
import IhsWl.Server.Theorems.Scenes

/-!
# A failed submission loses nothing

The fds dup'd for it are the shell's or closed, the view is as it was, and what was taken from the trees
is answered or waits for the clock.
-/

namespace IhsWl

open Std State

variable {w : World} {u : Unblock} {s : State} {v : ViewId}

namespace State

/-! ## With a clock that runs -/

section Clock

variable (htimer : ∀ i, w.timer i = true)
include htimer

theorem scheduleTick_runs (s : State) (atNs : Nat) :
    ∃ tick asked, s.scheduleTick w u atNs = { s with tick, asked } := by
  unfold scheduleTick
  split
  · exact ⟨s.tick, s.asked, rfl⟩
  · rw [if_pos (htimer _)]
    exact ⟨_, _, rfl⟩

theorem holdLoose_runs (s : State) (client : Option ClientId) (barriers : List Barrier) :
    ∃ tick asked, s.holdLoose w u client barriers = { (s.admitLoose w client barriers).2 with tick, asked } := by
  unfold holdLoose
  split <;> rename_i heq
  · rw [heq]
    exact ⟨_, _, rfl⟩
  · rw [heq]
    exact scheduleTick_runs htimer _ _

theorem viewUnsubmitted_runs (s : State) (v : ViewId) :
    ∃ dueNs tick asked, s.viewUnsubmitted w u v = { s.ask.listUnsubmitted v dueNs with tick, asked } :=
  ⟨s.clock.nextVblank (w.now s.asked), scheduleTick_runs htimer _ _⟩

end Clock

/-! ## What is done with what was taken -/

theorem submitTree_failed {roots : List WlSurface} (hne : s.build w roots ≠ [])
    (hw : ∀ release, w.submit (s.asked + 1) ≠ .accepted release) :
    ∃ asked, s.submitTree w v roots = (none, { s with asked }) := by
  unfold submitTree
  rw [if_neg (by rwa [List.isEmpty_iff])]
  split
  · exact ⟨_, rfl⟩
  · split
    · rename_i release h
      exact absurd h (hw release)
    · exact ⟨_, rfl⟩

theorem signals_signal (bs : List Barrier) : (bs.map Effect.signal).filterMap Effect.signals = bs := by
  rw [List.filterMap_map, show Effect.signals ∘ Effect.signal = some from rfl, List.filterMap_some]

theorem answers_signal (bs : List Barrier) : (bs.map Effect.signal).filterMap Effect.answers = [] := by
  rw [List.filterMap_map, List.filterMap_eq_nil_iff]
  exact fun _ _ => rfl

/-- Of the barriers held, only those beyond `maxLoose` are cleared early. -/
theorem addLoose_keeps (s : State) (c : ClientId) (barriers : List Barrier) (dueNs : Nat) :
    ∃ es, (s.addLoose c barriers dueNs).trace = s.trace ++ es ∧ es.filterMap Effect.answers = [] ∧
      (s.loose.map Loose.barrier ++ barriers).Perm
        (es.filterMap Effect.signals ++ (s.addLoose c barriers dueNs).loose.map Loose.barrier) ∧
      ∀ b ∈ barriers, (∃ l ∈ (s.addLoose c barriers dueNs).loose, l.barrier = b ∧ c = l.client) ∨
        .signal b ∈ es ∧ maxLoose < s.loose.length + barriers.length := by
  have hbarriers : s.loose.map Loose.barrier ++ barriers =
      (s.loose ++ barriers.map fun b => (⟨b, c, dueNs⟩ : Loose)).map Loose.barrier := by
    simp [Function.comp_def]
  have hlen : s.loose.length + barriers.length =
      (s.loose ++ barriers.map fun b => (⟨b, c, dueNs⟩ : Loose)).length := by simp
  have hmem : ∀ b ∈ barriers, ⟨b, c, dueNs⟩ ∈ s.loose ++ barriers.map fun b => (⟨b, c, dueNs⟩ : Loose) :=
    fun b hb => List.mem_append_right _ (List.mem_map_of_mem hb)
  unfold addLoose
  dsimp only
  rw [hbarriers, hlen]
  generalize (s.loose ++ barriers.map fun b => (⟨b, c, dueNs⟩ : Loose)) = grown at hmem
  generalize hexcess : grown.length - maxLoose = excess
  have hearly : (grown.take excess).map (fun l => Effect.signal l.barrier) =
      ((grown.take excess).map Loose.barrier).map .signal := by rw [List.map_map]; rfl
  refine ⟨_, rfl, ?_, ?_, fun b hb => ?_⟩
  · rw [List.filterMap_cons, hearly, answers_signal]
    rfl
  · rw [List.filterMap_cons, hearly, signals_signal, ← List.take_append_drop excess grown, List.map_append,
      List.take_append_drop]
    exact .refl _
  · have h := hmem b hb
    rw [← List.take_append_drop excess grown] at h
    rcases List.mem_append.mp h with h | h
    · refine Or.inr ⟨List.mem_cons_of_mem _ (List.mem_map_of_mem h), ?_⟩
      have hpos : excess ≠ 0 := by
        rintro rfl
        rw [List.take_zero] at h
        exact List.not_mem_nil h
      omega
    · exact Or.inl ⟨_, h, rfl, rfl⟩

/-- Barriers kept for the clock are in `loose`, or were cleared for their client is gone or too many
are held. -/
theorem admitLoose_keeps (s : State) (client : Option ClientId) (barriers : List Barrier) :
    ∃ es, (s.admitLoose w client barriers).2.trace = s.trace ++ es ∧ es.filterMap Effect.answers = [] ∧
      (s.loose.map Loose.barrier ++ barriers).Perm
        (es.filterMap Effect.signals ++ (s.admitLoose w client barriers).2.loose.map Loose.barrier) ∧
      ∀ b ∈ barriers,
        (∃ l ∈ (s.admitLoose w client barriers).2.loose, l.barrier = b ∧ client = some l.client) ∨
          .signal b ∈ es ∧ (client = none ∨ maxLoose < s.loose.length + barriers.length) := by
  unfold admitLoose
  split
  · rename_i hempty
    rw [List.isEmpty_iff.mp hempty]
    exact ⟨[], (List.append_nil _).symm, rfl, by simp, nofun⟩
  · cases client with
    | none =>
        refine ⟨barriers.map .signal, rfl, answers_signal _, ?_, fun b hb => Or.inr ⟨List.mem_map_of_mem hb, Or.inl rfl⟩⟩
        rw [signals_signal]
        exact List.perm_append_comm
    | some c =>
        obtain ⟨es, htrace, hanswers, hperm, hkept⟩ :=
          s.ask.addLoose_keeps c barriers (s.clock.nextVblank (w.now s.asked))
        refine ⟨es, htrace, hanswers, hperm, fun b hb => ?_⟩
        rcases hkept b hb with ⟨l, hl, hb, hc⟩ | ⟨hsignal, hover⟩
        · exact Or.inl ⟨l, hl, hb, congrArg some hc⟩
        · exact Or.inr ⟨hsignal, Or.inr hover⟩

theorem listUnsubmitted_rest (s : State) (v : ViewId) (dueNs : Nat) :
    s.listUnsubmitted v dueNs = { s with unsubmitted := (s.listUnsubmitted v dueNs).unsubmitted } ∧
      v ∈ (s.listUnsubmitted v dueNs).unsubmitted.map Prod.fst := by
  unfold listUnsubmitted
  split
  · rename_i h
    obtain ⟨u, hu, hv⟩ := List.any_eq_true.mp h
    exact ⟨rfl, List.mem_map.mpr ⟨u, hu, of_decide_eq_true hv⟩⟩
  · exact ⟨rfl, List.mem_map.mpr ⟨_, List.mem_append_right _ List.mem_cons_self, rfl⟩⟩

/-- What was taken for a submission of `v` and will not be shown: answered, or left to the clock. -/
theorem heldBack_keeps (htimer : ∀ i, w.timer i = true) (s : State) (client : Option ClientId) (taken : Taken)
    (v : ViewId) {s' : State}
    (hs' : ((s.log taken.notShown.2).holdLoose w u client taken.notShown.1).viewUnsubmitted w u v = s') :
    ∃ es, s'.trace = s.trace ++ es ∧ s'.views = s.views ∧ s'.contents = s.contents ∧
      es.filterMap Effect.answers = taken.feedback.map Feedback.callback ∧
      (∀ cb r, .presented cb r ∉ es) ∧
      (s.loose.map Loose.barrier ++ taken.barriers).Perm
        (es.filterMap Effect.signals ++ s'.loose.map Loose.barrier) ∧
      (∀ b ∈ taken.barriers, (∃ l ∈ s'.loose, l.barrier = b ∧ client = some l.client) ∨
        .signal b ∈ es ∧ (client = none ∨ maxLoose < s.loose.length + taken.barriers.length)) ∧
      v ∈ s'.unsubmitted.map Prod.fst := by
  obtain ⟨tick, asked, hhold⟩ :=
    holdLoose_runs (u := u) htimer (s.log taken.notShown.2) client taken.notShown.1
  obtain ⟨es, htrace, hanswers, hperm, hkept⟩ :=
    admitLoose_keeps (w := w) (s.log taken.notShown.2) client taken.notShown.1
  have hadmit := admitLoose_rest w (s.log taken.notShown.2) client taken.notShown.1
  rw [hhold] at hs'
  have hviews := congrArg State.views hadmit
  have hcontents := congrArg State.contents hadmit
  generalize ((s.log taken.notShown.2).admitLoose w client taken.notShown.1).2 = s₂ at hs' htrace hperm hkept hviews hcontents
  obtain ⟨dueNs, tick', asked', hun⟩ := viewUnsubmitted_runs (u := u) htimer { s₂ with tick, asked } v
  obtain ⟨hlist, hmem⟩ := listUnsubmitted_rest ({ s₂ with tick, asked } : State).ask v dueNs
  rw [hun, hlist] at hs'
  subst hs'
  have hdiscarded : taken.notShown.2.filterMap Effect.answers = taken.feedback.map Feedback.callback := by
    rw [Taken.notShown, List.filterMap_map, ← List.filterMap_eq_map]
    rfl
  have hquiet : taken.notShown.2.filterMap Effect.signals = [] := by
    rw [Taken.notShown, List.filterMap_map, List.filterMap_eq_nil_iff]
    exact fun _ _ => rfl
  refine ⟨taken.notShown.2 ++ es, ?_, ?_, ?_, ?_, ?_, ?_, fun b hb => ?_, hmem⟩
  · exact htrace.trans (List.append_assoc ..)
  · exact hviews
  · exact hcontents
  · rw [List.filterMap_append, hanswers, hdiscarded, List.append_nil]
  · intro cb r hpresented
    rcases List.mem_append.mp hpresented with hpresented | hpresented
    · obtain ⟨fb, -, hfb⟩ := List.mem_map.mp hpresented
      cases hfb
    · have hnone := List.filterMap_eq_nil_iff.mp hanswers _ hpresented
      cases hnone
  · rw [List.filterMap_append, hquiet, List.nil_append]
    exact hperm
  · rcases hkept b hb with hl | ⟨hsignal, hwhy⟩
    · exact Or.inl hl
    · exact Or.inr ⟨List.mem_append_right _ hsignal, hwhy⟩

end State

/-- Nothing taken for a submission of `v` from the trees is lost when it fails: `es` is what was done. -/
structure Lossless (w : World) (v : ViewId) (client : Option ClientId) (taken : Taken) (s s' : State)
    (es : List Effect) : Prop where
  trace : s'.trace = s.trace ++ es
  view : s'.view v = s.view v
  discarded : es.filterMap Effect.answers = taken.feedback.map Feedback.callback
  unshown : ∀ cb r, .presented cb r ∉ es
  conserved : (s.loose.map Loose.barrier ++ taken.barriers).Perm
    (es.filterMap Effect.signals ++ s'.loose.map Loose.barrier)
  kept : ∀ b ∈ taken.barriers, (∃ l ∈ s'.loose, l.barrier = b ∧ client = some l.client) ∨
    .signal b ∈ es ∧ (client = none ∨ maxLoose < s.loose.length + taken.barriers.length)
  emptied : ∀ r ∈ s.viewTrees v, ∀ x ∈ s.tree r, (s'.contents x).barrier = none ∧ (s'.contents x).feedback = []
  unsubmitted : v ∈ s'.unsubmitted.map Prod.fst

/-- A submission that fails leaves the view as it was, answers what will not be shown, and leaves the
rest to the clock. -/
theorem submitView_failed (htimer : ∀ i, w.timer i = true) {root : WlSurface} (hroot : s.viewRoot v = some root)
    (hne : (s.takeTrees (s.viewTrees v)).2.build w (s.viewTrees v) ≠ [])
    (hw : ∀ release, w.submit (s.asked + 1) ≠ .accepted release) :
    ∃ es, Lossless w v (s.clientOf w root) (s.takeTrees (s.viewTrees v)).1 s (s.submitView w u v) es := by
  have hrest := takeTrees_rest s (s.viewTrees v)
  have hempty := fun r (hr : r ∈ s.viewTrees v) x (hx : x ∈ s.tree r) => takeTrees_taken hr hx
  obtain ⟨asked, htree⟩ := submitTree_failed (v := v) hne (by rwa [hrest])
  unfold submitView
  rw [hroot]
  dsimp only
  rw [htree]
  dsimp only
  rw [hrest]
  obtain ⟨es, htrace, hviews, hcontents, h⟩ := heldBack_keeps (u := u) htimer
    { s with contents := (s.takeTrees (s.viewTrees v)).2.contents, asked } (s.clientOf w root)
    (s.takeTrees (s.viewTrees v)).1 v rfl
  refine ⟨es, htrace, congrArg (·[v]?) hviews, h.1, h.2.1, h.2.2.1, h.2.2.2.1, fun r hr x hx => ?_, h.2.2.2.2⟩
  have hx' := congrFun hcontents x
  exact ⟨(congrArg Content.barrier hx').trans (hempty r hr x hx).1,
    (congrArg Content.feedback hx').trans (hempty r hr x hx).2⟩

namespace State

/-- The contents of the layers `v`'s scene is submitted with. -/
def submitted (w : World) (content : Layer → Handing.Content) (v : ViewId) (s : State) : List Handing.Content :=
  (((s.takeTrees (s.viewTrees v)).2.build w (s.viewTrees v)).take w.maxLayers).map content

end State

/-- A failed submission loses neither an fd nor what was taken from the trees. -/
theorem submit_loses_nothing (w : World) (u : Unblock) (htimer : ∀ i, w.timer i = true)
    (content : Layer → Handing.Content) (reg : Handing.Registry) (s : State) (v : ViewId) (root : WlSurface)
    (hroot : s.viewRoot v = some root) :
    Handing.Accounted reg (s.submitted w content v) (Handing.handOver reg (s.submitted w content v)) ∧
      ((s.takeTrees (s.viewTrees v)).2.build w (s.viewTrees v) ≠ [] →
        w.submit (s.asked + 1) = (Handing.handOver reg (s.submitted w content v)).outcome →
        (∀ release, (Handing.handOver reg (s.submitted w content v)).outcome ≠ .accepted release) →
        ∃ es, Lossless w v (s.clientOf w root) (s.takeTrees (s.viewTrees v)).1 s (s.submitView w u v) es) := by
  refine ⟨Handing.handOver_accounted reg _, fun hne hw hfailed => ?_⟩
  exact submitView_failed htimer hroot hne fun release => hw ▸ hfailed release

/-- A world whose shell refuses every submission. -/
def World.refusing : World := { World.granting with submit := fun _ => .refused }

/-- A toplevel in a view, with a feedback and a barrier to take. -/
def waitingScene : State :=
  { run World.refusing 1 [.newToplevel 10, .commit { main := { surface := 10 } },
      .cmd (.viewCreated { uid := 0, id := 1 })] with
    contents := fun _ => { feedback := [7], barrier := some ⟨3, 1⟩ } }

/-- Two planes share a file and the third's is not known: the shell takes two fds and refuses the layers. -/
theorem submit_loses_nothing_refused : ∃ es, Lossless World.refusing 1 (some 1)
    (waitingScene.takeTrees (waitingScene.viewTrees 1)).1 waitingScene
    (waitingScene.submitView World.refusing (fun _ s => s) 1) es := by
  have hlayers : ((waitingScene.takeTrees (waitingScene.viewTrees 1)).2.build World.refusing
      (waitingScene.viewTrees 1)).length = 1 := by decide +kernel
  have hne := List.ne_nil_of_length_eq_add_one hlayers
  have houtcome : (Handing.handOver ⟨true, 0, -1, fun _ => .fenced⟩ (waitingScene.submitted World.refusing
      (fun _ => .dmabuf [⟨some (1, 1), true⟩, ⟨some (1, 1), true⟩, ⟨none, true⟩]) 1)).outcome = .refused := by
    decide +kernel
  have h := submit_loses_nothing World.refusing (fun _ s => s) (fun _ => rfl)
    (fun _ => .dmabuf [⟨some (1, 1), true⟩, ⟨some (1, 1), true⟩, ⟨none, true⟩]) ⟨true, 0, -1, fun _ => .fenced⟩
    waitingScene 1 10 (by decide +kernel)
  rw [houtcome] at h
  exact h.2 hne rfl nofun

end IhsWl
