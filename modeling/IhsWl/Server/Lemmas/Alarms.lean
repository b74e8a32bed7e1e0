import IhsWl.Server.Lemmas.Owned
import IhsWl.Timing.Clock

/-!
# Who the clock runs for

Everything that waits for the clock has it armed, no later than 100 us after it is due -- or arming it is
still owed.
-/

namespace IhsWl

open State

variable {w : World} {guard : State → Event → Prop} {cap : Prop} {n : Nat} {s s' : State} {D D' : Set Debt}

/-! ## Armed in time -/

/-- The clock runs by `dueNs`, give or take what `on_tick` puts it off, or is owed to. -/
def Covered (D : Set Debt) (tick : Option Nat) (dueNs : Nat) : Prop :=
  (∃ atNs, tick = some atNs ∧ atNs ≤ dueNs + 100_000) ∨ ∃ atNs, .arm atNs ∈ D ∧ atNs ≤ dueNs + 100_000

/-- The clock runs, or is owed to. -/
def Alarmed (D : Set Debt) (tick : Option Nat) : Prop := tick.isSome = true ∨ ∃ atNs, .arm atNs ∈ D

/-- The clock runs no later than it did, or was owed to. -/
structure Hastens (D : Set Debt) (tick : Option Nat) (D' : Set Debt) (tick' : Option Nat) : Prop where
  tick : ∀ atNs, tick = some atNs → ∃ b, tick' = some b ∧ b ≤ atNs
  owed : ∀ atNs, .arm atNs ∈ D → .arm atNs ∈ D' ∨ ∃ b, tick' = some b ∧ b ≤ atNs

theorem Covered.alarmed {tick : Option Nat} {dueNs : Nat} (h : Covered D tick dueNs) : Alarmed D tick := by
  rcases h with ⟨atNs, rfl, -⟩ | ⟨atNs, hmem, -⟩
  · exact Or.inl rfl
  · exact Or.inr ⟨atNs, hmem⟩

namespace Hastens

variable {tick tick' : Option Nat}

theorem covered (h : Hastens D tick D' tick') {dueNs : Nat} (hc : Covered D tick dueNs) : Covered D' tick' dueNs := by
  rcases hc with ⟨atNs, ht, hle⟩ | ⟨atNs, hmem, hle⟩
  · obtain ⟨b, hb, hba⟩ := h.tick atNs ht
    exact Or.inl ⟨b, hb, hba.trans hle⟩
  · rcases h.owed atNs hmem with hmem | ⟨b, hb, hba⟩
    · exact Or.inr ⟨atNs, hmem, hle⟩
    · exact Or.inl ⟨b, hb, hba.trans hle⟩

theorem alarmed (h : Hastens D tick D' tick') (hc : Alarmed D tick) : Alarmed D' tick' := by
  rcases hc with ht | ⟨atNs, hmem⟩
  · obtain ⟨atNs, ht⟩ := Option.isSome_iff_exists.mp ht
    obtain ⟨b, hb, -⟩ := h.tick atNs ht
    exact Or.inl (by rw [hb]; rfl)
  · rcases h.owed atNs hmem with hmem | ⟨b, hb, -⟩
    · exact Or.inr ⟨atNs, hmem⟩
    · exact Or.inl (by rw [hb]; rfl)

theorem owing (h : ∀ atNs, .arm atNs ∈ D → .arm atNs ∈ D') : Hastens D tick D' tick :=
  ⟨fun atNs ht => ⟨atNs, ht, le_rfl⟩, fun atNs hmem => Or.inl (h atNs hmem)⟩

/-- What pays no debt of the clock's leaves it as soon. -/
theorem same {paid taken : Set Debt} (hp : ∀ atNs, .arm atNs ∉ paid) : Hastens D tick (D \ paid ∪ taken) tick :=
  owing fun atNs hmem => Or.inl ⟨hmem, hp atNs⟩

end Hastens

/-! ## Frames -/

/-- It has something still to release. -/
def Frame.pending (onScreen : Bool) (f : Frame) : Bool := f.hasBarriers || (onScreen && !f.flushed)

/-- Frame `f` of `v` is not left unreported too long: not since it was submitted, or not since the view came
back on screen. -/
def Awaited (D : Set Debt) (s : State) (v : ViewId) (f : Frame) : Prop :=
  Covered D s.tick (f.submittedNs + staleNs) ∨
    ∃ backNs, .resumed v backNs ∈ s.trace ∧ f.submittedNs ≤ backNs ∧ Covered D s.tick (backNs + staleNs)

/-- The frames of `v`, in the order submitted, have the clock run for them -- or watching them is owed. -/
structure Attended (w : World) (D : Set Debt) (s : State) (v : ViewId) (e : ViewEntry) : Prop where
  ordered : e.frames.Pairwise fun f g => f.submittedNs ≤ g.submittedNs
  read : ∀ f ∈ e.frames, f.submittedNs ≤ w.now s.asked
  shown : e.suspended = false → .watch v ∉ D → ∀ f ∈ e.frames, f.pending true = true → Awaited D s v f
  hidden : e.suspended = true → .watch v ∉ D → ∀ f ∈ e.frames, f.pending false = true → Alarmed D s.tick

/-- What waits for the clock beside the frames has it run. Timers numbered below `n` were seen by a tick, and
are promised only where `cap` has targets fit 64 bits. -/
structure Awake (cap : Prop) (n : Nat) (D : Set Debt) (s : State) : Prop where
  loose : ∀ l ∈ s.loose, Covered D s.tick l.dueNs
  unsubmitted : ∀ u ∈ s.unsubmitted, Covered D s.tick u.2
  timed : s.timed ≠ [] → Alarmed D s.tick
  refresh : 0 < s.clock.refreshNs
  watched : ∀ x, (s.surfaces x).alive = true → (s.contents x).timers ≠ [] → x ∈ s.timed
  targets : cap → ∀ x, (s.surfaces x).alive = true → ∀ t ∈ (s.contents x).timers, t.id < n →
    Covered D s.tick (t.deadline - targetSlackNs)
  capped : cap → ∀ x, ∀ t ∈ (s.contents x).timers, t.deadline ≤ u64Max
  seen : n ≤ s.registered

/-- Every view's frames are attended. -/
def Attends (w : World) (D : Set Debt) (s : State) : Prop := ∀ v e, s.view v = some e → Attended w D s v e

/-- Time went on. -/
structure Past (s s' : State) : Prop where
  asked : s.asked ≤ s'.asked
  trace : s.trace ⊆ s'.trace

/-- Nothing more waits for the clock, the frames apart. -/
structure Calm (s s' : State) : Prop where
  loose : s'.loose ⊆ s.loose
  unsubmitted : s'.unsubmitted ⊆ s.unsubmitted
  timed : s'.timed = s.timed
  registered : s'.registered = s.registered
  refresh : 0 < s.clock.refreshNs → 0 < s'.clock.refreshNs
  timers : ∀ x, (s'.contents x).timers = (s.contents x).timers
  alive : ∀ x, (s'.surfaces x).alive = true → (s.surfaces x).alive = true

theorem Awake.calm (h : Awake cap n D s) (hc : Calm s s') (ht : Hastens D s.tick D' s'.tick) : Awake cap n D' s' where
  loose l hl := ht.covered (h.loose l (hc.loose hl))
  unsubmitted u hu := ht.covered (h.unsubmitted u (hc.unsubmitted hu))
  timed hne := ht.alarmed (h.timed (hc.timed ▸ hne))
  refresh := hc.refresh h.refresh
  watched x halive hne := by
    rw [hc.timers] at hne
    rw [hc.timed]
    exact h.watched x (hc.alive x halive) hne
  targets hcap x halive t hmem hlt := by
    rw [hc.timers] at hmem
    exact ht.covered (h.targets hcap x (hc.alive x halive) t hmem hlt)
  capped hcap x t hmem := by
    rw [hc.timers] at hmem
    exact h.capped hcap x t hmem
  seen := hc.registered ▸ h.seen

theorem Awaited.hastens {v : ViewId} {f : Frame} (h : Awaited D s v f) (hpast : s.trace ⊆ s'.trace)
    (ht : Hastens D s.tick D' s'.tick) : Awaited D' s' v f := by
  rcases h with h | ⟨backNs, hback, hle, h⟩
  · exact Or.inl (ht.covered h)
  · exact Or.inr ⟨backNs, hpast hback, hle, ht.covered h⟩

/-- A queue that only lost frames is attended as it was. -/
theorem Attended.eases {v : ViewId} {e e' : ViewEntry} (h : Attended w D s v e) (hpast : Past s s')
    (hsub : e'.frames.Sublist e.frames) (hsus : e'.suspended = e.suspended)
    (ht : Hastens D s.tick D' s'.tick) (hw : .watch v ∉ D' → .watch v ∉ D) : Attended w D' s' v e' where
  ordered := h.ordered.sublist hsub
  read f hf := (h.read f (hsub.subset hf)).trans (w.monotone _ _ hpast.asked)
  shown hs hnw f hf hp := (h.shown (hsus ▸ hs) (hw hnw) f (hsub.subset hf) hp).hastens hpast.trace ht
  hidden hs hnw f hf hp := ht.alarmed (h.hidden (hsus ▸ hs) (hw hnw) f (hsub.subset hf) hp)

theorem Attended.none {v : ViewId} {e : ViewEntry} (h : e.frames = []) : Attended w D s v e := by
  constructor <;> simp [h]

/-! ## Time goes on -/

namespace State

theorem sendViewCallbacks_asked (s : State) (v : ViewId) (ustNs : Nat) : s.asked ≤ (s.sendViewCallbacks w v ustNs).asked := by
  unfold sendViewCallbacks
  generalize s.viewTrees v = roots
  induction roots generalizing s with
  | nil => exact le_rfl
  | cons root roots ih => exact (Nat.le_succ s.asked).trans (ih (sendFrameCallbacks w ustNs s root))

theorem takeTrees_asked (s : State) (roots : List WlSurface) : (s.takeTrees roots).2.asked = s.asked := by
  rw [takeTrees_rest]

theorem admitLoose_asked (s : State) (client : Option ClientId) (barriers : List Barrier) :
    s.asked ≤ (s.admitLoose w client barriers).2.asked := by
  unfold admitLoose
  split
  · exact le_rfl
  · split
    · exact le_rfl
    · exact Nat.le_succ s.asked

theorem pushFrame_asked (s : State) (v : ViewId) (seq : Nat) (shown : List (Nat × Nat)) (taken : Taken) :
    s.asked ≤ (s.pushFrame w v seq shown taken).2.asked := by
  unfold pushFrame
  split
  · exact le_rfl
  · exact Nat.le_succ s.asked

theorem pushFrame_trace (s : State) (v : ViewId) (seq : Nat) (shown : List (Nat × Nat)) (taken : Taken) :
    s.trace ⊆ (s.pushFrame w v seq shown taken).2.trace := by
  unfold pushFrame
  split
  · exact List.Subset.refl _
  · exact List.subset_append_left _ _

theorem unlink_asked (s : State) (v : ViewId) : (s.unlink v).asked = s.asked := by
  unfold unlink
  split
  · rfl
  · dsimp only
    split <;> rfl

end State

theorem Pace.asked_le {paid taken : Set Debt} (h : Pace w s paid taken s') : s.asked ≤ s'.asked := by
  cases h with
  | asked | armed | failed => exact Nat.le_succ s.asked
  | called v ustNs => exact sendViewCallbacks_asked s v ustNs
  | quiet _ hq => exact hq.asked
  | unshown root tk s₁ dueNs _ ht ha =>
      have h1 := takeTrees_asked s [root]
      have h2 := admitLoose_asked (w := w) (s₁.log tk.notShown.2) (s.clientOf w root) tk.barriers
      rw [ht] at h1
      rw [ha] at h2
      exact h1 ▸ h2
  | refused v root tk s₁ s₂ dueNs _ hr ht hq ha =>
      have h1 := takeTrees_asked s (s.viewTrees v)
      have h2 := admitLoose_asked (w := w) (s₂.log tk.notShown.2) (s.clientOf w root) tk.barriers
      rw [ht] at h1
      rw [ha] at h2
      exact h1 ▸ hq.asked.trans h2
  | listed v dueNs =>
      unfold listUnsubmitted
      split <;> exact le_rfl
  | pushed v root tk s₁ s₂ seq shown released _ hr ht hq hp =>
      have h1 := takeTrees_asked s (s.viewTrees v)
      have h2 := pushFrame_asked (w := w) s₂ v seq shown tk
      rw [ht] at h1
      rw [hp] at h2
      exact h1 ▸ hq.asked.trans h2
  | _ => exact le_rfl

theorem Deed.asked_le {paid taken : Set Debt} (h : Deed w guard s paid taken s') : s.asked ≤ s'.asked := by
  cases h with
  | move hm =>
      cases hm with
      | pace hm => exact hm.asked_le
      | mapped | linked => exact le_rfl
  | called v ustNs => exact sendViewCallbacks_asked s v ustNs
  | framesCleared v =>
      unfold clearFrames
      split <;> exact le_rfl
  | unlinked v es hes => exact (unlink_asked s v).ge
  | reported v r =>
      unfold takeReport
      split <;> exact le_rfl
  | suspendedSet | resumed | ticked => exact Nat.le_succ s.asked
  | targeted x =>
      unfold addTimed
      split <;> exact le_rfl
  | _ => exact le_rfl

theorem Deed.past {paid taken : Set Debt} (h : Deed w guard s paid taken s') : Past s s' := by
  obtain ⟨es, he, -⟩ := h.act.grows
  exact ⟨h.asked_le, he ▸ List.subset_append_left _ _⟩

/-! ## What is due -/

namespace State

/-- What a visit does not touch, it leaves as it was. -/
theorem visitTree_field {α : Type*} {g : Content → α} {f : Content → Content} (hf : ∀ c, g (f c) = g c) (s : State)
    (root x : WlSurface) : g ((s.visitTree root f).contents x) = g (s.contents x) := by
  unfold visitTree
  dsimp only
  split
  · exact hf _
  · rfl

theorem sendViewCallbacks_timers (s : State) (v : ViewId) (ustNs : Nat) (x : WlSurface) :
    ((s.sendViewCallbacks w v ustNs).contents x).timers = (s.contents x).timers := by
  unfold sendViewCallbacks
  generalize s.viewTrees v = roots
  induction roots generalizing s with
  | nil => rfl
  | cons root roots ih =>
      have h := visitTree_field (g := Content.timers) (f := fun c => { c with frameCallbacks := [] }) (fun _ => rfl) s root x
      exact (ih (sendFrameCallbacks w ustNs s root)).trans h

theorem takeTrees_field {α : Type*} {g : Content → α} (hg : ∀ c : Content, g { c with feedback := [], barrier := none } = g c)
    (s : State) (roots : List WlSurface) (x : WlSurface) : g ((s.takeTrees roots).2.contents x) = g (s.contents x) := by
  suffices h : ∀ t : Taken × State, g ((roots.foldl takeTree t).2.contents x) = g (t.2.contents x) from h ({}, s)
  induction roots with
  | nil => exact fun _ => rfl
  | cons root roots ih => exact fun t => (ih (takeTree t root)).trans (visitTree_field hg t.2 root x)

/-- Barriers that join `loose` do so for a refresh the clock is to run at. -/
theorem admitLoose_due {client : Option ClientId} {barriers : List Barrier} {dueNs : Option Nat}
    (h : s.admitLoose w client barriers = (dueNs, s')) {l : Loose} (hl : l ∈ s'.loose) :
    l ∈ s.loose ∨ dueNs = some l.dueNs := by
  unfold admitLoose at h
  split at h
  · cases h
    exact Or.inl hl
  · split at h
    · cases h
      exact Or.inl hl
    · cases h
      rcases mem_addLoose hl with hl | ⟨b, -, rfl⟩
      · exact Or.inl hl
      · exact Or.inr rfl

theorem takeTrees_calm (s : State) (roots : List WlSurface) : Calm s (s.takeTrees roots).2 := by
  have hrest := takeTrees_rest s roots
  constructor
  · rw [hrest]; exact fun _ h => h
  · rw [hrest]; exact fun _ h => h
  · rw [hrest]
  · rw [hrest]
  · rw [hrest]; exact id
  · exact takeTrees_field (fun _ => rfl) s roots
  · rw [hrest]; exact fun _ h => h

end State

theorem Calm.refl (s : State) : Calm s s := ⟨fun _ h => h, fun _ h => h, rfl, rfl, id, fun _ => rfl, fun _ h => h⟩

theorem Calm.trans {t : State} (h : Calm s s') (h' : Calm s' t) : Calm s t where
  loose _ hl := h.loose (h'.loose hl)
  unsubmitted _ hu := h.unsubmitted (h'.unsubmitted hu)
  timed := h'.timed.trans h.timed
  registered := h'.registered.trans h.registered
  refresh := h'.refresh ∘ h.refresh
  timers x := (h'.timers x).trans (h.timers x)
  alive x := h.alive x ∘ h'.alive x

theorem Calm.log (s : State) (es : List Effect) : Calm s (s.log es) :=
  ⟨fun _ h => h, fun _ h => h, rfl, rfl, id, fun _ => rfl, fun _ h => h⟩

theorem Calm.ask (s : State) : Calm s s.ask :=
  ⟨fun _ h => h, fun _ h => h, rfl, rfl, id, fun _ => rfl, fun _ h => h⟩

theorem Quiet.calm (h : Quiet s s') : Calm s s' := by
  have hrest := h.rest
  constructor
  · rw [hrest]; exact fun _ h => h
  · rw [hrest]; exact fun _ h => h
  · rw [hrest]
  · rw [hrest]
  · rw [hrest]; exact id
  · rw [hrest]; exact fun _ => rfl
  · rw [hrest]; exact fun _ h => h

/-- Barriers join `loose`. -/
theorem Awake.admitted {t : State} {client : Option ClientId} {barriers : List Barrier} {dueNs : Option Nat}
    (h : Awake cap n D s) (hc : Calm s t) (ht : t.tick = s.tick)
    (ha : t.admitLoose w client barriers = (dueNs, s')) : Awake cap n (D \ ∅ ∪ armAt dueNs) s' := by
  have hrest := admitLoose_rest w t client barriers
  rw [ha] at hrest
  change s' = _ at hrest
  have htick : s'.tick = s.tick := (congrArg State.tick hrest).trans ht
  have hfaster : Hastens D s.tick (D \ ∅ ∪ armAt dueNs) s'.tick := htick ▸ .same fun _ hb => hb
  have hcalm : Calm t { s' with loose := t.loose } := by
    rw [hrest]
    exact ⟨fun _ h => h, fun _ h => h, rfl, rfl, id, fun _ => rfl, fun _ h => h⟩
  have h0 : Awake cap n (D \ ∅ ∪ armAt dueNs) { s' with loose := t.loose } := h.calm (hc.trans hcalm) hfaster
  refine { h0 with loose := fun l hl => ?_ }
  rcases admitLoose_due ha hl with hl | hdue
  · exact h0.loose l hl
  · exact Or.inr ⟨l.dueNs, Or.inr ⟨l.dueNs, hdue, rfl⟩, Nat.le_add_right ..⟩

theorem Hastens.standing {atNs : Nat} (h : s.tick.any (fun whenNs => whenNs ≤ atNs) = true) :
    Hastens D s.tick (D \ armsFrom atNs ∪ ∅) s.tick := by
  refine ⟨fun b hb => ⟨b, hb, le_rfl⟩, fun b hb => ?_⟩
  obtain ⟨t, ht, hle⟩ := (Option.any_eq_true _ _).mp h
  by_cases hfrom : atNs ≤ b
  · exact Or.inr ⟨t, ht, (of_decide_eq_true hle).trans hfrom⟩
  · refine Or.inl (Or.inl ⟨hb, ?_⟩)
    rintro ⟨b', hb', he⟩
    cases he
    exact hfrom hb'

theorem Hastens.armed {atNs : Nat} (h : s.tick.any (fun whenNs => whenNs ≤ atNs) = false) :
    Hastens D s.tick (D \ armsFrom atNs ∪ ∅) (some atNs) := by
  refine ⟨fun b hb => ⟨atNs, rfl, ?_⟩, fun b hb => ?_⟩
  · rw [hb, Option.any_some, decide_eq_false_iff_not] at h
    exact Nat.le_of_not_le h
  · by_cases hfrom : atNs ≤ b
    · exact Or.inr ⟨atNs, rfl, hfrom⟩
    · refine Or.inl (Or.inl ⟨hb, ?_⟩)
      rintro ⟨b', hb', he⟩
      cases he
      exact hfrom hb'

/-- No move puts the clock off. -/
theorem Pace.hastens {paid taken : Set Debt} (h : Pace w s paid taken s') (htimer : ∀ i, w.timer i = true) :
    Hastens D s.tick (D \ paid ∪ taken) s'.tick := by
  have hrest (ht : s'.tick = s.tick) (hp : ∀ atNs, .arm atNs ∉ paid) : Hastens D s.tick (D \ paid ∪ taken) s'.tick :=
    ht ▸ .same hp
  cases h with
  | standing atNs ht => exact .standing ht
  | armed atNs ht => exact .armed ht
  | failed hf => exact absurd (htimer s.asked) (by simp [hf])
  | looseReleased hk | timersReleased hk | framesReleased hk | forgotten hk | called _ _ hk =>
      obtain ⟨k, hk⟩ := hk
      exact absurd (htimer k) (by simp [hk])
  | quiet _ hq => exact hrest (congrArg State.tick hq.rest :) (by simp)
  | unshown root tk s₁ dueNs _ ht ha => exact hrest (congrArg State.tick (unshown_rest ht ha) :) (by simp)
  | refused v root tk s₁ s₂ dueNs _ hr ht hq ha => exact hrest (congrArg State.tick (refused_rest ht hq ha) :) (by simp)
  | listed v dueNs =>
      refine hrest ?_ (by simp)
      unfold listUnsubmitted
      split <;> rfl
  | pushed v root tk s₁ s₂ seq shown released _ hr ht hq hp =>
      exact hrest (congrArg State.tick (pushed_rest ht hq hp) :) (by simp)
  | _ => exact hrest rfl (by simp)

theorem Pace.awake {paid taken : Set Debt} (h : Pace w s paid taken s') (htimer : ∀ i, w.timer i = true)
    (hi : Awake cap n D s) : Awake cap n (D \ paid ∪ taken) s' := by
  have hsoon := h.hastens (D := D) htimer
  have hrest (hc : Calm s s') : Awake cap n (D \ paid ∪ taken) s' := hi.calm hc hsoon
  cases h with
  | armed => exact hrest ⟨fun _ h => h, fun _ h => h, rfl, rfl, id, fun _ => rfl, fun _ h => h⟩
  | failed hf => exact absurd (htimer s.asked) (by simp [hf])
  | looseReleased hk | timersReleased hk | framesReleased hk | forgotten hk | called _ _ hk =>
      obtain ⟨k, hk⟩ := hk
      exact absurd (htimer k) (by simp [hk])
  | asked => exact hrest (.ask s)
  | unblocked c => exact hrest (.log s _)
  | applied c =>
      refine hrest ⟨fun _ h => h, fun _ h => h, rfl, rfl, id, fun x => ?_, fun _ h => h⟩
      unfold applyContent
      dsimp only
      split
      · rename_i hx
        rw [hx]
      · rfl
  | quiet _ hq => exact hrest hq.calm
  | unshown root tk s₁ dueNs _ ht ha =>
      have hcalm := takeTrees_calm s [root]
      rw [ht] at hcalm
      have htick : s₁.tick = s.tick := (congrArg State.tick (takeTrees_eq ht) :)
      exact hi.admitted (hcalm.trans (.log s₁ tk.notShown.2)) htick ha
  | refused v root tk s₁ s₂ dueNs _ hr ht hq ha =>
      have hcalm := takeTrees_calm s (s.viewTrees v)
      rw [ht] at hcalm
      have htick : s₁.tick = s.tick := (congrArg State.tick (takeTrees_eq ht) :)
      have hquiet : s₂.tick = s₁.tick := (congrArg State.tick hq.rest :)
      exact hi.admitted ((hcalm.trans hq.calm).trans (.log s₂ tk.notShown.2)) (hquiet.trans htick) ha
  | listed v dueNs =>
      have h0 : Awake cap n (D \ {.offer v} ∪ {.arm dueNs}) s := hi.calm (.refl s) (.same (by simp))
      unfold listUnsubmitted
      split
      · exact h0
      · refine { h0 with unsubmitted := fun u hu => ?_ }
        rcases List.mem_append.mp hu with hu | hu
        · exact h0.unsubmitted u hu
        · rw [List.mem_singleton.mp hu]
          exact Or.inr ⟨dueNs, Or.inr rfl, Nat.le_add_right ..⟩
  | pushed v root tk s₁ s₂ seq shown released _ hr ht hq hp =>
      have hcalm := takeTrees_calm s (s.viewTrees v)
      have hpushed : Calm s₂ (s₂.pushFrame w v seq shown tk).2 := by
        rw [pushFrame_rest]
        exact ⟨fun _ h => h, fun _ h => h, rfl, rfl, id, fun _ => rfl, fun _ h => h⟩
      rw [ht] at hcalm
      rw [hp] at hpushed
      exact hrest ((hcalm.trans hq.calm).trans hpushed)
  | _ => exact hrest (.refl s)

/-! ## The tick -/

/-- What a tick finds it must wake for is covered, with the rest of what a tick owes. -/
theorem covered_wake {atNs dueNs : Nat} (hw : atNs ∈ s.disarm.wakeTimes w (w.now s.asked)) (hle : atNs ≤ dueNs)
    (hnow : w.now s.asked ≤ dueNs) (tick : Option Nat) : Covered (D ∪ tickDebts w s) tick dueNs := by
  refine Or.inr ⟨max atNs (w.now s.asked + 100_000), Or.inr (Or.inr (Or.inr ⟨atNs, hw, rfl⟩)), ?_⟩
  exact Nat.max_le.mpr ⟨hle.trans (Nat.le_add_right ..), Nat.add_le_add_right hnow _⟩

theorem wakeTimes_loose {now : Nat} {l : Loose} (hl : l ∈ s.loose) (h : now < l.dueNs) :
    l.dueNs ∈ s.wakeTimes w now := by
  refine List.mem_append_left _ (List.mem_append_left _ (List.mem_append_right _ ?_))
  exact List.mem_map.mpr ⟨l, List.mem_filter.mpr ⟨hl, decide_eq_true h⟩, rfl⟩

theorem wakeTimes_unsubmitted {now : Nat} {p : ViewId × Nat} (hp : p ∈ s.unsubmitted) (h : now < p.2) :
    p.2 ∈ s.wakeTimes w now := by
  refine List.mem_append_left _ (List.mem_append_right _ ?_)
  exact List.mem_map.mpr ⟨p, List.mem_filter.mpr ⟨hp, decide_eq_true h⟩, rfl⟩

/-- A surface still timed is woken for by its earliest target. -/
theorem wakeTimes_timed {now : Nat} {x : WlSurface} (hx : x ∈ s.stillTimed (s.clock.due now)) :
    ∃ first ∈ pending (s.clock.due now) (s.contents x),
      (∀ t ∈ pending (s.clock.due now) (s.contents x), first.deadline ≤ t.deadline) ∧
      s.clock.releaseAt (first.deadline % (u64Max + 1)) ∈ s.wakeTimes w now := by
  have hne : (pending (s.clock.due now) (s.contents x)).map Timer.deadline ≠ [] := by
    have h := (List.mem_filter.mp hx).2
    simpa using h
  obtain ⟨d, hd⟩ := Option.ne_none_iff_exists'.mp (mt List.min?_eq_none_iff.mp hne)
  obtain ⟨hmem, hmin⟩ := List.min?_eq_some_iff.mp hd
  obtain ⟨first, hfirst, rfl⟩ := List.mem_map.mp hmem
  refine ⟨first, hfirst, fun t ht => hmin _ (List.mem_map_of_mem ht), ?_⟩
  refine List.mem_append_left _ (List.mem_append_left _ (List.mem_append_left _ ?_))
  exact List.mem_filterMap.mpr ⟨x, hx, by rw [hd]; rfl⟩

theorem sweep_timers (s : State) (now : Nat) (x : WlSurface) : ((s.sweep w now).contents x).timers =
    if x ∈ s.watched then pending (s.clock.due now) (s.contents x) else (s.contents x).timers := by
  change (if x ∈ s.watched then { s.contents x with timers := pending (s.clock.due now) (s.contents x) }
    else s.contents x : Content).timers = _
  split <;> rfl

/-- A surface left with timers is still timed. -/
theorem stillTimed_of_timers {now : Nat} {x : WlSurface} (halive : (s.surfaces x).alive = true)
    (hwatched : (s.contents x).timers ≠ [] → x ∈ s.timed) (hne : ((s.sweep w now).contents x).timers ≠ []) :
    x ∈ s.stillTimed (s.clock.due now) ∧
      ((s.sweep w now).contents x).timers = pending (s.clock.due now) (s.contents x) := by
  rw [sweep_timers] at hne ⊢
  split at hne <;> rename_i hx
  · refine ⟨List.mem_filter.mpr ⟨hx, ?_⟩, by rw [if_pos hx]⟩
    simpa using hne
  · exact absurd (List.mem_filter.mpr ⟨hwatched hne, halive⟩) hx

/-- After a tick all that waits was seen by it. -/
theorem ticked_awake {m : Nat} (hi : Awake cap n D s) (hm : m ≤ s.registered) :
    Awake cap m (D ∪ tickDebts w s) (s.disarm.sweep w (w.now s.asked)) where
  loose l hl := by
    obtain ⟨hl, hlater⟩ := List.mem_filter.mp hl
    have hlater := of_decide_eq_true hlater
    have hwake := wakeTimes_loose (w := w) (s := s.disarm) hl hlater
    exact covered_wake hwake (Nat.le_refl _) (Nat.le_of_lt hlater) _
  unsubmitted p hp := by
    obtain ⟨hp, hlater⟩ := List.mem_filter.mp hp
    have hlater := of_decide_eq_true hlater
    have hwake := wakeTimes_unsubmitted (w := w) (s := s.disarm) hp hlater
    exact covered_wake hwake (Nat.le_refl _) (Nat.le_of_lt hlater) _
  timed hne := by
    obtain ⟨x, hx⟩ := List.exists_mem_of_ne_nil _ hne
    obtain ⟨first, -, -, hwake⟩ := wakeTimes_timed (w := w) (s := s.disarm) hx
    exact Or.inr ⟨_, Or.inr (Or.inr (Or.inr ⟨_, hwake, rfl⟩))⟩
  refresh := hi.refresh
  watched x halive hne :=
    (stillTimed_of_timers (s := s.disarm) halive (hi.watched x halive) hne).1
  targets hcap x halive t ht _ := by
    obtain ⟨hx, htimers⟩ := stillTimed_of_timers (s := s.disarm) halive (hi.watched x halive) (List.ne_nil_of_mem ht)
    rw [htimers] at ht
    obtain ⟨first, hfirst, hmin, hwake⟩ := wakeTimes_timed (w := w) hx
    obtain ⟨hmem, hlater⟩ := List.mem_filter.mp hfirst
    have hfits : first.deadline ≤ u64Max := hi.capped hcap x first hmem
    obtain ⟨hrelease, hnow⟩ := FrameClock.releaseAt_le hi.refresh (of_decide_eq_true hlater) hfits
    have hle : first.deadline - targetSlackNs ≤ t.deadline - targetSlackNs := Nat.sub_le_sub_right (hmin t ht) _
    rw [Nat.mod_eq_of_lt (Nat.lt_succ_of_le hfits)] at hwake
    exact covered_wake hwake (hrelease.trans hle) (hnow.trans hle) _
  capped hcap x t ht := by
    rw [sweep_timers] at ht
    split at ht
    · exact hi.capped hcap x t (List.mem_filter.mp ht).1
    · exact hi.capped hcap x t ht
  seen := hm

namespace State

theorem clearFrames_rest (s : State) (v : ViewId) : (s.clearFrames v).2 =
    { s with
      views := (s.clearFrames v).2.views
      toplevels := (s.clearFrames v).2.toplevels
      trace := (s.clearFrames v).2.trace } := by
  unfold clearFrames
  split <;> rfl

theorem takeReport_rest (s : State) (v : ViewId) (r : Report) : (s.takeReport v r).2 =
    { s with
      views := (s.takeReport v r).2.views
      toplevels := (s.takeReport v r).2.toplevels
      trace := (s.takeReport v r).2.trace } := by
  unfold takeReport
  split <;> rfl

theorem unlink_rest (s : State) (v : ViewId) : s.unlink v = { s with
    views := (s.unlink v).views
    toplevels := (s.unlink v).toplevels
    trace := (s.unlink v).trace } := by
  unfold unlink
  split
  · rfl
  · dsimp only
    split <;> rfl

theorem addTimed_rest (s : State) (x : WlSurface) : s.addTimed x = { s with timed := (s.addTimed x).timed } := by
  unfold addTimed
  split <;> rfl

end State

theorem Awake.targeted (h : Awake cap n D s) (x : WlSurface) (atNs : Nat) : Awake cap n (D \ ∅ ∪ {.arm atNs}) (s.addTimed x) := by
  have h0 : Awake cap n (D \ ∅ ∪ {.arm atNs}) s := h.calm (.refl s) (.same fun _ hb => hb)
  have hsub : ∀ y ∈ s.timed, y ∈ (s.addTimed x).timed := by
    unfold addTimed
    split
    · exact fun _ hy => hy
    · exact fun _ hy => List.mem_append_left _ hy
  rw [addTimed_rest]
  exact { h0 with
    timed := fun _ => Or.inr ⟨atNs, Or.inr rfl⟩
    watched := fun y halive hne => hsub y (h0.watched y halive hne) }

theorem Awake.timerRegistered (h : Awake cap n D s) {x : WlSurface} {deadline : Nat} (hx : x ∈ s.timed)
    (hfits : cap → deadline ≤ u64Max) : Awake cap n D (s.registerTimer x deadline) := by
  have htimers (y : WlSurface) : ∀ t ∈ ((s.registerTimer x deadline).contents y).timers,
      t ∈ (s.contents y).timers ∨ t = ⟨s.registered, deadline⟩ := by
    unfold registerTimer
    dsimp only
    split
    · rename_i hy
      rw [hy]
      exact fun t ht => (List.mem_append.mp ht).imp_right List.mem_singleton.mp
    · exact fun t ht => Or.inl ht
  have h0 : Awake cap n D { s.registerTimer x deadline with contents := s.contents } :=
    { h with seen := Nat.le_succ_of_le h.seen }
  refine { h0 with watched := fun y halive hne => ?_, targets := fun hcap y halive t ht hlt => ?_, capped := fun hcap y t ht => ?_ }
  · by_cases hy : y = x
    · exact hy ▸ hx
    · have hsame : (s.registerTimer x deadline).contents y = s.contents y := if_neg hy
      exact h.watched y halive (hsame ▸ hne)
  · rcases htimers y t ht with ht | rfl
    · exact h.targets hcap y halive t ht hlt
    · exact absurd hlt (Nat.not_lt.mpr h.seen)
  · rcases htimers y t ht with ht | rfl
    · exact h.capped hcap y t ht
    · exact hfits hcap

theorem alive_of_ite {x y : WlSurface} {f : Surface} (hf : f.alive = true → (s.surfaces x).alive = true)
    (h : (if y = x then f else s.surfaces y).alive = true) : (s.surfaces y).alive = true := by
  split at h
  · rename_i hy
    exact hy ▸ hf h
  · exact h

/-- A tick apart, no deed puts the clock off. -/
theorem Deed.hastens {paid taken : Set Debt} (h : Deed w guard s paid taken s') (htimer : ∀ i, w.timer i = true) :
    Hastens D s.tick (D \ paid ∪ taken) s'.tick ∨
      paid = ∅ ∧ taken = tickDebts w s ∧ s' = s.disarm.sweep w (w.now s.asked) := by
  have hrest (ht : s'.tick = s.tick) (hp : ∀ atNs, .arm atNs ∉ paid) :
      Hastens D s.tick (D \ paid ∪ taken) s'.tick ∨
        paid = ∅ ∧ taken = tickDebts w s ∧ s' = s.disarm.sweep w (w.now s.asked) := Or.inl (ht ▸ .same hp)
  cases h with
  | move hm =>
      cases hm with
      | pace hm => exact Or.inl (hm.hastens htimer)
      | mapped | linked => exact hrest rfl (by simp)
  | called v ustNs =>
      have ht := congrArg State.tick (sendViewCallbacks_rest w s v ustNs)
      exact hrest ht (by simp)
  | framesCleared v =>
      have ht := congrArg State.tick (clearFrames_rest s v)
      exact hrest ht (by simp)
  | unlinked v es hes =>
      have ht := congrArg State.tick (unlink_rest s v)
      exact hrest ht (by simp)
  | reported v r =>
      have ht := congrArg State.tick (takeReport_rest s v r)
      exact hrest ht (by simp)
  | targeted x =>
      have ht := congrArg State.tick (addTimed_rest s x)
      exact hrest ht (by simp)
  | ticked hg => exact Or.inr ⟨rfl, rfl, rfl⟩
  | _ => exact hrest rfl (by simp)

theorem Deed.awake {paid taken : Set Debt} (h : Deed w guard s paid taken s') (htimer : ∀ i, w.timer i = true)
    (hg : cap → ∀ r x deadline, guard r (.target x deadline) → deadline ≤ u64Max) (hi : Awake cap n D s) :
    Awake cap n (D \ paid ∪ taken) s' := by
  rcases h.hastens (D := D) htimer with ht | ⟨rfl, rfl, rfl⟩
  swap
  · rw [Set.sdiff_empty]
    exact ticked_awake hi hi.seen
  have hrest (hc : Calm s s') : Awake cap n (D \ paid ∪ taken) s' := hi.calm hc ht
  have hviews (hs : s' = { s with views := s'.views, toplevels := s'.toplevels, trace := s'.trace }) :
      Awake cap n (D \ paid ∪ taken) s' := by
    refine hrest ?_
    rw [hs]
    exact ⟨fun _ h => h, fun _ h => h, rfl, rfl, id, fun _ => rfl, fun _ h => h⟩
  cases h with
  | move hm =>
      cases hm with
      | pace hm => exact hm.awake htimer hi
      | mapped | linked => exact hviews rfl
  | called v ustNs =>
      have htimers := sendViewCallbacks_timers (w := w) s v ustNs
      refine hrest ⟨?_, ?_, ?_, ?_, ?_, htimers, ?_⟩ <;> rw [sendViewCallbacks_rest]
      all_goals first | exact fun _ h => h | exact id
  | framesCleared v => exact hviews (clearFrames_rest s v)
  | unlinked v es hes => exact hviews (congrArg (State.log · es) (unlink_rest s v))
  | reported v r => exact hviews (takeReport_rest s v r)
  | clocked r =>
      refine hrest ⟨fun _ h => h, fun _ h => h, rfl, rfl, fun h => ?_, fun _ => rfl, fun _ h => h⟩
      change 0 < if r.refreshNs > 0 then r.refreshNs else s.clock.refreshNs
      split <;> assumption
  | targeted x => exact hi.targeted x _
  | registered s₀ x deadline hx hd =>
      have h0 : Awake cap n (D \ ∅ ∪ ∅) s := hi.calm (.refl s) (.same fun _ hb => hb)
      rcases hx with hx | ⟨k, hk⟩
      · exact h0.timerRegistered hx fun hcap => hg hcap s₀ x deadline hd
      · exact absurd (htimer k) (by simp [hk])
  | made x | reset x | parentSet x | named x | popupMade x | untracked x | subsurfaceMade x =>
      exact hrest ⟨fun _ h => h, fun _ h => h, rfl, rfl, id, fun _ => rfl, fun y => alive_of_ite fun h => h⟩
  | surfaceGone x =>
      exact hrest ⟨fun _ h => h, fun _ h => h, rfl, rfl, id, fun _ => rfl, fun y => alive_of_ite nofun⟩
  | ticked hg =>
      rw [Set.sdiff_empty]
      exact ticked_awake hi hi.seen
  | _ => exact hrest ⟨fun _ h => h, fun _ h => h, rfl, rfl, id, fun _ => rfl, fun _ h => h⟩

end IhsWl
