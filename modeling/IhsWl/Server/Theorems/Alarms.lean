import IhsWl.Server.Lemmas.Attention

/-!
# The clock runs for whatever waits

Between events nothing is owed: what waits for the clock has it armed in time.
-/

namespace IhsWl

open State

variable {w : World} {cap : Prop} {depth n : Nat} {s : State}

/-- The clock is armed, no later than 100 us after `dueNs`. -/
def State.wakesBy (s : State) (dueNs : Nat) : Prop := ∃ atNs, s.tick = some atNs ∧ atNs ≤ dueNs + 100_000

/-- Whatever waits for the clock has it armed, in time. A frame submitted before its view came back on
screen has as long from then. -/
structure Wakeful (s : State) : Prop where
  armed : s.loose ≠ [] ∨ s.unsubmitted ≠ [] ∨ s.timed ≠ [] ∨
    (∃ v e f, s.view v = some e ∧ f ∈ e.frames ∧ f.pending (!e.suspended) = true) → s.tick.isSome = true
  loose : ∀ l ∈ s.loose, s.wakesBy l.dueNs
  unsubmitted : ∀ u ∈ s.unsubmitted, s.wakesBy u.2
  frames : ∀ v e, s.view v = some e → e.suspended = false → ∀ f ∈ e.frames, f.pending true = true →
    s.wakesBy (f.submittedNs + staleNs) ∨
      ∃ backNs, .resumed v backNs ∈ s.trace ∧ f.submittedNs ≤ backNs ∧ s.wakesBy (backNs + staleNs)

/-! ## Nothing owed -/

theorem Covered.wakesBy {dueNs : Nat} (h : Covered ∅ s.tick dueNs) : s.wakesBy dueNs := by
  rcases h with h | ⟨_, hmem, _⟩
  · exact h
  · cases hmem

theorem Alarmed.isSome (h : Alarmed ∅ s.tick) : s.tick.isSome = true := by
  rcases h with h | ⟨_, hmem⟩
  · exact h
  · cases hmem

theorem Awake.wakeful (h : Awake cap n ∅ s) (hf : Attends w ∅ s) : Wakeful s where
  armed hwaits := by
    rcases hwaits with hne | hne | hne | ⟨v, e, f, hv, hmem, hp⟩
    · obtain ⟨l, hl⟩ := List.exists_mem_of_ne_nil _ hne
      exact (h.loose l hl).alarmed.isSome
    · obtain ⟨u, hu⟩ := List.exists_mem_of_ne_nil _ hne
      exact (h.unsubmitted u hu).alarmed.isSome
    · exact (h.timed hne).isSome
    · cases hs : e.suspended <;> rw [hs] at hp
      · rcases (hf v e hv).shown hs (Set.notMem_empty _) f hmem hp with hc | ⟨_, -, -, hc⟩
        · exact hc.alarmed.isSome
        · exact hc.alarmed.isSome
      · exact ((hf v e hv).hidden hs (Set.notMem_empty _) f hmem hp).isSome
  loose l hl := (h.loose l hl).wakesBy
  unsubmitted u hu := (h.unsubmitted u hu).wakesBy
  frames v e hv hs f hmem hp := by
    rcases (hf v e hv).shown hs (Set.notMem_empty _) f hmem hp with hc | ⟨backNs, hback, hle, hc⟩
    · exact Or.inl hc.wakesBy
    · exact Or.inr ⟨backNs, hback, hle, hc.wakesBy⟩

/-- What a handler leaves owed is not the clock's. -/
theorem unpaid_links {e : Event} {d : Debt} (h : d ∈ unpaid s e) :
    (∃ v, d = .bind v) ∨ (∃ t, d = .spare t) ∨ ∃ v, d = .tell v := by
  unfold unpaid at h
  split at h
  · obtain ⟨t, -, rfl⟩ := h
    exact Or.inr (Or.inl ⟨t, rfl⟩)
  · obtain ⟨t, -, rfl⟩ := h
    exact Or.inr (Or.inl ⟨t, rfl⟩)
  · obtain ⟨_, v, -, -, rfl⟩ := h
    exact Or.inl ⟨v, rfl⟩
  · obtain ⟨t, -, -, -, -, rfl⟩ := h
    exact Or.inr (Or.inl ⟨t, rfl⟩)
  · obtain ⟨v, -, rfl⟩ := h
    exact Or.inr (Or.inr ⟨v, rfl⟩)
  · cases h

/-! ## Events -/

/-- Where `cap` says so, targets fit 64 bits. -/
def inTime (cap : Prop) (_ : State) (e : Event) : Prop :=
  cap → ∀ x deadline, e = .target x deadline → deadline ≤ u64Max

/-- What waits has the clock run, in every state between events. -/
structure Waking (w : World) (cap : Prop) (n : Nat) (s : State) : Prop where
  paired : Paired s
  awake : Awake cap n ∅ s
  attends : Attends w ∅ s

theorem waking_empty (w : World) (cap : Prop) : Waking w cap 0 {} where
  paired := paired_empty
  awake := by constructor <;> simp [defaultRefreshNs]
  attends v e hv := by
    rw [State.view, Std.TreeMap.getElem?_emptyc] at hv
    cases hv

/-- What is owed beside the clock and the views' frames is nothing to them. -/
theorem Waking.settled {D : Set Debt} (hp : Paired s) (hi : Awake cap n D s) (hf : Attends w D s)
    (harm : ∀ atNs, .arm atNs ∉ D) (hwatch : ∀ v, .watch v ∉ D) : Waking w cap n s where
  paired := hp
  awake := hi.calm (.refl s) (.owing fun atNs hmem => absurd hmem (harm atNs))
  attends := hf.core ⟨le_rfl, List.Subset.refl _⟩ (fun _ => rfl) (.owing fun atNs hmem => absurd hmem (harm atNs))
    fun v _ => hwatch v

/-- Deeds leave what waits with the clock to run, or owed to. -/
theorem Deeds.waking {D E : Set Debt} {t : State} (htimer : ∀ i, w.timer i = true) (h : Deeds w (inTime cap) s D t E)
    (hi : Awake cap n D s) (hf : Attends w D s) : Awake cap n E t ∧ Attends w E t := by
  refine h.keeps (I := fun D s => Awake cap n D s ∧ Attends w D s) (fun hsub hi => ⟨?_, ?_⟩) (fun hd hi => ⟨?_, ?_⟩) ⟨hi, hf⟩
  · exact hi.1.calm (.refl _) (.owing fun _ hmem => hsub hmem)
  · refine hi.2.core ⟨le_rfl, List.Subset.refl _⟩ (fun _ => rfl) (.owing fun _ hmem => hsub hmem) ?_
    exact fun v hnot hmem => hnot (hsub hmem)
  · exact hd.awake htimer (fun hcap _ x deadline hg => hg hcap x deadline rfl) hi.1
  · exact hd.attends htimer hi.2

theorem step_waking (htimer : ∀ i, w.timer i = true) (hi : Waking w cap n s) {e : Event} (hg : inTime cap s e) :
    Waking w cap n (step w depth s e) := by
  have hdeeds : Deeds w (inTime cap) s ∅ (step w depth s e) (unpaid s e) := step_deeds hi.paired hg
  obtain ⟨hawake, hattends⟩ := hdeeds.waking htimer hi.awake hi.attends
  refine .settled (step_paired hi.paired e) hawake hattends (fun atNs hmem => ?_) fun v hmem => ?_
  · rcases unpaid_links hmem with ⟨_, h⟩ | ⟨_, h⟩ | ⟨_, h⟩ <;> cases h
  · rcases unpaid_links hmem with ⟨_, h⟩ | ⟨_, h⟩ | ⟨_, h⟩ <;> cases h

/-- A tick sees every timer there is. -/
theorem tick_waking (htimer : ∀ i, w.timer i = true) (hi : Waking w cap n s) (ht : s.tick.isSome = true) :
    Waking w cap s.registered (step w depth s .tick) := by
  have hdeeds : Deeds w (inTime cap) (s.disarm.sweep w (w.now s.asked)) (tickDebts w s) (s.onTick w (unblock w depth)) ∅ :=
    ticked_deeds (unblock_wakes w depth) s
  have hstep : step w depth s .tick = s.onTick w (unblock w depth) := if_pos ht
  have hpaired : Paired (step w depth s .tick) := step_paired hi.paired .tick
  have hawake := ticked_awake (w := w) hi.awake (Nat.le_refl s.registered)
  have hattends := ticked_attends hi.attends
  rw [Set.empty_union] at hawake hattends
  rw [hstep] at hpaired ⊢
  obtain ⟨hawake, hattends⟩ := hdeeds.waking htimer hawake hattends
  exact ⟨hpaired, hawake, hattends⟩

theorem steps_waking (htimer : ∀ i, w.timer i = true) (hi : Waking w cap n s) {es : List Event}
    (htargets : cap → ∀ x deadline, .target x deadline ∈ es → deadline ≤ u64Max) : Waking w cap n (es.foldl (step w depth) s) := by
  have hok : Runs.Meets (step w depth) (inTime cap) s es := by
    refine Runs.meets_of_splits fun pre e post hsplit hcap x deadline he => htargets hcap x deadline ?_
    rw [hsplit, he]
    exact List.mem_append_right _ List.mem_cons_self
  exact hok.keeps (fun _ _ hg hi => step_waking htimer hi hg) hi

/-! ## What the clock knows -/

theorem Pace.clock {paid taken : Set Debt} {s' : State} (h : Pace w s paid taken s') : s'.clock = s.clock := by
  cases h with
  | called v ustNs => exact (congrArg State.clock (sendViewCallbacks_rest w s v ustNs) :)
  | quiet _ hq => exact (congrArg State.clock hq.rest :)
  | unshown root tk s₁ dueNs _ ht ha => exact (congrArg State.clock (unshown_rest ht ha) :)
  | refused v root tk s₁ s₂ dueNs _ hr ht hq ha => exact (congrArg State.clock (refused_rest ht hq ha) :)
  | listed v dueNs =>
      unfold listUnsubmitted
      split <;> rfl
  | pushed v root tk s₁ s₂ seq shown released _ hr ht hq hp => exact (congrArg State.clock (pushed_rest ht hq hp) :)
  | _ => rfl

/-- Reports alone move the clock. -/
theorem Deed.clock {guard : State → Event → Prop} {paid taken : Set Debt} {s' : State} (h : Deed w guard s paid taken s') :
    s'.clock = s.clock ∨ ∃ r : Report, s'.clock = s.clock.update r.ustNs r.refreshNs := by
  cases h with
  | move hm =>
      cases hm with
      | pace hm => exact Or.inl hm.clock
      | mapped | linked => exact Or.inl rfl
  | called v ustNs => exact Or.inl (congrArg State.clock (sendViewCallbacks_rest w s v ustNs) :)
  | framesCleared v => exact Or.inl (congrArg State.clock (clearFrames_rest s v) :)
  | unlinked v es hes => exact Or.inl (congrArg State.clock (unlink_rest s v) :)
  | reported v r => exact Or.inl (congrArg State.clock (takeReport_rest s v r) :)
  | targeted x => exact Or.inl (congrArg State.clock (addTimed_rest s x) :)
  | clocked r => exact Or.inr ⟨r, rfl⟩
  | _ => exact Or.inl rfl

/-- What reports made of the clock. -/
def Reckoned (s : State) : Prop := ∃ reports, s.clock = .after reports

theorem Deeds.reckoned {guard : State → Event → Prop} {D E : Set Debt} {t : State} (h : Deeds w guard s D t E)
    (hi : Reckoned s) : Reckoned t := by
  refine h.keeps (I := fun _ s => Reckoned s) (fun _ hi => hi) (fun hd hi => ?_) hi
  obtain ⟨reports, hi⟩ := hi
  rcases hd.clock with hclock | ⟨r, hclock⟩
  · exact ⟨reports, hclock.trans hi⟩
  · exact ⟨reports ++ [r], by rw [hclock, hi, FrameClock.after_concat]⟩

theorem run_reckoned (w : World) (depth : Nat) (es : List Event) : Reckoned (run w depth es) := by
  have hrun : Paired (run w depth es) ∧ Reckoned (run w depth es) := by
    refine Runs.keeps (P := fun s => Paired s ∧ Reckoned s) (fun s e hi => ⟨step_paired hi.1 e, ?_⟩) es ⟨paired_empty, [], rfl⟩
    have hdeeds : Deeds w (fun _ _ => True) s ∅ (step w depth s e) (unpaid s e) := step_deeds hi.1 trivial
    exact hdeeds.reckoned hi.2
  exact hrun.2

/-- In every state reached release and due are inverse, as long as nothing saturates. -/
theorem run_inStep (w : World) (depth : Nat) (es : List Event) {target now : Nat} (htarget : targetSlackNs < target)
    (hrelease : (run w depth es).clock.Fits (target - targetSlackNs - 1)) (hnow : (run w depth es).clock.Fits now)
    (hdue : (run w depth es).clock.nextVblank now + targetSlackNs ≤ u64Max) : (run w depth es).clock.InStep target now := by
  obtain ⟨reports, hclock⟩ := run_reckoned w depth es
  refine FrameClock.inStep ?_ htarget hrelease hnow hdue
  rw [hclock]
  exact FrameClock.refresh_after reports

/-! ## Runs -/

/-- Between events whatever waits for the clock has it armed, no later than 100 us after it is due: a target
once a tick ran after its commit, wherever reports moved the vblanks since. -/
theorem run_wakeful (w : World) (depth : Nat) (es : List Event) (htimer : ∀ i, w.timer i = true)
    (htargets : ∀ x deadline, .target x deadline ∈ es → deadline ≤ u64Max) :
    Wakeful (run w depth es) ∧
      ∀ pre post, es = pre ++ .tick :: post → (run w depth pre).tick.isSome = true →
        ∀ x, ((run w depth es).surfaces x).alive = true → ∀ t ∈ ((run w depth es).contents x).timers,
          t.id < (run w depth pre).registered → (run w depth es).wakesBy (t.deadline - targetSlackNs) := by
  have hrun : Waking w True 0 (run w depth es) := steps_waking htimer (waking_empty w True) fun _ => htargets
  refine ⟨hrun.awake.wakeful hrun.attends, fun pre post hsplit ht x halive t hmem hseen => ?_⟩
  have hpre : Waking w True 0 (run w depth pre) :=
    steps_waking htimer (waking_empty w True) fun _ x deadline hmem =>
      htargets x deadline (hsplit ▸ List.mem_append_left _ hmem)
  have hpost : Waking w True (run w depth pre).registered (run w depth es) := by
    have htick : Waking w True (run w depth pre).registered (step w depth (run w depth pre) .tick) :=
      tick_waking htimer hpre ht
    have hrun : run w depth es = post.foldl (step w depth) (step w depth (run w depth pre) .tick) := by
      rw [hsplit, run, List.foldl_append]
      rfl
    rw [hrun]
    exact steps_waking htimer htick fun _ x deadline hmem =>
      htargets x deadline (hsplit ▸ List.mem_append_right _ (List.mem_cons_of_mem _ hmem))
  exact (hpost.awake.targets trivial x halive t hmem hseen).wakesBy

/-- A target three refreshes away, once a tick saw it. -/
theorem run_wakeful_target :
    (run World.granting 1 [.target 1 50_000_000, .tick]).wakesBy (50_000_000 - targetSlackNs) := by
  have htargets : ∀ x deadline, .target x deadline ∈ [Event.target 1 50_000_000, .tick] → deadline ≤ u64Max := by
    intro x deadline hmem
    rcases List.mem_cons.mp hmem with he | hmem
    · cases he
      decide
    · cases List.mem_singleton.mp hmem
  have h := (run_wakeful World.granting 1 [.target 1 50_000_000, .tick] (fun _ => rfl) htargets).2
  exact h [.target 1 50_000_000] [] rfl (by decide +kernel) 1 (by decide +kernel) ⟨0, 50_000_000⟩ (by decide +kernel)
    (by decide +kernel)

end IhsWl
