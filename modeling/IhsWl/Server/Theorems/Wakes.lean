import IhsWl.Server.Lemmas.Owned

/-!
# Released barriers wake their clients

Whenever a handler signals a barrier of a client that is still there, it unblocks that client afterwards --
as long as `hold_loose` never overflows, and no view lets its toplevel go with barriers still queued.
-/

namespace IhsWl

open State

variable {w : World} {guard : State → Event → Prop} {s s' : State} {D : Set Debt}

/-! ## What one deed signals -/

/-- Barriers signaled are the debt of waking their clients, and waking is what pays it. -/
def Accounts (s s' : State) (paid taken : Set Debt) : Prop :=
  ∃ es, s'.trace = s.trace ++ es ∧
    (∀ b, .signal b ∈ es → s.connected b.client = true → .wake b.client ∈ taken) ∧
    ∀ c, .wake c ∈ paid → .unblock c ∈ es

namespace Accounts

variable {paid taken : Set Debt}

/-- Nothing is signaled, and no waking is paid. -/
theorem mute (h : Logs (fun x => x.signals = none) s s') (hp : ∀ c, .wake c ∉ paid) : Accounts s s' paid taken := by
  obtain ⟨es, he, hes⟩ := h
  refine ⟨es, he, fun b hb => ?_, fun c hc => absurd hc (hp c)⟩
  cases hes _ hb

/-- Nothing is signaled at first, and then only what is owed. -/
theorem after {r : State} (h : Logs (fun x => x.signals = none) s r)
    (h' : ∃ es, s'.trace = r.trace ++ es ∧ ∀ b, .signal b ∈ es → s.connected b.client = true → .wake b.client ∈ taken)
    (hp : ∀ c, .wake c ∉ paid) : Accounts s s' paid taken := by
  obtain ⟨es, he, hes⟩ := h
  obtain ⟨es', he', hes'⟩ := h'
  refine ⟨es ++ es', by rw [he', he, List.append_assoc], fun b hb hc => ?_, fun c hc => absurd hc (hp c)⟩
  rcases List.mem_append.mp hb with hb | hb
  · cases hes _ hb
  · exact hes' b hb hc

end Accounts

theorem Effect.signals_of_quiet {x : Effect} (h : x.quiet = true) : x.signals = none := by
  cases x <;> first | rfl | cases h

theorem Quiet.mute (h : Quiet s s') : Logs (fun x => x.signals = none) s s' := by
  obtain ⟨es, he, hes⟩ := h.trace
  exact ⟨es, he, fun x hx => Effect.signals_of_quiet (hes x hx)⟩

/-- What joins `loose` fits, or nobody is there to wake. -/
theorem admitLoose_accounts {t t' : State} {root : WlSurface} {barriers : List Barrier} {dueNs : Option Nat}
    (hb : ∀ b ∈ barriers, b.client = w.client root) (hclean : Clean t'.trace)
    (ha : t.admitLoose w (s.clientOf w root) barriers = (dueNs, t')) :
    ∃ es, t'.trace = t.trace ++ es ∧ ∀ b, .signal b ∈ es → s.connected b.client = false := by
  unfold admitLoose at ha
  split at ha
  · cases ha
    exact ⟨[], by simp, by simp⟩
  · split at ha
    · rename_i hnone
      cases ha
      refine ⟨_, rfl, fun b hmem => ?_⟩
      obtain ⟨b', hb', he⟩ := List.mem_map.mp hmem
      cases he
      rw [hb b hb']
      unfold clientOf at hnone
      split at hnone
      · cases hnone
      · rename_i hc; simpa using hc
    · rename_i c hc
      cases ha
      refine ⟨_, rfl, fun b hmem => ?_⟩
      have hfits := hclean.1 _ (List.mem_append_right _ List.mem_cons_self)
      rw [Nat.sub_eq_zero_of_le hfits] at hmem
      simp at hmem

/-- A call on the queue of view `v` tells its client of what it signals. -/
theorem wakeIf_of_signaled (ho : Owned w s) (op : FramesOp) {v : ViewId} {e : ViewEntry}
    (hv : s.view v = some e) (hop : op.tellsOfBarriers = true) (hpush : ∀ p, op ≠ .push p) {b : Barrier} (hb : .signal b ∈ (op.call e.frames).effects)
    (hc : s.connected b.client = true) : .wake b.client ∈ wakeIf (op.call e.frames).returned (s.viewClient w v) := by
  obtain ⟨hreturned, hqueued | ⟨p, hp, -⟩⟩ := signaled_call op hop hb
  · obtain ⟨root, hroot, hclient⟩ := ho.frames v b (mem_queued.mpr ⟨e, hv, hqueued⟩)
    refine ⟨hreturned, b.client, ?_, rfl⟩
    rw [viewClient, hroot, Option.bind_some, clientOf_eq_some]
    exact ⟨hc, hclient.symm⟩
  · exact absurd hp (hpush p)

/-- What a frame pushes out of the queue is signaled, and its client told of. -/
theorem pushFrame_accounts {t t' : State} {v : ViewId} {root : WlSurface} {seq : Nat} {shown : List (Nat × Nat)} {tk : Taken}
    {released : Bool} (hqueued : ∀ b ∈ t.queued v, b.client = w.client root) (htaken : ∀ b ∈ tk.barriers, b.client = w.client root)
    (hp : t.pushFrame w v seq shown tk = (released, t')) :
    ∃ es, t'.trace = t.trace ++ es ∧
      ∀ b, .signal b ∈ es → s.connected b.client = true → .wake b.client ∈ wakeIf released (s.clientOf w root) := by
  unfold pushFrame at hp
  split at hp
  · cases hp
    exact ⟨[], by simp, by simp⟩
  · rename_i e he
    cases hp
    refine ⟨_, rfl, fun b hb hc => ?_⟩
    obtain ⟨hreturned, hfrom⟩ := signaled_call (.push ⟨w.now t.asked, seq, shown, tk⟩) rfl hb
    have hclient : b.client = w.client root := by
      rcases hfrom with hbefore | ⟨p, hp, hb⟩
      · exact hqueued b (mem_queued.mpr ⟨e, he, hbefore⟩)
      · cases hp
        exact htaken b hb
    exact ⟨hreturned, b.client, clientOf_eq_some.mpr ⟨hc, hclient.symm⟩, rfl⟩

theorem Pace.accounts {paid taken : Set Debt} (h : Pace w s paid taken s') (ho : Owned w s) (hk : Kin w s)
    (hclean : Clean s'.trace) : Accounts s s' paid taken := by
  have hrest (htrace : s'.trace = s.trace) (hp : ∀ c, .wake c ∉ paid) : Accounts s s' paid taken :=
    .mute (.none htrace) hp
  have hdiscarded (r : State) (tk : Taken) : Logs (fun x => x.signals = none) r (r.log tk.notShown.2) :=
    .log (by simp [Taken.notShown])
  cases h with
  | unblocked c => exact ⟨[.unblock c], rfl, by simp, by simp⟩
  | looseReleased =>
      refine ⟨_, rfl, fun b hb _ => ?_, by simp⟩
      obtain ⟨l, hl, he⟩ := List.mem_map.mp hb
      cases he
      exact ⟨l.client, List.mem_map.mpr ⟨l, hl, rfl⟩, by rw [ho.loose l hl]⟩
  | framesReleased =>
      refine ⟨_, rfl, fun b hb hc => ?_, by simp⟩
      obtain ⟨v, hv, hb⟩ := List.mem_flatMap.mp hb
      cases he : s.view v with
      | none => simp [he] at hb
      | some e =>
          simp only [he, Option.map_some, Option.getD_some] at hb
          obtain ⟨hreturned, c, hclient, hwake⟩ :=
            wakeIf_of_signaled ho .releaseAll he rfl (by simp) hb hc
          refine ⟨c, List.mem_filterMap.mpr ⟨v, List.mem_filter.mpr ⟨hv, ?_⟩, hclient⟩, hwake⟩
          rw [he, Option.any_some]
          exact hreturned
  | applied c =>
      refine .mute ⟨_, rfl, fun x hx => ?_⟩ (by simp)
      obtain ⟨cb, -, rfl⟩ := List.mem_map.mp hx
      rfl
  | called v ustNs => exact .mute (sendViewCallbacks_logs (fun _ _ => rfl) v ustNs) (by simp)
  | quiet _ hq => exact .mute hq.mute (by simp)
  | unshown root tk s₁ dueNs _ ht ha =>
      have htaken := fun b (hb : b ∈ (s.takeTrees [root]).1.barriers) => ho.takenTree hk hb
      have h1 := takeTrees_trace s [root]
      rw [ht] at htaken h1
      obtain ⟨es, he, hes⟩ := admitLoose_accounts htaken hclean ha
      refine .after ((Logs.none h1).trans (hdiscarded s₁ tk)) ⟨es, he, fun b hb hc => ?_⟩ (by simp)
      rw [hes b hb] at hc
      cases hc
  | refused v root tk s₁ s₂ dueNs _ hr ht hq ha =>
      have htaken := fun b => ho.taken hk hr (b := b)
      have h1 := takeTrees_trace s (s.viewTrees v)
      rw [ht] at htaken h1
      obtain ⟨es, he, hes⟩ := admitLoose_accounts htaken hclean ha
      refine .after (((Logs.none h1).trans hq.mute).trans (hdiscarded s₂ tk)) ⟨es, he, fun b hb hc => ?_⟩ (by simp)
      rw [hes b hb] at hc
      cases hc
  | listed v dueNs =>
      refine hrest ?_ (by simp)
      unfold listUnsubmitted
      split <;> rfl
  | pushed v root tk s₁ s₂ seq shown released _ hr ht hq hp =>
      have htaken := fun b => ho.taken hk hr (b := b)
      have h1 := takeTrees_trace s (s.viewTrees v)
      rw [ht] at htaken h1
      have hqueued : ∀ b ∈ s₂.queued v, b.client = w.client root := by
        intro b hb
        rw [queued_core (core_asked ht hq v)] at hb
        obtain ⟨root', hr', hclient⟩ := ho.frames v b hb
        cases hr.symm.trans hr'
        exact hclient
      obtain ⟨es, he, hes⟩ := pushFrame_accounts hqueued htaken hp
      exact .after ((Logs.none h1).trans hq.mute) ⟨es, he, fun b hb hc => Or.inr (hes b hb hc)⟩ (by simp)
  | standing | armed | failed => exact hrest rfl (by simp [armsFrom])
  | _ => exact hrest rfl (by simp)

/-- What a tick signals for a view is told of. -/
theorem signaled_sweepFrames {now : Nat} {e : ViewEntry} {b : Barrier} (h : .signal b ∈ (sweepFrames now e).effects) :
    (sweepFrames now e).released = true ∧ b ∈ e.frames.queuedBarriers := by
  unfold sweepFrames at h ⊢
  split
  · rename_i hs
    rw [if_pos hs] at h
    split
    · rename_i hn
      rw [if_pos hn] at h
      obtain ⟨hreturned, hb | ⟨p, hp, -⟩⟩ := signaled_call .releaseAll rfl h
      · exact ⟨hreturned, hb⟩
      · cases hp
    · rename_i hn
      rw [if_neg hn] at h
      cases h
  · rename_i hs
    rw [if_neg hs] at h
    obtain ⟨hreturned, hb | ⟨p, hp, -⟩⟩ := signaled_call (.releaseOlder (now - staleNs)) rfl h
    · refine ⟨hreturned, (queued_call (.flushOlder (now - staleNs)) hb).resolve_right ?_⟩
      rintro ⟨p, hp, -⟩
      cases hp
    · cases hp

/-- What a view holds goes back, and nothing is signaled. -/
theorem unlink_mute (s : State) (v : ViewId) : Logs (fun x => x.signals = none) s (s.unlink v) := by
  unfold unlink
  split
  · exact .none rfl
  · rename_i e _
    have hcleared (r : State) : Logs (fun x => x.signals = none) r (r.log (e.holds.clear v).2) := by
      refine .log fun x hx => ?_
      obtain ⟨u, -, rfl⟩ := List.mem_map.mp hx
      rfl
    dsimp only
    split
    · exact hcleared _
    · exact (hcleared _).trans (.log (by simp))

/-- A tick wakes whom it signals for. -/
theorem ticked_accounts (ho : Owned w s) : Accounts s (s.disarm.sweep w (w.now s.asked)) ∅ (tickDebts w s) := by
  refine ⟨_, trace_sweep s.disarm (w.now s.asked), fun b hb hc => ?_, by simp⟩
  rcases List.mem_append.mp hb with hb | hb
  · obtain ⟨l, hl, he⟩ := List.mem_map.mp hb
    cases he
    refine Or.inl ⟨l.barrier.client, ?_, rfl⟩
    rw [← ho.loose l (List.mem_filter.mp hl).1]
    exact List.mem_append_left _ (List.mem_append_right _ (List.mem_map.mpr ⟨l, hl, rfl⟩))
  · obtain ⟨v, hv, hb⟩ := List.mem_flatMap.mp hb
    cases he : s.view v with
    | none => simp [sweptView, show s.disarm.view v = none from he] at hb
    | some e =>
        have hswept : s.disarm.sweptView (w.now s.asked) v = some (sweepFrames (w.now s.asked) e) := by
          rw [sweptView, show s.disarm.view v = some e from he]
          rfl
        rw [hswept, Option.map_some, Option.getD_some] at hb
        obtain ⟨hreleased, hqueued⟩ := signaled_sweepFrames hb
        obtain ⟨root, hroot, hclient⟩ := ho.frames v b (mem_queued.mpr ⟨e, he, hqueued⟩)
        refine Or.inl ⟨b.client, List.mem_append_right _ (List.mem_filterMap.mpr ⟨v, List.mem_filter.mpr ⟨hv, ?_⟩, ?_⟩), rfl⟩
        · rw [hswept, Option.any_some]
          exact hreleased
        · change (s.viewRoot v).bind (s.clientOf w) = _
          rw [hroot, Option.bind_some, clientOf_eq_some]
          exact ⟨hc, hclient.symm⟩

theorem Deed.accounts {paid taken : Set Debt} (h : Deed w guard s paid taken s') (ho : Owned w s) (hk : Kin w s)
    (hclean : Clean s'.trace) : Accounts s s' paid taken := by
  cases h with
  | move hm =>
      cases hm with
      | pace hm => exact hm.accounts ho hk hclean
      | mapped => exact .mute (.log (by simp)) (by simp)
      | linked => exact .mute (.log (by simp)) (by simp)
  | called v ustNs => exact .mute (sendViewCallbacks_logs (fun _ _ => rfl) v ustNs) (by simp)
  | framesCleared v =>
      unfold clearFrames
      split
      · exact .mute (.none rfl) (by simp)
      · rename_i e he
        exact ⟨_, rfl, fun b hb hc => Or.inr (wakeIf_of_signaled ho .clear he rfl (by simp) hb hc), by simp⟩
  | unlinked v es hes =>
      have htold : Logs (fun x => x.signals = none) (s.unlink v) ((s.unlink v).log es) :=
        .log (by rcases hes with rfl | ⟨-, rfl⟩ <;> simp)
      exact .mute ((unlink_mute s v).trans htold) (by simp)
  | reported v r =>
      unfold takeReport
      split
      · exact .mute (.none rfl) (by simp)
      · rename_i e he
        refine ⟨_, rfl, fun b hb hc => Or.inr ?_, by simp⟩
        rcases List.mem_append.mp hb with hb | hb
        · obtain ⟨u, -, hu⟩ := List.mem_map.mp hb
          cases hu
        · exact wakeIf_of_signaled ho (.presented r) he rfl (by simp) hb hc
  | resumed | tokenIssued | tokenUsed => exact .mute (.log (by simp)) (by simp)
  | targeted x =>
      refine .mute (.none ?_) (by simp)
      unfold addTimed
      split <;> rfl
  | ticked hg => exact ticked_accounts ho
  | _ => exact .mute (.none rfl) (by simp)

/-! ## Runs of deeds -/

/-- Since `base`, each barrier signaled of a client still there was followed by its waking, or that is owed. -/
def Woken (base : List Effect) (D : Set Debt) (s : State) : Prop :=
  ∃ es, s.trace = base ++ es ∧ ∀ l₁ b l₂, es = l₁ ++ .signal b :: l₂ → s.connected b.client = true →
    .unblock b.client ∈ l₂ ∨ .wake b.client ∈ D

theorem Deed.connected {paid taken : Set Debt} (h : Deed w guard s paid taken s') {c : ClientId}
    (hc : s'.connected c = true) : s.connected c = true := by
  cases h.act with
  | same _ hl => rwa [hl.connected] at hc
  | unlinked v => rwa [(letGo_desk s v _).connected] at hc
  | disconnected c' =>
      dsimp only at hc
      split at hc
      · cases hc
      · exact hc
  | _ => exact hc

theorem Woken.deed {base : List Effect} {paid taken : Set Debt} (h : Woken base D s)
    (hd : Deed w guard s paid taken s') (ho : Owned w s) (hk : Kin w s) (hclean : Clean s'.trace) :
    Woken base (D \ paid ∪ taken) s' := by
  obtain ⟨es, he, hes⟩ := h
  obtain ⟨es', he', hsignals, hpaid⟩ := hd.accounts ho hk hclean
  refine ⟨es ++ es', by rw [he', he, List.append_assoc], fun l₁ b l₂ hsplit hc => ?_⟩
  have hc := hd.connected hc
  rcases List.append_eq_append_iff.mp hsplit with ⟨m, rfl, hm⟩ | ⟨m, rfl, hm⟩
  · -- Signaled now.
    refine Or.inr (Or.inr (hsignals b ?_ hc))
    rw [hm]
    exact List.mem_append_right _ List.mem_cons_self
  · -- Signaled before, and waiting for its client still.
    cases m with
    | nil =>
        refine Or.inr (Or.inr (hsignals b ?_ hc))
        rw [← show .signal b :: l₂ = es' by simpa using hm]
        exact List.mem_cons_self
    | cons x m =>
        simp only [List.cons_append, List.cons.injEq] at hm
        obtain ⟨rfl, rfl⟩ := hm
        rcases hes l₁ b m rfl hc with hwoken | howed
        · exact Or.inl (List.mem_append_left _ hwoken)
        · by_cases hp : .wake b.client ∈ paid
          · exact Or.inl (List.mem_append_right _ (hpaid _ hp))
          · exact Or.inr (Or.inl ⟨howed, hp⟩)

/-- What every deed keeps of a run so far clean. -/
theorem Deeds.woken {base : List Effect} {E : Set Debt} (h : Deeds w guard s D s' E) (hp : Paired s) (hk : Kin w s)
    (ho : Clean s.trace → Owned w s) (hw : Woken base D s) (hclean : Clean s'.trace) :
    Kin w s' ∧ Owned w s' ∧ Woken base E s' := by
  have hall : Paired s' ∧ Kin w s' ∧ (Clean s'.trace → Owned w s' ∧ Woken base E s') := by
    refine h.keeps (I := fun D s => Paired s ∧ Kin w s ∧ (Clean s.trace → Owned w s ∧ Woken base D s)) ?_ ?_
      ⟨hp, hk, fun hc => ⟨ho hc, hw⟩⟩
    · rintro s D E hsub ⟨hp, hk, hall⟩
      refine ⟨hp, hk, fun hc => ⟨(hall hc).1, ?_⟩⟩
      obtain ⟨es, he, hes⟩ := (hall hc).2
      exact ⟨es, he, fun l₁ b l₂ hsplit hconn => (hes l₁ b l₂ hsplit hconn).imp_right fun hd => hsub hd⟩
    · rintro s paid taken s' D hd ⟨hp, hk, hall⟩
      refine ⟨hp.act hd.act, hk.act hd.act, fun hc => ?_⟩
      obtain ⟨ho, hw⟩ := hall (hc.before hd.act)
      exact ⟨ho.deed hd hp hk hc, hw.deed hd ho hk hc⟩
  exact ⟨hall.2.1, hall.2.2 hclean⟩

theorem wake_unpaid (s : State) (e : Event) (c : ClientId) : .wake c ∉ unpaid s e := by
  unfold unpaid
  split <;> simp [loneDebts]

/-! ## Runs -/

/-- Between the two states every barrier signaled of a client still there was followed by its waking. -/
def Answers (s s' : State) : Prop :=
  ∃ es, s'.trace = s.trace ++ es ∧ ∀ l₁ b l₂, es = l₁ ++ .signal b :: l₂ → s'.connected b.client = true →
    .unblock b.client ∈ l₂

theorem step_answers {depth : Nat} {e : Event} (hp : Paired s) (hk : Kin w s) (ho : Clean s.trace → Owned w s)
    (hclean : Clean (step w depth s e).trace) :
    Kin w (step w depth s e) ∧ Owned w (step w depth s e) ∧ Answers s (step w depth s e) := by
  have hdeeds : Deeds w (fun _ _ => True) s ∅ (step w depth s e) (unpaid s e) := step_deeds hp trivial
  have hbase : Woken s.trace ∅ s := ⟨[], by simp, by simp⟩
  obtain ⟨hk', ho', es, he, hes⟩ := Deeds.woken hdeeds hp hk ho hbase hclean
  refine ⟨hk', ho', es, he, fun l₁ b l₂ hsplit hc => ?_⟩
  exact (hes l₁ b l₂ hsplit hc).resolve_right (wake_unpaid s e b.client)

theorem run_owned (w : World) (depth : Nat) (es : List Event) :
    Kin w (run w depth es) ∧ (Clean (run w depth es).trace → Owned w (run w depth es)) := by
  induction es using List.reverseRecOn with
  | nil => exact ⟨Kin.empty, fun _ => Owned.empty⟩
  | append_singleton es e ih =>
      have hp : Paired (run w depth es) := (run_sound w depth es).1
      have hdeeds : Deeds w (fun _ _ => True) (run w depth es) ∅ (step w depth (run w depth es) e) _ :=
        step_deeds hp trivial
      rw [run_concat]
      have hk : Paired (step w depth (run w depth es) e) ∧ Kin w (step w depth (run w depth es) e) :=
        hdeeds.invariant (P := fun s => Paired s ∧ Kin w s) (fun hd h => ⟨h.1.act hd.act, h.2.act hd.act⟩) ⟨hp, ih.1⟩
      exact ⟨hk.2, fun hc => (step_answers hp ih.1 ih.2 hc).2.1⟩

/-- In every run in which `hold_loose` never holds more than it keeps and no view lets its toplevel go with
barriers queued, each handler wakes every client whose barrier it signals. -/
theorem run_answers (w : World) (depth : Nat) (es : List Event) (e : Event)
    (hfits : ∀ n, .holding n ∈ (run w depth (es ++ [e])).trace → n ≤ maxLoose)
    (hempty : ∀ v left, .unbinding v left ∈ (run w depth (es ++ [e])).trace → left = []) :
    Answers (run w depth es) (run w depth (es ++ [e])) := by
  rw [run_concat] at hfits hempty ⊢
  obtain ⟨hk, ho⟩ := run_owned w depth es
  exact (step_answers (run_sound w depth es).1 hk ho ⟨hfits, hempty⟩).2.2

/-- A toplevel is bound, and commits with a barrier; the shell shows the frame. -/
def shownRun : List Event :=
  [.newToplevel 1, .cmd (.viewCreated { uid := 0, id := 1 }), .commit { main := { surface := 1, barrier := some 7 } }]

theorem run_answers_shown : Answers (run World.granting 1 shownRun)
    (run World.granting 1 (shownRun ++ [.cmd (.presented 1 ⟨1, 0, 0, 0, 0⟩)])) := by
  have htrace : (run World.granting 1 (shownRun ++ [.cmd (.presented 1 ⟨1, 0, 0, 0, 0⟩)])).trace =
      [.mapped 1, .bound 1 1, .posted .bound 1, .submitted 1 1 1, .submitted 1 2 1, .signal ⟨7, 0⟩, .unblock 0] := by
    decide +kernel
  refine run_answers World.granting 1 shownRun _ ?_ ?_ <;> rw [htrace] <;> simp

/-! ## An overflow -/

/-- A commit of a surface no view shows, with a barrier. -/
def looseCommit (i : Nat) : Event := .commit { main := { surface := 1, barrier := some i } }

/-- Nothing but `n` barriers on the clock, which runs no later than at the next refresh. -/
structure Idle (s : State) (n : Nat) : Prop where
  surfaces : s.surfaces = fun _ => {}
  subsurfaces : s.subsurfaces = []
  connected : s.connected = fun _ => true
  clock : s.clock = {}
  tick : s.tick = some defaultRefreshNs
  length : s.loose.length = n
  feedback : (s.contents 1).feedback = []

variable {n : Nat}

theorem FrameClock.refresh_le_nextVblank {c : FrameClock} (hust : c.ustNs = 0) (hr : c.refreshNs ≤ u64Max) (t : Nat) :
    c.refreshNs ≤ c.nextVblank t := by
  have hperiod : c.refreshNs ≤ (t / c.refreshNs + 1) * c.refreshNs := Nat.le_mul_of_pos_left _ (Nat.succ_pos _)
  simp only [nextVblank, hust, Nat.not_lt_zero, ↓reduceIte, satAdd, satMul, Nat.sub_zero, Nat.zero_add]
  exact Nat.le_min.mpr ⟨Nat.le_min.mpr ⟨hperiod, hr⟩, hr⟩

theorem Idle.commit (h : Idle s n) (u : Unblock) (c : Commit) (hc : c.surface = 1) :
    s.commit w u false c = (s.applyContent w c).notShown w u 1 := by
  have hroot : (s.applyContent w c).rootOf 1 = 1 := by
    rw [(applyContent_links w s c).rootOf, rootOf, h.subsurfaces]
    rfl
  have hid : (s.applyContent w c).idOf = fun _ => none := by
    rw [(applyContent_links w s c).idOf]
    funext x
    rw [idOf, h.surfaces]
  have htop : toplevelCommit w u 1 (s.applyContent w c) = s.applyContent w c := by
    unfold toplevelCommit
    rw [hid]
  have hbound : (s.applyContent w c).boundViewOf 1 = none := by
    rw [boundViewOf, hid]
    rfl
  unfold State.commit
  simp only [Bool.false_eq_true, ↓reduceIte, hc, htop, hbound, hroot]

theorem Idle.notShown (h : Idle s n) (u : Unblock) (i : Nat) :
    ∃ (r : State) (dueNs : Nat), (s.applyContent w { surface := 1, barrier := some i }).notShown w u 1 =
        r.addLoose (w.client 1) [⟨i, w.client 1⟩] dueNs ∧
      r = { s with contents := r.contents, asked := r.asked } ∧ (r.contents 1).feedback = [] := by
  obtain ⟨t, ht⟩ : ∃ t, s.applyContent w { surface := 1, barrier := some i } = t := ⟨_, rfl⟩
  have hrest : t = { s with contents := t.contents } := by
    rw [← ht]
    simp [applyContent, h.feedback]
  have hbarrier : (t.contents 1).barrier = some ⟨i, w.client 1⟩ ∧ (t.contents 1).feedback = [] := by
    rw [← ht]
    simp [applyContent]
  have htree : t.tree 1 = [1] := by
    rw [hrest, tree]
    change 1 :: (s.subsurfaces.map Prod.fst).filter _ = _
    rw [h.subsurfaces]
    rfl
  have htaken : t.takeTrees [1] = (⟨[], [⟨i, w.client 1⟩]⟩, t.visitTree 1 fun c => { c with feedback := [], barrier := none }) := by
    simp [takeTrees, takeTree, htree, hbarrier]
  have hclient : t.clientOf w 1 = some (w.client 1) := by
    rw [clientOf_eq_some, hrest]
    exact ⟨congrFun h.connected _, rfl⟩
  have hq : (t.visitTree 1 fun c => { c with feedback := [], barrier := none }).log [] =
      { s with contents := (t.visitTree 1 fun c => { c with feedback := [], barrier := none }).contents } := by
    rw [hrest]
    simp [visitTree, log]
  have hfeedback : ((t.visitTree 1 fun c => { c with feedback := [], barrier := none }).contents 1).feedback = [] := by
    simp [visitTree, htree]
  rw [ht]
  unfold State.notShown holdLoose admitLoose
  dsimp only
  rw [htaken, hclient]
  simp only [Taken.notShown, List.map_nil, List.isEmpty_cons, Bool.false_eq_true, ↓reduceIte]
  rw [hq]
  generalize (t.visitTree 1 fun c => { c with feedback := [], barrier := none }).contents = contents at hfeedback
  refine ⟨({ s with contents } : State).ask, s.clock.nextVblank (w.now s.asked), ?_, rfl, hfeedback⟩
  have htick : (({ s with contents } : State).ask.addLoose (w.client 1) [⟨i, w.client 1⟩]
      (s.clock.nextVblank (w.now s.asked))).tick = s.tick := by
    simp only [addLoose, log, ask]
  unfold scheduleTick
  rw [htick, h.tick, h.clock, if_pos]
  rw [Option.any_some, decide_eq_true_eq]
  exact FrameClock.refresh_le_nextVblank (c := {}) rfl (by decide) _

theorem addLoose_one (r : State) (b : Barrier) (c : ClientId) (dueNs : Nat) : r.addLoose c [b] dueNs = { r with
    loose := (r.loose ++ [(⟨b, c, dueNs⟩ : Loose)]).drop (r.loose.length + 1 - maxLoose)
    trace := r.trace ++ .holding (r.loose.length + 1) ::
      ((r.loose ++ [(⟨b, c, dueNs⟩ : Loose)]).take (r.loose.length + 1 - maxLoose)).map
        fun (l : Loose) => Effect.signal l.barrier } := by
  simp only [State.addLoose, log, List.map_cons, List.map_nil, List.length_append, List.length_singleton]

/-- One more barrier on the clock; past what it keeps, the oldest is signaled. -/
theorem Idle.step (h : Idle s n) (i : Nat) : ∃ contents asked, ∃ l : Loose,
    step w 1 s (looseCommit i) = { s with
      contents := contents, asked := asked
      loose := (s.loose ++ [l]).drop (n + 1 - maxLoose)
      trace := s.trace ++ .holding (n + 1) ::
        ((s.loose ++ [l]).take (n + 1 - maxLoose)).map fun (l : Loose) => Effect.signal l.barrier } ∧
    (contents 1).feedback = [] := by
  obtain ⟨r, dueNs, heq, hr, hfb⟩ := h.notShown (w := w) (unblock w 1) i
  refine ⟨r.contents, r.asked, ⟨⟨i, w.client 1⟩, w.client 1, dueNs⟩, ?_, hfb⟩
  have hcommit : IhsWl.step w 1 s (looseCommit i) = r.addLoose (w.client 1) [⟨i, w.client 1⟩] dueNs := by
    rw [← heq, ← h.commit (unblock w 1) _ rfl]
    have hc : s.committable w 1 = true := by rw [committable, h.surfaces, h.connected]; rfl
    unfold IhsWl.step looseCommit
    simp only [valid, handle, applyUpdate, List.foldl_nil, applyCommit, hc, ↓reduceIte, Bool.false_and]
  rw [hcommit, addLoose_one, hr, h.length]

theorem Idle.run (h : Idle s 1) (k : Nat) (hk : k + 1 ≤ maxLoose) :
    Idle (((List.range k).map looseCommit).foldl (IhsWl.step w 1) s) (k + 1) := by
  induction k with
  | zero => exact h
  | succ k ih =>
      have hi := ih (Nat.le_of_succ_le hk)
      rw [List.range_succ, List.map_append, List.foldl_append]
      obtain ⟨contents, asked, l, hstep, hfb⟩ := hi.step (w := w) k
      change Idle (IhsWl.step w 1 _ (looseCommit k)) (k + 1 + 1)
      rw [hstep, Nat.sub_eq_zero_of_le hk]
      refine ⟨hi.surfaces, hi.subsurfaces, hi.connected, hi.clock, hi.tick, ?_, hfb⟩
      simp [hi.length]

/-- One more than the clock keeps, and the oldest barrier is signaled: its client is not woken. -/
theorem Idle.overflow (h : Idle s maxLoose) (i : Nat) : ¬Answers s (IhsWl.step w 1 s (looseCommit i)) := by
  rintro ⟨es, he, hes⟩
  obtain ⟨contents, asked, l, hstep, -⟩ := h.step (w := w) i
  rw [hstep] at he hes
  have hlength := h.length
  cases hloose : s.loose with
  | nil => rw [hloose] at hlength; cases hlength
  | cons l' ls =>
      rw [hloose, Nat.add_sub_cancel_left] at he
      have htail := (List.append_cancel_left he).symm
      cases hes [.holding (maxLoose + 1)] l'.barrier [] htail (congrFun h.connected _)

/-- As many commits of one surface as the clock keeps barriers. -/
def fullRun : List Event := looseCommit 0 :: (List.range (maxLoose - 1)).map looseCommit

theorem fullRun_idle : Idle (run World.granting 1 fullRun) maxLoose := by
  have hsplit : run World.granting 1 fullRun =
      ((List.range (maxLoose - 1)).map looseCommit).foldl (IhsWl.step World.granting 1) (run World.granting 1 [looseCommit 0]) := by
    simp only [IhsWl.run, fullRun, List.foldl_cons, List.foldl_nil]
  have hfirst : Idle (run World.granting 1 [looseCommit 0]) 1 := by
    refine ⟨rfl, rfl, rfl, rfl, ?_, ?_, ?_⟩ <;> decide +kernel
  rw [hsplit]
  exact hfirst.run (maxLoose - 1) (by decide)

theorem not_answers : ¬∀ (w : World) (depth : Nat) (es : List Event) (e : Event),
    Answers (run w depth es) (run w depth (es ++ [e])) := by
  intro h
  have hall := h World.granting 1 fullRun (looseCommit 0)
  rw [run_concat] at hall
  exact fullRun_idle.overflow 0 hall

end IhsWl
