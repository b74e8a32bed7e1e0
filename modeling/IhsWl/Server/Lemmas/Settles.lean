import IhsWl.Server.Lemmas.Links

/-!
# Calls settle their debts

Every function that applying a commit runs is a run of moves, and leaves no more owed than its caller did
-- whatever unblocking a client does, as long as that does too.
-/

namespace IhsWl

variable {w : World} {s : State} {D E : Set Debt}

/-! ## Debts paid and taken -/

theorem Pace.settles {paid taken : Set Debt} {s' : State} (h : Pace w s paid taken s')
    (hsub : D \ paid ∪ taken ⊆ E) : Settles w s D s' E :=
  .one (.pace h) hsub

theorem union_armAt_none : D \ ∅ ∪ armAt none ⊆ D := by
  rintro d (⟨hd, -⟩ | ⟨b, hb, -⟩)
  · exact hd
  · cases hb

theorem union_armAt_some (dueNs : Nat) : D \ ∅ ∪ armAt (some dueNs) ⊆ insert (.arm dueNs) D := by
  rintro d (⟨hd, -⟩ | ⟨b, hb, rfl⟩)
  · exact Or.inr hd
  · cases hb; exact Or.inl rfl

theorem free_sub : D \ ∅ ∪ ∅ ⊆ D := by
  rintro d (⟨hd, -⟩ | hd)
  · exact hd
  · cases hd

theorem paid_sub {d : Debt} : insert d D \ {d} ∪ ∅ ⊆ D := by
  rintro x (⟨rfl | hx, hne⟩ | hx)
  · exact absurd rfl hne
  · exact hx
  · cases hx

theorem swap_sub {d d' : Debt} : insert d D \ {d} ∪ {d'} ⊆ insert d' D := by
  rintro x (⟨rfl | hx, hne⟩ | hx)
  · exact absurd rfl hne
  · exact Or.inr hx
  · exact Or.inl hx

/-- Paying what was not owed. -/
theorem paid_free {paid : Set Debt} : D \ paid ∪ ∅ ⊆ D := by
  rintro d (⟨hd, -⟩ | hd)
  · exact hd
  · cases hd

/-! ## The shell -/

namespace State

theorem clearView_quiet (v : ViewId) : Quiet s (s.clearView w v) := by
  unfold clearView
  split
  · exact .refl s
  · split
    · exact .refl s
    · split
      · refine Quiet.trans (Quiet.trans Quiet.ask (Quiet.modifyView v ?_)) (Quiet.log ?_)
        · exact fun _ => rfl
        · simp [Effect.quiet]
      · exact .ask

end State

theorem Holds.quiet_holdAll (h : Holds) (v : ViewId) (seq : Nat) (ls : List (Held × Release)) :
    ∀ x ∈ (h.holdAll v seq ls).2, x.quiet = true := by
  induction ls generalizing h with
  | nil => exact fun x hx => by cases hx
  | cons l ls ih =>
      intro x hx
      rcases List.mem_append.mp hx with hx | hx
      · obtain ⟨held, release⟩ := l
        cases release with
        | unfenced =>
            obtain ⟨u, -, rfl⟩ := List.mem_map.mp hx
            rfl
        | fenced => cases hx
        | unregistered => simp only [hold, holdFenced, Bool.false_eq_true, ↓reduceIte] at hx; cases hx with
          | head => rfl
          | tail _ h => cases h
      · exact ih _ x hx

namespace State

theorem holdLayers_quiet (v : ViewId) (seq : Nat) (ls : List (Held × Release)) :
    Quiet s (s.holdLayers v seq ls) := by
  unfold holdLayers
  split
  · exact .refl s
  · refine Quiet.trans (Quiet.modifyView v ?_) (Quiet.log (Holds.quiet_holdAll _ v seq ls))
    exact fun _ => rfl

theorem submitTree_quiet {v : ViewId} {roots : List WlSurface} {r : Option (Nat × List (Nat × Nat))}
    {s' : State} (h : s.submitTree w v roots = (r, s')) : Quiet s s' := by
  suffices hq : Quiet s (s.submitTree w v roots).2 by rw [h] at hq; exact hq
  unfold submitTree
  dsimp only
  split
  · exact Quiet.ask.trans (clearView_quiet v)
  · split
    · exact .ask
    · split
      · refine Quiet.trans (Quiet.trans (Quiet.trans Quiet.ask Quiet.ask) (holdLayers_quiet v _ _)) (Quiet.log ?_)
        simp [Effect.quiet]
      · exact Quiet.ask.trans .ask

end State

/-! ## The calls -/

/-- What unblocking does when it is called: it wakes the client, and leaves nothing owed. -/
def Wakes (w : World) (unblock : Unblock) : Prop :=
  ∀ c s D, Settles w s (insert (.wake c) D) (unblock c s) D

namespace State

variable {u : Unblock} (hu : Wakes w u)

include hu

theorem unblockAll_settles (clients : List ClientId) :
    Settles w s (wakes clients ∪ D) (s.unblockAll u clients) D := by
  have h := Debts.Settles.foldl (f := fun s c => u c s) Debt.wake (fun c (_ : c ∈ clients.eraseDups) => hu c) s D
  refine Debts.Settles.trans (.more ?_) h
  rintro d (⟨c, hc, rfl⟩ | hd)
  · exact Or.inl ⟨c, List.mem_eraseDups.mpr hc, rfl⟩
  · exact Or.inr hd

theorem woken_settles (released : Bool) (client : Option ClientId) :
    Settles w s (wakeIf released client ∪ D)
      (match released, client with
        | true, some c => u c s
        | _, _ => s) D := by
  have hnone : ¬(released = true ∧ ∃ c, client = some c) → wakeIf released client ∪ D ⊆ D := by
    rintro h d (⟨hr, c, hc, -⟩ | hd)
    · exact absurd ⟨hr, c, hc⟩ h
    · exact hd
  cases released with
  | false => exact .more (hnone (by simp))
  | true =>
      cases client with
      | none => exact .more (hnone (by simp))
      | some c =>
          refine Debts.Settles.trans (.more ?_) (hu c s D)
          rintro d (⟨-, c', hc, rfl⟩ | hd)
          · cases hc; exact Or.inl rfl
          · exact Or.inr hd

omit hu in
theorem flushCallbacks_settles (hk : ∃ k, w.timer k = false) (now : Nat) (v : ViewId) :
    Settles w s D (s.flushCallbacks w now v) D := by
  unfold flushCallbacks
  split
  · exact .refl
  · split
    · exact .refl
    · exact Pace.settles (.called s v now hk) paid_free

theorem releaseEverything_settles (hk : ∃ k, w.timer k = false) :
    Settles w s D (s.releaseEverything w u) D := by
  -- What is owed to the clients grows while their barriers are cleared, and is paid at the end.
  have hflush : ∀ (vs : List ViewId) (now : Nat) (s : State) (E : Set Debt),
      Settles w s E (vs.foldl (flushCallbacks w now) s) E := by
    intro vs now
    induction vs with
    | nil => exact fun _ _ => .refl
    | cons v vs ih => exact fun s E => (flushCallbacks_settles hk now v).trans (ih _ E)
  unfold releaseEverything
  dsimp only
  refine Debts.Settles.trans ?_ (unblockAll_settles hu _)
  refine Debts.Settles.trans ?_ (hflush _ _ _ _)
  refine Debts.Settles.trans ?_ (Pace.settles (.asked _) free_sub)
  refine Debts.Settles.trans ?_ (Pace.settles (.forgotten _ hk) free_sub)
  refine Debts.Settles.trans (Pace.settles (.looseReleased s hk) (Set.Subset.refl _)) ?_
  refine Debts.Settles.trans (Pace.settles (.timersReleased _ hk) (Set.Subset.refl _)) ?_
  refine Pace.settles (.framesReleased _ hk) ?_
  rintro d (⟨⟨hd | hd, -⟩ | hd, -⟩ | ⟨c, hc, rfl⟩)
  · exact Or.inr hd.1
  · obtain ⟨c, hc, rfl⟩ := hd
    exact Or.inl ⟨c, List.mem_append_left _ (List.mem_append_left _ hc), rfl⟩
  · cases hd
  · exact Or.inl ⟨c, List.mem_append_right _ hc, rfl⟩

theorem scheduleTick_settles_from (atNs : Nat) :
    Settles w s (armsFrom atNs ∪ D) (s.scheduleTick w u atNs) D := by
  have hpaid : (armsFrom atNs ∪ D) \ armsFrom atNs ∪ ∅ ⊆ D := by
    rintro x (⟨hx | hx, hne⟩ | hx)
    · exact absurd hx hne
    · exact hx
    · cases hx
  unfold scheduleTick
  split
  · rename_i h
    exact Pace.settles (.standing s atNs h) hpaid
  · rename_i h
    split
    · rename_i ht
      exact Pace.settles (.armed s atNs (by simpa using h) ht) hpaid
    · rename_i ht
      have hf : w.timer s.asked = false := by simpa using ht
      refine Debts.Settles.trans (Pace.settles (.failed s hf) (E := D) ?_) (releaseEverything_settles hu ⟨_, hf⟩)
      rintro x (⟨⟨b, hb, rfl⟩ | hx, hne⟩ | hx)
      · exact absurd ⟨b, Nat.zero_le _, rfl⟩ hne
      · exact hx
      · cases hx

theorem scheduleTick_settles (atNs : Nat) :
    Settles w s (insert (.arm atNs) D) (s.scheduleTick w u atNs) D := by
  refine Debts.Settles.trans (.more ?_) (scheduleTick_settles_from hu atNs)
  rintro d (rfl | hd)
  · exact Or.inl ⟨atNs, le_rfl, rfl⟩
  · exact Or.inr hd

theorem notShown_settles (root : WlSurface) : Settles w s D (s.notShown w u root) D := by
  unfold notShown holdLoose
  dsimp only
  split
  · rename_i s' ha
    exact Pace.settles (.unshown s root _ _ none s' rfl ha) union_armAt_none
  · rename_i dueNs s' ha
    exact Debts.Settles.trans (Pace.settles (.unshown s root _ _ (some dueNs) s' rfl ha) (union_armAt_some dueNs))
      (scheduleTick_settles hu dueNs)

theorem watchFrames_settles (v : ViewId) : Settles w s (insert (.watch v) D) (s.watchFrames w u v) D := by
  unfold watchFrames
  cases hv : s.view v with
  | none => exact Pace.settles (.unwatched s v (by simp [hv])) paid_sub
  | some e =>
      dsimp only
      split
      · rename_i hs
        cases hn : e.frames.nextStale false with
        | none => exact Pace.settles (.unwatched s v (by simp [hv, hs, hn])) paid_sub
        | some atNs =>
            refine Debts.Settles.trans (Pace.settles (.asked s) free_sub) ?_
            exact Debts.Settles.trans (Pace.settles (.watchedHidden s.ask v e _ hv hs) swap_sub) (scheduleTick_settles hu _)
      · rename_i hs
        have hs : e.suspended = false := by simpa using hs
        cases hn : e.frames.nextStale true with
        | none => exact Pace.settles (.unwatched s v (by simp [hv, hs, hn])) paid_sub
        | some atNs => exact Debts.Settles.trans (Pace.settles (.watchedShown s v e atNs hv hs hn) swap_sub) (scheduleTick_settles hu _)

theorem viewUnsubmitted_settles (v : ViewId) :
    Settles w s (insert (.offer v) D) (s.viewUnsubmitted w u v) D := by
  unfold viewUnsubmitted
  dsimp only
  refine Debts.Settles.trans (Pace.settles (.asked s) free_sub) ?_
  exact Debts.Settles.trans (Pace.settles (.listed s.ask v _) swap_sub) (scheduleTick_settles hu _)

theorem submitView_settles (v : ViewId) : Settles w s (insert (.offer v) D) (s.submitView w u v) D := by
  unfold submitView
  cases hr : s.viewRoot v with
  | none => exact Pace.settles (.unseen s v hr) paid_sub
  | some root =>
      obtain ⟨taken, s₁, ht⟩ : ∃ taken s₁, s.takeTrees (s.viewTrees v) = (taken, s₁) := ⟨_, _, rfl⟩
      have hlinks : SameLinks s s₁ := by have := takeTrees_links s (s.viewTrees v); rwa [ht] at this
      dsimp only
      rw [ht]
      dsimp only
      split
      · rename_i s₂ hsub
        have hq := submitTree_quiet hsub
        rw [(hlinks.trans hq.links).clientOf w]
        refine Debts.Settles.trans (F := insert (.offer v) D) ?_ (viewUnsubmitted_settles hu v)
        unfold holdLoose
        split
        · rename_i s' ha
          exact Pace.settles (.refused s v root taken s₁ s₂ none s' hr ht hq ha) union_armAt_none
        · rename_i dueNs s' ha
          exact Debts.Settles.trans (Pace.settles (.refused s v root taken s₁ s₂ (some dueNs) s' hr ht hq ha)
            (union_armAt_some dueNs)) (scheduleTick_settles hu dueNs)
      · rename_i seq shown s₂ hsub
        have hq := submitTree_quiet hsub
        obtain ⟨released, s₃, hp⟩ : ∃ released s₃, s₂.pushFrame w v seq shown taken = (released, s₃) :=
          ⟨_, _, rfl⟩
        have hm := Pace.pushed (w := w) s v root taken s₁ s₂ seq shown released s₃ hr ht hq hp
        refine Debts.Settles.trans (.one (.pace hm) (Set.Subset.refl _)) ?_
        rw [hp, hm.links.clientOf w]
        refine Debts.Settles.trans (F := insert (.watch v) D) ?_ (watchFrames_settles hu v)
        refine Debts.Settles.trans (.more ?_) (woken_settles hu released _)
        rintro d (⟨rfl | hd, hne⟩ | rfl | hd)
        · exact absurd rfl hne
        · exact Or.inr (Or.inr hd)
        · exact Or.inr (Or.inl rfl)
        · exact Or.inl hd

theorem tryBindView_settles (v : ViewId) : Settles w s (insert (.bind v) D) (s.tryBindView w u v) D := by
  unfold tryBindView
  cases hv : s.view v with
  | none => exact Pace.settles (.passed s v (by simp [hv])) paid_sub
  | some e =>
      dsimp only
      split
      · rename_i hb
        refine Pace.settles (.passed s v fun e' he' hn => ?_) paid_sub
        cases hv.symm.trans he'
        simp [hn] at hb
      · rename_i hb
        split
        · rename_i hp
          exact Pace.settles (.passed s v (by simp_all)) paid_sub
        · rename_i t hp
          have hm := Move.linked (w := w) s v e t hv (by simpa using hb) hp
          exact Debts.Settles.trans (.one hm swap_sub) (submitView_settles hu v)

theorem bindWaitingViews_settles :
    Settles w s ({d | ∃ t, d = .spare t} ∪ ({d | ∃ v ∈ s.waiting, d = .bind v} ∪ D)) (s.bindWaitingViews w u) D := by
  have h := Debts.Settles.foldl (f := tryBindView w u) Debt.bind
    (fun v (_ : v ∈ s.waiting) s D => tryBindView_settles hu v) s D
  refine Debts.Settles.trans (Pace.settles (.looked s) ?_) h
  rintro d (⟨hd | ⟨v, hv, rfl⟩ | hd, hne⟩ | ⟨v, hv, rfl⟩)
  · exact absurd hd hne
  · exact Or.inl ⟨v, hv, rfl⟩
  · exact Or.inr hd
  · exact Or.inl ⟨v, hv, rfl⟩

theorem toplevelCommit_settles (x : WlSurface) :
    Settles w s (insert (.route x) D) (s.toplevelCommit w u x) (insert (.route x) D) := by
  unfold toplevelCommit
  cases hid : s.idOf x with
  | none => exact .refl
  | some id =>
      dsimp only
      cases ht : s.toplevel id with
      | none => exact .refl
      | some t =>
          dsimp only
          split
          · exact .refl
          · rename_i hm
            have hmove := Move.mapped (w := w) s x id t hid ht (by simpa using hm)
            refine Debts.Settles.trans (.one hmove ?_) (bindWaitingViews_settles hu)
            rintro d (⟨hd, -⟩ | rfl | rfl)
            · exact Or.inr (Or.inr hd)
            · exact Or.inl ⟨id, rfl⟩
            · exact Or.inr (Or.inr (Or.inl rfl))

/-- A commit shown where its surface is routed, with whatever waited to be routed with it. -/
theorem commit_settles (c : Commit) :
    Settles w s (insert (.route c.surface) D) (s.commit w u false c) D := by
  unfold commit
  dsimp only
  refine Debts.Settles.trans (F := insert (.route c.surface) D) (Pace.settles (.applied s c) ?_) ?_
  · rintro d (⟨hd, -⟩ | rfl)
    · exact hd
    · exact Or.inl rfl
  rw [if_neg (by simp)]
  refine Debts.Settles.trans (toplevelCommit_settles hu c.surface) ?_
  cases hb : (toplevelCommit w u c.surface (s.applyContent w c)).boundViewOf c.surface with
  | none => exact Debts.Settles.trans (Pace.settles (.unrouted _ _ hb) paid_sub) (notShown_settles hu _)
  | some v => exact Debts.Settles.trans (Pace.settles (.routed _ _ v hb) swap_sub) (submitView_settles hu v)

/-- A synchronized commit is routed with the commit it waited for; another is shown by itself. -/
theorem applySynced_settles (main c : Commit) :
    Settles w s D (s.applyCommit w u main true c)
      (D ∪ {d | s.committable w main.surface = true ∧ d = .route main.surface}) := by
  have hmore : D ⊆ D ∪ {d | s.committable w main.surface = true ∧ d = .route main.surface} :=
    Set.subset_union_left
  unfold applyCommit
  split
  · rw [Bool.true_and]
    cases hs : s.isSync w main c with
    | false => exact Debts.Settles.trans (.more (Set.subset_insert _ D)) ((commit_settles hu c).trans (.more hmore))
    | true =>
        simp only [isSync, Bool.and_eq_true, bne_iff_ne, ne_eq, beq_iff_eq] at hs
        refine Debts.Settles.trans (Pace.settles (.applied s c) (Set.Subset.refl _)) ?_
        have hroot : (s.applyContent w c).rootOf c.surface = (s.applyContent w c).rootOf main.surface := by
          rw [(applyContent_links w s c).rootOf]
          exact hs.2
        refine Pace.settles (.joined _ c.surface main.surface hroot) ?_
        rintro d (⟨⟨hd, -⟩ | rfl, hne⟩ | rfl)
        · exact Or.inl hd
        · exact absurd rfl hne
        · exact Or.inr ⟨hs.1.1, rfl⟩
  · exact .more hmore

theorem applyMain_settles (main c : Commit) :
    Settles w s (D ∪ {d | s.committable w c.surface = true ∧ d = .route c.surface})
      (s.applyCommit w u main false c) D := by
  unfold applyCommit
  rw [Bool.false_and]
  split
  · refine Debts.Settles.trans (.more ?_) (commit_settles hu c)
    rintro d (hd | ⟨-, rfl⟩)
    · exact Or.inr hd
    · exact Or.inl rfl
  · rename_i hc
    refine .more ?_
    rintro d (hd | ⟨hm, -⟩)
    · exact hd
    · exact absurd hm hc

theorem applyUpdate_settles (up : Update) : Settles w s D (s.applyUpdate w u up) D := by
  let owed : Set Debt := {d | s.committable w up.main.surface = true ∧ d = .route up.main.surface}
  have hsynced : ∀ (cs : List Commit) (s' : State), SameDesk s s' →
      Settles w s' (D ∪ owed) (cs.foldl (applyCommit w u up.main true) s') (D ∪ owed) := by
    intro cs
    induction cs with
    | nil => exact fun _ _ => .refl
    | cons c cs ih =>
        intro s' hdesk
        have h := applySynced_settles hu (w := w) (s := s') (D := D ∪ owed) up.main c
        rw [hdesk.committable w, Set.union_assoc, Set.union_self] at h
        exact h.trans (ih _ (hdesk.trans h.desk))
  have hall := hsynced up.synced s (.refl s)
  have hmain := applyMain_settles hu (D := D) (s := up.synced.foldl (applyCommit w u up.main true) s)
    up.main up.main
  rw [hall.desk.committable w] at hmain
  exact .trans (.more Set.subset_union_left) (hall.trans hmain)

end State

/-- Updates applied one after another. -/
theorem State.applyAll_settles {u : Unblock} (hu : Wakes w u) (ups : List Update) :
    Settles w s D (ups.foldl (State.applyUpdate w u) s) D := by
  induction ups generalizing s with
  | nil => exact .refl
  | cons up ups ih => exact (State.applyUpdate_settles hu up).trans ih

/-- Unblocking wakes the client and leaves nothing owed, however deep it nests. -/
theorem unblock_wakes (w : World) (depth : Nat) : Wakes w (unblock w depth) := by
  induction depth with
  | zero => exact fun c s D => Pace.settles (.unblocked s c) paid_sub
  | succ depth ih =>
      intro c s D
      refine Debts.Settles.trans (Pace.settles (.unblocked s c) paid_sub) ?_
      exact Debts.Settles.trans (Pace.settles (.asked _) free_sub) (State.applyAll_settles ih _)

end IhsWl
