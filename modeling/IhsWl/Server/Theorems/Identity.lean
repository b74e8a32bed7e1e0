import IhsWl.Server.Lemmas.Sound

/-!
# Toplevel identity

The id in a surface's data is given once and lives as long as the surface; entries live as long as the
toplevels. They agree until a surface gets a second toplevel.
-/

namespace IhsWl

open State

variable {w : World} {guard : State → Event → Prop} {s s' : State} {e : Event}

/-- Every entry is found from its surface, every toplevel that lives finds its entry, and no entry outlives
its toplevel. -/
structure Coherent (s : State) : Prop where
  identified : ∀ id te, s.toplevel id = some te → s.idOf te.surface = some id
  found : ∀ x, (s.surfaces x).hasToplevel = true →
    ∃ id te, s.idOf x = some id ∧ s.toplevel id = some te ∧ te.surface = x
  live : ∀ id te, s.toplevel id = some te → (s.surfaces te.surface).hasToplevel = true

/-- What lookups by id then do: a commit of a toplevel maps its entry, and destroying a toplevel removes its
entry and no other. -/
structure Tracked (w : World) (depth : Nat) (s : State) : Prop extends Coherent s where
  maps : ∀ up, s.committable w up.main.surface = true → (s.surfaces up.main.surface).hasToplevel = true →
    ∃ id te, (step w depth s (.commit up)).toplevel id = some te ∧ te.surface = up.main.surface ∧ te.mapped = true
  removes : ∀ x, (s.surfaces x).hasToplevel = true → ∀ id,
    ((step w depth s (.destroyToplevel x)).toplevel id).map ToplevelEntry.surface =
      ((s.toplevel id).map ToplevelEntry.surface).filter (· ≠ x)

/-- A surface that had a toplevel is given no other. -/
def State.firstToplevel (s : State) : Event → Bool
  | .newToplevel x => (s.idOf x).isNone
  | _ => true

/-! ## Acts -/

/-- Ids and what they name change when a toplevel is made. -/
theorem Act.ids (ha : Act w guard s s') :
    (s'.idOf = s.idOf ∧ s'.toplevels.nextId = s.toplevels.nextId) ∨
    ∃ x, guard s (.newToplevel x) ∧ s' = s.newToplevel x := by
  have hidOf := ha.idOf
  have hkept (hn : s'.toplevels.nextId = s.toplevels.nextId) :
      (s'.idOf = s.idOf ∧ s'.toplevels.nextId = s.toplevels.nextId) ∨
      ∃ x, guard s (.newToplevel x) ∧ s' = s.newToplevel x := by
    rcases hidOf with hid | ⟨x, rfl⟩
    · exact Or.inl ⟨hid, hn⟩
    · exact absurd hn (Nat.succ_ne_self _)
  cases ha with
  | same _ hl => exact hkept (by rw [hl.toplevels])
  | made x hx hr hg => exact Or.inr ⟨x, hg, rfl⟩
  | unlinked v es hes =>
      refine hkept ?_
      change (s.unlink v).toplevels.nextId = s.toplevels.nextId
      unfold unlink
      split
      · rfl
      · dsimp only
        split <;> rfl
  | _ => exact hkept rfl

/-- An entry stays, unless its toplevel is destroyed. -/
theorem Act.stays (ha : Act w guard s s') {id : ToplevelId} {te : ToplevelEntry} (h : s.toplevel id = some te) :
    (∃ te', s'.toplevel id = some te' ∧ te'.surface = te.surface) ∨
    ∃ s₀ x, guard s₀ (.destroyToplevel x) ∧ s.idOf x = some id := by
  have hmodify (t : ToplevelId) {f : ToplevelEntry → ToplevelEntry} (hf : ∀ te, (f te).surface = te.surface) :
      ∃ te', (s.modifyToplevel t f).toplevel id = some te' ∧ te'.surface = te.surface := by
    rw [toplevel_modifyToplevel]
    split
    · rename_i ht
      exact ⟨f te, by rw [← ht, h]; rfl, hf te⟩
    · exact ⟨te, h, rfl⟩
  cases ha with
  | same _ hl => exact Or.inl ⟨te, by rw [hl.toplevel]; exact h, rfl⟩
  | mapped x t _ _ _ _ =>
      refine Or.inl (hmodify t ?_)
      exact fun _ => rfl
  | linked v e t hv he hp =>
      refine Or.inl (hmodify t ?_)
      exact fun _ => rfl
  | tokenUsed t token hmem hi =>
      refine Or.inl (hmodify t ?_)
      exact fun _ => rfl
  | unlinked v es hes =>
      refine Or.inl ?_
      rw [toplevel_log, toplevel_unlink]
      split
      · exact ⟨{ te with view := none }, by rw [h]; rfl, rfl⟩
      · exact ⟨te, h, rfl⟩
  | made x hx hr hg =>
      rw [toplevel_newToplevel, if_neg]
      · exact Or.inl ⟨te, h, rfl⟩
      · rintro rfl
        exact absurd (Toplevels.le_nextId h) (Nat.not_succ_le_self _)
  | removed s₀ x t hid hs hg =>
      by_cases ht : id = t
      · exact Or.inr ⟨s₀, x, hg, ht ▸ hid⟩
      · refine Or.inl ⟨te, ?_, rfl⟩
        simp only [removeToplevel, State.toplevel, Toplevels.get_remove, if_neg ht]
        exact h
  | _ => exact Or.inl ⟨te, h, rfl⟩

/-- A surface's toplevel lives until it is destroyed and no entry is left under its id. -/
theorem Act.hasToplevel (ha : Act w guard s s') (y : WlSurface) :
    (s'.surfaces y).hasToplevel = (s.surfaces y).hasToplevel ∨ s' = s.newToplevel y ∨
    ((∀ id, s.idOf y = some id → s.toplevel id = none) ∧ s' = s.resetToplevel y) := by
  cases ha with
  | same _ hl => exact Or.inl (by rw [hl.surfaces])
  | unlinked v es hes => exact Or.inl (by rw [(letGo_desk s v es).surfaces])
  | made x hx hr hg =>
      by_cases hy : y = x
      · exact Or.inr (Or.inl (by rw [hy]))
      · exact Or.inl (by simp only [newToplevel, if_neg hy])
  | reset x hx =>
      by_cases hy : y = x
      · exact Or.inr (Or.inr (by rw [hy]; exact ⟨hx, rfl⟩))
      · exact Or.inl (by simp only [resetToplevel, if_neg hy])
  | parentSet | named | popupMade | untracked | subsurfaceMade | surfaceGone =>
      exact Or.inl (field_update Surface.hasToplevel (by rfl) y)
  | _ => exact Or.inl rfl

/-! ## While `e` is handled -/

/-- Only `e` is handled, and it makes no second toplevel. -/
def only (e : Event) (s : State) (e' : Event) : Prop := e' = e ∧ s.firstToplevel e' = true

/-- As `Coherent`, while `e` is handled: the toplevel it destroys may have lost its entry. -/
structure Tracking (e : Event) (s : State) : Prop where
  identified : ∀ id te, s.toplevel id = some te → s.idOf te.surface = some id
  found : ∀ x, (s.surfaces x).hasToplevel = true → e ≠ .destroyToplevel x →
    ∃ id te, s.idOf x = some id ∧ s.toplevel id = some te
  live : ∀ id te, s.toplevel id = some te → (s.surfaces te.surface).hasToplevel = true

theorem Coherent.tracking (h : Coherent s) (e : Event) : Tracking e s where
  identified := h.identified
  found x hx _ := by
    obtain ⟨id, te, hid, hte, -⟩ := h.found x hx
    exact ⟨id, te, hid, hte⟩
  live := h.live

namespace Tracking

theorem act (h : Tracking e s) (hsound : Sound s) (ha : Act w (only e) s s') : Tracking e s' := by
  have hids (y : WlSurface) (id : ToplevelId) (hy : s.idOf y = some id) : s'.idOf y = some id := by
    rcases ha.ids with ⟨hid, -⟩ | ⟨x, -, rfl⟩
    · rw [hid]; exact hy
    · exact idOf_newToplevel_kept hy
  -- What is made now is found under its new id, for its surface had none.
  have hmade {x : WlSurface} (hx : s' = s.newToplevel x) : s'.idOf x = some (s.toplevels.nextId + 1) := by
    rcases ha.ids with ⟨-, hn⟩ | ⟨x', hg, hx'⟩
    · rw [hx] at hn
      exact absurd hn (Nat.succ_ne_self _)
    · have htop := toplevel_newToplevel s x (s.toplevels.nextId + 1)
      rw [← hx, hx', toplevel_newToplevel, if_pos rfl, if_pos rfl, Option.some.injEq, ToplevelEntry.mk.injEq] at htop
      have hnone : s.idOf x = none := by
        rw [← htop.1]
        simpa [firstToplevel] using hg.2
      rw [hx, idOf_newToplevel, if_pos rfl, hnone]
      rfl
  refine ⟨fun id te' hte => ?_, fun y hy hne => ?_, fun id te' hte => ?_⟩
  · rcases ha.entry hte with ⟨te, hte₀, hfrom⟩ | ⟨rfl, x, hx, rfl⟩
    · rw [hfrom.surface]
      exact hids _ _ (h.identified id te hte₀)
    · exact hmade hx
  · rcases ha.hasToplevel y with hsame | hx | ⟨-, rfl⟩
    · obtain ⟨id, te, hid, hte⟩ := h.found y (hsame ▸ hy) hne
      rcases ha.stays hte with ⟨te', hte', -⟩ | ⟨s₀, x, ⟨rfl, -⟩, hx⟩
      · exact ⟨id, te', hids y id hid, hte'⟩
      · refine absurd ?_ hne
        rw [← hsound.own x id te hx hte, hsound.own y id te hid hte]
    · refine ⟨_, { surface := y }, hmade hx, ?_⟩
      rw [hx, toplevel_newToplevel, if_pos rfl]
    · simp [resetToplevel] at hy
  · rcases ha.entry hte with ⟨te, hte₀, hfrom⟩ | ⟨-, x, rfl, rfl⟩
    · rw [hfrom.surface]
      rcases ha.hasToplevel te.surface with hsame | rfl | ⟨hgone, -⟩
      · rw [hsame]; exact h.live id te hte₀
      · simp [newToplevel]
      · rw [hgone id (h.identified id te hte₀)] at hte₀
        cases hte₀
    · simp [newToplevel]

end Tracking

theorem Coherent.empty : Coherent {} := by
  constructor <;> simp [State.toplevel]

/-- Once its handler ran, nothing is left of a toplevel destroyed. -/
theorem destroyed_gone (w : World) (depth : Nat) (s : State) (x : WlSurface) :
    ((step w depth s (.destroyToplevel x)).surfaces x).hasToplevel = false := by
  unfold step
  split
  · simp [handle, resetToplevel]
  · rename_i hv
    simpa [valid] using hv

theorem step_coherent {depth : Nat} (hp : Paired s) (hsound : Sound s) (h : Coherent s)
    (hok : (!s.valid w e || s.firstToplevel e) = true) : Coherent (step w depth s e) := by
  cases hv : s.valid w e with
  | false =>
      unfold step
      rw [hv]
      exact h
  | true =>
      rw [hv, Bool.not_true, Bool.false_or] at hok
      have hdeeds : Deeds w (only e) s ∅ (step w depth s e) (unpaid s e) := step_deeds hp ⟨rfl, hok⟩
      obtain ⟨hsound', h'⟩ := hdeeds.invariant (P := fun s => Sound s ∧ Tracking e s)
        (fun hd h => ⟨h.1.act hd.act, h.2.act h.1 hd.act⟩) ⟨hsound, h.tracking e⟩
      refine ⟨h'.identified, fun x hx => ?_, h'.live⟩
      obtain ⟨id, te, hid, hte⟩ := h'.found x hx (by
        rintro rfl
        rw [destroyed_gone] at hx
        cases hx)
      exact ⟨id, te, hid, hte, hsound'.own x id te hid hte⟩

/-! ## Lookups -/

/-- Destroying a toplevel removes what is under its id. -/
theorem step_removes {depth : Nat} (hp : Paired s) (hsound : Sound s) (h : Coherent s) (x : WlSurface) (id : ToplevelId) :
    ((step w depth s (.destroyToplevel x)).toplevel id).map ToplevelEntry.surface =
      ((s.toplevel id).map ToplevelEntry.surface).filter (· ≠ x) := by
  have hcoherent : Coherent (step w depth s (.destroyToplevel x)) := step_coherent hp hsound h (by simp [firstToplevel])
  have hdeeds : Deeds w (only (.destroyToplevel x)) s ∅ (step w depth s (.destroyToplevel x)) _ := step_deeds hp ⟨rfl, rfl⟩
  have hgone := destroyed_gone w depth s x
  generalize step w depth s (.destroyToplevel x) = r at hcoherent hdeeds hgone
  -- Entries come from entries of the same surface, and those of other surfaces stay.
  have hall : Sound r ∧ (∀ te', r.toplevel id = some te' → ∃ te, s.toplevel id = some te ∧ te.surface = te'.surface) ∧
      ∀ te, s.toplevel id = some te → te.surface ≠ x → ∃ te', r.toplevel id = some te' ∧ te'.surface = te.surface := by
    refine hdeeds.invariant (P := fun r => Sound r ∧
      (∀ te', r.toplevel id = some te' → ∃ te, s.toplevel id = some te ∧ te.surface = te'.surface) ∧
      ∀ te, s.toplevel id = some te → te.surface ≠ x → ∃ te', r.toplevel id = some te' ∧ te'.surface = te.surface) ?_
      ⟨hsound, fun te' hte => ⟨te', hte, rfl⟩, fun te hte _ => ⟨te, hte, rfl⟩⟩
    rintro r paid taken r' hd ⟨hr, hfrom, hstays⟩
    refine ⟨hr.act hd.act, fun te' hte => ?_, fun te hte hne => ?_⟩
    · rcases hd.act.entry hte with ⟨te, hte₀, hbecomes⟩ | ⟨-, y, hy, -⟩
      · rw [hbecomes.surface]
        exact hfrom te hte₀
      · rcases hd.act.ids with ⟨-, hn⟩ | ⟨x', ⟨hx', -⟩, -⟩
        · rw [hy] at hn
          exact absurd hn (Nat.succ_ne_self _)
        · cases hx'
    · obtain ⟨te', hte', hsurface⟩ := hstays te hte hne
      rcases hd.act.stays hte' with ⟨te'', hte'', hsurface'⟩ | ⟨s₀, y, ⟨hy, -⟩, hid⟩
      · exact ⟨te'', hte'', hsurface'.trans hsurface⟩
      · cases hy
        exact absurd (hsurface.symm.trans (hr.own x id te' hid hte')) hne
  obtain ⟨-, hfrom, hstays⟩ := hall
  cases hte' : r.toplevel id with
  | some te' =>
      obtain ⟨te, hte, hsurface⟩ := hfrom te' hte'
      have hne : te.surface ≠ x := by
        rintro rfl
        rw [hsurface, hcoherent.live id te' hte'] at hgone
        cases hgone
      rw [hte, Option.map_some, Option.map_some, ← hsurface, Option.filter_some, if_pos (by simpa using hne)]
  | none =>
      cases hte : s.toplevel id with
      | none => rfl
      | some te =>
          have heq : te.surface = x := by
            by_contra hne
            obtain ⟨te', hr, -⟩ := hstays te hte hne
            rw [hte'] at hr
            cases hr
          rw [Option.map_some, heq, Option.filter_some, if_neg (by simp)]
          rfl

theorem step_maps {depth : Nat} (h : Coherent s) {up : Update} (hc : s.committable w up.main.surface = true)
    (hx : (s.surfaces up.main.surface).hasToplevel = true) :
    ∃ id te, (step w depth s (.commit up)).toplevel id = some te ∧ te.surface = up.main.surface ∧ te.mapped = true := by
  obtain ⟨id, te, hid, hte, hsurface⟩ := h.found _ hx
  have hu := unblock_wakes w depth
  have hstep : step w depth s (.commit up) = s.applyUpdate w (unblock w depth) up := rfl
  obtain ⟨te', hte', hl⟩ := (applyUpdate_settles hu up (D := ∅)).later.entry hte
  have hm := applyUpdate_maps hu hc hid hte
  rw [hte'] at hm
  rw [hstep]
  exact ⟨id, te', hte', hl.surface.trans hsurface, hm⟩

theorem Coherent.tracked (h : Coherent s) (hp : Paired s) (hsound : Sound s) (depth : Nat) : Tracked w depth s where
  toCoherent := h
  maps _ hc hx := step_maps h hc hx
  removes x _ id := step_removes hp hsound h x id

/-! ## Runs -/

/-- A second toplevel of a surface is not found from it. -/
theorem not_coherent_remade {depth : Nat} {x : WlSurface} (hsound : Sound s) (hv : s.valid w (.newToplevel x) = true)
    (hid : (s.idOf x).isNone = false) : ¬Coherent (step w depth s (.newToplevel x)) := by
  intro h
  have hstep : step w depth s (.newToplevel x) = s.newToplevel x := by
    unfold step
    rw [if_pos hv]
    rfl
  rw [hstep] at h
  cases hold : s.idOf x with
  | none => rw [hold] at hid; cases hid
  | some id =>
      have hnew := h.identified (s.toplevels.nextId + 1) { surface := x } (by rw [toplevel_newToplevel, if_pos rfl])
      rw [idOf_newToplevel_kept hold] at hnew
      cases hnew
      exact absurd (hsound.bounded x _ hold) (Nat.not_succ_le_self _)

/-- Toplevels and entries agree in every state of a run exactly when no surface gets a second toplevel in it. -/
theorem run_tracked (w : World) (depth : Nat) (es : List Event) :
    (∀ pre, pre <+: es → Tracked w depth (run w depth pre)) ↔
    Runs.Meets (step w depth) (fun s e => (!s.valid w e || s.firstToplevel e) = true) {} es := by
  constructor
  · intro h
    refine Runs.meets_of_splits fun pre e post hsplit => ?_
    have hnext := (h (pre ++ [e]) ⟨post, by simp [hsplit]⟩).toCoherent
    rw [run_concat] at hnext
    change (!(run w depth pre).valid w e || (run w depth pre).firstToplevel e) = true
    cases e with
    | newToplevel x =>
        by_contra hbad
        simp only [firstToplevel, Bool.not_eq_true, Bool.or_eq_false_iff, Bool.not_eq_false'] at hbad
        exact not_coherent_remade (run_sound w depth pre).2 hbad.1 hbad.2 hnext
    | _ => simp [firstToplevel]
  · rintro h pre ⟨post, rfl⟩
    obtain ⟨hp, hsound⟩ := run_sound w depth pre
    refine Coherent.tracked ?_ hp hsound depth
    have hall : Paired (run w depth pre) ∧ Sound (run w depth pre) ∧ Coherent (run w depth pre) := by
      refine h.left.keeps (P := fun s => Paired s ∧ Sound s ∧ Coherent s) ?_ ⟨paired_empty, .empty, .empty⟩
      rintro s e hok ⟨hp, hs, hc⟩
      have hdeeds : Deeds w (fun _ _ => True) s ∅ (step w depth s e) (unpaid s e) := step_deeds hp trivial
      have hkept : Paired (step w depth s e) ∧ Sound (step w depth s e) :=
        hdeeds.invariant (P := fun s => Paired s ∧ Sound s) (fun hd h => ⟨h.1.act hd.act, h.2.act hd.act⟩) ⟨hp, hs⟩
      exact ⟨hkept.1, hkept.2, step_coherent hp hs hc hok⟩
    exact hall.2.2

/-- A surface's toplevel is destroyed, and it gets another. -/
def remadeRun : List Event := [.newToplevel 1, .destroyToplevel 1, .newToplevel 1]

/-- The second toplevel's entry is under an id its surface does not have. -/
theorem not_tracked : ¬∀ (w : World) (depth : Nat) (es : List Event), Tracked w depth (run w depth es) := by
  intro h
  have hid := (h World.granting 1 remadeRun).identified 2
    (((run World.granting 1 remadeRun).toplevel 2).get (by decide +kernel)) (Option.some_get _).symm
  revert hid
  decide +kernel

end IhsWl
