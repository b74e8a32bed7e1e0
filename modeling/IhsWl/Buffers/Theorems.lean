import IhsWl.Buffers
import IhsWl.Lib.Runs

/-!
# No buffer id outlives its buffer

What the shell imported in a view it has is known under its key, so what the ids forget is imported nowhere. They
know a destroyed buffer again exactly when it is submitted again.
-/

namespace IhsWl

namespace BufferIds

@[simp] theorem byBuffer_idFor (ids : BufferIds) (key : BufferKey) (view : ViewId) (k : BufferKey) :
    (ids.idFor key view).2.byBuffer k = if k = key then
      some { ids.entryOf key with
        views := if view ∈ (ids.entryOf key).views then (ids.entryOf key).views else (ids.entryOf key).views ++ [view] }
    else ids.byBuffer k :=
  Function.update_apply ..

@[simp] theorem byBuffer_destroyed (ids : BufferIds) (key k : BufferKey) :
    (ids.destroyed key).2.byBuffer k = if k = key then none else ids.byBuffer k :=
  Function.update_apply ..

theorem entryOf_eq {ids : BufferIds} {key : BufferKey} {e : BufferEntry} (h : ids.byBuffer key = some e) :
    ids.entryOf key = e := by
  rw [entryOf, h]
  rfl

end BufferIds

namespace Imports

variable {maxLayers : Nat} {c : Imports}

/-- What the shell imported in a view it has, the ids know. -/
def Known (c : Imports) : Prop :=
  ∀ i ∈ c.imported, c.linked i.view = some true →
    ∃ e, c.ids.byBuffer i.key = some e ∧ e.id = i.id ∧ i.view ∈ e.views

/-- What the ids forgot, the shell was told to retire. -/
theorem Known.forgotten (h : Known c) (hnone : ∀ object ∈ c.gone, c.ids.byBuffer (.client object) = none) :
    c.Forgotten := by
  refine fun object hgone => ⟨hnone object hgone, fun i hi hkey hlinked => ?_⟩
  obtain ⟨e, he, -⟩ := h i hi hlinked
  rw [hkey, hnone object hgone] at he
  cases he

/-! ## Submissions -/

theorem Known.prepare (h : Known c) (v : ViewId) (key : BufferKey) : Known (c.prepare v key) := by
  intro i hi hlinked
  change ∃ e, (c.ids.idFor key v).2.byBuffer i.key = some e ∧ _
  rw [BufferIds.byBuffer_idFor]
  rcases List.mem_cons.mp hi with rfl | hi
  · refine ⟨_, if_pos rfl, rfl, ?_⟩
    dsimp only
    split
    · assumption
    · exact List.mem_append_right _ (List.mem_singleton.mpr rfl)
  · obtain ⟨e, he, hid, hview⟩ := h i hi hlinked
    split
    · rename_i hkey
      rw [hkey] at he
      rw [BufferIds.entryOf_eq he]
      refine ⟨_, rfl, hid, ?_⟩
      dsimp only
      split
      · exact hview
      · exact List.mem_append_left _ hview
    · exact ⟨e, he, hid, hview⟩

/-- The ids know what they knew, and what was prepared. -/
theorem byBuffer_foldl_prepare (v : ViewId) (keys : List BufferKey) (c : Imports) (k : BufferKey) :
    ((keys.foldl (prepare v) c).ids.byBuffer k).isSome ↔ (c.ids.byBuffer k).isSome ∨ k ∈ keys := by
  induction keys generalizing c with
  | nil => simp
  | cons key keys ih =>
      rw [List.foldl_cons, ih, List.mem_cons]
      change ((c.ids.idFor key v).2.byBuffer k).isSome ∨ _ ↔ _
      rw [BufferIds.byBuffer_idFor]
      split
      · rename_i hk
        simp [hk]
      · rename_i hk
        simp [hk]

theorem foldl_prepare_rest (v : ViewId) (keys : List BufferKey) (c : Imports) :
    (keys.foldl (prepare v) c).gone = c.gone ∧ (keys.foldl (prepare v) c).linked = c.linked := by
  induction keys generalizing c with
  | nil => exact ⟨rfl, rfl⟩
  | cons key keys ih => exact ih (c.prepare v key)

theorem Known.submitTree (h : Known c) (v : ViewId) (xs : List WlSurface) (failed : Option Nat) :
    Known (c.submitTree maxLayers v xs failed) := by
  unfold Imports.submitTree
  split
  · exact h
  · generalize c.prepared maxLayers xs failed = keys
    induction keys generalizing c with
    | nil => exact h
    | cons key keys ih => exact ih (h.prepare v key) (by assumption)

/-! ## The other steps -/

theorem Known.retireKey (h : Known c) (key : BufferKey) : Known (c.retireKey key) := by
  unfold Imports.retireKey
  cases he : c.ids.byBuffer key with
  | none =>
      rw [show c.ids.destroyed key = (none, (c.ids.destroyed key).2) by rw [← he]; rfl]
      exact h
  | some entry =>
      rw [show c.ids.destroyed key = (some entry, (c.ids.destroyed key).2) by rw [← he]; rfl]
      intro i hi hlinked
      obtain ⟨hi, hkept⟩ := List.mem_filter.mp hi
      obtain ⟨e, hentry, hid, hview⟩ := h i hi hlinked
      refine ⟨e, ?_, hid, hview⟩
      -- An import under the key itself was retired.
      rw [BufferIds.byBuffer_destroyed, if_neg]
      · exact hentry
      · intro hkey
        rw [hkey, he] at hentry
        cases hentry
        simp [hid, hview] at hkept
        exact hkept hlinked

theorem byBuffer_retireKey (c : Imports) (key k : BufferKey) :
    (c.retireKey key).ids.byBuffer k = if k = key then none else c.ids.byBuffer k := by
  unfold retireKey
  cases he : c.ids.byBuffer key with
  | none =>
      rw [show c.ids.destroyed key = (none, (c.ids.destroyed key).2) by rw [← he]; rfl]
      dsimp only
      split
      · rename_i hk
        rw [hk, he]
      · rfl
  | some entry =>
      rw [show c.ids.destroyed key = (some entry, (c.ids.destroyed key).2) by rw [← he]; rfl]
      exact BufferIds.byBuffer_destroyed ..

theorem retireKey_gone (c : Imports) (key : BufferKey) : (c.retireKey key).gone = c.gone := by
  unfold retireKey
  split <;> rfl

theorem Known.step (h : Known c) (op : ImportOp) : Known (c.step maxLayers op) := by
  cases op with
  | shows x key => exact h
  | submits v xs failed => exact h.submitTree v xs failed
  | retires key => exact h.retireKey key
  | destroys object => exact h.retireKey (.client object)
  | creates v =>
      intro i hi hlinked
      obtain ⟨hi, hne⟩ := List.mem_filter.mp hi
      have hne : i.view ≠ v := by simpa using hne
      change Function.update c.linked v (some true) i.view = some true at hlinked
      rw [Function.update_of_ne hne] at hlinked
      exact h i hi hlinked
  | unlinks v =>
      intro i hi hlinked
      change Function.update c.linked v _ i.view = some true at hlinked
      rw [Function.update_apply] at hlinked
      split at hlinked
      · cases hl : c.linked v <;> rw [hl] at hlinked <;> cases hlinked
      · exact h i hi hlinked
  | disposes v =>
      intro i hi hlinked
      change Function.update c.linked v none i.view = some true at hlinked
      rw [Function.update_apply] at hlinked
      split at hlinked
      · cases hlinked
      · rename_i hne
        obtain ⟨e, he, hid, hview⟩ := h i hi hlinked
        refine ⟨{ e with views := e.views.filter (· ≠ v) }, ?_, hid, List.mem_filter.mpr ⟨hview, by simpa using hne⟩⟩
        change (c.ids.byBuffer i.key).map _ = _
        rw [he]
        rfl

/-- The ids stay rid of destroyed buffers exactly when the step submits none. -/
theorem step_forgotten (hknown : Known c) (h : c.Forgotten) (op : ImportOp) :
    (c.step maxLayers op).Forgotten ↔ c.showsLiving maxLayers op = true := by
  have hnext : Known (c.step maxLayers op) := hknown.step op
  -- What forgets as many keys as before, and of the same buffers, goes on as before.
  have hkept {c' : Imports} (hc' : Known c') (hgone : c'.gone = c.gone)
      (hids : ∀ k, c.ids.byBuffer k = none → c'.ids.byBuffer k = none) : c'.Forgotten :=
    hc'.forgotten fun object hg => hids _ (h object (hgone ▸ hg)).1
  cases op with
  | shows x key => exact iff_of_true (hkept hnext rfl fun _ hk => hk) rfl
  | creates v => exact iff_of_true (hkept hnext rfl fun _ hk => hk) rfl
  | unlinks v => exact iff_of_true (hkept hnext rfl fun _ hk => hk) rfl
  | disposes v =>
      refine iff_of_true (hkept hnext rfl fun k hk => ?_) rfl
      change (c.ids.byBuffer k).map _ = none
      rw [hk]
      rfl
  | retires key =>
      refine iff_of_true (hkept hnext (retireKey_gone c key) fun k hk => ?_) rfl
      change (c.retireKey key).ids.byBuffer k = none
      rw [byBuffer_retireKey, hk, ite_self]
  | destroys object =>
      refine iff_of_true (hnext.forgotten fun object' hg => ?_) rfl
      change (c.retireKey (.client object)).ids.byBuffer (.client object') = none
      rw [byBuffer_retireKey]
      split
      · rfl
      · rename_i hne
        rcases List.mem_cons.mp hg with rfl | hg
        · exact absurd rfl hne
        · exact (h object' hg).1
  | submits v xs failed =>
      have hliving : c.showsLiving maxLayers (.submits v xs failed) = ((c.linked v).isNone ||
        (c.prepared maxLayers xs failed).all fun key => c.gone.all fun object => key != .client object) := rfl
      rw [hliving]
      change (c.submitTree maxLayers v xs failed).Forgotten ↔ _
      change Known (c.submitTree maxLayers v xs failed) at hnext
      unfold submitTree at hnext ⊢
      cases hv : (c.linked v).isNone with
      | true => exact iff_of_true h rfl
      | false =>
          rw [hv, if_neg Bool.false_ne_true] at hnext
          rw [if_neg Bool.false_ne_true, Bool.false_or]
          generalize c.prepared maxLayers xs failed = keys at hnext
          obtain ⟨hgone, -⟩ := foldl_prepare_rest v keys c
          rw [List.all_eq_true]
          constructor
          · intro hafter key hkey
            rw [List.all_eq_true]
            intro object hg
            rw [bne_iff_ne]
            rintro rfl
            have hsome := (byBuffer_foldl_prepare v keys c (.client object)).mpr (Or.inr hkey)
            rw [(hafter object (hgone ▸ hg)).1] at hsome
            cases hsome
          · intro hall
            refine hnext.forgotten fun object hg => ?_
            rw [hgone] at hg
            rw [← Option.not_isSome_iff_eq_none, byBuffer_foldl_prepare, not_or, (h object hg).1]
            refine ⟨Bool.false_ne_true, fun hmem => ?_⟩
            exact bne_iff_ne.mp (List.all_eq_true.mp (hall _ hmem) object hg) rfl

/-! ## Runs -/

/-- In every state of a run no id is left for a destroyed buffer, and none in a view the shell has, exactly when no
submission of the run shows one. -/
theorem run_forgotten (maxLayers : Nat) (ops : List ImportOp) :
    (∀ pre, pre <+: ops → (run maxLayers pre).Forgotten) ↔
      Runs.Meets (step maxLayers) (fun c op => c.showsLiving maxLayers op = true) {} ops := by
  have hknown (ops : List ImportOp) : Known (run maxLayers ops) :=
    Runs.keeps (P := Known) (fun _ op h => h.step op) ops fun _ hi => absurd hi List.not_mem_nil
  constructor
  · intro h
    refine Runs.meets_of_splits fun pre op post hsplit => ?_
    have hnext := h (pre ++ [op]) ⟨post, by simp [hsplit]⟩
    rw [run, List.foldl_append] at hnext
    exact (step_forgotten (hknown pre) (h pre ⟨op :: post, hsplit.symm⟩) op).mp hnext
  · rintro h pre ⟨post, rfl⟩
    have hboth : Known (run maxLayers pre) ∧ (run maxLayers pre).Forgotten := by
      refine h.left.keeps (P := fun c => Known c ∧ c.Forgotten) ?_ ⟨hknown [], fun _ hg => absurd hg List.not_mem_nil⟩
      exact fun c op hok h => ⟨h.1.step op, (step_forgotten h.1 h.2 op).mpr hok⟩
    exact hboth.2

/-- A surface's buffer is destroyed while it is shown, and the scene is submitted again. -/
def goneBufferRun : List ImportOp := [.creates 1, .shows 1 (some (.client 1)), .submits 1 [1] none, .destroys 1, .submits 1 [1] none]

/-- The buffer gets an id anew, after the only time it was retired. -/
theorem not_forgotten : ¬∀ (maxLayers : Nat) (ops : List ImportOp), (run maxLayers ops).Forgotten := by
  intro h
  have hnone := (h 16 goneBufferRun 1 (by decide)).1
  revert hnone
  decide

end Imports

end IhsWl
