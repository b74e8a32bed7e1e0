import IhsWl.Widget
import Mathlib.Algebra.Ring.Nat
import Mathlib.Data.List.Induction

/-!
# A view that was created is disposed of

Whether `dispose` has the shell drop the view hangs on a flag that the end of the creation sets, so what decides is
whether a wait of the creation still ends after it.
-/

namespace IhsWl

namespace ToShell

/-- Neither a create nor a dispose. -/
def aside {α : Type} : ToShell α → Bool
  | .create .. => false
  | .dispose => false
  | _ => true

end ToShell

namespace ToplevelViewController

variable {α : Type} {c c' c'' : ToplevelViewController α} {call : ViewCall α}

/-! ## What the calls send -/

/-- Nothing happened to the view: neither a create nor a dispose was sent, and none answered. -/
structure Quiet (c c' : ToplevelViewController α) : Prop where
  created : c'.created = c.created
  ended : c.creation = .ended → c'.creation = .ended
  sent : ∃ ms, c'.sent = c.sent ++ ms ∧ ∀ m ∈ ms, m.aside = true

theorem Quiet.trans (h : Quiet c c') (h' : Quiet c' c'') : Quiet c c'' := by
  obtain ⟨ms, hsent, hms⟩ := h.sent
  obtain ⟨ms', hsent', hms'⟩ := h'.sent
  refine ⟨h'.created.trans h.created, fun hended => h'.ended (h.ended hended), ms ++ ms', ?_, ?_⟩
  · rw [hsent', hsent, List.append_assoc]
  · intro m hm
    rcases List.mem_append.mp hm with hm | hm
    · exact hms m hm
    · exact hms' m hm

theorem Quiet.of_eq (hcreated : c'.created = c.created) (hcreation : c'.creation = c.creation)
    (hsent : c'.sent = c.sent) : Quiet c c' :=
  ⟨hcreated, hcreation.trans, [], by simp [hsent], by simp⟩

theorem Quiet.refl (c : ToplevelViewController α) : Quiet c c := Quiet.of_eq rfl rfl rfl

theorem quiet_send (c : ToplevelViewController α) {m : ToShell α} (hm : m.aside = true) : Quiet c (c.send m) :=
  ⟨rfl, id, [m], rfl, by simpa using hm⟩

theorem quiet_sendSize [Mul α] [BEq α] (c : ToplevelViewController α) : Quiet c c.sendSize := by
  unfold sendSize
  split
  · split
    · exact ⟨rfl, id, [_], rfl, by simp [ToShell.aside]⟩
    · exact Quiet.refl c
  · exact Quiet.refl c

theorem quiet_create (c : ToplevelViewController α) (size : Option (Size α)) : Quiet c (c.create size) := by
  unfold create
  split
  · rename_i hnone
    exact ⟨rfl, by simp [hnone], [], by simp, by simp⟩
  · exact Quiet.refl c

theorem quiet_drawnAt [Mul α] [BEq α] (c : ToplevelViewController α) (scale : Offset α) : Quiet c (c.drawnAt scale) := by
  have hmeasured : Quiet c { c with measured := true } := Quiet.of_eq rfl rfl rfl
  have hscale : Quiet c { c with measured := true, scale := scale } := Quiet.of_eq rfl rfl rfl
  unfold drawnAt
  dsimp only
  split
  · exact hmeasured
  · split
    · exact (hscale.trans (quiet_send _ rfl)).trans (quiet_sendSize _)
    · exact hscale.trans (quiet_sendSize _)

/-- What a call has sent: a dispose if the view was created, a create when the scale is known; and that the view was
created. -/
structure Sends (c : ToplevelViewController α) (call : ViewCall α) (c' : ToplevelViewController α) : Prop where
  created : c'.created = true ↔ c.created = true ∨ call = .replied true ∧ c.goesOn call = true
  sent : ∃ ms, c'.sent = c.sent ++ ms ∧ (.dispose ∈ ms ↔ call = .dispose ∧ c.created = true) ∧
    ((∃ w h, .create w h ∈ ms) ↔ call = .measured ∧ c.goesOn call = true)
  ended : (c.created = true → c.creation = .ended) → c'.created = true → c'.creation = .ended

/-- A call with which no wait ends, and that is no dispose, sends neither. -/
theorem Quiet.sends (h : Quiet c c') (hgoes : c.goesOn call = false) (hcall : call ≠ .dispose) : Sends c call c' := by
  obtain ⟨ms, hsent, hms⟩ := h.sent
  refine ⟨by simp [h.created, hgoes], ⟨ms, hsent, ?_, ?_⟩, fun hended hc => h.ended (hended (h.created ▸ hc))⟩
  · simp only [hcall, false_and, iff_false]
    exact fun hmem => Bool.false_ne_true (hms _ hmem)
  · simp only [hgoes, Bool.false_eq_true, and_false, iff_false]
    rintro ⟨w, h, hmem⟩
    exact Bool.false_ne_true (hms _ hmem)

theorem dispose_sends [One α] (c : ToplevelViewController α) : Sends c .dispose c.dispose := by
  unfold dispose
  cases hcreated : c.created with
  | false => exact ⟨by simp [hcreated], ⟨[], by simp, by simp [hcreated], by simp⟩, by simp [hcreated]⟩
  | true =>
      refine ⟨by simp [send, hcreated], ⟨[.setViewScale ⟨1, 1⟩, .dispose], ?_, ?_, ?_⟩, ?_⟩
      · simp [send]
      · simp [hcreated]
      · simp
      · simp [send, hcreated]

theorem createMeasured_sends [Mul α] [Zero α] (c : ToplevelViewController α) : Sends c .measured c.createMeasured := by
  unfold createMeasured
  split
  · rename_i laidOut hcreation
    cases hmeasured : c.measured with
    | false =>
        rw [if_neg Bool.false_ne_true]
        exact (Quiet.refl c).sends (by simp [goesOn, hcreation, hmeasured]) (by simp)
    | true =>
        refine ⟨by simp [send], ⟨[_], rfl, by simp, by simp [goesOn, hcreation, hmeasured]⟩, fun hended hc => ?_⟩
        have hcontra := hended hc
        simp [hcreation] at hcontra
  · rename_i hcreation
    refine (Quiet.refl c).sends ?_ (by simp)
    simp only [goesOn]

/-- The view is there; nothing that follows happens to it. -/
theorem Quiet.sends_created {laidOut : Option (Size α)} (hcreation : c.creation = .creating laidOut)
    (h : Quiet { c with creation := .ended, created := true } c') : Sends c (.replied true) c' := by
  obtain ⟨ms, hsent, hms⟩ := h.sent
  refine ⟨by simp [h.created, goesOn, hcreation], ⟨ms, hsent, ?_, ?_⟩, fun _ _ => h.ended rfl⟩
  · simp only [reduceCtorEq, false_and, iff_false]
    exact fun hmem => Bool.false_ne_true (hms _ hmem)
  · simp only [reduceCtorEq, false_and, iff_false]
    rintro ⟨w, h, hmem⟩
    exact Bool.false_ne_true (hms _ hmem)

theorem createReplied_sends [Mul α] [BEq α] (c : ToplevelViewController α) (ok : Bool) :
    Sends c (.replied ok) (c.createReplied ok) := by
  unfold createReplied
  split
  · rename_i laidOut hcreation
    cases ok with
    | false => exact ⟨by simp, ⟨[], by simp, by simp, by simp⟩, by simp⟩
    | true =>
        apply Quiet.sends_created hcreation
        have hmessages := (quiet_send { c with creation := .ended, created := true } (m := .setViewScale c.scale) rfl).trans
          (quiet_send _ (m := .onCreated) rfl)
        dsimp only
        rw [if_pos rfl]
        refine Quiet.trans ?_ (quiet_sendSize _)
        exact hmessages.trans (Quiet.of_eq rfl rfl rfl)
  · rename_i hcreation
    refine (Quiet.refl c).sends ?_ (by simp)
    simp only [goesOn]

theorem step_sends [Mul α] [BEq α] [Zero α] [One α] (c : ToplevelViewController α) (call : ViewCall α) :
    Sends c call (c.step call) := by
  cases call with
  | create size => exact (quiet_create c size).sends rfl (by simp)
  | laidOut size =>
      have hlaid : Quiet c { c with laidOut := some size } := Quiet.of_eq rfl rfl rfl
      exact (hlaid.trans (quiet_sendSize _)).sends rfl (by simp)
  | drawnAt scale => exact (quiet_drawnAt c scale).sends rfl (by simp)
  | dispose => exact dispose_sends c
  | measured => exact createMeasured_sends c
  | replied ok => exact createReplied_sends c ok

/-! ## Runs -/

variable [Mul α] [BEq α] [Zero α] [One α] {scale : Option (Offset α)} {calls : List (ViewCall α)}

theorem run_concat (scale : Option (Offset α)) (calls : List (ViewCall α)) (call : ViewCall α) :
    run scale (calls ++ [call]) = (run scale calls).step call := by
  simp [run]

/-- The view is created at the end of the creation, and disposed of only then. -/
theorem run_over (scale : Option (Offset α)) (calls : List (ViewCall α)) :
    ((run scale calls).created = true → (run scale calls).creation = .ended) ∧
      (.dispose ∈ (run scale calls).sent → (run scale calls).created = true) := by
  induction calls using List.reverseRecOn with
  | nil => simp [run, new]
  | append_singleton calls call ih =>
      rw [run_concat]
      have hsends := step_sends (run scale calls) call
      obtain ⟨ms, hsent, hdispose, -⟩ := hsends.sent
      refine ⟨hsends.ended ih.1, fun hmem => hsends.created.mpr (Or.inl ?_)⟩
      rw [hsent, List.mem_append] at hmem
      rcases hmem with hmem | hmem
      · exact ih.2 hmem
      · exact (hdispose.mp hmem).2

/-- Once `dispose` was called a view that was created is disposed of, and none is created. -/
structure Disposes (scale : Option (Offset α)) (calls : List (ViewCall α)) : Prop where
  disposed : ∀ pre, pre <+: calls → .dispose ∈ pre → (run scale pre).created = true → .dispose ∈ (run scale pre).sent
  uncreated : ∀ pre mid, pre ++ mid <+: calls → .dispose ∈ pre →
    (run scale (pre ++ mid)).creates = (run scale pre).creates

theorem creates_step {c : ToplevelViewController α} {call : ViewCall α}
    (h : ¬(call = .measured ∧ c.goesOn call = true)) : (c.step call).creates = c.creates := by
  obtain ⟨ms, hsent, -, hcreate⟩ := (step_sends c call).sent
  have hnone : ms.filter ToShell.isCreate = [] := by
    rw [List.filter_eq_nil_iff]
    intro m hm
    cases m with
    | create w height => exact absurd (hcreate.mp ⟨w, height, hm⟩) h
    | resize | dispose | setViewScale | onCreated => simp [ToShell.isCreate]
  rw [creates, hsent, List.filter_append, hnone, List.append_nil, creates]

/-- A call that ends a wait for the scale sends a create. -/
theorem creates_measured {c : ToplevelViewController α} (h : c.goesOn .measured = true) :
    (c.step .measured).creates ≠ c.creates := by
  obtain ⟨ms, hsent, -, hcreate⟩ := (step_sends c .measured).sent
  obtain ⟨w, height, hmem⟩ := hcreate.mpr ⟨rfl, h⟩
  rw [creates, hsent, List.filter_append, creates]
  intro heq
  have hnone : ms.filter ToShell.isCreate = [] := by simpa using heq
  exact absurd rfl (List.filter_eq_nil_iff.mp hnone _ hmem)

/-- Once `dispose` was called and the view is disposed of, no wait of its creation ends. -/
theorem Disposes.ended {scale : Option (Offset α)} {calls : List (ViewCall α)} (h : Disposes scale calls)
    {pre post : List (ViewCall α)} {call : ViewCall α} (hsplit : calls = pre ++ call :: post) (hin : .dispose ∈ pre) :
    (run scale pre).goesOn call = false := by
  obtain ⟨hdisposed, huncreated⟩ := h
  subst hsplit
  by_contra hgoes
  rw [Bool.not_eq_false] at hgoes
  have hpre : pre ++ [call] <+: pre ++ call :: post := ⟨post, by simp⟩
  cases call with
  | measured =>
      have hsame := huncreated pre [.measured] hpre hin
      rw [run_concat] at hsame
      exact creates_measured hgoes hsame
  | replied ok =>
      obtain ⟨hcreation, rfl⟩ : (∃ laidOut, (run scale pre).creation = .creating laidOut) ∧ ok = true := by
        simp only [goesOn] at hgoes
        split at hgoes
        · exact ⟨⟨_, by assumption⟩, hgoes⟩
        · cases hgoes
      obtain ⟨laidOut, hcreation⟩ := hcreation
      have hsends := step_sends (run scale pre) (.replied true)
      obtain ⟨ms, hsent, hdispose, -⟩ := hsends.sent
      have hlast := hdisposed (pre ++ [.replied true]) hpre (List.mem_append_left _ hin)
        (by rw [run_concat]; exact hsends.created.mpr (Or.inr ⟨rfl, hgoes⟩))
      rw [run_concat, hsent, List.mem_append] at hlast
      rcases hlast with hbefore | hnow
      · have hended := (run_over scale pre).1 ((run_over scale pre).2 hbefore)
        simp [hcreation] at hended
      · exact absurd (hdispose.mp hnow).1 (by simp)
  | create | laidOut | drawnAt | dispose => simp [goesOn] at hgoes

section

variable {scale : Option (Offset α)} {calls pre mid : List (ViewCall α)}
  (hends : ∀ pre call post, calls = pre ++ call :: post → .dispose ∈ pre → (run scale pre).goesOn call = false)

include hends

/-- What was created is disposed of, if no wait ends after `dispose`. -/
theorem disposed_of_ended (hpre : pre <+: calls) (hin : .dispose ∈ pre) (hcreated : (run scale pre).created = true) :
    .dispose ∈ (run scale pre).sent := by
  induction pre using List.reverseRecOn with
  | nil => simp at hin
  | append_singleton pre call ih =>
      have hshorter : pre <+: calls := (List.prefix_append pre [call]).trans hpre
      obtain ⟨post, hsplit⟩ := hpre
      rw [List.append_assoc, List.singleton_append] at hsplit
      have hsends := step_sends (run scale pre) call
      obtain ⟨ms, hsent, hdispose, -⟩ := hsends.sent
      rw [run_concat] at hcreated ⊢
      rw [hsent, List.mem_append]
      rcases List.mem_append.mp hin with hin | hlast
      · have hstill := hends pre call post hsplit.symm hin
        rcases hsends.created.mp hcreated with hbefore | ⟨-, hgoes⟩
        · exact Or.inl (ih hshorter hin hbefore)
        · simp [hstill] at hgoes
      · obtain rfl := List.mem_singleton.mp hlast
        rcases hsends.created.mp hcreated with hbefore | ⟨hcall, -⟩
        · exact Or.inr (hdispose.mpr ⟨rfl, hbefore⟩)
        · cases hcall

/-- Nothing is created, if no wait ends after `dispose`. -/
theorem uncreated_of_ended (hpre : pre ++ mid <+: calls) (hin : .dispose ∈ pre) :
    (run scale (pre ++ mid)).creates = (run scale pre).creates := by
  induction mid using List.reverseRecOn with
  | nil => simp
  | append_singleton mid call ih =>
      have hshorter : pre ++ mid <+: calls := (by simp : pre ++ mid <+: pre ++ (mid ++ [call])).trans hpre
      obtain ⟨post, hsplit⟩ := hpre
      have hstill := hends (pre ++ mid) call post (by simp [← hsplit]) (List.mem_append_left _ hin)
      rw [← List.append_assoc, run_concat, creates_step (by simp [hstill])]
      exact ih hshorter

end

/-- A view is disposed of, and none created after, exactly when no wait of its creation ends after `dispose`. -/
theorem disposes_iff (scale : Option (Offset α)) (calls : List (ViewCall α)) :
    Disposes scale calls ↔ ∀ pre call post, calls = pre ++ call :: post → .dispose ∈ pre →
      (run scale pre).goesOn call = false := by
  constructor
  · exact fun h pre call post => h.ended
  · exact fun hends => ⟨fun pre hpre => disposed_of_ended hends hpre, fun pre mid hpre => uncreated_of_ended hends hpre⟩

/-- The widget is removed while the create is in flight: the view the shell then answers with is never disposed of. -/
theorem not_disposes : ¬∀ (scale : Option (Offset Nat)) (calls : List (ViewCall Nat)), Disposes scale calls := by
  intro h
  have hdisposed := (h (some ⟨1, 1⟩) [.create (some ⟨3, 2⟩), .measured, .dispose, .replied true]).disposed _ List.prefix_rfl
    (by decide) (by decide)
  revert hdisposed
  decide

end ToplevelViewController

end IhsWl
