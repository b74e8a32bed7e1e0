import IhsWl.Seat.Lemmas.Acts
import IhsWl.Server.Lemmas.Owned
import IhsWl.Server.Lemmas.Wider

/-!
# Scanout feedback follows the scenes

A surface is told the feedback it would be given if it asked now. What has a tranche is in the scene of the view it
is recorded for, unless a client takes it out of there without the view being unbound.
-/

namespace IhsWl

open State

variable {w : SeatWorld} {s s' : State} {c c' c'' : Seat} {frees : Frees} {x : WlSurface} {v : ViewId}

namespace Seat

/-! ## Hints -/

/-- Each surface is told what its one record says, and is shown by the view it is recorded for. -/
structure Follows (w : SeatWorld) (c : Seat) : Prop where
  once : (c.scanout.hinted.map Hinted.surface).Nodup
  told : ∀ x, (c.state.surfaces x).alive = true →
    (c.scanout.set x <|> w.caps.defaultFeedback) = (c.scanout.hintedFeedback c.state x <|> w.caps.defaultFeedback)
  shown : ∀ h ∈ c.scanout.hinted, h.surface ∈ c.state.scene h.view

/-- What every step keeps besides. Without default feedback there are no hints. -/
structure Tuned (w : SeatWorld) (c : Seat) : Prop extends Follows w c where
  paired : Paired c.state
  well : Well c.state
  unhinted : w.caps.defaultFeedback = none → c.scanout.hinted = []

theorem find?_congr {α : Type} {p q : α → Bool} {as : List α} (h : ∀ a ∈ as, p a = q a) : as.find? p = as.find? q := by
  rw [← List.head?_filter, ← List.head?_filter, List.filter_congr h]

theorem hintedFeedback_eq (c : Scanout) (halive : (s.surfaces x).alive = true) :
    c.hintedFeedback s x = (c.hinted.find? fun h => h.surface == x).map Hinted.feedback := by
  rw [Scanout.hintedFeedback]
  refine congrArg _ (find?_congr fun h _ => ?_)
  cases hx : h.surface == x with
  | false => rw [Bool.and_false]
  | true => rw [eq_of_beq hx, halive, Bool.true_and]

theorem forgetScanout_hinted (ht : Tuned w c) (v : ViewId) :
    (c.scanout.forgetScanout w.caps c.state v).hinted = c.scanout.hinted.filter fun h => h.view != v := by
  unfold Scanout.forgetScanout
  split
  · rename_i hnone
    rw [ht.unhinted hnone, List.filter_nil]
  · rfl

/-- Who had a tranche for the view has the default again. -/
theorem told_forgetScanout (ht : Tuned w c) (halive : (c.state.surfaces x).alive = true) :
    ((c.scanout.forgetScanout w.caps c.state v).set x <|> w.caps.defaultFeedback) =
      ((c.scanout.forgetScanout w.caps c.state v).hintedFeedback c.state x <|> w.caps.defaultFeedback) := by
  have htold := ht.told x halive
  rw [hintedFeedback_eq _ halive] at htold ⊢
  unfold Scanout.forgetScanout
  split
  · exact htold
  · rename_i default hdefault
    dsimp only
    split
    · rename_i hx
      obtain ⟨-, h, hmem, hview, hsurface⟩ := hx
      -- Its only entry went.
      have hnone : (c.scanout.hinted.filter fun h => h.view != v).find? (fun h => h.surface == x) = none := by
        rw [List.find?_eq_none]
        intro h' hmem' hsurface'
        obtain ⟨hmem', hview'⟩ := List.mem_filter.mp hmem'
        rw [List.inj_on_of_nodup_map ht.once hmem' hmem ((eq_of_beq hsurface').trans hsurface.symm), hview] at hview'
        simp at hview'
      rw [hnone, hdefault]
      rfl
    · rename_i hx
      have hsame : (c.scanout.hinted.filter fun h => h.view != v).find? (fun h => h.surface == x) =
          c.scanout.hinted.find? fun h => h.surface == x := by
        rw [List.find?_filter]
        refine find?_congr fun h hmem => ?_
        cases hsurface : h.surface == x with
        | false => simp
        | true =>
            have hview : h.view ≠ v := fun hv => hx ⟨halive, h, hmem, hv, eq_of_beq hsurface⟩
            simpa using hview
      rw [hsame, htold]

theorem scanoutFeedback_kept (caps : Caps) (main dev : Nat) (formats : List FormatModifier) (c : Scanout) :
    (c.scanoutFeedback caps main dev formats).2.hinted = c.hinted := by
  unfold Scanout.scanoutFeedback
  split <;> rfl

section

variable {caps : Caps} {main : Nat} {default : DmabufFeedback} {hint : Hint}

/-- The records but that of `x`, and the new one of it if the hint comes to anything. -/
theorem hintSurface_hinted (sc : Scanout) : (sc.hintSurface caps s main default v hint x).hinted =
    (sc.hinted.filter fun h => (s.surfaces h.surface).alive && h.surface != x) ++
      ((sc.scanoutFeedback caps main hint.dev hint.formats).1.map fun feedback => ⟨x, v, feedback⟩).toList := by
  rw [Scanout.hintSurface, scanoutFeedback_kept]

theorem mem_hint {o : Option DmabufFeedback} {h : Hinted} (hmem : h ∈ (o.map fun feedback => (⟨x, v, feedback⟩ : Hinted)).toList) :
    h.surface = x ∧ h.view = v := by
  rw [Option.mem_toList, Option.map_eq_some_iff] at hmem
  obtain ⟨f, -, rfl⟩ := hmem
  exact ⟨rfl, rfl⟩

/-- The surface of the hint is told what is recorded of it. -/
theorem told_hintSurface_self (sc : Scanout) (halive : (s.surfaces x).alive = true) :
    ((sc.hintSurface caps s main default v hint x).set x <|> some default) =
      ((sc.hintSurface caps s main default v hint x).hintedFeedback s x <|> some default) := by
  have hnone : sc.hinted.find? (fun h => decide (((s.surfaces h.surface).alive && h.surface != x) = true ∧
      (h.surface == x) = true)) = none := by
    rw [List.find?_eq_none]
    intro h _
    simp
  rw [hintedFeedback_eq _ halive, hintSurface_hinted, List.find?_append, List.find?_filter, hnone, Option.none_or]
  simp only [Scanout.hintSurface, if_pos]
  cases (sc.scanoutFeedback caps main hint.dev hint.formats).1 with
  | none => simp
  | some f => simp

theorem hintedFeedback_hintSurface (sc : Scanout) {y : WlSurface} (halive : (s.surfaces y).alive = true) (hy : y ≠ x) :
    (sc.hintSurface caps s main default v hint x).hintedFeedback s y = sc.hintedFeedback s y := by
  have hsame : sc.hinted.find? (fun h => decide (((s.surfaces h.surface).alive && h.surface != x) = true ∧
      (h.surface == y) = true)) = sc.hinted.find? fun h => h.surface == y := by
    refine find?_congr fun h _ => ?_
    by_cases hsurface : h.surface = y
    · simp [hsurface, halive, hy]
    · simp [hsurface]
  have hnone : ((sc.scanoutFeedback caps main hint.dev hint.formats).1.map fun feedback =>
      (⟨x, v, feedback⟩ : Hinted)).toList.find? (fun h => h.surface == y) = none := by
    rw [List.find?_eq_none]
    intro h hmem hsurface
    exact hy ((eq_of_beq hsurface).symm.trans (mem_hint hmem).1)
  rw [hintedFeedback_eq _ halive, hintedFeedback_eq _ halive, hintSurface_hinted, List.find?_append, List.find?_filter, hsame,
    hnone, Option.or_none]

end

/-- The surface a hint is for gets what it asked for, or the default. -/
theorem hintSurface_tuned (ht : Tuned w c) {main : Nat} {default : DmabufFeedback} (hdefault : w.caps.defaultFeedback = some default)
    (hint : Hint) (hx : x ∈ c.state.scene v) :
    Tuned w { c with scanout := c.scanout.hintSurface w.caps c.state main default v hint x } := by
  refine { once := ?_, told := fun y halive => ?_, shown := fun h hmem => ?_, paired := ht.paired, well := ht.well,
           unhinted := fun hnone => ?_ }
  · dsimp only
    rw [hintSurface_hinted, List.map_append, List.nodup_append]
    refine ⟨ht.once.sublist (List.filter_sublist.map _), ?_, fun y hy z hz => ?_⟩
    · cases (c.scanout.scanoutFeedback w.caps main hint.dev hint.formats).1 <;> simp
    · obtain ⟨h, hmem, rfl⟩ := List.mem_map.mp hy
      obtain ⟨h', hmem', rfl⟩ := List.mem_map.mp hz
      rw [(mem_hint hmem').1]
      have hkeeps := (List.mem_filter.mp hmem).2
      rw [Bool.and_eq_true] at hkeeps
      exact bne_iff_ne.mp hkeeps.2
  · dsimp only at halive ⊢
    by_cases hy : y = x
    · subst hy
      rw [hdefault]
      exact told_hintSurface_self c.scanout halive
    · have htold := ht.told y halive
      rw [hintedFeedback_hintSurface c.scanout halive hy]
      simp only [Scanout.hintSurface, if_neg hy]
      exact htold
  · dsimp only at hmem ⊢
    rw [hintSurface_hinted] at hmem
    rcases List.mem_append.mp hmem with hmem | hmem
    · exact ht.shown h (List.mem_of_mem_filter hmem)
    · rw [(mem_hint hmem).1, (mem_hint hmem).2]
      exact hx
  · rw [hdefault] at hnone
    cases hnone

theorem scanoutHint_tuned (ht : Tuned w c) (layerId : WlSurface → Option Nat) (v : ViewId) (hint : Hint) :
    Tuned w { c with scanout := c.scanout.scanoutHint w.caps layerId c.state v hint } := by
  unfold Scanout.scanoutHint
  split
  · exact ht
  · split
    · rename_i main default hmain hdefault
      split
      · exact ht
      · rename_i x hx
        exact hintSurface_tuned ht hdefault hint (List.mem_of_find?_eq_some hx)
    · exact ht

/-! ## What a step leaves -/

/-- Whoever makes the links what they are. -/
abbrev Moves (w : SeatWorld) : State → State → Prop := Acts w.toWorld fun _ _ => True

/-- A surface keeps its tranche until its view is unbound. -/
def Kept (c c' : Seat) : Prop := ∃ es, c'.state.trace = c.state.trace ++ es ∧
  ∀ h ∈ c.scanout.hinted, h ∈ c'.scanout.hinted ∨ ∃ t, .unbound h.view t ∈ es

/-- Feedback is left in step with the scenes. -/
def Turns (w : SeatWorld) (c c' : Seat) : Prop := Tuned w c → Tuned w c' ∧ Kept c c'

theorem Moves.alive (h : Moves w s s') (halive : (s'.surfaces x).alive = true) : (s.surfaces x).alive = true := by
  induction h with
  | refl => exact halive
  | tail _ ha ih => exact ih (ha.alive halive)

theorem Moves.grows (h : Moves w s s') : Logs (fun _ => True) s s' := by
  induction h with
  | refl => exact .none rfl
  | tail _ ha ih => exact ih.trans ha.grows

theorem Moves.well (h : Moves w s s') (hs : Paired s ∧ Well s) : Paired s' ∧ Well s' :=
  h.keeps (fun _ hwell ha => hwell.act ha) hs

namespace Turns

theorem refl (w : SeatWorld) (c : Seat) : Turns w c c :=
  fun ht => ⟨ht, [], by simp, fun _ hmem => Or.inl hmem⟩

theorem trans (h : Turns w c c') (h' : Turns w c' c'') : Turns w c c'' := by
  intro ht
  obtain ⟨ht', es, htrace, hkept⟩ := h ht
  obtain ⟨ht'', es', htrace', hkept'⟩ := h' ht'
  refine ⟨ht'', es ++ es', by rw [htrace', htrace, List.append_assoc], fun e hmem => ?_⟩
  rcases hkept e hmem with hmem | ⟨t, hunbound⟩
  · exact (hkept' e hmem).imp_right (Exists.imp fun _ => List.mem_append_right _)
  · exact Or.inr ⟨t, List.mem_append_left _ hunbound⟩

/-- The hints stay, and what they are for stays where it was. -/
theorem of_scenes (hmoves : Moves w c.state c'.state) (hscanout : c'.scanout = c.scanout)
    (hscenes : Tuned w c → ∀ h ∈ c.scanout.hinted, h.surface ∈ c'.state.scene h.view) : Turns w c c' := by
  intro ht
  obtain ⟨es, htrace, -⟩ := hmoves.grows
  obtain ⟨hpaired, hwell⟩ := hmoves.well ⟨ht.paired, ht.well⟩
  refine ⟨?_, es, htrace, fun h hmem => Or.inl (by rw [hscanout]; exact hmem)⟩
  refine { once := by rw [hscanout]; exact ht.once, told := fun x halive => ?_, shown := fun h hmem => ?_,
           paired := hpaired, well := hwell, unhinted := by rw [hscanout]; exact ht.unhinted }
  · have htold := ht.told x (hmoves.alive halive)
    rw [hintedFeedback_eq _ (hmoves.alive halive)] at htold
    rw [hscanout, hintedFeedback_eq _ halive]
    exact htold
  · rw [hscanout] at hmem
    exact hscenes ht h hmem

theorem of_wider (hmoves : Moves w c.state c'.state) (hscanout : c'.scanout = c.scanout)
    (hwider : Tuned w c → Wider c.state c'.state)
    (hshows : ∀ v, (c.state.shows v).isSome = true → c'.state.shows v = c.state.shows v) : Turns w c c' := by
  refine of_scenes hmoves hscanout fun ht h hmem => ?_
  exact (hwider ht).scene ht.well (hmoves.well ⟨ht.paired, ht.well⟩).2 (hshows h.view) (ht.shown h hmem)

/-- Whatever is told of it. -/
theorem log (h : Turns w c c') {es : List Effect} (hmoves : Moves w c.state (c'.state.log es)) :
    Turns w c (c'.onState (State.log · es)) := by
  intro ht
  obtain ⟨ht', es', htrace, hkept⟩ := h ht
  obtain ⟨hpaired, hwell⟩ := hmoves.well ⟨ht.paired, ht.well⟩
  refine ⟨⟨⟨ht'.once, ht'.told, ht'.shown⟩, hpaired, hwell, ht'.unhinted⟩, es' ++ es, ?_, fun h hmem => ?_⟩
  · rw [onState_state, State.log, htrace, List.append_assoc]
  · exact (hkept h hmem).imp_right (Exists.imp fun _ => List.mem_append_left _)

end Turns

theorem Later.shows_kept (h : Later s s') (hv : (s.shows v).isSome = true) : s'.shows v = s.shows v := by
  obtain ⟨t, ht⟩ := Option.isSome_iff_exists.mp hv
  rw [ht, h.shows v t ht]

theorem Freed.turns (h : Freed w.toWorld (fun _ _ => True) c c') : Turns w c c' :=
  .of_wider h.acts h.scanout (fun _ => .of_later h.later) fun _ hv => Later.shows_kept h.later hv

theorem Tells.turns (h : Tells c c') : Turns w c c' := Freed.turns h.freed

theorem SameLinks.turns (h : SameLinks c.state c'.state) (hscanout : c'.scanout = c.scanout) : Turns w c c' :=
  Freed.turns ⟨h.acts, h.later, hscanout⟩

/-! ## Unbinding -/

theorem unlink_unbound {t : ToplevelId} (h : s.shows v = some t) :
    ∃ es, (s.unlink v).trace = s.trace ++ es ∧ .unbound v t ∈ es := by
  obtain ⟨e, hv, he⟩ := Option.bind_eq_some_iff.mp h
  refine ⟨(e.holds.clear v).2 ++ [.unbinding v e.frames.queuedBarriers, .unbound v t], ?_, by simp⟩
  unfold unlink
  rw [hv]
  dsimp only
  rw [he]
  exact List.append_assoc ..

section

variable (hf : ∀ c, Freed w.toWorld (fun _ _ => True) c (frees c))

include hf

theorem unbindView_hinted (ht : Tuned w c) (v : ViewId) :
    (c.unbindView w frees v).scanout.hinted = c.scanout.hinted.filter fun h => h.view != v := by
  obtain ⟨-, -, -, -, hscanout⟩ := unbindView_spec hf v c
  rw [hscanout, forgetScanout_hinted ht]

theorem unbindView_turns (v : ViewId) (c : Seat) : Turns w c (c.unbindView w frees v) := by
  intro ht
  obtain ⟨s, hacts, hlater, hstate, hscanout⟩ := unbindView_spec hf v c
  have hmoves : Moves w c.state (c.unbindView w frees v).state := unbindView_silent hf v c
  have hwell := Moves.well hacts ⟨ht.paired, ht.well⟩
  obtain ⟨hpaired', hwell'⟩ := hmoves.well ⟨ht.paired, ht.well⟩
  have hhinted := unbindView_hinted hf ht v
  refine ⟨?_, ?_⟩
  · refine { once := ?_, told := fun x halive => ?_, shown := fun h hmem => ?_, paired := hpaired', well := hwell',
             unhinted := fun hnone => ?_ }
    · rw [hhinted]
      exact ht.once.sublist (List.filter_sublist.map _)
    · have htold := told_forgetScanout (v := v) ht (hmoves.alive halive)
      rw [hintedFeedback_eq _ (hmoves.alive halive)] at htold
      rw [hintedFeedback_eq _ halive, hscanout]
      exact htold
    · rw [hhinted, List.mem_filter, bne_iff_ne] at hmem
      have hkept := (Wider.of_later hlater).scene ht.well hwell.2 (Later.shows_kept hlater) (ht.shown h hmem.1)
      rw [hstate] at hwell' ⊢
      exact (Wider.unlink s v).scene hwell.2 hwell' (fun _ => by rw [shows_unlink, if_neg hmem.2]) hkept
    · rw [hhinted, ht.unhinted hnone, List.filter_nil]
  · obtain ⟨es, htrace, -⟩ := Moves.grows hacts
    cases hshows : s.shows v with
    | none =>
        obtain ⟨es', htrace', -⟩ := hmoves.grows
        refine ⟨es', htrace', fun h hmem => Or.inl ?_⟩
        rw [hhinted, List.mem_filter, bne_iff_ne]
        refine ⟨hmem, ?_⟩
        -- A view with a hint shows a toplevel.
        rintro rfl
        have hsome := shows_of_mem_scene (ht.shown h hmem)
        rw [← Later.shows_kept hlater hsome, hshows] at hsome
        cases hsome
    | some t =>
        obtain ⟨es', htrace', hunbound⟩ := unlink_unbound hshows
        refine ⟨es ++ es', by rw [hstate, htrace', htrace, List.append_assoc], fun h hmem => ?_⟩
        by_cases hview : h.view = v
        · exact Or.inr ⟨t, List.mem_append_right _ (hview ▸ hunbound)⟩
        · exact Or.inl (by rw [hhinted, List.mem_filter, bne_iff_ne]; exact ⟨hmem, hview⟩)

theorem unbindToplevel_turns (id : ToplevelId) (c : Seat) : Turns w c (c.unbindToplevel w frees id) := by
  unfold unbindToplevel
  split
  · exact .refl w c
  · rename_i v _
    exact (unbindView_turns hf v c).log (unbindView_acts hf v c (by simp))

/-- What stays hinted once a toplevel is unbound was hinted in another view, and is still where it was there when
the toplevel goes. -/
theorem unbindToplevel_hinted (ht : Tuned w c) (id : ToplevelId) {h : Hinted}
    (hmem : h ∈ (c.unbindToplevel w frees id).scanout.hinted) : h ∈ c.scanout.hinted ∧ c.state.shownIn id ≠ some h.view ∧
      (h.surface ∈ (c.state.removeToplevel id).scene h.view →
        h.surface ∈ ((c.unbindToplevel w frees id).state.removeToplevel id).scene h.view) := by
  have hmoves : Moves w c.state (c.unbindToplevel w frees id).state := (unbindToplevel_acts hf ht.paired id).1
  have hwell := (hmoves.well ⟨ht.paired, ht.well⟩).2
  unfold unbindToplevel at hmem hwell ⊢
  cases hview : (c.state.toplevel id).bind ToplevelEntry.view with
  | none =>
      rw [hview] at hmem
      exact ⟨hmem, fun hshown => absurd (hview.symm.trans hshown) (by simp), fun hx => hx⟩
  | some v =>
      rw [hview] at hmem hwell
      dsimp only at hmem hwell ⊢
      obtain ⟨s, hacts, hlater, hstate, -⟩ := unbindView_spec hf v c
      have hwells := (Moves.well hacts ⟨ht.paired, ht.well⟩).2
      rw [onState_scanout, unbindView_hinted hf ht, List.mem_filter, bne_iff_ne] at hmem
      refine ⟨hmem.1, fun hshown => hmem.2 (Option.some.inj (hshown.symm.trans hview)), fun hx => ?_⟩
      rw [onState_state, hstate] at hwell ⊢
      have hshows : (c.state.shows h.view).isSome = true → s.shows h.view = c.state.shows h.view := Later.shows_kept hlater
      have hlate : h.surface ∈ (s.removeToplevel id).scene h.view :=
        ((Wider.of_later hlater).removeToplevel hlater.desk.idOf id).scene (ht.well.removeToplevel id) (hwells.removeToplevel id)
          hshows hx
      have hunlink := Wider.unlink s v
      have hunlinked : Wider s ((s.unlink v).log [.posted .closed v]) :=
        ⟨hunlink.above, hunlink.ids, hunlink.toplevels, hunlink.popups, hunlink.trees⟩
      exact (hunlinked.removeToplevel (unlink_desk s v).idOf id).scene (hwells.removeToplevel id) (hwell.removeToplevel id)
        (fun _ => (shows_unlink s v h.view).trans (if_neg hmem.2)) hlate

/-! ## What takes surfaces out of scenes -/

end

end Seat

namespace State

/-- What a request does at once to what scenes are made of. -/
def cut (s : State) : Event → State
  | .cmd (.viewSuspended v true) => s.dismissPopups v
  | .cmd (.focus v false) => if s.focusedView = some v then s.dismissPopups v else s
  | .destroyToplevel x =>
      match s.idOf x with
      | none => s
      | some id => s.removeToplevel id
  | .setParent x parent => s.setParent x parent
  | .destroyPopup x => s.untrackPopup x
  | .destroySubsurface x => s.destroySubsurface x
  | .destroySurface x => s.destroySurface x
  | _ => s

/-- Whether view `v` shows the toplevel a request destroys. -/
def closes (s : State) (v : ViewId) : Event → Bool
  | .destroyToplevel x => (s.idOf x).bind s.shownIn == some v
  | _ => false

end State

namespace Seat

/-- Surfaces with a tranche leave their views only where these are unbound. -/
def Spares (w : SeatWorld) (c : Seat) : SeatOp → Prop
  | .event e => c.valid w e = true → ∀ h ∈ c.scanout.hinted,
      c.state.closes h.view e = true ∨ h.surface ∈ (c.state.cut e).scene h.view
  | _ => True

instance (c : Seat) : (op : SeatOp) → Decidable (Spares w c op)
  | .event e => inferInstanceAs (Decidable (c.valid w e = true → ∀ h ∈ c.scanout.hinted,
      c.state.closes h.view e = true ∨ h.surface ∈ (c.state.cut e).scene h.view))
  | .viewState _ _ | .viewCapabilities _ _ | .scanoutHint _ _ => .isTrue trivial

section

variable (hf : ∀ c, Freed w.toWorld (fun _ _ => True) c (frees c))

include hf

theorem destroyToplevel_turns (hv : c.valid w (.destroyToplevel x) = true) (hs : Spares w c (.event (.destroyToplevel x))) :
    Turns w c ((c.toplevelDestroyed w frees x).onState (State.resetToplevel x)) := by
  intro ht
  have hreset : Turns w (c.toplevelDestroyed w frees x) ((c.toplevelDestroyed w frees x).onState (State.resetToplevel x)) := by
    have hgone (id : ToplevelId) (hid : (c.toplevelDestroyed w frees x).state.idOf x = some id) :
        (c.toplevelDestroyed w frees x).state.toplevel id = none := toplevelDestroyed_gone hf ht.paired hid
    exact .of_wider (.single (.reset _ x hgone)) rfl (fun ht' => .resetToplevel ht'.well hgone) fun _ _ => rfl
  refine Turns.trans ?_ hreset ht
  cases hid : c.state.idOf x with
  | none =>
      have hsame : c.toplevelDestroyed w frees x = c := by unfold toplevelDestroyed; rw [hid]
      rw [hsame]
      exact .refl w c
  | some id =>
      obtain ⟨-, hshown, hdesk⟩ := unbindToplevel_acts (w := w) hf ht.paired id
      refine (unbindToplevel_turns hf id c).trans (.trans ?_ (toplevelDestroyed_freed hf hid).turns)
      refine .of_scenes (.single (.removed _ {} x id ?_ ?_ trivial)) rfl fun _ h hmem => ?_
      · rw [hdesk.idOf]
        exact hid
      · exact hshown
      · obtain ⟨hhinted, hview, hstays⟩ := unbindToplevel_hinted hf ht id hmem
        refine hstays ?_
        rcases hs hv h hhinted with hcloses | hscene
        · rw [closes, hid, Option.bind_some, beq_iff_eq] at hcloses
          exact absurd hcloses hview
        · simpa only [cut, hid] using hscene

/-! ## Handlers -/

theorem viewCreated_turns (view : ViewHandle) (c : Seat) : Turns w c (c.viewCreated w frees view) := by
  have hinsert {c : Seat} (hshows : c.state.shows view.id = none) (grants : ViewId → Grants) :
      Turns w c { c with state := c.state.insertView view, grants } := by
    refine .of_wider (.single (.inserted c.state view hshows)) rfl (fun _ => .of_toplevels rfl (fun _ => rfl) (fun _ => rfl)
      (fun id te te' hte hte' hm => ?_) (fun _ hp => hp) fun _ _ _ hx => hx) fun v hv => ?_
    · cases hte.symm.trans hte'
      exact hm
    · change (c.state.insertView view).shows v = _
      rw [shows_insertView, if_neg]
      rintro rfl
      rw [hshows] at hv
      cases hv
  unfold viewCreated
  dsimp only
  refine .trans ?_ (tryBindView_freed hf _ view.id).turns
  split
  · exact (unbindView_turns hf view.id c).trans (hinsert (unbindView_shows hf view.id c) _)
  · rename_i hv
    refine hinsert ?_ _
    rw [Bool.not_eq_true, Option.isSome_eq_false_iff, Option.isNone_iff_eq_none] at hv
    rw [shows, hv]
    rfl

theorem viewDisposed_turns (v : ViewId) (c : Seat) : Turns w c (c.viewDisposed w frees v) := by
  have hshows := unbindView_shows hf v c
  refine (unbindView_turns hf v c).trans (.of_wider (.single (.erased _ v hshows)) rfl (fun _ => .of_rest rfl (fun _ => rfl) rfl
    (fun _ hp => hp) fun _ _ _ hx => hx) fun u hu => ?_)
  change ((c.unbindView w frees v).state.eraseView v).shows u = _
  rw [shows_eraseView, if_neg]
  rintro rfl
  rw [hshows] at hu
  cases hu

omit hf in
/-- Popups are dismissed, whatever else the app says of the view. -/
theorem dismiss_turns (hlinks : SameLinks c.state s)
    (hscenes : ∀ h ∈ c.scanout.hinted, h.surface ∈ (c.state.dismissPopups v).scene h.view) :
    Turns w c { c with state := s.dismissPopups v } := by
  have hmoves : Moves w c.state (s.dismissPopups v) := .tail (SameLinks.acts hlinks) (.dismissed s v)
  refine .of_scenes hmoves rfl fun ht h hmem => ?_
  have hdismissed : Act w.toWorld (fun _ _ => True) c.state (c.state.dismissPopups v) := .dismissed _ v
  have hwider : Wider (c.state.dismissPopups v) (s.dismissPopups v) := by
    refine .of_rest hlinks.idOf (fun y => congrArg Surface.parent (congrFun hlinks.surfaces y)) hlinks.toplevels (fun p hp => ?_)
      fun root _ y hy => ?_
    · simp only [dismissPopups, hlinks.popups, hlinks.viewWindows] at hp ⊢
      exact hp
    · change y ∈ s.tree root
      rw [hlinks.tree]
      exact hy
  exact hwider.scene (ht.well.act hdismissed) (hmoves.well ⟨ht.paired, ht.well⟩).2
    (fun _ => congrFun hlinks.shows h.view) (hscenes h hmem)

theorem viewSuspended_turns (v : ViewId) (suspended : Bool) (hs : Spares w c (.event (.cmd (.viewSuspended v suspended)))) :
    Turns w c (c.viewSuspended w frees v suspended) := by
  unfold viewSuspended
  split
  · exact .refl w c
  · dsimp only
    refine .trans ?_ (hf _).turns
    have hlinks := setSuspended_links (w := w.toWorld) c.state v suspended
    cases suspended with
    | false => exact SameLinks.turns hlinks rfl
    | true => exact dismiss_turns hlinks fun h hmem => (hs rfl h hmem).resolve_left nofun

omit hf in
theorem focusInput_turns (v : ViewId) (focused : Bool) (hs : Spares w c (.event (.cmd (.focus v focused)))) :
    Turns w c (c.focusInput w v focused) := by
  have hfocus (focus : Option ViewId) : SameLinks c.state { c.state with focusedView := focus } := .of_data rfl
  cases focused with
  | true =>
      simp only [focusInput, if_pos]
      split
      · exact .refl w c
      · have hset : Turns w c (c.onState fun s => { s with focusedView := some v }) := SameLinks.turns (hfocus (some v)) rfl
        exact hset.trans (refreshKeyboardFocus_tells w _).turns
  | false =>
      simp only [focusInput, Bool.false_eq_true, if_false]
      split
      · rename_i hv
        refine .trans (dismiss_turns (hfocus none) fun h hmem => ?_) (refreshKeyboardFocus_tells w _).turns
        have hscene := (hs rfl h hmem).resolve_left nofun
        rwa [cut, if_pos hv] at hscene
      · exact .refl w c

theorem handleCmd_turns (cmd : Cmd) (hs : Spares w c (.event (.cmd cmd))) : Turns w c (c.handleCmd w frees cmd) := by
  cases cmd with
  | viewCreated view => exact viewCreated_turns hf view c
  | viewDisposed v => exact viewDisposed_turns hf v c
  | viewResized v size => exact (viewResized_freed hf v size c).turns
  | viewRequestSize v size => exact (viewRequestSize_freed hf v size c).turns
  | presented v r => exact (hf c).turns
  | viewSuspended v suspended => exact (viewSuspended_turns hf v suspended hs).trans (refreshKeyboardFocus_tells w _).turns
  | focus v focused => exact focusInput_turns v focused hs
  | issueToken =>
      refine .of_wider (.single (.tokenIssued _)) rfl (fun _ => .of_rest rfl (fun _ => rfl) rfl (fun _ hp => hp) fun _ _ _ hx => hx)
        fun _ _ => rfl

theorem requestActivation_turns (x : WlSurface) {value : String} {token : Token}
    (hfind : c.state.tokens.find? (fun t => t.value == value) = some token) : Turns w c (c.requestActivation w frees x token) := by
  unfold requestActivation
  split
  · exact .refl w c
  · rename_i hissued
    split
    · exact .refl w c
    · rename_i id hid
      split
      · exact .of_wider (.single (.tokenDropped _ _)) rfl (fun _ => .of_rest rfl (fun _ => rfl) rfl (fun _ hp => hp) fun _ _ _ hx => hx)
          fun _ _ => rfl
      · have hmarked : Turns w c (c.onState (State.markActivated id token.value)) :=
          .of_wider (.single (.tokenUsed _ id token (List.mem_of_find?_eq_some hfind) (by simpa using hissued))) rfl
            (fun _ => .markActivated c.state id token.value) fun _ _ => rfl
        dsimp only
        refine hmarked.trans ?_
        split
        · exact (bindWaitingViews_freed hf _).turns
        · rename_i v _
          split
          · exact .refl w _
          · split
            · exact .refl w _
            · exact (unbindView_turns hf v _).trans (bindWaitingViews_freed hf _).turns

theorem handle_turns {e : Event} (hv : c.valid w e = true) (hs : Spares w c (.event e)) : Turns w c (c.handle w frees e) := by
  -- What the request takes away holds no surface with a tranche.
  have hcut (hopen : ∀ v, c.state.closes v e = false) (h : Hinted) (hmem : h ∈ c.scanout.hinted) :
      h.surface ∈ (c.state.cut e).scene h.view := by
    refine (hs hv h hmem).resolve_left ?_
    rw [hopen]
    exact nofun
  have hrest {f : State → State} (ha : Act w.toWorld (fun _ _ => True) c.state (f c.state)) (hwider : Tuned w c → Wider c.state (f c.state))
      (hviews : (f c.state).views = c.state.views) : Turns w c (c.onState f) := by
    refine .of_wider (.single ha) rfl hwider fun v _ => ?_
    rw [onState_state, shows, shows, State.view, State.view, hviews]
  cases e with
  | cmd cmd => exact handleCmd_turns hf cmd hs
  | commit u => exact (applyUpdate_freed hf c u).turns
  | target x deadline => exact (hf c).turns
  | newToplevel x =>
      simp only [Seat.valid, State.valid, Bool.and_eq_true, Bool.or_eq_true, Bool.not_eq_true', beq_iff_eq] at hv
      exact .of_wider (.single (.made _ x hv.1.2 hv.2 trivial)) rfl (fun ht => .newToplevel ht.well hv.1.2) fun _ _ => rfl
  | destroyToplevel x => exact destroyToplevel_turns hf hv hs
  | setParent x parent =>
      simp only [Seat.valid, State.valid, Bool.and_eq_true] at hv
      have hparent : ∀ p, parent = some p → (c.state.surfaces p).hasToplevel = true ∧ w.client p = w.client x := by
        rintro p rfl
        simpa using hv.2
      have hset : Turns w c (c.onState (State.setParent x parent)) :=
        .of_scenes (.single (.parentSet _ x parent hv.1 hparent trivial)) rfl fun _ => hcut fun _ => rfl
      exact hset.trans (parentChanged_freed hf (c.onState (State.setParent x parent))).turns
  | setAppId x appId => exact hrest (.named _ x appId hv) (fun _ => .setAppId c.state x appId) rfl
  | newPopup x parent =>
      simp only [Seat.valid, State.valid, Bool.and_eq_true, Bool.or_eq_true, beq_iff_eq, Option.isNone_iff_eq_none] at hv
      obtain ⟨⟨⟨⟨-, hpop⟩, hrole⟩, hclient⟩, hlive⟩ := hv
      exact hrest (.popupMade _ x parent hpop hrole hclient hlive) (fun _ => .newPopup c.state x parent) rfl
  | destroyPopup x =>
      have huntracked : Turns w c (c.onState (State.untrackPopup x)) :=
        .of_scenes (.single (.untracked _ x)) rfl fun _ => hcut fun _ => rfl
      exact huntracked.trans (popupDestroyed_freed hf x c).turns
  | getSubsurface x parent =>
      simp only [Seat.valid, State.valid, Bool.and_eq_true, Bool.or_eq_true, beq_iff_eq, Option.isNone_iff_eq_none,
        bne_iff_ne] at hv
      obtain ⟨⟨⟨⟨-, hclient⟩, hsub⟩, -⟩, hrole⟩ := hv
      exact hrest (.subsurfaceMade _ x parent hclient hsub hrole) (fun ht => .getSubsurface ht.well hsub hrole) rfl
  | destroySubsurface x => exact .of_scenes (.single (.subsurfaceGone _ x)) rfl fun _ => hcut fun _ => rfl
  | destroySurface x =>
      have hgone : (c.state.surfaces x).hasToplevel = false := by
        simp only [Seat.valid, State.valid, Bool.and_eq_true, Bool.not_eq_true'] at hv
        exact hv.1.2
      exact .of_scenes (.single (.surfaceGone _ x hgone)) rfl fun _ => hcut fun _ => rfl
  | clientToken =>
      exact hrest (f := State.clientToken w.toWorld) (.tokenMade _)
        (fun _ => .of_rest rfl (fun _ => rfl) rfl (fun _ hp => hp) fun _ _ _ hx => hx) rfl
  | activate x value =>
      unfold handle
      dsimp only
      split
      · exact .refl w c
      · rename_i token ht
        exact requestActivation_turns hf x ht
  | disconnect client =>
      exact hrest (f := fun s => { s with connected := fun d => if d = client then false else s.connected d }) (.disconnected _ client)
        (fun _ => .of_rest rfl (fun _ => rfl) rfl (fun _ hp => hp) fun _ _ _ hx => hx) rfl
  | fence v key => exact .refl w c
  | tick => exact (hf c).turns

end

/-! ## Runs -/

/-- The surface of the layer a hint is for. -/
def hintedLayer (w : SeatWorld) (c : Seat) : SeatOp → Option WlSurface
  | .scanoutHint v hint => (c.state.scene v).find? fun x => w.layerId c.state.asked x == some hint.layerId
  | _ => none

/-- A hint takes tranches from its own layer and from what is dead. -/
theorem scanoutHint_kept (v : ViewId) (hint : Hint) {h : Hinted} (hmem : h ∈ c.scanout.hinted)
    (halive : (c.state.surfaces h.surface).alive = true) (hne : hintedLayer w c (.scanoutHint v hint) ≠ some h.surface) :
    h ∈ (c.scanout.scanoutHint w.caps (w.layerId c.state.asked) c.state v hint).hinted := by
  unfold Scanout.scanoutHint
  split
  · exact hmem
  · split
    · split
      · exact hmem
      · rename_i x hx
        rw [Scanout.hintSurface, scanoutFeedback_kept]
        refine List.mem_append_left _ (List.mem_filter.mpr ⟨hmem, ?_⟩)
        rw [halive, Bool.true_and, bne_iff_ne]
        exact fun hsame => hne (hx.trans (congrArg some hsame.symm))
    · exact hmem

theorem step_tuned (ht : Tuned w c) (depth : Nat) {op : SeatOp} (hs : Spares w c op) : Tuned w (c.step w depth op) ∧
    ∃ es, (c.step w depth op).state.trace = c.state.trace ++ es ∧
      ∀ h ∈ c.scanout.hinted, (c.state.surfaces h.surface).alive = true → hintedLayer w c op ≠ some h.surface →
        h ∈ (c.step w depth op).scanout.hinted ∨ ∃ t, .unbound h.view t ∈ es := by
  have hturns (h : Turns w c (c.step w depth op)) : Tuned w (c.step w depth op) ∧
      ∃ es, (c.step w depth op).state.trace = c.state.trace ++ es ∧
        ∀ h ∈ c.scanout.hinted, (c.state.surfaces h.surface).alive = true → hintedLayer w c op ≠ some h.surface →
          h ∈ (c.step w depth op).scanout.hinted ∨ ∃ t, .unbound h.view t ∈ es := by
    obtain ⟨ht', es, htrace, hkept⟩ := h ht
    exact ⟨ht', es, htrace, fun e hmem _ _ => hkept e hmem⟩
  cases op with
  | event e =>
      refine hturns ?_
      unfold step
      dsimp only
      split
      · rename_i hv
        exact handle_turns (lets_freed w depth) hv hs
      · exact .refl w c
  | viewState v state => exact hturns (grant_tells w v (fun g => { g with windowState := state }) c).turns
  | viewCapabilities v capabilities => exact hturns (grant_tells w v (fun g => { g with capabilities }) c).turns
  | scanoutHint v hint =>
      refine ⟨scanoutHint_tuned ht _ v hint, [], by simp [step], fun h hmem halive hne => Or.inl ?_⟩
      exact scanoutHint_kept v hint hmem halive hne

theorem tuned_empty (w : SeatWorld) : Tuned w {} where
  once := by simp
  told _ _ := rfl
  shown := by simp
  paired := paired_empty
  well := .empty
  unhinted _ := rfl

theorem run_tuned (w : SeatWorld) (depth : Nat) {ops : List SeatOp} (h : Runs.Meets (Seat.step w depth) (Spares w) {} ops) :
    Tuned w (run w depth ops) :=
  h.keeps (fun _ _ hs ht => (step_tuned ht depth hs).1) (tuned_empty w)

/-- A live surface is told what it would be given, the default once no view shows it, and it keeps its tranche until
a hint for its layer says otherwise or its view is unbound. -/
structure FollowsScenes (w : SeatWorld) (depth : Nat) (ops : List SeatOp) : Prop extends Follows w (run w depth ops) where
  back : ∀ x, ((run w depth ops).state.surfaces x).alive = true → (∀ v, x ∉ (run w depth ops).state.scene v) →
    ((run w depth ops).scanout.set x <|> w.caps.defaultFeedback) = w.caps.defaultFeedback
  kept : ∀ pre op, ops = pre ++ [op] → ∃ es, (run w depth ops).state.trace = (run w depth pre).state.trace ++ es ∧
    ∀ h ∈ (run w depth pre).scanout.hinted, ((run w depth pre).state.surfaces h.surface).alive = true →
      hintedLayer w (run w depth pre) op ≠ some h.surface →
        h ∈ (run w depth ops).scanout.hinted ∨ ∃ t, .unbound h.view t ∈ es

/-- While surfaces with a tranche leave their views only by unbinding. -/
theorem run_follows (w : SeatWorld) (depth : Nat) (ops : List SeatOp)
    (h : Runs.Meets (Seat.step w depth) (Spares w) {} ops) : FollowsScenes w depth ops := by
  have ht := run_tuned w depth h
  refine { toFollows := ht.toFollows, back := fun x halive hgone => ?_, kept := ?_ }
  · rw [ht.told x halive, hintedFeedback_eq _ halive]
    have hnone : (run w depth ops).scanout.hinted.find? (fun h => h.surface == x) = none := by
      rw [List.find?_eq_none]
      intro e hmem hx
      exact hgone e.view (eq_of_beq hx ▸ ht.shown e hmem)
    rw [hnone]
    rfl
  · rintro pre op rfl
    have hstep := (step_tuned (run_tuned w depth h.left) depth h.last).2
    have hrun : run w depth (pre ++ [op]) = (run w depth pre).step w depth op := by simp [run]
    rw [hrun]
    exact hstep

/-- A view with a dialog over its window, another view of the same client, and a hint for the dialog. -/
def hintRun : List SeatOp :=
  [.event (.newToplevel 10), .event (.newToplevel 11), .event (.setParent 11 (some 10)), .event (.newToplevel 12),
    .event (.commit { main := { surface := 10 } }), .event (.commit { main := { surface := 11 } }),
    .event (.commit { main := { surface := 12 } }), .event (.cmd (.viewCreated { uid := 0, id := 1 })),
    .event (.cmd (.viewCreated { uid := 1, id := 2 })), .scanoutHint 1 { layerId := 11, dev := 1, formats := [(1, 0)] }]

theorem run_follows_hint : Runs.Meets (Seat.step .granting 1) (Spares .granting) {} (hintRun ++ [.event (.cmd (.viewDisposed 1))]) ∧
    FollowsScenes .granting 1 (hintRun ++ [.event (.cmd (.viewDisposed 1))]) := by
  have hmeets : Runs.Meets (Seat.step .granting 1) (Spares .granting) {} (hintRun ++ [.event (.cmd (.viewDisposed 1))]) := by
    decide +kernel
  exact ⟨hmeets, run_follows .granting 1 _ hmeets⟩

/-- The dialog moves to the other view's window: its tranche is still recorded for the view it left. -/
theorem not_follows : ¬∀ (w : SeatWorld) (depth : Nat) (ops : List SeatOp), Follows w (run w depth ops) := by
  intro h
  have hshown := (h .granting 1 (hintRun ++ [.event (.setParent 11 (some 12))])).shown
    ⟨11, 1, { main := 0, formats := [(1, 0)], scanout := some (1, [(1, 0)]) }⟩ (by decide +kernel)
  exact absurd hshown (by decide +kernel)

end Seat

end IhsWl
