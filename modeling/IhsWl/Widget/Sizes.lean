import Mathlib.Algebra.Ring.Nat
import Mathlib.Data.List.Induction
import IhsWl.Widget

/-!
# The shell's size and the input scale follow the layout

Layouts and scales arrive before, during and after the creation. Once the view is there, the shell has its size on
screen, and input its scale.
-/

namespace IhsWl

variable {α : Type}

/-! ## What was sent -/

/-- The size a message gives the shell. -/
def ToShell.size : ToShell α → Option (Size α)
  | .create width height => some ⟨width, height⟩
  | .resize size => some size
  | _ => none

/-- The last size the shell was given. -/
def shellSize (sent : List (ToShell α)) : Option (Size α) := sent.foldl (fun size m => m.size.or size) none

@[simp] theorem shellSize_concat (sent : List (ToShell α)) (m : ToShell α) :
    shellSize (sent ++ [m]) = m.size.or (shellSize sent) := by
  rw [shellSize, List.foldl_append]
  rfl

/-- No resize was to the size the shell had. -/
def Fresh (sent : List (ToShell α)) : Prop :=
  ∀ pre size post, sent = pre ++ .resize size :: post → shellSize pre ≠ some size

theorem fresh_nil : Fresh ([] : List (ToShell α)) := fun pre _ _ h => by
  cases pre <;> cases h

theorem fresh_concat {sent : List (ToShell α)} {m : ToShell α} :
    Fresh (sent ++ [m]) ↔ Fresh sent ∧ ∀ size, m = .resize size → shellSize sent ≠ some size := by
  constructor
  · intro h
    refine ⟨fun pre size post hsplit => h pre size (post ++ [m]) (by rw [hsplit]; simp), fun size hm => ?_⟩
    exact h sent size [] (by rw [hm])
  · rintro ⟨hsent, hlast⟩ pre size post hsplit
    rcases List.eq_nil_or_concat post with rfl | ⟨post, b, rfl⟩
    · obtain ⟨rfl, heq⟩ := List.append_inj' hsplit rfl
      exact hlast size (List.singleton_inj.mp heq)
    · rw [List.concat_eq_append, ← List.cons_append, ← List.append_assoc] at hsplit
      exact hsent pre size post (List.append_inj' hsplit rfl).1

theorem fresh_send {sent : List (ToShell α)} {m : ToShell α} (hm : ∀ size, m ≠ .resize size) :
    Fresh (sent ++ [m]) ↔ Fresh sent :=
  fresh_concat.trans (and_iff_left fun size h => absurd h (hm size))

/-! ## What is known -/

namespace ViewCall

def laid : ViewCall α → Option (Size α)
  | .laidOut size => some size
  | _ => none

def drawn : ViewCall α → Option (Offset α)
  | .drawnAt scale => some scale
  | _ => none

def created : ViewCall α → Option (Option (Size α))
  | .create size => some size
  | _ => none

end ViewCall

/-- The size the view was last laid out at. -/
def lastLaidOut (calls : List (ViewCall α)) : Option (Size α) := calls.foldl (fun laid call => call.laid.or laid) none

/-- The size of the first create. -/
def firstCreate (calls : List (ViewCall α)) : Option (Option (Size α)) :=
  calls.foldl (fun first call => first.or call.created) none

/-- A create that gave no size was made, if the first did not. -/
theorem create_of_firstCreate {calls : List (ViewCall α)} (h : firstCreate calls = some none) : .create none ∈ calls := by
  induction calls using List.reverseRecOn with
  | nil => cases h
  | append_singleton calls call ih =>
      simp only [firstCreate, List.foldl_append, List.foldl_cons, List.foldl_nil] at h
      rw [List.mem_append]
      rcases Option.or_eq_some_iff.mp h with hbefore | ⟨-, hlast⟩
      · exact Or.inl (ih hbefore)
      · cases call with
        | create size => exact Or.inr (by rw [Option.some.inj hlast]; exact List.mem_singleton_self _)
        | _ => cases hlast

/-- The laid-out size, once known. -/
def layoutSize (calls : List (ViewCall α)) : Option (Size α) := (lastLaidOut calls).or (firstCreate calls).join

/-- The scale the view is drawn at. -/
def currentScale [One α] (scale : Option (Offset α)) (calls : List (ViewCall α)) : Offset α :=
  calls.foldl (fun now call => call.drawn.getD now) (scale.getD ⟨1, 1⟩)

def Size.scaled [Mul α] (size : Size α) (scale : Offset α) : Size α := ⟨size.width * scale.dx, size.height * scale.dy⟩

def Offset.scaled [Mul α] (offset scale : Offset α) : Offset α := ⟨offset.dx * scale.dx, offset.dy * scale.dy⟩

/-! ## One controller -/

/-- The create was sent. -/
def Creation.isSent : Creation α → Bool
  | .none | .measuring _ => false
  | .creating _ | .ended => true

namespace WaylandInput

variable [MulOneClass α] [DecidableEq α] {i : WaylandInput α} {viewId : ViewId} {scale p : Offset α}

theorem onScreen_setViewScale : (i.setViewScale viewId scale).onScreen viewId p = p.scaled scale := by
  simp only [setViewScale, onScreen, Function.update_self]
  by_cases h : scale = ⟨1, 1⟩
  · rw [if_pos h, h]
    simp only [Offset.scaled, mul_one]
  · rw [if_neg h]
    rfl

end WaylandInput

namespace ToplevelViewController

theorem sameSize_iff [BEq α] [LawfulBEq α] {size : Size α} {o : Option (Size α)} :
    sameSize size o = true ↔ o = some size := by
  cases o with
  | none => simp [sameSize]
  | some s =>
      obtain ⟨w, h⟩ := size
      obtain ⟨w', h'⟩ := s
      simp only [sameSize, Bool.and_eq_true, beq_iff_eq, Option.some.injEq, Size.mk.injEq]
      exact and_congr eq_comm eq_comm

variable [MulOneClass α] [DecidableEq α] {c c' : ToplevelViewController α} {call : ViewCall α} {now : Offset α}
  {laid : Option (Size α)} {first : Option (Option (Size α))} {m : ToShell α}

/-- The shell has the size on screen. -/
def Sized (c : ToplevelViewController α) : Prop :=
  c.created = true → ∀ size, c.laidOut = some size → c.sentSize = some (size.scaled c.scale)

theorem sendSize_cases (c : ToplevelViewController α) : (c.sendSize = c ∧ Sized c) ∨
    ∃ size, c.created = true ∧ c.laidOut = some size ∧ c.sentSize ≠ some (size.scaled c.scale) ∧
      c.sendSize = c.resize (size.scaled c.scale) := by
  unfold sendSize
  cases hlaid : c.laidOut with
  | none => exact Or.inl ⟨rfl, fun _ size h => by rw [hlaid] at h; cases h⟩
  | some size =>
      dsimp only
      split
      · rename_i hsend
        rw [Bool.and_eq_true, Bool.not_eq_true', ← Bool.not_eq_true, sameSize_iff] at hsend
        exact Or.inr ⟨size, hsend.1, rfl, hsend.2, rfl⟩
      · rename_i hkeep
        refine Or.inl ⟨rfl, fun hcreated size' h => ?_⟩
        obtain rfl : size = size' := Option.some.inj (hlaid.symm.trans h)
        rw [hcreated, Bool.true_and, Bool.not_eq_true', Bool.not_eq_false, sameSize_iff] at hkeep
        exact hkeep

variable [Zero α]

/-- What holds of a controller with the scale the view is drawn at, the size it was last laid out at and the first
create's. -/
structure Follows (now : Offset α) (laid : Option (Size α)) (first : Option (Option (Size α)))
    (c : ToplevelViewController α) : Prop where
  scale : c.scale = now
  laidOut : c.laidOut = if c.created then laid.or first.join else laid
  unasked : c.creation = .none → first = none
  asked : ∀ size, c.creation = .measuring size ∨ c.creation = .creating size → first = some size
  ended : c.creation = .ended → first ≠ none
  created : c.created = true → c.creation = .ended
  shell : shellSize c.sent = if c.creation.isSent then some (c.sentSize.getD ⟨0, 0⟩) else none
  unsized : c.creation.isSent = true → c.sentSize = none → first = some none
  early : c.created = false → ∀ size, .resize size ∉ c.sent
  input : c.created = true → ∀ (i : WaylandInput α) viewId p,
    (c.sent.foldl (WaylandInput.hear viewId) i).onScreen viewId p = p.scaled now

/-- The first size to send a view created without one is the one the shell has for want of it. -/
def Again (c : ToplevelViewController α) : Prop :=
  c.created = true ∧ c.sentSize = none ∧ ∃ size, c.laidOut = some size ∧ size.scaled c.scale = ⟨0, 0⟩

theorem Follows.sendSize (h : Follows now laid first c) : Follows now laid first c.sendSize ∧ Sized c.sendSize := by
  rcases sendSize_cases c with ⟨heq, hsized⟩ | ⟨size, hcreated, hlaid, -, heq⟩ <;> rw [heq]
  · exact ⟨h, hsized⟩
  · have hended := h.created hcreated
    refine ⟨{ h with shell := ?_, unsized := ?_, early := ?_, input := ?_ }, fun _ size' h' => ?_⟩
    · simp [resize, send, ToShell.size, hended, Creation.isSent]
    · simp [resize, send]
    · simp [resize, send, hcreated]
    · intro _ i viewId p
      simp only [resize, send, List.foldl_append, List.foldl_cons, List.foldl_nil, WaylandInput.hear]
      exact h.input hcreated i viewId p
    · obtain rfl : size = size' := Option.some.inj (hlaid.symm.trans h')
      rfl

theorem Follows.fresh_sendSize (h : Follows now laid first c) :
    Fresh c.sendSize.sent ↔ Fresh c.sent ∧ ¬Again c := by
  rcases sendSize_cases c with ⟨heq, hsized⟩ | ⟨size, hcreated, hlaid, hother, heq⟩ <;> rw [heq]
  · refine ⟨fun hfresh => ⟨hfresh, ?_⟩, And.left⟩
    rintro ⟨hcreated, hnone, size, hlaid, -⟩
    exact Option.some_ne_none _ ((hsized hcreated size hlaid).symm.trans hnone)
  · have hshell : shellSize c.sent = some (c.sentSize.getD ⟨0, 0⟩) := by
      rw [h.shell, h.created hcreated]
      rfl
    simp only [resize, send, fresh_concat, ToShell.resize.injEq, forall_eq', hshell, Again, hcreated, hlaid, true_and,
      Option.some.injEq, exists_eq_left']
    cases hsent : c.sentSize with
    | none => simp [eq_comm]
    | some s => simpa [hsent] using fun _ heq => hother (by rw [hsent, heq])

/-- The calls after which a view created without a size is first given the one it has for want of it. -/
def Repeats (c : ToplevelViewController α) : ViewCall α → Prop
  | .laidOut size => Again { c with laidOut := some size }
  | .replied true => (∃ size, c.creation = .creating size) ∧ Again { c with created := true }
  | _ => False

/-- A call keeps what holds, of what is then known. -/
structure Steps (now : Offset α) (laid : Option (Size α)) (first : Option (Option (Size α)))
    (c : ToplevelViewController α) (call : ViewCall α) (c' : ToplevelViewController α) : Prop where
  follows : Follows (call.drawn.getD now) (call.laid.or laid) (first.or call.created) c'
  sized : Sized c'
  fresh : Fresh c'.sent ↔ Fresh c.sent ∧ ¬Repeats c call

/-- Nothing is sent, and what is known stays so. -/
theorem Follows.idle (h : Follows now laid first c') (hsized : Sized c') (hsent : c'.sent = c.sent)
    (hdrawn : call.drawn.getD now = now) (hlaid : call.laid = none) (hfirst : first.or call.created = first)
    (hrepeats : ¬Repeats c call) : Steps now laid first c call c' := by
  refine ⟨?_, hsized, by simp [hsent, hrepeats]⟩
  rw [hdrawn, hlaid, hfirst]
  exact h

theorem create_steps (h : Follows now laid first c) (hsized : Sized c) (size : Option (Size α)) :
    Steps now laid first c (.create size) (c.create size) := by
  unfold create
  split
  · rename_i hnone
    have hfirst := h.unasked hnone
    have huncreated : c.created = false := by
      by_contra hcreated
      have hended := h.created (Bool.not_eq_false _ ▸ hcreated)
      rw [hnone] at hended
      cases hended
    have hshell := h.shell
    simp only [hnone, Creation.isSent] at hshell
    subst hfirst
    exact ⟨⟨h.scale, by simp [h.laidOut, huncreated, ViewCall.laid], by simp, by simp [ViewCall.created], by simp,
      by simp [huncreated], by simpa [Creation.isSent] using hshell, by simp [Creation.isSent], h.early,
      by simp [huncreated]⟩, fun hcreated => by simp [huncreated] at hcreated, by simp [Repeats]⟩
  · rename_i hother
    refine h.idle hsized rfl rfl rfl ?_ (by simp [Repeats])
    cases hcreation : c.creation with
    | none => exact absurd hcreation hother
    | measuring size => rw [h.asked size (Or.inl hcreation)]; rfl
    | creating size => rw [h.asked size (Or.inr hcreation)]; rfl
    | ended =>
        obtain ⟨size, hsome⟩ := Option.ne_none_iff_exists'.mp (h.ended hcreation)
        rw [hsome]
        rfl

/-- The shell is told if what is known gives the view another size. -/
theorem Follows.told (call : ViewCall α)
    (h : Follows (call.drawn.getD now) (call.laid.or laid) (first.or call.created) c')
    (hfresh : Fresh c'.sent ↔ Fresh c.sent) (hagain : Again c' ↔ Repeats c call) :
    Steps now laid first c call c'.sendSize :=
  ⟨h.sendSize.1, h.sendSize.2, by rw [h.fresh_sendSize, hfresh, hagain]⟩

theorem layOut_steps (h : Follows now laid first c) (size : Size α) :
    Steps now laid first c (.laidOut size) (c.layOut size) := by
  have hlaid : Follows now (some size) first { c with laidOut := some size } :=
    { h with laidOut := by cases c.created <;> rfl }
  rw [← Option.or_none (o := first)] at hlaid
  exact Follows.told (.laidOut size) hlaid Iff.rfl Iff.rfl

theorem drawnAt_steps (h : Follows now laid first c) (hsized : Sized c) (scale : Offset α) :
    Steps now laid first c (.drawnAt scale) (c.drawnAt scale) := by
  have hagain {c' : ToplevelViewController α} (hcreated : c'.created = c.created) (hsent : c'.sentSize = c.sentSize)
      (hlaid : c'.laidOut = c.laidOut) : Again c' ↔ Repeats c (.drawnAt scale) := by
    refine ⟨?_, False.elim⟩
    rintro ⟨hc, hnone, size, hsize, -⟩
    have hsome := hsized (hcreated ▸ hc) size (hlaid ▸ hsize)
    rw [← hsent, hnone] at hsome
    cases hsome
  unfold drawnAt
  dsimp only
  split
  · rename_i hsame
    obtain rfl : scale = now := by
      rw [Bool.and_eq_true, beq_iff_eq, beq_iff_eq, h.scale] at hsame
      obtain ⟨dx, dy⟩ := scale
      obtain ⟨dx', dy'⟩ := now
      exact Offset.mk.injEq .. ▸ hsame
    have hmeasured : Follows scale laid first { c with measured := true } := { h with }
    exact hmeasured.idle hsized rfl rfl rfl (Option.or_none ..) (by simp [Repeats])
  · by_cases hcreated : c.created = true
    · have hdrawn : Follows scale laid first
          ({ c with measured := true, scale := scale }.send (.setViewScale scale)) := by
        refine { h with scale := rfl, shell := ?_, early := ?_, input := ?_ }
        · exact (shellSize_concat ..).trans h.shell
        · simp [send, hcreated]
        · intro _ i viewId p
          simp only [send, List.foldl_append, List.foldl_cons, List.foldl_nil, WaylandInput.hear]
          exact WaylandInput.onScreen_setViewScale
      rw [if_pos hcreated]
      rw [← Option.or_none (o := first)] at hdrawn
      exact Follows.told (.drawnAt scale) hdrawn (fresh_send (by simp)) (hagain rfl rfl rfl)
    · have hdrawn : Follows scale laid first { c with measured := true, scale := scale } :=
        { h with scale := rfl, input := fun hc => absurd hc hcreated }
      rw [if_neg hcreated]
      rw [← Option.or_none (o := first)] at hdrawn
      exact Follows.told (.drawnAt scale) hdrawn Iff.rfl (hagain rfl rfl rfl)

theorem Follows.uncreated (h : Follows now laid first c) (hcreation : c.creation ≠ .ended) : c.created = false := by
  by_contra hcreated
  exact hcreation (h.created (Bool.not_eq_false _ ▸ hcreated))

theorem createMeasured_steps (h : Follows now laid first c) (hsized : Sized c) :
    Steps now laid first c .measured c.createMeasured := by
  have hidle : Steps now laid first c .measured c := h.idle hsized rfl rfl rfl (Option.or_none ..) (by simp [Repeats])
  unfold createMeasured
  split
  · rename_i laidOut hcreation
    split
    · have huncreated := h.uncreated (by simp [hcreation])
      have hfirst := h.asked laidOut (Or.inl hcreation)
      have hasked : Follows now laid first
          ({ c with sentSize := laidOut.map c.onScreen, creation := .creating laidOut }.send
            (.create (((laidOut.map c.onScreen).map Size.width).getD 0)
              (((laidOut.map c.onScreen).map Size.height).getD 0))) := by
        refine { h with
          unasked := ?_, asked := ?_, ended := ?_, created := ?_, shell := ?_, unsized := ?_, early := ?_, input := ?_ }
        · simp [send]
        · simp [send, hfirst]
        · simp [send]
        · simp [send, huncreated]
        · cases laidOut <;> simp [send, ToShell.size, Creation.isSent]
        · simp [send, hfirst]
        · simpa [send] using h.early
        · simp [send, huncreated]
      refine ⟨?_, fun hcreated => by simp [send, huncreated] at hcreated, ?_⟩
      · rw [show first.or (ViewCall.measured : ViewCall α).created = first from Option.or_none ..]
        exact hasked
      · simp [send, fresh_send, Repeats]
    · exact hidle
  · exact hidle

theorem createReplied_steps (h : Follows now laid first c) (hsized : Sized c) (ok : Bool) :
    Steps now laid first c (.replied ok) (c.createReplied ok) := by
  unfold createReplied
  split
  · rename_i laidOut hcreation
    have huncreated := h.uncreated (by simp [hcreation])
    have hfirst := h.asked laidOut (Or.inr hcreation)
    have hshell := h.shell
    have hunsized := h.unsized
    simp only [hcreation, Creation.isSent] at hshell hunsized
    cases ok with
    | false =>
        have hfailed : Follows now laid first { c with creation := .ended } :=
          { h with
            unasked := by simp
            asked := by simp
            ended := by simp [hfirst]
            created := by simp
            shell := hshell
            unsized := fun _ => hunsized trivial }
        have hsized : Sized { c with creation := .ended } := fun hcreated => by simp [huncreated] at hcreated
        exact hfailed.idle hsized rfl rfl rfl (Option.or_none ..) id
    | true =>
        have hanswered : Follows now laid first
            { (({ c with creation := .ended, created := true }.send (.setViewScale c.scale)).send .onCreated) with
              laidOut := c.laidOut.or laidOut } :=
          { scale := h.scale
            laidOut := by simp [h.laidOut, huncreated, hfirst, send]
            unasked := by simp [send]
            asked := by simp [send]
            ended := by simp [hfirst]
            created := by simp [send]
            shell := (shellSize_concat ..).trans ((shellSize_concat ..).trans hshell)
            unsized := fun _ => hunsized trivial
            early := by simp [send]
            input := by
              intro _ i viewId p
              simp only [send, List.foldl_append, List.foldl_cons, List.foldl_nil, WaylandInput.hear, h.scale]
              exact WaylandInput.onScreen_setViewScale }
        dsimp only
        rw [if_pos rfl]
        rw [← Option.or_none (o := first)] at hanswered
        refine Follows.told (.replied true) hanswered ?_ ?_
        · exact (fresh_send (by simp)).trans (fresh_send (by simp))
        · have hsame (hnone : c.sentSize = none) : c.laidOut.or laidOut = c.laidOut := by
            rw [Option.some.inj (hfirst.symm.trans (hunsized trivial hnone)), Option.or_none]
          constructor
          · rintro ⟨-, hnone, size, hsize, hzero⟩
            exact ⟨⟨laidOut, hcreation⟩, rfl, hnone, size, (hsame hnone).symm.trans hsize, hzero⟩
          · rintro ⟨-, -, hnone, size, hsize, hzero⟩
            exact ⟨rfl, hnone, size, (hsame hnone).trans hsize, hzero⟩
  · rename_i hcreation
    refine h.idle hsized rfl rfl rfl (Option.or_none ..) ?_
    cases ok with
    | false => exact id
    | true => rintro ⟨⟨size, hsize⟩, -⟩; exact hcreation size hsize

theorem step_steps (h : Follows now laid first c) (hsized : Sized c) (hcall : call ≠ .dispose) :
    Steps now laid first c call (c.step call) := by
  cases call with
  | create size => exact create_steps h hsized size
  | laidOut size => exact layOut_steps h size
  | drawnAt scale => exact drawnAt_steps h hsized scale
  | dispose => exact absurd rfl hcall
  | measured => exact createMeasured_steps h hsized
  | replied ok => exact createReplied_steps h hsized ok

/-! ## Runs -/

variable {scale : Option (Offset α)} {calls : List (ViewCall α)} {viewId : ViewId}

theorem run_known (scale : Option (Offset α)) (hcalls : .dispose ∉ calls) :
    Follows (currentScale scale calls) (lastLaidOut calls) (firstCreate calls) (run scale calls) ∧
      Sized (run scale calls) ∧
      (Fresh (run scale calls).sent ↔ Runs.Meets step (fun c call => ¬Repeats c call) (new scale) calls) := by
  induction calls using List.reverseRecOn with
  | nil =>
      have hnew : Follows (scale.getD ⟨1, 1⟩) none none (new scale) := by
        refine ⟨rfl, rfl, fun _ => rfl, ?_, ?_, ?_, rfl, ?_, ?_, ?_⟩ <;> simp [new, Creation.isSent]
      exact ⟨hnew, fun hcreated => (nomatch hcreated), iff_of_true fresh_nil trivial⟩
  | append_singleton calls call ih =>
      rw [List.mem_append, List.mem_singleton, not_or] at hcalls
      obtain ⟨hfollows, hsized, hfresh⟩ := ih hcalls.1
      have hsteps := step_steps hfollows hsized (Ne.symm hcalls.2)
      have hrun : run scale (calls ++ [call]) = (run scale calls).step call := by
        simp [run]
      rw [hrun]
      refine ⟨?_, hsteps.sized, ?_⟩
      · simpa only [currentScale, lastLaidOut, firstCreate, List.foldl_append, List.foldl_cons, List.foldl_nil]
          using hsteps.follows
      · rw [hsteps.fresh, hfresh, Runs.meets_concat]
        rfl

/-- The view's size and scale, as the shell and input know them after the calls, are those on screen, and the shell was
told no size too early or twice. -/
structure InStep (scale : Option (Offset α)) (calls : List (ViewCall α)) : Prop where
  size : (run scale calls).created = true → ∀ size, layoutSize calls = some size →
    shellSize (run scale calls).sent = some (size.scaled (currentScale scale calls))
  input : (run scale calls).created = true → ∀ (i : WaylandInput α) viewId p,
    ((run scale calls).sent.foldl (WaylandInput.hear viewId) i).onScreen viewId p = p.scaled (currentScale scale calls)
  early : (run scale calls).created = false → ∀ size, .resize size ∉ (run scale calls).sent
  fresh : Fresh (run scale calls).sent

/-- They follow the layout exactly when no view created without a size is first given the one it has for want of it. -/
theorem inStep_iff (scale : Option (Offset α)) (calls : List (ViewCall α)) (hcalls : .dispose ∉ calls) :
    InStep scale calls ↔ Runs.Meets step (fun c call => ¬Repeats c call) (new scale) calls := by
  obtain ⟨hfollows, hsized, hfresh⟩ := run_known scale hcalls
  rw [← hfresh]
  refine ⟨InStep.fresh, fun hf => ⟨fun hcreated size hsize => ?_, hfollows.input, hfollows.early, hf⟩⟩
  have hlaid : (run scale calls).laidOut = some size := by
    rw [hfollows.laidOut, if_pos hcreated]
    exact hsize
  rw [hfollows.shell, hfollows.created hcreated, hsized hcreated size hlaid, hfollows.scale]
  rfl

/-- A view created with a size is never given it for want of one. -/
theorem Follows.not_repeats (h : Follows now laid first c) (hfirst : first ≠ some none) : ¬Repeats c call := by
  intro hrepeats
  cases call with
  | laidOut size =>
      obtain ⟨hcreated, hnone, -⟩ := hrepeats
      exact hfirst (h.unsized (by rw [h.created hcreated]; rfl) hnone)
  | replied ok =>
      cases ok with
      | true =>
          obtain ⟨⟨size, hcreation⟩, -, hnone, -⟩ := hrepeats
          exact hfirst (h.unsized (by rw [hcreation]; rfl) hnone)
      | false => exact hrepeats
  | _ => exact hrepeats

/-- The shell's size and the input scale follow the layout, however the calls come, when the view is created with a size. -/
theorem layout_inStep (scale : Option (Offset α)) (calls : List (ViewCall α)) (hcalls : .dispose ∉ calls)
    (hsizes : .create none ∉ calls) : InStep scale calls := by
  refine (inStep_iff scale calls hcalls).mpr ?_
  induction calls using List.reverseRecOn with
  | nil => trivial
  | append_singleton calls call ih =>
      rw [List.mem_append, not_or] at hcalls hsizes
      obtain ⟨hfollows, -⟩ := run_known scale hcalls.1
      exact Runs.meets_concat.mpr ⟨ih hcalls.1 hsizes.1, hfollows.not_repeats fun h => hsizes.1 (create_of_firstCreate h)⟩

/-- A size and a scale that arrive while the create is in flight. -/
theorem layout_inStep_late : InStep (some ⟨1, 1⟩)
    ([.create (some ⟨3, 2⟩), .measured, .drawnAt ⟨2, 1⟩, .laidOut ⟨5, 5⟩, .replied true] : List (ViewCall Nat)) :=
  layout_inStep (some ⟨1, 1⟩) _ (by decide) (by decide)

end ToplevelViewController

end IhsWl
