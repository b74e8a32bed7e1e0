import IhsWl.Lib.Runs
import IhsWl.Server.Lemmas.Later
import IhsWl.Server.Screens

/-!
# What is on screen stays held

The buffers of the last frame of a view the shell accepted stay with the module, but for those whose fence
signaled, as long as the shell takes the empty frames that let them go.
-/

namespace IhsWl

open State

variable {w : World} {s : State} {c : Screens}

/-! ## Holding a frame's buffers -/

namespace Holds

variable {h : Holds} (view : ViewId) (seq : Nat)

/-- Holding one more buffer of a frame lets go of none the frame holds already, while there is room for them. -/
theorem holdUnfenced_split (buffer : Held) {old new : List (Nat × Held)} (hu : h.unfenced = old ++ new) (hlen : new.length < maxUnfenced) :
    ∃ old', (h.holdUnfenced view seq buffer).1.unfenced = old' ++ (new.filter (fun u => u.2 ≠ buffer) ++ [(seq, buffer)]) := by
  have hgrown : h.unfenced.filter (fun u => u.2 ≠ buffer) ++ [(seq, buffer)] =
      old.filter (fun u => u.2 ≠ buffer) ++ (new.filter (fun u => u.2 ≠ buffer) ++ [(seq, buffer)]) := by
    rw [hu, List.filter_append, List.append_assoc]
  have hshort : (new.filter (fun u => u.2 ≠ buffer) ++ [(seq, buffer)]).length ≤ maxUnfenced := by
    have hle := List.length_filter_le (fun u => u.2 ≠ buffer) new
    rw [List.length_append, List.length_singleton]
    omega
  simp only [holdUnfenced]
  rw [hgrown]
  generalize new.filter (fun u => u.2 ≠ buffer) ++ [(seq, buffer)] = recent at hshort
  split
  · rename_i hover
    refine ⟨(old.filter fun u => u.2 ≠ buffer).drop 1, ?_⟩
    rw [List.length_append] at hover
    rw [List.drop_append_of_le_length (by omega)]
  · exact ⟨old.filter fun u => u.2 ≠ buffer, rfl⟩

/-- What holds a buffer holds it in `h`. -/
def Keeps (h : Holds) (seq : Nat) (l : Held × Hold) : Prop :=
  match l.2 with
  | .unfenced => (seq, l.1) ∈ h.unfenced
  | .fence key => (key, l.1) ∈ h.fenced
  | .free => True

theorem Keeps.buffers {seq : Nat} {l : Held × Hold} (hl : h.Keeps seq l) (hne : l.2 ≠ .free) : l.1 ∈ h.buffers := by
  obtain ⟨b, how⟩ := l
  cases how with
  | unfenced => exact List.mem_map.mpr ⟨(seq, b), List.mem_append_right _ hl, rfl⟩
  | fence key => exact List.mem_map.mpr ⟨(key, b), List.mem_append_left _ hl, rfl⟩
  | free => exact absurd rfl hne

/-- The buffers of a frame are held as they are tagged, and what the frame held before is held still. -/
theorem holdAll_keeps (ls : List (Held × Release)) {old new : List (Nat × Held)} (hu : h.unfenced = old ++ new)
    (hlen : new.length + ls.length ≤ maxUnfenced) :
    (∀ b, (seq, b) ∈ new → (seq, b) ∈ (h.holdAll view seq ls).1.unfenced) ∧
    (∀ f ∈ h.fenced, f ∈ (h.holdAll view seq ls).1.fenced) ∧
    ∀ l ∈ tags h.nextKey ls, (h.holdAll view seq ls).1.Keeps seq l := by
  induction ls generalizing h old new with
  | nil =>
      refine ⟨fun b hb => ?_, fun f hf => hf, fun l hl => absurd hl List.not_mem_nil⟩
      change (seq, b) ∈ h.unfenced
      rw [hu]
      exact List.mem_append_right _ hb
  | cons first rest ih =>
      obtain ⟨buffer, release⟩ := first
      rw [List.length_cons] at hlen
      cases release with
      | unfenced =>
          obtain ⟨old', hu'⟩ := holdUnfenced_split view seq buffer hu (by omega)
          have hle := List.length_filter_le (fun u => u.2 ≠ buffer) new
          obtain ⟨hnew, hfenced, htags⟩ := ih hu' (by rw [List.length_append, List.length_singleton]; omega)
          refine ⟨fun b hb => hnew b ?_, hfenced, fun l hl => ?_⟩
          · by_cases hbb : b = buffer
            · exact List.mem_append_right _ (by rw [hbb]; exact List.mem_singleton.mpr rfl)
            · exact List.mem_append_left _ (List.mem_filter.mpr ⟨hb, by simpa using hbb⟩)
          · rcases List.mem_cons.mp hl with rfl | hl
            · exact hnew buffer (List.mem_append_right _ (List.mem_singleton.mpr rfl))
            · exact htags l hl
      | fenced =>
          obtain ⟨hnew, hfenced, htags⟩ := ih (h := (h.holdFenced view buffer true).1) hu (by omega)
          refine ⟨hnew, fun f hf => hfenced f (List.mem_append_left _ hf), fun l hl => ?_⟩
          rcases List.mem_cons.mp hl with rfl | hl
          · exact hfenced _ (List.mem_append_right _ (List.mem_singleton.mpr rfl))
          · exact htags l hl
      | unregistered =>
          obtain ⟨hnew, hfenced, htags⟩ := ih (h := (h.holdFenced view buffer false).1) hu (by omega)
          refine ⟨hnew, hfenced, fun l hl => ?_⟩
          rcases List.mem_cons.mp hl with rfl | hl
          · trivial
          · exact htags l hl

end Holds

/-! ## What each operation does to the views -/

namespace State

theorem view_clearView (s : State) (v v' : ViewId) : (s.clearView w v).view v' =
    if v' = v ∧ (s.clears v && s.accepts w) = true then
      (s.view v).map fun e => { e with seq := e.seq + 1, cleared := true }
    else s.view v' := by
  unfold clearView
  split
  · rename_i hv
    rw [if_neg (by simp [clears, hv])]
  · rename_i e hv
    split
    · rename_i hidle
      rw [if_neg]
      rcases hidle with h | h <;> simp [clears, hv, h]
    · rename_i hbusy
      rw [not_or, Bool.not_eq_true] at hbusy
      have hclears : s.clears v = true := by simp [clears, hv, hbusy]
      dsimp only
      split
      · rename_i release ha
        have haccepts : s.accepts w = true := by rw [accepts, ha]
        rw [view_log, view_modifyView, hclears, haccepts, view_ask, view_ask]
        simp [hv]
      · rename_i hno
        have haccepts : s.accepts w = false := by
          unfold accepts
          split
          · rename_i release ha
            exact absurd ha (hno release)
          · rfl
        rw [view_ask, haccepts, if_neg (by simp)]

/-- A scene the shell takes is held layer by layer; one with nothing to show clears the view. -/
theorem view_submitTree (s : State) (v : ViewId) (roots : List WlSurface) (v' : ViewId) :
    (s.submitTree w v roots).2.view v' =
      if (s.build w roots).isEmpty then (s.ask.clearView w v).view v'
      else
        match s.view v, w.submit s.ask.asked with
        | some e, .accepted release =>
            if v' = v then
              some { e with
                seq := e.seq + 1
                cleared := false
                holds := (e.holds.holdAll v (e.seq + 1) (s.released w roots release)).1 }
            else s.view v'
        | _, _ => s.view v' := by
  unfold submitTree
  dsimp only
  split
  · rfl
  · cases hv : s.view v with
    | none =>
        rw [view_ask, hv]
        rfl
    | some e =>
        rw [view_ask, hv]
        dsimp only
        cases hsub : w.submit s.ask.asked with
        | accepted release =>
            dsimp only
            rw [view_log]
            unfold holdLayers
            rw [view_ask, view_ask, hv]
            dsimp only
            rw [view_log, view_modifyView, view_ask, view_ask, hv]
            split <;> rfl
        | _ => rfl

theorem clears_eq_false {v : ViewId} {e : ViewEntry} (hv : s.view v = some e) (h : s.clears v = false) :
    e.cleared = true ∨ e.seq = 0 := by
  rw [clears, hv, Option.any_some, Bool.and_eq_false_iff] at h
  simpa using h

end State

/-! ## Steps -/

/-- What is shown of a view is held as it is tagged, and nothing is once it was cleared. -/
structure OnScreen (e : ViewEntry) (ls : List (Held × Hold)) : Prop where
  keeps : ∀ l ∈ ls, e.holds.Keeps e.seq l
  empty : e.cleared = true ∨ e.seq = 0 → ls = []

theorem OnScreen.nil (e : ViewEntry) : OnScreen e [] := ⟨fun _ h => absurd h List.not_mem_nil, fun _ => rfl⟩

/-- What no buffer is held for stays shown whatever becomes of the holds. -/
theorem OnScreen.free {e e' : ViewEntry} {ls : List (Held × Hold)} (h : OnScreen e ls) (hfree : ∀ l ∈ ls, l.2 = .free)
    (hseq : e'.seq = e.seq) (hcleared : e'.cleared = e.cleared) : OnScreen e' ls := by
  refine ⟨fun l hl => ?_, fun hidle => h.empty (by rwa [← hseq, ← hcleared])⟩
  obtain ⟨b, how⟩ := l
  cases hfree _ hl
  trivial

namespace Screens

/-- What is shown of every view is. -/
def OnScreens (s : State) (shown : ViewId → List (Held × Hold)) : Prop :=
  ∀ v e, s.view v = some e → OnScreen e (shown v)

theorem emptied_apply (c : Screens) (s : State) (v v' : ViewId) : ScreenOp.emptied w c s v v' =
    if v' = v ∧ (s.clears v && s.accepts w) = true then [] else c.shown v' := by
  unfold ScreenOp.emptied
  by_cases hok : (s.clears v && s.accepts w) = true
  · rw [if_pos hok, Function.update_apply]
    simp [hok]
  · rw [if_neg hok, if_neg (by simp [hok])]

theorem OnScreens.clearView (h : OnScreens s c.shown) (v : ViewId) :
    OnScreens (s.clearView w v) (ScreenOp.emptied w c s v) := by
  intro v' e he
  rw [emptied_apply]
  rw [view_clearView] at he
  split at he
  · rename_i hok
    rw [if_pos hok]
    exact .nil e
  · rename_i hok
    rw [if_neg hok]
    exact h v' e he

/-- A view that lets its toplevel go holds nothing, and nothing that was held is shown of it. -/
theorem OnScreens.unbind (h : OnScreens s c.shown) {v : ViewId}
    (hok : (!s.clears v || s.accepts w || (c.shown v).all fun l => l.2 == .free) = true) :
    OnScreens ((s.clearView w v).unlink v) (ScreenOp.emptied w c s v) := by
  have hclear := h.clearView (w := w) v
  intro v' e' he'
  by_cases hv : v' = v
  · subst hv
    rw [view_unlink_self] at he'
    obtain ⟨e, he, rfl⟩ := Option.map_eq_some_iff.mp he'
    refine (hclear v' e he).free (fun l hl => ?_) rfl rfl
    rw [emptied_apply] at hl
    split at hl
    · cases hl
    · rename_i hno
      rw [view_clearView, if_neg hno] at he
      simp only [true_and, Bool.and_eq_true, not_and, Bool.not_eq_true] at hno
      simp only [Bool.or_eq_true, Bool.not_eq_true', List.all_eq_true, beq_iff_eq] at hok
      rcases hok with (hidle | haccepts) | hall
      · rw [(h v' e he).empty (clears_eq_false he hidle)] at hl
        cases hl
      · cases hclears : s.clears v' with
        | false =>
            rw [(h v' e he).empty (clears_eq_false he hclears)] at hl
            cases hl
        | true =>
            rw [hno hclears] at haccepts
            cases haccepts
      · exact hall l hl
  · rw [view_unlink hv] at he'
    exact hclear v' e' he'

/-- A view's entry changed, and what is shown of it. -/
theorem OnScreens.update {s' : State} {v : ViewId} {ls : List (Held × Hold)} (h : OnScreens s c.shown)
    (hother : ∀ v', v' ≠ v → s'.view v' = s.view v') (hself : ∀ e, s'.view v = some e → OnScreen e ls) :
    OnScreens s' (Function.update c.shown v ls) := by
  intro v' e he
  rw [Function.update_apply]
  split
  · rename_i hv
    exact hself e (hv ▸ he)
  · rename_i hv
    rw [hother v' hv] at he
    exact h v' e he

/-- The layers of a frame are held, for a frame has fewer of them than a view may hold. -/
theorem OnScreens.submit (hmax : w.maxLayers ≤ maxUnfenced) (h : OnScreens s c.shown) (hs : c.state = s) (v : ViewId)
    (roots : List WlSurface) : OnScreens (s.submitTree w v roots).2 ((ScreenOp.submits v roots).shows w c) := by
  subst hs
  unfold ScreenOp.shows
  dsimp only
  by_cases hempty : (c.state.build w roots).isEmpty = true
  · rw [if_pos hempty]
    intro v' e he
    rw [view_submitTree, if_pos hempty] at he
    exact OnScreens.clearView (s := c.state.ask) h v v' e he
  · rw [if_neg hempty]
    have hview := view_submitTree (w := w) c.state v roots
    simp only [if_neg hempty] at hview
    cases hv : c.state.view v with
    | none =>
        intro v' e he
        rw [hview, hv] at he
        exact h v' e he
    | some e =>
        cases hsub : w.submit c.state.ask.asked with
        | accepted release =>
            simp only [hv, hsub] at hview ⊢
            refine h.update (fun v' hne => by rw [hview, if_neg hne]) fun e' he' => ?_
            rw [hview, if_pos rfl] at he'
            cases he'
            have hlen : ([] : List (Nat × Held)).length + (c.state.released w roots release).length ≤ maxUnfenced := by
              simp only [released, List.length_map, List.length_zipIdx, List.length_take, List.length_nil]
              omega
            obtain ⟨-, -, htags⟩ := Holds.holdAll_keeps v (e.seq + 1) _ (List.append_nil _).symm hlen
            exact ⟨htags, fun hidle => by simp at hidle⟩
        | _ =>
            intro v' e' he'
            rw [hview, hv, hsub] at he'
            exact h v' e' he'

/-- A report of a frame the view submitted lets go of none that is shown. -/
theorem OnScreens.report (h : OnScreens s c.shown) {v : ViewId} {r : Report}
    (hok : ((s.view v).all fun e => decide (r.seq ≤ e.seq)) = true) : OnScreens (s.takeReport v r).2 c.shown := by
  unfold takeReport
  cases hv : s.view v with
  | none => exact h
  | some e =>
      dsimp only
      intro v' e' he'
      rw [view_log, view_modifyView, hv] at he'
      split at he'
      · rename_i hvv
        cases he'
        rw [hv, Option.all_some, decide_eq_true_eq] at hok
        have hold := h v e hv
        rw [hvv]
        refine ⟨fun l hl => ?_, hold.empty⟩
        have hkept := hold.keeps l hl
        obtain ⟨b, how⟩ := l
        cases how with
        | unfenced => exact List.mem_filter.mpr ⟨hkept, by simpa using hok⟩
        | fence key => exact hkept
        | free => trivial
      · exact h v' e' he'

/-- A fence that signals frees the buffer it was handed back for. -/
theorem OnScreens.signal (h : OnScreens s c.shown) (v : ViewId) (key : Nat) :
    OnScreens (s.modifyView v fun e => { e with holds := e.holds.signaled key })
      (Function.update c.shown v ((c.shown v).map fun l => if l.2 = .fence key then (l.1, .free) else l)) := by
  refine h.update (fun v' hne => by rw [view_modifyView, if_neg hne]) fun e' he' => ?_
  rw [view_modifyView, if_pos rfl] at he'
  obtain ⟨e, he, rfl⟩ := Option.map_eq_some_iff.mp he'
  have hold := h v e he
  refine ⟨fun l hl => ?_, fun hidle => by rw [hold.empty hidle]; rfl⟩
  obtain ⟨l', hl', rfl⟩ := List.mem_map.mp hl
  have hkept := hold.keeps l' hl'
  obtain ⟨b, how⟩ := l'
  cases how with
  | unfenced => exact hkept
  | free => trivial
  | fence key' =>
      by_cases hk : key' = key
      · rw [if_pos (by rw [hk])]
        trivial
      · rw [if_neg (by simpa using hk)]
        exact List.mem_filter.mpr ⟨hkept, by simpa using hk⟩

theorem step_onScreens (hmax : w.maxLayers ≤ maxUnfenced) (op : ScreenOp) (hok : c.holdsOn w op = true)
    (h : OnScreens c.state c.shown) : OnScreens (c.step w op).state (c.step w op).shown := by
  cases op with
  | submits v roots => exact h.submit hmax rfl v roots
  | clears v => exact h.clearView v
  | unbinds v => exact h.unbind hok
  | reports v r => exact h.report hok
  | signals v key => exact h.signal v key
  | binds v t =>
      intro v' e' he'
      change (c.state.link v t).view v' = some e' at he'
      simp only [link, view_log, view_modifyView, view_modifyToplevel] at he'
      split at he'
      · rename_i hv
        obtain ⟨e, he, rfl⟩ := Option.map_eq_some_iff.mp he'
        rw [hv]
        exact ⟨(h v e he).keeps, (h v e he).empty⟩
      · exact h v' e' he'
  | creates view =>
      refine h.update (fun v' hne => ?_) fun e' _ => .nil e'
      change (c.state.insertView view).view v' = _
      simp only [insertView, State.view, Table.get_insert, if_neg hne]
  | disposes v =>
      refine h.update (fun v' hne => ?_) fun e' _ => .nil e'
      change (c.state.eraseView v).view v' = _
      simp only [eraseView, State.view, Table.get_erase, if_neg hne]

/-- In every run whose views let toplevels go only when the shell no longer shows what they hold, and whose reports
are of frames submitted, every buffer on screen is held, unless its fence signaled or could not be watched. -/
theorem run_kept (w : World) (hmax : w.maxLayers ≤ maxUnfenced) (ops : List ScreenOp)
    (hok : Runs.Meets (step w) (fun c op => c.holdsOn w op = true) (start w) ops) : (run w ops).Kept := by
  have hempty : OnScreens (start w).state (start w).shown := by
    intro v e hv
    simp [start, IhsWl.run, State.view] at hv
  have hall : OnScreens (run w ops).state (run w ops).shown :=
    hok.keeps (P := fun c => OnScreens c.state c.shown) (fun c op hok h => step_onScreens hmax op hok h) hempty
  exact fun v e hv l hl hne => ((hall v e hv).keeps l hl).buffers hne

/-- A view shows a frame, and its toplevel goes. -/
def goneRun : List ScreenOp := [.creates { uid := 0, id := 1 }, .submits 1 [1], .unbinds 1]

theorem run_kept_gone : (run World.granting goneRun).Kept := run_kept World.granting (by decide) goneRun (by decide +kernel)

/-- As `World.granting`, but the shell refuses what it is handed third. -/
def refusing : World := { World.granting with submit := fun i => if i = 2 then .refused else .accepted [] }

/-- The shell refuses to show nothing, and the buffer it shows goes back to the client. -/
theorem not_kept : ¬∀ w : World, w.maxLayers ≤ maxUnfenced → ∀ ops, (run w ops).Kept := by
  intro h
  have hkept := h refusing (by decide) goneRun 1 (((run refusing goneRun).state.view 1).get (by decide +kernel))
    (Option.some_get _).symm (.client 1, .unfenced) (by decide +kernel) (by decide)
  revert hkept
  decide +kernel

end Screens

end IhsWl
