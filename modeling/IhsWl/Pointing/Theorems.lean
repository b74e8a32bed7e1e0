import IhsWl.Lib.Runs
import IhsWl.Pointing
import IhsWl.Seat.Lemmas.Looks

/-!
# A view's pointer stays in the view

What is under a point of a view is routed to that view, so without a grab a view's events reach its own surfaces only.
-/

namespace IhsWl

open State

/-! ## What is shown in a view is routed to it -/

variable {s : State} {v : ViewId}

/-- Every surface of a scene's trees is the view's, subsurfaces and popups included. -/
theorem Placed.boundViewOf_tree (h : Placed s) {root x : WlSurface} (hroot : root ∈ s.viewTrees v) (hx : x ∈ s.tree root) :
    s.boundViewOf x = some v := by
  -- No tree of a scene is part of another.
  have htop : s.subParent root = none := by
    rcases mem_viewTrees.mp hroot with hwindow | ⟨p, hp, rfl, -⟩
    · exact h.sound.subParent_root (Or.inl (h.sound.window_role hwindow))
    · exact h.sound.subParent_root (Or.inr (h.sound.popups p hp).1)
  have hrooted : s.rootOf x = root := by
    rcases List.mem_cons.mp hx with rfl | hx
    · exact Climb.climb_top htop _
    · exact (by simpa using (List.mem_filter.mp hx).2 : x ≠ root ∧ s.rootOf x = root).2
  have hwindow : s.toplevelOf x ∈ s.viewWindows v := by
    rw [toplevelOf, hrooted]
    rcases mem_viewTrees.mp hroot with hwindow | ⟨p, hp, rfl, hproot⟩
    · rw [if_neg (by simp [h.sound.window_role hwindow])]
      exact hwindow
    · rw [if_pos (h.sound.popups p hp).1]
      split
      · rename_i q hq
        have hsame : q = p :=
          List.inj_on_of_nodup_map h.sound.once (List.mem_of_find?_eq_some hq) hp (by simpa using List.find?_some hq)
        rwa [hsame]
      · rename_i hnone
        simpa using List.find?_eq_none.mp hnone p hp
  have hrole := h.sound.window_role hwindow
  have hsame : s.boundViewOf x = s.boundViewOf (s.toplevelOf x) := by
    rw [boundViewOf, boundViewOf, windowRoot, windowRoot, h.sound.toplevelOf_window hrole]
  rw [hsame]
  exact boundViewOf_of_mem h.sound h.rooted h.paired hwindow

namespace Pointing

variable {π : Type} {d : PointerHandle π} {w : PointWorld} {depth : Nat} {t : Pointing π}

/-- The surface, if it is one, is view `v`'s. -/
def Within (s : State) (v : ViewId) (x : Option WlSurface) : Prop := ∀ y, x = some y → s.boundViewOf y = some v

theorem surfaceUnder_within (hw : w.Lawful) (h : Placed t.seat.state) (v : ViewId) (position : Point) :
    Within t.seat.state v ((t.surfaceUnder w v position).map Prod.fst) := by
  intro y hy
  obtain ⟨⟨x, origin⟩, hunder, rfl⟩ := Option.map_eq_some_iff.mp hy
  obtain ⟨root, hroot, hhit⟩ := List.exists_of_findSome?_eq_some hunder
  exact h.boundViewOf_tree (List.mem_reverse.mp hroot) (hw _ _ _ _ _ _ hhit)

/-- The pointer stays in view `v`: without a grab it is on one of its surfaces or on none. -/
def Confined (d : PointerHandle π) (v : ViewId) (t : Pointing π) : Prop :=
  d.isGrabbed t.pointer = false → Within t.seat.state v (d.currentFocus t.pointer)

theorem motion_confined (hd : d.Lawful) {focus : Option (WlSurface × Point)} {position : Point} {time : Nat}
    (hgrab : d.isGrabbed t.pointer = false) (hfocus : Within t.seat.state v (focus.map Prod.fst)) :
    Within t.seat.state v (d.currentFocus (t.motion d focus position time).pointer) := by
  rw [motion, (hd.motion t.pointer focus position time hgrab).1]
  exact hfocus

theorem frame_confined (hd : d.Lawful) (h : t.Confined d v) : (t.frame d).Confined d v := by
  intro hgrab
  rw [frame, (hd.frame t.pointer).2] at hgrab
  rw [frame, (hd.frame t.pointer).1]
  exact h hgrab

theorem approach_within (hd : d.Lawful) (hw : w.Lawful) (hs : Placed t.seat.state) (hgrab : d.isGrabbed t.pointer = false)
    (v : ViewId) (position : Point) (time : Nat) :
    Within t.seat.state v (d.currentFocus (t.approach d w v position time).pointer) := by
  unfold approach
  split
  · exact motion_confined hd hgrab (surfaceUnder_within hw hs v position)
  · rename_i hin
    simp only [Bool.or_eq_true, Bool.not_eq_true', not_or, Bool.not_eq_false] at hin
    intro y hy
    have hview := hin.2
    rw [pointerInView, hy] at hview
    simpa using hview

theorem approach_rest (v : ViewId) (position : Point) (time : Nat) : (t.approach d w v position time).seat = t.seat ∧
    (t.approach d w v position time).left = t.left ∧ (t.approach d w v position time).clicks = t.clicks := by
  unfold approach
  split <;> exact ⟨rfl, rfl, rfl⟩

theorem refocus_rest (focus : Option (WlSurface × Point)) (position : Point) (time : Nat) :
    (t.refocus d focus position time).seat = t.seat ∧ (t.refocus d focus position time).clicks = t.clicks := by
  unfold refocus
  split <;> exact ⟨rfl, rfl⟩

theorem refocus_focus (hd : d.Lawful) (hgrab : d.isGrabbed t.pointer = false) (focus : Option (WlSurface × Point))
    (position : Point) (time : Nat) : d.currentFocus (t.refocus d focus position time).pointer = focus.map Prod.fst := by
  unfold refocus
  split
  · exact (hd.motion _ _ _ _ hgrab).1
  · rename_i hsame
    exact (not_not.mp hsame).symm

theorem settle_rest (v : ViewId) (position : Point) (time : Nat) :
    (t.settle d w v position time).seat = t.seat ∧ (t.settle d w v position time).clicks = t.clicks := by
  rw [settle]
  by_cases hgrab : d.isGrabbed t.pointer = true
  · rw [if_pos hgrab]
    exact ⟨rfl, rfl⟩
  · rw [if_neg hgrab]
    exact refocus_rest _ position time

theorem settle_focus (hd : d.Lawful) (v : ViewId) (position : Point) (time : Nat)
    (hgrab : d.isGrabbed (t.settle d w v position time).pointer = false) :
    d.currentFocus (t.settle d w v position time).pointer =
      (if t.left then none else t.surfaceUnder w v position).map Prod.fst := by
  by_cases hgrabbed : d.isGrabbed t.pointer = true
  · rw [settle, if_pos hgrabbed, hgrabbed] at hgrab
    cases hgrab
  · rw [settle, if_neg hgrabbed]
    exact refocus_focus hd (by simpa using hgrabbed) _ position time

/-- No parent is given to a toplevel a view shows. -/
def Places (t : Pointing π) : PointingOp π → Prop
  | .seat op => Seat.Guarded (fun s e => keepsPlace s e = true) t.seat op
  | _ => True

instance (t : Pointing π) : (op : PointingOp π) → Decidable (Places t op)
  | .seat op => inferInstanceAs (Decidable (Seat.Guarded (fun s e => keepsPlace s e = true) t.seat op))
  | .pointer _ _ | .turns _ => .isTrue trivial

/-- What an event of view `v` comes to. -/
structure Confines (d : PointerHandle π) (t t' : Pointing π) (v : ViewId) (ev : PointerEvent) : Prop where
  /-- The pointer goes to surfaces of the view only. -/
  goes : ev.kind = .enter ∨ ev.kind = .motion → d.isGrabbed t.pointer = false → t'.Confined d v
  /-- And is on none once it left. -/
  leaves : ev.kind = .leave → d.isGrabbed t.pointer = false →
    ∀ x, d.currentFocus t'.pointer = some x → t.seat.state.boundViewOf x ≠ some v
  /-- A press without a grab reaches a surface of the view, if any. -/
  presses : ev.kind = .button → d.isGrabbed t.pointer = false →
    ∃ x, t'.clicks = t.clicks ++ [(x, ev.button, ev.pressed != 0)] ∧ Within t.seat.state v x
  /-- Once no grab is left, the pointer is back in the view, or on nothing if it left. -/
  settles : ev.kind = .button → t'.Confined d v ∧ (t.left = true → d.isGrabbed t'.pointer = false →
    d.currentFocus t'.pointer = none)

theorem pointerInput_confines (hd : d.Lawful) (hw : w.Lawful) (hs : Placed t.seat.state) (v : ViewId) (ev : PointerEvent) :
    Confines d t (t.pointerInput d w v ev) v ev := by
  refine ⟨fun hkind hgrab => ?_, fun hkind hgrab => ?_, fun hkind hgrab => ?_, fun hkind => ?_⟩
  · have hmoved : (t.pointerInput d w v ev) = (({ t with left := false } : Pointing π).motion d
        (t.surfaceUnder w v (w.clientPoint t.seat v ev.position)) (w.clientPoint t.seat v ev.position)
        (timeMs ev.timeUs)).frame d := by
      rcases hkind with hkind | hkind <;> rw [pointerInput, hkind] <;> rfl
    rw [hmoved]
    exact frame_confined hd fun _ => motion_confined hd hgrab (surfaceUnder_within hw hs v _)
  · intro x hx hbound
    simp only [pointerInput, hkind] at hx
    split at hx
    · rename_i hout
      simp [pointerInView, hx, hbound] at hout
    · have hnone := (hd.motion t.pointer none (w.clientPoint t.seat v ev.position) (timeMs ev.timeUs) hgrab).1
      rw [frame, (hd.frame _).1, motion, hnone] at hx
      cases hx
  · have hclicks : (t.pointerInput d w v ev).clicks =
        (t.approach d w v (w.clientPoint t.seat v ev.position) (timeMs ev.timeUs)).clicks ++
          [(d.currentFocus (t.approach d w v (w.clientPoint t.seat v ev.position) (timeMs ev.timeUs)).pointer, ev.button,
            ev.pressed != 0)] := by
      rw [pointerInput, hkind]
      exact settle_rest _ _ _ |>.2
    rw [approach_rest _ _ _ |>.2.2] at hclicks
    exact ⟨_, hclicks, approach_within hd hw hs hgrab v _ _⟩
  · obtain ⟨t₁, hbutton, hseat, hleft⟩ : ∃ t₁ : Pointing π, t.pointerInput d w v ev =
        (t₁.settle d w v (w.clientPoint t.seat v ev.position) (timeMs ev.timeUs)).frame d ∧ t₁.seat = t.seat ∧
        t₁.left = t.left := by
      refine ⟨_, by rw [pointerInput, hkind], ?_, ?_⟩
      · exact (approach_rest v _ _).1
      · exact (approach_rest v _ _).2.1
    rw [hbutton]
    have hsettled : d.isGrabbed ((t₁.settle d w v (w.clientPoint t.seat v ev.position)
      (timeMs ev.timeUs)).frame d).pointer = false →
        d.currentFocus ((t₁.settle d w v (w.clientPoint t.seat v ev.position) (timeMs ev.timeUs)).frame d).pointer =
          (if t.left then none else t₁.surfaceUnder w v (w.clientPoint t.seat v ev.position)).map Prod.fst := by
      intro hgrab
      rw [frame, (hd.frame _).2] at hgrab
      rw [frame, (hd.frame _).1, settle_focus hd v _ _ hgrab, hleft]
    refine ⟨fun hgrab => ?_, fun hgone hgrab => ?_⟩
    · have hunder := surfaceUnder_within hw (hseat ▸ hs : Placed t₁.seat.state) v (w.clientPoint t.seat v ev.position)
      rw [hsettled hgrab, frame, (settle_rest _ _ _).1]
      split
      · simp [Within]
      · exact hunder
    · rw [hsettled hgrab, if_pos hgone]
      rfl

/-! ## Runs -/

theorem pointerInput_seat (v : ViewId) (ev : PointerEvent) (t : Pointing π) : (t.pointerInput d w v ev).seat = t.seat := by
  unfold pointerInput
  dsimp only
  split
  · rfl
  · rfl
  · split <;> rfl
  · exact (settle_rest v _ _).1.trans (approach_rest v _ _).1
  · rfl

theorem step_placed (hs : Placed t.seat.state) {op : PointingOp π} (hop : Places t op) :
    Placed (t.step d w depth op).seat.state := by
  cases op with
  | pointer v ev =>
      rw [step, pointerInput_seat]
      exact hs
  | seat op => exact hs.acts (Seat.step_acts hs.paired hop)
  | turns pointer => exact hs

theorem run_confines (hd : d.Lawful) (hw : w.Lawful) (p : π) {ops : List (PointingOp π)}
    (hops : Runs.Meets (step d w depth) Places (run d w depth p []) ops) (v : ViewId) (ev : PointerEvent) :
    Confines d (run d w depth p ops) ((run d w depth p ops).pointerInput d w v ev) v ev := by
  have hplaced : Placed (run d w depth p ops).seat.state :=
    hops.keeps (P := fun t => Placed t.seat.state) (fun _ _ hop hs => step_placed hs hop) .empty
  exact pointerInput_confines hd hw hplaced v ev

theorem click_lawful : PointerHandle.click.Lawful := by
  refine ⟨fun p focus position time hgrab => ?_, fun p => ⟨rfl, rfl⟩⟩
  have hnone : p.pressed = [] := by simpa [PointerHandle.click] using hgrab
  simp [PointerHandle.click, hnone]

theorem flat_lawful : PointWorld.flat.Lawful := by
  intro c v root position x origin hunder
  obtain ⟨rfl, -⟩ := Prod.mk.inj (Option.some.inj hunder)
  exact List.mem_cons_self

/-- The pointer enters a view that shows a window. -/
def enterRun : List (PointingOp ClickPointer) :=
  [.seat (.event (.newToplevel 10)), .seat (.event (.commit { main := { surface := 10 } })),
    .seat (.event (.cmd (.viewCreated { uid := 0, id := 1 }))), .pointer 1 { kind := .enter }]

theorem run_confines_click : Runs.Meets (step .click .flat 1) Places (run .click .flat 1 {} []) enterRun ∧
    ((run .click .flat 1 {} enterRun).pointerInput .click .flat 1 { kind := .button, button := 272, pressed := 1 }).clicks =
      [(some 10, 272, true)] ∧
    Confines .click (run .click .flat 1 {} enterRun)
      ((run .click .flat 1 {} enterRun).pointerInput .click .flat 1 { kind := .button, button := 272, pressed := 1 }) 1
      { kind := .button, button := 272, pressed := 1 } := by
  have hops : Runs.Meets (step .click .flat 1) Places (run .click .flat 1 {} []) enterRun := by decide +kernel
  exact ⟨hops, by decide +kernel, run_confines click_lawful flat_lawful {} hops 1 _⟩

end Pointing

end IhsWl
