import IhsWl.Server.Lemmas.Wider

/-!
# Toplevels in their places

While no parent is given to a toplevel that is shown, a toplevel is shown in one place: what a request does to the scenes
can be said view by view.
-/

namespace IhsWl

open State

variable {w : World} {s s' : State}

/-- What a run keeps while no parent is given to a toplevel that is shown. -/
structure Placed (s : State) : Prop where
  paired : Paired s
  sound : Sound s
  rooted : Rooted s
  tidy : Tidy s

theorem Placed.empty : Placed {} := by
  refine ⟨paired_empty, .empty, fun id te hte => ?_, .empty⟩
  simp [State.toplevel] at hte

/-! ## Toplevels that are made -/

section

variable {x : WlSurface}

theorem toplevel_newToplevel_kept {id : ToplevelId} {te : ToplevelEntry} (hte : s.toplevel id = some te) :
    (s.newToplevel x).toplevel id = some te := by
  rw [toplevel_newToplevel, if_neg, hte]
  rintro rfl
  exact absurd (Toplevels.le_nextId hte) (Nat.not_succ_le_self _)

variable (hs : Placed s) (hs' : Placed (s.newToplevel x)) (hx : (s.surfaces x).hasToplevel = false)

include hs hs' hx

omit hs' in
/-- It is shown nowhere, as what its surface had before. -/
theorem newToplevel_place (y : WlSurface) :
    ((s.newToplevel x).idOf y).bind (s.newToplevel x).shownIn = (s.idOf y).bind s.shownIn := by
  have hfresh {id : ToplevelId} (hid : s.idOf y = some id) : (s.newToplevel x).shownIn id = s.shownIn id := by
    rw [shownIn_newToplevel, if_neg]
    rintro rfl
    exact absurd (hs.sound.bounded y _ hid) (Nat.not_succ_le_self _)
  rw [idOf_newToplevel]
  cases hid : s.idOf y with
  | none =>
      split
      · rename_i hxy
        rw [← hxy, hid]
        change (some (s.toplevels.nextId + 1)).bind _ = none
        rw [Option.bind_some, shownIn_newToplevel, if_pos rfl]
      · rfl
  | some id =>
      split
      · rename_i hxy
        subst hxy
        rw [hid]
        exact hfresh hid
      · exact hfresh hid

theorem boundViewOf_newToplevel {y : WlSurface} (hrole : (s.surfaces y).role = some .toplevel)
    (hrole' : ((s.newToplevel x).surfaces y).role = some .toplevel) : (s.newToplevel x).boundViewOf y = s.boundViewOf y := by
  rw [boundViewOf_eq hs'.sound hs'.tidy hrole', boundViewOf_eq hs.sound hs.tidy hrole, above_newToplevel hs.sound hs.tidy hx,
    newToplevel_place hs hx]

theorem boundViewOf_made : (s.newToplevel x).boundViewOf x = none := by
  have hrole : ((s.newToplevel x).surfaces x).role = some .toplevel := by simp [newToplevel]
  have hnone : (s.idOf x).bind s.toplevel = none := by
    rw [Option.bind_eq_none_iff]
    exact fun id hid => hs.tidy.gone x id hx hid
  have htop : s.above x = none := by
    rw [above, hnone]
    rfl
  rw [boundViewOf_eq hs'.sound hs'.tidy hrole, above_newToplevel hs.sound hs.tidy hx, Climb.climb_top htop, newToplevel_place hs hx]
  cases hid : s.idOf x with
  | none => rfl
  | some id => rw [Option.bind_some, shownIn, hs.tidy.gone x id hx hid, Option.bind_none]

theorem isDialog_newToplevel {id : ToplevelId} {te : ToplevelEntry} (hte : s.toplevel id = some te) (root : WlSurface) :
    (s.newToplevel x).isDialog root te = s.isDialog root te := by
  have hparent : ((s.newToplevel x).surfaces te.surface).parent = (s.surfaces te.surface).parent :=
    field_update Surface.parent (by rfl) te.surface
  rw [isDialog, isDialog, hparent, windowRoot_eq hs'.sound hs'.tidy (hs'.sound.windows id te (toplevel_newToplevel_kept hte)),
    windowRoot_eq hs.sound hs.tidy (hs.sound.windows id te hte), above_newToplevel hs.sound hs.tidy hx]

theorem mem_dialogs_newToplevel {root y : WlSurface} : y ∈ (s.newToplevel x).dialogs root ↔ y ∈ s.dialogs root := by
  rw [mem_dialogs, mem_dialogs]
  constructor
  · rintro ⟨id, te, hte, hd, rfl⟩
    rw [toplevel_newToplevel] at hte
    split at hte
    · cases hte
      simp [isDialog] at hd
    · exact ⟨id, te, hte, by rw [← isDialog_newToplevel hs hs' hx hte root]; exact hd, rfl⟩
  · rintro ⟨id, te, hte, hd, rfl⟩
    exact ⟨id, te, toplevel_newToplevel_kept hte, by rw [isDialog_newToplevel hs hs' hx hte root]; exact hd, rfl⟩

/-- A toplevel just made is a window of no view. -/
theorem viewWindows_newToplevel (v : ViewId) : (s.newToplevel x).viewWindows v = s.viewWindows v := by
  refine viewWindows_congr hs.sound hs'.sound ?_ fun root _ => ⟨fun y => mem_dialogs_newToplevel hs hs' hx, fun y hy => ⟨?_, ?_⟩⟩
  · change ((s.shows v).bind (s.newToplevel x).toplevel).map _ = ((s.shows v).bind s.toplevel).map _
    cases hshows : s.shows v with
    | none => rfl
    | some id =>
        obtain ⟨te, hte, -⟩ := Option.bind_eq_some_iff.mp ((hs.paired v id).mp hshows)
        rw [Option.bind_some, Option.bind_some, toplevel_newToplevel_kept hte, hte]
  · rw [windowAbove_eq hs.sound hs.tidy, windowAbove_eq hs'.sound hs'.tidy, above_newToplevel hs.sound hs.tidy hx]
  · obtain ⟨id, te, hte, hd, rfl⟩ := mem_dialogs.mp hy
    simp only [isDialog, Bool.and_eq_true] at hd
    have hid := hs.sound.mapped id te hte hd.1.1
    rw [age, age, hid, idOf_newToplevel_kept hid]

end

end IhsWl
