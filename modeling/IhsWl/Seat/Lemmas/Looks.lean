import IhsWl.Seat.Lemmas.Acts
import IhsWl.Server.Lemmas.Placed

/-!
# What the states of windows are worked out from

Where toplevels are shown, and which requests leave every toplevel the states it should have.
-/

namespace IhsWl

open State

variable {w : SeatWorld} {s s' t : State} {c c' : Seat} {frees : Frees}

theorem Placed.acts (h : Placed s) (ha : Acts w.toWorld (fun s e => keepsPlace s e = true) s s') : Placed s' := by
  obtain ⟨hp, hsound, hr, ht⟩ := ha.keeps (P := fun s => Sound s ∧ Rooted s ∧ Tidy s)
    (fun _ h ha => ⟨h.1.act ha, h.2.1.act h.1 ha, h.2.2.act h.1 ha⟩) ⟨h.paired, h.sound, h.rooted, h.tidy⟩
  exact ⟨hp, hsound, hr, ht⟩

/-! ## The states a toplevel should have -/

/-- The toplevel a view shows is routed to it. -/
theorem Placed.home (h : Placed s) {v : ViewId} {e : ViewEntry} {id : ToplevelId} {te : ToplevelEntry}
    (hv : s.view v = some e) (hid : e.toplevel = some id) (hte : s.toplevel id = some te) :
    s.homeOf te.surface = some v := by
  have hshows : s.shows v = some id := by rw [shows, hv]; exact hid
  have hview : te.view = some v := by
    have hshown := (h.paired v id).mp hshows
    rw [shownIn, hte] at hshown
    exact hshown
  have hbound : te.view.isSome = true := by rw [hview]; rfl
  have hmapped := h.sound.bound id te hte hbound
  have habove : s.windowAbove te.surface = none := by
    rw [h.sound.windowAbove hte hmapped, h.rooted id te hte hbound]
    rfl
  have hroot : s.windowRoot te.surface = te.surface := by
    rw [windowRoot, h.sound.toplevelOf_window (h.sound.windows id te hte)]
    exact Climb.climb_top habove _
  rw [homeOf, boundViewOf, hroot, h.sound.mapped id te hte hmapped, Option.bind_some, hte, Option.bind_some, hview,
    Option.filter_some, if_pos (by rw [hv]; rfl)]

/-- `configure_view` and `sync_states` work out the same states. -/
theorem Placed.agree (h : Placed s) {v : ViewId} {e : ViewEntry} {id : ToplevelId} {te : ToplevelEntry}
    (hv : s.view v = some e) (hid : e.toplevel = some id) (hte : s.toplevel id = some te) :
    (s.viewActivated v && (s.focusWindow v).any fun x => s.idOf x == some id) = s.activates te.surface ∧
      e.suspended = s.suspends te.surface := by
  have hhome := h.home hv hid hte
  have hmapped : te.mapped = true := by
    refine h.sound.bound id te hte ?_
    have hshown := (h.paired v id).mp (by rw [shows, hv]; exact hid)
    rw [shownIn, hte] at hshown
    rw [show te.view = some v from hshown]
    rfl
  rw [activates, suspends, hhome, Option.any_some, Option.any_some, hv, Option.any_some]
  refine ⟨congrArg _ ?_, rfl⟩
  cases hw : s.focusWindow v with
  | none => rfl
  | some x =>
      rw [Option.any_some, Bool.eq_iff_iff, beq_iff_eq, beq_iff_eq, Option.some.injEq]
      constructor
      · intro hx
        exact (h.sound.own x id te hx hte).symm
      · rintro rfl
        exact h.sound.mapped id te hte hmapped

/-- The window the keyboard goes to is the only one that is active. -/
theorem Placed.activates_iff (h : Placed s) (x : WlSurface) : s.activates x = true ↔ s.target = some x := by
  rw [activates, target, Option.any_eq_true]
  simp only [viewActivated, Bool.and_eq_true, beq_iff_eq, Option.bind_eq_some_iff, Option.filter_eq_some_iff]
  constructor
  · rintro ⟨v, -, ⟨hfocus, hshown⟩, hwindow⟩
    exact ⟨v, ⟨hfocus, hshown⟩, hwindow⟩
  · rintro ⟨v, ⟨hfocus, hshown⟩, hwindow⟩
    refine ⟨v, ?_, ⟨hfocus, hshown⟩, hwindow⟩
    have hmem : x ∈ s.viewWindows v := List.mem_of_getLast? hwindow
    rw [homeOf, boundViewOf_of_mem h.sound h.rooted h.paired hmem, Option.filter_some, if_pos]
    obtain ⟨e, he, -⟩ := (Option.any_eq_true _ _).mp hshown
    rw [he]
    rfl

/-- A window of a view is a toplevel that is there. -/
theorem Placed.window_live (h : Placed s) {v : ViewId} {x : WlSurface} (hx : x ∈ s.viewWindows v) :
    ∃ id te, s.idOf x = some id ∧ s.toplevel id = some te ∧ te.surface = x := by
  obtain ⟨root, hroot, hx⟩ := exists_viewRoot hx
  rcases h.sound.mem_windowsOver hx with rfl | ⟨id, te, hte, hd, rfl⟩
  · obtain ⟨id, te, hte, hsurface, -, hid, -⟩ := viewRoot_spec h.sound h.rooted h.paired hroot
    exact ⟨id, te, hid, hte, hsurface⟩
  · simp only [isDialog, Bool.and_eq_true] at hd
    exact ⟨id, te, h.sound.mapped id te hte hd.1.1, hte, rfl⟩

/-- Of that one alone. -/
theorem Placed.active_unique (h : Placed s) {id id' : ToplevelId} {te te' : ToplevelEntry} (hte : s.toplevel id = some te)
    (hte' : s.toplevel id' = some te') (htarget : s.target = some te.surface) (hsame : te'.surface = te.surface) : id = id' := by
  obtain ⟨v, -, hwindow⟩ := Option.bind_eq_some_iff.mp htarget
  obtain ⟨id₀, te₀, hid₀, hte₀, -⟩ := h.window_live (List.mem_of_getLast? hwindow)
  have hsome : (s.toplevel id₀).isSome = true := by rw [hte₀]; rfl
  rw [← h.tidy.lone id te id₀ hte hid₀ hsome]
  exact h.tidy.lone id' te' id₀ hte' (by rw [hsame]; exact hid₀) hsome

/-! ## Nothing to tell -/

/-- No toplevel should have other states than before, nor the keyboard another focus. -/
structure Looks (s s' : State) : Prop where
  target : s'.target = s.target
  states : ∀ id te', s'.toplevel id = some te' → ∃ te, s.toplevel id = some te ∧
    s'.activates te'.surface = s.activates te.surface ∧ s'.suspends te'.surface = s.suspends te.surface

theorem Looks.refl (s : State) : Looks s s := ⟨rfl, fun _ te hte => ⟨te, hte, rfl, rfl⟩⟩

/-- What states are worked out from: the views that show something, who of them has the focus, and their windows. -/
structure SameViews (s s' : State) : Prop where
  focus : ∀ v, (s.shows v).isSome = true → (s'.focusedView = some v ↔ s.focusedView = some v)
  suspended : ∀ v, (s.shows v).isSome = true → (s'.view v).map ViewEntry.suspended = (s.view v).map ViewEntry.suspended
  windows : ∀ v, s'.viewWindows v = s.viewWindows v

namespace SameViews

theorem any (h : SameViews s s') {v : ViewId} (hshows : (s.shows v).isSome = true) (f : Bool → Bool) :
    ((s'.view v).any fun e => f e.suspended) = (s.view v).any fun e => f e.suspended := by
  have hmap := congrArg (Option.any f) (h.suspended v hshows)
  simpa only [Option.any_map] using hmap

theorem focusWindow (h : SameViews s s') (v : ViewId) : s'.focusWindow v = s.focusWindow v := by
  rw [State.focusWindow, h.windows, State.focusWindow]

/-- The keyboard goes where it went. -/
theorem target (h : SameViews s s') : s'.target = s.target := by
  have hiff (s₀ : State) (x : WlSurface) : s₀.target = some x ↔ ∃ v, s₀.focusedView = some v ∧
      (s₀.view v).any (fun e => !e.suspended) = true ∧ s₀.focusWindow v = some x := by
    simp only [State.target, Option.bind_eq_some_iff, Option.filter_eq_some_iff, and_assoc]
  refine Option.ext fun x => ?_
  rw [hiff, hiff]
  refine exists_congr fun v => ?_
  rw [h.focusWindow]
  -- A view that shows nothing has no window.
  cases hshows : s.shows v with
  | none =>
      have hnone : s.focusWindow v = none := by
        have hroot : s.viewRoot v = none := by
          change ((s.shows v).bind s.toplevel).map _ = none
          rw [hshows]
          rfl
        rw [State.focusWindow, viewWindows, hroot]
        rfl
      simp [hnone]
  | some t =>
      have hsome : (s.shows v).isSome = true := by rw [hshows]; rfl
      rw [h.focus v hsome, h.any hsome not]

/-- A toplevel routed where it was should have the states it had. -/
theorem states (h : SameViews s s') (hp : Paired s) {x : WlSurface} (hbound : s'.boundViewOf x = s.boundViewOf x) :
    s'.activates x = s.activates x ∧ s'.suspends x = s.suspends x := by
  rw [activates, activates, suspends, suspends, homeOf, homeOf, hbound]
  cases hb : s.boundViewOf x with
  | none => exact ⟨rfl, rfl⟩
  | some v =>
      obtain ⟨te, hte, hview⟩ := Option.bind_eq_some_iff.mp hb
      obtain ⟨id, -, hte⟩ := Option.bind_eq_some_iff.mp hte
      have hsome : (s.shows v).isSome = true := by
        rw [(hp v id).mpr (by rw [shownIn, hte]; exact hview)]
        rfl
      have hthere : (s'.view v).isSome = (s.view v).isSome := by
        have hmap := congrArg Option.isSome (h.suspended v hsome)
        simpa only [Option.isSome_map] using hmap
      have hfocus : (s'.focusedView == some v) = (s.focusedView == some v) := by
        rw [Bool.eq_iff_iff, beq_iff_eq, beq_iff_eq]
        exact h.focus v hsome
      have hactivated : s'.viewActivated v = s.viewActivated v := by
        rw [viewActivated, viewActivated, hfocus, h.any hsome not]
      simp only [Option.filter_some, hthere]
      split
      · rw [Option.any_some, Option.any_some, Option.any_some, Option.any_some, hactivated, h.focusWindow]
        exact ⟨rfl, h.any hsome fun b => b⟩
      · exact ⟨rfl, rfl⟩

end SameViews

/-- Where a toplevel is, but for its token. -/
def ToplevelEntry.place (te : ToplevelEntry) : WlSurface × Bool × Option ViewId := (te.surface, te.mapped, te.view)

/-- Toplevels are where they were. -/
structure SamePlaces (s s' : State) : Prop where
  ids : s'.idOf = s.idOf
  places : ∀ id, (s'.toplevel id).map ToplevelEntry.place = (s.toplevel id).map ToplevelEntry.place
  parents : ∀ id te, s.toplevel id = some te → s.idOf te.surface = some id →
    (s'.surfaces te.surface).parent = (s.surfaces te.surface).parent

theorem SamePlaces.of_desk (hdesk : SameDesk s s')
    (hplaces : ∀ id, (s'.toplevel id).map ToplevelEntry.place = (s.toplevel id).map ToplevelEntry.place) : SamePlaces s s' :=
  ⟨hdesk.idOf, hplaces, fun _ _ _ _ => by rw [hdesk.surfaces]⟩

theorem SamePlaces.entry (h : SamePlaces s s') {id : ToplevelId} {te' : ToplevelEntry} (hte : s'.toplevel id = some te') :
    ∃ te, s.toplevel id = some te ∧ te'.surface = te.surface ∧ te'.mapped = te.mapped ∧ te'.view = te.view := by
  have hmap := h.places id
  rw [hte, Option.map_some, eq_comm, Option.map_eq_some_iff] at hmap
  obtain ⟨te, hte, hplace⟩ := hmap
  simp only [ToplevelEntry.place, Prod.mk.injEq] at hplace
  exact ⟨te, hte, hplace.1.symm, hplace.2.1.symm, hplace.2.2.symm⟩

theorem SamePlaces.symm_entry (h : SamePlaces s s') {id : ToplevelId} {te : ToplevelEntry} (hte : s.toplevel id = some te) :
    ∃ te', s'.toplevel id = some te' ∧ te'.surface = te.surface ∧ te'.mapped = te.mapped ∧ te'.view = te.view := by
  have hmap := h.places id
  rw [hte, Option.map_some, Option.map_eq_some_iff] at hmap
  obtain ⟨te', hte', hplace⟩ := hmap
  simp only [ToplevelEntry.place, Prod.mk.injEq] at hplace
  exact ⟨te', hte', hplace.1, hplace.2.1, hplace.2.2⟩

theorem SamePlaces.no_entry (h : SamePlaces s s') {id : ToplevelId} (hte : s.toplevel id = none) : s'.toplevel id = none := by
  have hmap := h.places id
  rwa [hte, Option.map_none, Option.map_eq_none_iff] at hmap

theorem SamePlaces.shownIn (h : SamePlaces s s') (id : ToplevelId) : s'.shownIn id = s.shownIn id := by
  cases hte : s.toplevel id with
  | none => rw [State.shownIn, State.shownIn, hte, h.no_entry hte]
  | some te =>
      obtain ⟨te', hte', -, -, hview⟩ := h.symm_entry hte
      rw [State.shownIn, State.shownIn, hte, hte']
      exact hview

theorem SamePlaces.above (h : SamePlaces s s') (hsound : Sound s) : s'.above = s.above := by
  funext y
  rw [State.above, State.above, h.ids]
  cases hid : s.idOf y with
  | none => rfl
  | some id =>
      rw [Option.bind_some, Option.bind_some]
      cases hte : s.toplevel id with
      | none => rw [h.no_entry hte, Option.bind_none, Option.bind_none]
      | some te =>
          obtain ⟨te', hte', hsurface, -⟩ := h.symm_entry hte
          rw [hte', Option.bind_some, Option.bind_some, hsurface, h.parents id te hte (by rw [hsound.own y id te hid hte, hid])]

theorem SamePlaces.isDialog (h : SamePlaces s s') (hs : Placed s) (hs' : Placed s') {id : ToplevelId}
    {te te' : ToplevelEntry} (hte : s.toplevel id = some te) (hte' : s'.toplevel id = some te') (root : WlSurface) :
    s'.isDialog root te' = s.isDialog root te := by
  obtain ⟨te₀, hte₀, hsurface, hmapped, -⟩ := h.entry hte'
  cases hte.symm.trans hte₀
  rw [State.isDialog, State.isDialog, hmapped, hsurface]
  cases hm : te.mapped with
  | false => rfl
  | true =>
      have hrole := hs'.sound.windows id te' hte'
      rw [hsurface] at hrole
      rw [h.parents id te hte (hs.sound.mapped id te hte hm), windowRoot_eq hs'.sound hs'.tidy hrole,
        windowRoot_eq hs.sound hs.tidy (hs.sound.windows id te hte), h.above hs.sound]

/-- Where toplevels are where they were, views show the same windows. -/
theorem SamePlaces.windows (h : SamePlaces s s') (hs : Placed s) (hs' : Placed s') {v : ViewId}
    (hshows : s'.shows v = s.shows v) : s'.viewWindows v = s.viewWindows v := by
  refine viewWindows_congr hs.sound hs'.sound ?_ fun root _ => ⟨fun x => ?_, fun x _ => ⟨?_, ?_⟩⟩
  · change ((s'.shows v).bind s'.toplevel).map _ = ((s.shows v).bind s.toplevel).map _
    rw [hshows]
    cases s.shows v with
    | none => rfl
    | some id =>
        rw [Option.bind_some, Option.bind_some]
        cases hte : s.toplevel id with
        | none => rw [h.no_entry hte]
        | some te =>
            obtain ⟨te', hte', hsurface, -⟩ := h.symm_entry hte
            rw [hte', Option.map_some, Option.map_some, hsurface]
  · rw [mem_dialogs, mem_dialogs]
    constructor
    · rintro ⟨id, te', hte', hd, rfl⟩
      obtain ⟨te, hte, hsurface, -⟩ := h.entry hte'
      exact ⟨id, te, hte, by rw [← h.isDialog hs hs' hte hte' root]; exact hd, hsurface.symm⟩
    · rintro ⟨id, te, hte, hd, rfl⟩
      obtain ⟨te', hte', hsurface, -⟩ := h.symm_entry hte
      exact ⟨id, te', hte', by rw [h.isDialog hs hs' hte hte' root]; exact hd, hsurface⟩
  · rw [windowAbove_eq hs.sound hs.tidy, windowAbove_eq hs'.sound hs'.tidy, h.above hs.sound]
  · rw [age, age, h.ids]

theorem SamePlaces.boundViewOf (h : SamePlaces s s') (hs : Placed s) (hs' : Placed s') {id : ToplevelId}
    {te te' : ToplevelEntry} (hte : s.toplevel id = some te) (hte' : s'.toplevel id = some te') :
    s'.boundViewOf te.surface = s.boundViewOf te.surface := by
  obtain ⟨te₀, hte₀, hsurface, -⟩ := h.entry hte'
  cases hte.symm.trans hte₀
  have hrole := hs'.sound.windows id te' hte'
  rw [hsurface] at hrole
  rw [boundViewOf_eq hs'.sound hs'.tidy hrole, boundViewOf_eq hs.sound hs.tidy (hs.sound.windows id te hte),
    h.above hs.sound, h.ids]
  exact Option.bind_congr fun t _ => h.shownIn t

theorem SamePlaces.looks (h : SamePlaces s s') (hs : Placed s) (hs' : Placed s') (hshows : s'.shows = s.shows)
    (hfocus : ∀ v, (s.shows v).isSome = true → (s'.focusedView = some v ↔ s.focusedView = some v))
    (hviews : ∀ v, (s.shows v).isSome = true → (s'.view v).map ViewEntry.suspended = (s.view v).map ViewEntry.suspended) :
    Looks s s' := by
  have hsame : SameViews s s' := ⟨hfocus, hviews, fun v => h.windows hs hs' (congrFun hshows v)⟩
  refine ⟨hsame.target, fun id te' hte' => ?_⟩
  obtain ⟨te, hte, hsurface, -⟩ := h.entry hte'
  rw [hsurface]
  exact ⟨te, hte, hsame.states hs.paired (h.boundViewOf hs hs' hte hte')⟩

/-! ## Toplevels come and go -/

/-- A view shows a toplevel with its entry, which is bound to it. -/
theorem Placed.shown (h : Placed s) {v : ViewId} {root : WlSurface} (hroot : s.viewRoot v = some root) :
    ∃ id, s.idOf root = some id ∧ s.shownIn id = some v ∧ s.above root = none := by
  obtain ⟨id, te, hte, hsurface, hview, hid, hparent, -⟩ := viewRoot_spec h.sound h.rooted h.paired hroot
  refine ⟨id, hid, by rw [shownIn, hte]; exact hview, ?_⟩
  rw [above, hid, Option.bind_some, hte, Option.bind_some, hsurface, hparent]

/-- What is on the way up to a toplevel that is shown is routed where that is. -/
theorem Placed.routed (h : Placed s) {x y : WlSurface} {v : ViewId} (hrole : (s.surfaces x).role = some .toplevel)
    (hx : x ∈ Climb.path s.above maxDepth y) (hroot : s.viewRoot v = some (Climb.climb s.above maxDepth y)) :
    s.boundViewOf x = some v := by
  obtain ⟨id, hid, hshown, htop⟩ := h.shown hroot
  rw [boundViewOf_eq h.sound h.tidy hrole, Climb.climb_of_mem_path htop hx le_rfl, hid]
  exact hshown

theorem newToplevel_sameViews {x : WlSurface} (hs : Placed s) (hs' : Placed (s.newToplevel x))
    (hx : (s.surfaces x).hasToplevel = false) : SameViews s (s.newToplevel x) :=
  ⟨fun _ _ => Iff.rfl, fun _ _ => rfl, viewWindows_newToplevel hs hs' hx⟩

/-- The toplevel `id` of `x` is a window of no view. -/
structure Unseen (s : State) (x : WlSurface) (id : ToplevelId) : Prop where
  own : s.idOf x = some id
  role : (s.surfaces x).role = some .toplevel
  shown : s.shownIn id = none
  bound : s.boundViewOf x = none

namespace Unseen

variable {x y root : WlSurface} {id : ToplevelId} {v : ViewId} {te : ToplevelEntry}

theorem shownIn (h : Unseen s x id) : (s.removeToplevel id).shownIn = s.shownIn := by
  funext t
  rw [shownIn_removeToplevel]
  split
  · rename_i ht
    rw [ht, h.shown]
  · rfl

/-- Where `x` was on the way up, the way ends there now. -/
theorem climb (h : Unseen s x id) (hs : Placed s) (hte : s.toplevel id = some te) (y : WlSurface) :
    Climb.climb (s.removeToplevel id).above maxDepth y = Climb.climb s.above maxDepth y ∨
      Climb.climb (s.removeToplevel id).above maxDepth y = x ∧ x ∈ Climb.path s.above maxDepth y := by
  refine Climb.climb_cut (fun z hz => ?_) ?_ maxDepth y
  · rw [above_removeToplevel, if_neg]
    exact fun hid => hz ((hs.sound.own z id te hid hte).symm.trans (hs.sound.own x id te h.own hte))
  · rw [above_removeToplevel, if_pos h.own]

/-- What is over `x` is routed to no view. -/
theorem not_over (h : Unseen s x id) (hs : Placed s) (hmem : x ∈ Climb.path s.above maxDepth y) :
    s.viewRoot v ≠ some (Climb.climb s.above maxDepth y) := by
  intro hroot
  have hbound := h.bound
  rw [hs.routed h.role hmem hroot] at hbound
  cases hbound

theorem boundViewOf (h : Unseen s x id) (hs : Placed s) (hs' : Placed (s.removeToplevel id)) (hte : s.toplevel id = some te)
    (hy : (s.surfaces y).role = some .toplevel) : (s.removeToplevel id).boundViewOf y = s.boundViewOf y := by
  rw [boundViewOf_eq hs'.sound hs'.tidy hy, boundViewOf_eq hs.sound hs.tidy hy]
  change (s.idOf _).bind (s.removeToplevel id).shownIn = _
  rw [h.shownIn]
  rcases h.climb hs hte y with hsame | ⟨hend, hmem⟩
  · rw [hsame]
  · rw [hend, h.own, Option.bind_some, h.shown, eq_comm, Option.eq_none_iff_forall_ne_some]
    intro v hv
    rw [← boundViewOf_eq hs.sound hs.tidy hy, boundViewOf_iff hs.sound hs.rooted hs.paired, windowRoot_eq hs.sound hs.tidy hy] at hv
    exact h.not_over hs hmem hv

theorem over_iff (h : Unseen s x id) (hs : Placed s) (hte : s.toplevel id = some te) (hroot : s.viewRoot v = some root) :
    Climb.climb (s.removeToplevel id).above maxDepth y = root ↔ Climb.climb s.above maxDepth y = root := by
  rcases h.climb hs hte y with hsame | ⟨hend, hmem⟩
  · rw [hsame]
  · constructor
    · rintro rfl
      -- `x` is what no view shows.
      obtain ⟨id₀, hid₀, hshown₀, -⟩ := hs.shown hroot
      rw [hend, h.own] at hid₀
      cases hid₀
      rw [h.shown] at hshown₀
      cases hshown₀
    · rintro rfl
      exact absurd hroot (h.not_over hs hmem)

theorem isDialog (h : Unseen s x id) (hs : Placed s) (hs' : Placed (s.removeToplevel id)) (hte : s.toplevel id = some te)
    {id₁ : ToplevelId} {te₁ : ToplevelEntry} (hte₁ : s.toplevel id₁ = some te₁) (hroot : s.viewRoot v = some root) :
    (s.removeToplevel id).isDialog root te₁ = s.isDialog root te₁ := by
  have hrole := hs.sound.windows id₁ te₁ hte₁
  rw [State.isDialog, State.isDialog, windowRoot_eq hs'.sound hs'.tidy hrole, windowRoot_eq hs.sound hs.tidy hrole, Bool.eq_iff_iff]
  simp only [Bool.and_eq_true, beq_iff_eq, h.over_iff hs hte hroot]
  rfl

theorem not_dialog (h : Unseen s x id) (hs : Placed s) (hte : s.toplevel id = some te) (hroot : s.viewRoot v = some root) :
    s.isDialog root te = false := by
  rw [Bool.eq_false_iff]
  intro hd
  simp only [State.isDialog, Bool.and_eq_true, beq_iff_eq] at hd
  rw [hs.sound.own x id te h.own hte] at hd
  have hbound := h.bound
  rw [(boundViewOf_iff hs.sound hs.rooted hs.paired).mpr (by rw [hroot, hd.2])] at hbound
  cases hbound

theorem mem_dialogs (h : Unseen s x id) (hs : Placed s) (hs' : Placed (s.removeToplevel id)) (hte : s.toplevel id = some te)
    (hroot : s.viewRoot v = some root) : y ∈ (s.removeToplevel id).dialogs root ↔ y ∈ s.dialogs root := by
  rw [State.mem_dialogs, State.mem_dialogs]
  constructor
  · rintro ⟨id₁, te₁, hte₁, hd, rfl⟩
    rw [toplevel_removeToplevel] at hte₁
    split at hte₁
    · cases hte₁
    · exact ⟨id₁, te₁, hte₁, by rw [← h.isDialog hs hs' hte hte₁ hroot]; exact hd, rfl⟩
  · rintro ⟨id₁, te₁, hte₁, hd, rfl⟩
    have hne : id₁ ≠ id := by
      rintro rfl
      cases hte.symm.trans hte₁
      rw [h.not_dialog hs hte hroot] at hd
      cases hd
    exact ⟨id₁, te₁, by rw [toplevel_removeToplevel, if_neg hne]; exact hte₁, by rw [h.isDialog hs hs' hte hte₁ hroot]; exact hd, rfl⟩

theorem sameViews (h : Unseen s x id) (hs : Placed s) (hs' : Placed (s.removeToplevel id)) (hte : s.toplevel id = some te) :
    SameViews s (s.removeToplevel id) := by
  refine ⟨fun _ _ => Iff.rfl, fun _ _ => rfl, fun v => ?_⟩
  refine viewWindows_congr hs.sound hs'.sound ?_ fun root hroot => ⟨fun y => h.mem_dialogs hs hs' hte hroot, fun y hy => ⟨?_, rfl⟩⟩
  · change ((s.shows v).bind (s.removeToplevel id).toplevel).map _ = ((s.shows v).bind s.toplevel).map _
    cases hshows : s.shows v with
    | none => rfl
    | some id₀ =>
        have hne : id₀ ≠ id := by
          rintro rfl
          have hshown := h.shown
          rw [(hs.paired v id₀).mp hshows] at hshown
          cases hshown
        rw [Option.bind_some, Option.bind_some, toplevel_removeToplevel, if_neg hne]
  · obtain ⟨id₁, te₁, hte₁, hd, rfl⟩ := State.mem_dialogs.mp hy
    rw [windowAbove_eq hs.sound hs.tidy, windowAbove_eq hs'.sound hs'.tidy, above_removeToplevel, if_neg]
    intro hid
    have hmapped : te₁.mapped = true := by
      simp only [State.isDialog, Bool.and_eq_true] at hd
      exact hd.1.1
    cases hid.symm.trans (hs.sound.mapped id₁ te₁ hte₁ hmapped)
    cases hte.symm.trans hte₁
    rw [h.not_dialog hs hte hroot] at hd
    cases hd

/-- A toplevel that is a window of no view goes unnoticed. -/
theorem looks (h : Unseen s x id) (hs : Placed s) (hs' : Placed (s.removeToplevel id)) : Looks s (s.removeToplevel id) := by
  cases hte : s.toplevel id with
  | none =>
      have hsame (t : ToplevelId) : (s.removeToplevel id).toplevel t = s.toplevel t := by
        rw [toplevel_removeToplevel]
        split
        · rename_i ht
          rw [ht, hte]
        · rfl
      refine SamePlaces.looks ⟨rfl, fun t => ?_, fun _ _ _ _ => rfl⟩ hs hs' rfl (fun _ _ => Iff.rfl) fun _ _ => rfl
      rw [hsame]
  | some te =>
      have hviews := h.sameViews hs hs' hte
      refine ⟨hviews.target, fun id₁ te₁ hte₁ => ?_⟩
      rw [toplevel_removeToplevel] at hte₁
      split at hte₁
      · cases hte₁
      · exact ⟨te₁, hte₁, hviews.states hs.paired (h.boundViewOf hs hs' hte (hs.sound.windows id₁ te₁ hte₁))⟩

end Unseen

section

variable {x : WlSurface}

/-- Its role data is reset once it is gone. -/
theorem resetToplevel_looks (hs : Placed s) (hs' : Placed (s.resetToplevel x)) (hgone : ∀ id, s.idOf x = some id → s.toplevel id = none) :
    Looks s (s.resetToplevel x) := by
  have hids : (s.resetToplevel x).idOf = s.idOf := funext fun y => field_update Surface.toplevelId (by rfl) y
  refine SamePlaces.looks ⟨hids, fun _ => rfl, fun id te hte hid => ?_⟩ hs hs' rfl (fun _ _ => Iff.rfl) fun _ _ => rfl
  have hne : te.surface ≠ x := by
    intro hx
    rw [hgone id (hx ▸ hid)] at hte
    cases hte
  simp [resetToplevel, hne]

end

/-! ## What has no part in it -/

/-- Neither popups nor subsurfaces, nor tokens, nor what is logged. -/
theorem Looks.of_rest (hs : Placed s) (hs' : Placed s') (htoplevels : s'.toplevels = s.toplevels) (hviews : s'.views = s.views)
    (hfocus : s'.focusedView = s.focusedView)
    (hsurfaces : ∀ y, (s'.surfaces y).toplevelId = (s.surfaces y).toplevelId ∧ (s'.surfaces y).parent = (s.surfaces y).parent) :
    Looks s s' := by
  have hview : s'.view = s.view := by
    funext v
    rw [State.view, State.view, hviews]
  refine SamePlaces.looks ⟨funext fun y => (hsurfaces y).1, fun id => ?_, fun _ te _ _ => (hsurfaces te.surface).2⟩ hs hs' ?_
    (fun v _ => by rw [hfocus]) fun v _ => by rw [hview]
  · rw [toplevel, toplevel, htoplevels]
  · funext v
    rw [State.shows, State.shows, hview]

/-- Nor sizes, nor who waits. -/
theorem modifyView_looks (hs : Placed s) (v : ViewId) {f : ViewEntry → ViewEntry} (hs' : Placed (s.modifyView v f))
    (htoplevel : ∀ e, (f e).toplevel = e.toplevel) (hsuspended : ∀ e, (f e).suspended = e.suspended) :
    Looks s (s.modifyView v f) := by
  have hview {α : Type} (g : ViewEntry → α) (hg : ∀ e, g (f e) = g e) (u : ViewId) :
      ((s.modifyView v f).view u).map g = (s.view u).map g := by
    rw [view_modifyView]
    split
    · rename_i huv
      rw [huv, Option.map_map]
      exact congrArg (Option.map · _) (funext hg)
    · rfl
  refine SamePlaces.looks (.of_desk ⟨rfl, rfl, rfl, rfl, rfl, rfl⟩ fun _ => rfl) hs hs' ?_ (fun _ _ => Iff.rfl)
    fun u _ => hview ViewEntry.suspended hsuspended u
  funext u
  have hmap := congrArg (Option.bind · id) (hview ViewEntry.toplevel htoplevel u)
  simpa [Option.bind_map, shows] using hmap

/-- Nor views that show nothing. -/
theorem insertView_looks (hs : Placed s) (view : ViewHandle) (hs' : Placed (s.insertView view))
    (hshows : s.shows view.id = none) : Looks s (s.insertView view) := by
  refine SamePlaces.looks (.of_desk ⟨rfl, rfl, rfl, rfl, rfl, rfl⟩ fun _ => rfl) hs hs' ?_ (fun _ _ => Iff.rfl)
    fun u hu => ?_
  · funext u
    rw [shows_insertView]
    split
    · rename_i huv
      rw [huv, hshows]
    · rfl
  · rw [State.view, insertView, Table.get_insert, if_neg]
    · rfl
    · rintro rfl
      rw [hshows] at hu
      cases hu

theorem eraseView_looks (hs : Placed s) (v : ViewId) (hs' : Placed (s.eraseView v)) (hshows : s.shows v = none) :
    Looks s (s.eraseView v) := by
  have hne {u : ViewId} (hu : (s.shows u).isSome = true) : u ≠ v := by
    rintro rfl
    rw [hshows] at hu
    cases hu
  refine SamePlaces.looks (.of_desk ⟨rfl, rfl, rfl, rfl, rfl, rfl⟩ fun _ => rfl) hs hs' ?_ (fun u hu => ?_) fun u hu => ?_
  · funext u
    rw [shows_eraseView]
    split
    · rename_i huv
      rw [huv, hshows]
    · rfl
  · change (if s.focusedView = some v then none else s.focusedView) = some u ↔ _
    split
    · rename_i hfocus
      simp [hfocus, (hne hu).symm]
    · rfl
  · rw [State.view, eraseView, Table.get_erase, if_neg (hne hu)]
    rfl

theorem markActivated_looks (hs : Placed s) (id : ToplevelId) (token : String) (hs' : Placed (s.markActivated id token)) :
    Looks s (s.markActivated id token) := by
  refine SamePlaces.looks ⟨rfl, fun t => ?_, fun _ _ _ _ => rfl⟩ hs hs' rfl (fun _ _ => Iff.rfl) fun _ _ => rfl
  rw [markActivated, toplevel_log, toplevel_modifyToplevel]
  split
  · rename_i ht
    rw [ht, Option.map_map]
    rfl
  · rfl

end IhsWl
