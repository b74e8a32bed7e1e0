import IhsWl.Widget.Controllers

/-!
# What the views and their controllers agree on

Each view Flutter has is told what its own controller sets, and a controller knows its own view. It holds from one op to
the next as long as the app gives a controller to one view at a time.
-/

namespace IhsWl

variable {α : Type}

/-! ## Controllers -/

namespace WaylandToplevelController

variable {c : WaylandToplevelController} {b : Bool} {v : Option ViewId} {client : ViewId → Option ClientId}

@[simp] theorem state_update : (c.update b client).state = c.state := by
  unfold update
  split <;> rfl

@[simp] theorem capabilities_update : (c.update b client).capabilities = c.capabilities := by
  unfold update
  split <;> rfl

@[simp] theorem viewId_update : (c.update b client).viewId = c.viewId := by
  unfold update
  split <;> rfl

@[simp] theorem bound_update : (c.update b client).bound = b := by
  unfold update
  split <;> simp_all

@[simp] theorem client_update : (c.update b client).client = c.shown b client := by
  unfold update
  split
  · rfl
  · rename_i hsame
    simp only [Bool.or_eq_true, bne_iff_ne, ne_eq, not_or, not_not] at hsame
    exact hsame.2.symm

/-- Its listeners know what it says, and it names a client only of a toplevel its view shows. -/
structure Honest (c : WaylandToplevelController) : Prop where
  notified : c.notified.getLastD (false, none) = (c.bound, c.client)
  client : c.bound = false ∨ c.viewId = none → c.client = none

theorem honest_new : Honest {} := ⟨rfl, fun _ => rfl⟩

theorem honest_update (h : c.notified.getLastD (false, none) = (c.bound, c.client)) : (c.update b client).Honest := by
  refine ⟨?_, fun hnone => ?_⟩
  · unfold update
    split
    · exact List.getLastD_concat ..
    · exact h
  · rw [bound_update, viewId_update] at hnone
    rw [client_update, shown]
    rcases hnone with rfl | hnone
    · rfl
    · simp [hnone]

theorem Honest.attach (h : c.Honest) : (c.attach v b client).Honest := honest_update (c := { c with viewId := v }) h.notified

theorem Honest.setBound (h : c.Honest) : (c.setBound b client).Honest := by
  unfold WaylandToplevelController.setBound
  split
  · exact honest_update h.notified
  · exact h

@[simp] theorem attach_viewId : (c.attach v b client).viewId = v := viewId_update

@[simp] theorem attach_bound : (c.attach v b client).bound = b := bound_update

@[simp] theorem attach_state : (c.attach v b client).state = c.state := state_update

@[simp] theorem attach_capabilities : (c.attach v b client).capabilities = c.capabilities := capabilities_update

@[simp] theorem setBound_viewId : (c.setBound b client).viewId = c.viewId := by
  unfold setBound
  split <;> simp

@[simp] theorem setBound_bound : (c.setBound b client).bound = b := by
  unfold setBound
  split <;> simp_all

@[simp] theorem setBound_state : (c.setBound b client).state = c.state := by
  unfold setBound
  split <;> simp

@[simp] theorem setBound_capabilities : (c.setBound b client).capabilities = c.capabilities := by
  unfold setBound
  split <;> simp

end WaylandToplevelController

/-! ## What the module has -/

/-- A view, as the module was told of it. -/
structure ModuleView (α : Type) where
  grants : Grants
  requested : Option (Size α)
  deriving DecidableEq, Repr

namespace ModuleView

def hear (v : ViewId) (view : Option (ModuleView α)) : ToModule α → Option (ModuleView α)
  | .create v' grants requested => if v' = v then some { grants, requested } else view
  | .capabilities v' bits => if v' = v then view.map fun m => { m with grants.capabilities := bits } else view
  | .windowState v' bits => if v' = v then view.map fun m => { m with grants.windowState := bits } else view
  | .requestSize v' size => if v' = v then view.map fun m => { m with requested := size } else view
  | .close _ => view

end ModuleView

/-- What the module has of view `v`. -/
def moduleView (told : List (ToModule α)) (v : ViewId) : Option (ModuleView α) := told.foldl (ModuleView.hear v) none

@[simp] theorem moduleView_append (told : List (ToModule α)) (m : ToModule α) (v : ViewId) :
    moduleView (told ++ [m]) v = ModuleView.hear v (moduleView told v) m := by
  rw [moduleView, List.foldl_append]
  rfl

/-- The controller the view has, as long as Flutter has the view. -/
def WaylandToplevelViewState.held (s : WaylandToplevelViewState α) : Option Nat :=
  if s.mounted then s.widget.controller else none

/-! ## What each op does -/

namespace App

variable {client : Nat → ViewId → Option ClientId} {a : App α} {w k : Nat} {v : ViewId} {s : WaylandToplevelViewState α}

theorem mounted_iff : a.mounted w = some s ↔ a.views w = some s ∧ s.mounted = true := by
  simp [mounted, Option.filter_eq_some_iff]

section

variable {c : Option Nat} {viewId : Option ViewId} {b : Bool}

@[simp] theorem attach_views : (a.attach client c viewId b).views = a.views := by cases c <;> rfl
@[simp] theorem attach_watched : (a.attach client c viewId b).watched = a.watched := by cases c <;> rfl
@[simp] theorem attach_nextId : (a.attach client c viewId b).nextId = a.nextId := by cases c <;> rfl
@[simp] theorem attach_told : (a.attach client c viewId b).told = a.told := by cases c <;> rfl
@[simp] theorem attach_taken : (a.attach client c viewId b).taken = a.taken := by cases c <;> rfl

theorem attach_controllers : (a.attach client c viewId b).controllers k =
    if c = some k then (a.controllers k).attach viewId b (client a.asks) else a.controllers k := by
  cases c with
  | none => rfl
  | some c =>
      simp only [attach, modifyController, Function.update_apply, Option.some.injEq, eq_comm (a := c)]
      split
      · rename_i hk
        rw [hk]
      · rfl

end

@[simp] theorem setBound_views {c : Option Nat} {b : Bool} : (a.setBound client c b).views = a.views := by cases c <;> rfl
@[simp] theorem setBound_watched {c : Option Nat} {b : Bool} : (a.setBound client c b).watched = a.watched := by cases c <;> rfl
@[simp] theorem setBound_nextId {c : Option Nat} {b : Bool} : (a.setBound client c b).nextId = a.nextId := by cases c <;> rfl
@[simp] theorem setBound_told {c : Option Nat} {b : Bool} : (a.setBound client c b).told = a.told := by cases c <;> rfl

theorem setBound_controllers {c : Option Nat} {b : Bool} : (a.setBound client c b).controllers k =
    if c = some k then (a.controllers k).setBound b (client a.asks) else a.controllers k := by
  cases c with
  | none => rfl
  | some c =>
      simp only [setBound, modifyController, Function.update_apply, Option.some.injEq, eq_comm (a := c)]
      split
      · rename_i hk
        rw [hk]
      · rfl

@[simp] theorem grants_attach {c k : Option Nat} {viewId : Option ViewId} {b : Bool} :
    (a.attach client c viewId b).grants k = a.grants k := by
  cases k with
  | none => rfl
  | some k =>
      simp only [grants, WaylandToplevelController.capabilityBits, WaylandToplevelController.stateBits, attach_controllers]
      split <;> simp

@[simp] theorem grants_setBound {c k : Option Nat} {b : Bool} : (a.setBound client c b).grants k = a.grants k := by
  cases k with
  | none => rfl
  | some k =>
      simp only [grants, WaylandToplevelController.capabilityBits, WaylandToplevelController.stateBits, setBound_controllers]
      split <;> simp

theorem moduleView_tell (m : ToModule α) : moduleView (a.tell m).told v = ModuleView.hear v (moduleView a.told v) m :=
  moduleView_append a.told m v

theorem moduleView_sendController {c : Option Nat} {u : ViewId} : moduleView (a.sendController c u).told v =
    if u = v then (moduleView a.told v).map fun m => { m with grants := a.grants c } else moduleView a.told v := by
  rw [sendController, moduleView_tell, moduleView_tell]
  by_cases hu : u = v
  · simp only [ModuleView.hear, hu, if_true, Option.map_map]
    rfl
  · simp only [ModuleView.hear, if_neg hu]

theorem moduleView_requestSize {size : Option (Size α)} {u : ViewId} : moduleView (a.tell (.requestSize u size)).told v =
    if u = v then (moduleView a.told v).map fun m => { m with requested := size } else moduleView a.told v :=
  moduleView_tell _

theorem sendRequestedSize_eq (hs : a.views w = some s) (hv : s.viewId = some v) :
    a.sendRequestedSize w = a.tell (.requestSize v s.askedSize) := by
  simp only [sendRequestedSize, hs, hv]

theorem sendRequestedSize_none (hs : a.views w = some s) (hv : s.viewId = none) : a.sendRequestedSize w = a := by
  simp only [sendRequestedSize, hs, hv]

/-! ## The views Flutter has -/

/-- The op left view `w` as `s`, and no other one changed. -/
def Turned (a a' : App α) (w : Nat) (s : WaylandToplevelViewState α) : Prop :=
  ∀ k, a'.views k = if k = w then some s else a.views k

variable {a' : App α}

/-- Each id is watched by the view that has it, until that is disposed of. -/
structure Registered (a : App α) : Prop where
  watched : ∀ v w, a.watched v = some w ↔ ∃ s, a.views w = some s ∧ s.mounted = true ∧ s.watchedId = some v
  fresh : ∀ w s v, a.views w = some s → s.watchedId = some v → v < a.nextId
  distinct : ∀ w w' s s' v, a.views w = some s → a.views w' = some s' → s.watchedId = some v → s'.watchedId = some v → w = w'
  named : ∀ w s v, a.views w = some s → s.viewId = some v → s.watchedId = some v

theorem Registered.turn (h : a.Registered) (hturn : Turned a a' w s) (hnext : a.nextId ≤ a'.nextId)
    (hwatched : ∀ v, a'.watched v = if s.watchedId = some v then if s.mounted then some w else none else a.watched v)
    (hkept : ∀ old v, a.views w = some old → old.watchedId = some v → s.watchedId = some v)
    (hfresh : ∀ v, s.watchedId = some v → v < a'.nextId ∧ ∀ k t, k ≠ w → a.views k = some t → t.watchedId ≠ some v)
    (hnamed : ∀ v, s.viewId = some v → s.watchedId = some v) : a'.Registered := by
  obtain ⟨h₁, h₂, h₃, h₄⟩ := h
  unfold Turned at hturn
  constructor
  · grind
  · grind
  · grind
  · grind

theorem Registered.keep (h : a.Registered) {old : WaylandToplevelViewState α} (hold : a.views w = some old)
    (hturn : Turned a a' w s) (hnext : a'.nextId = a.nextId) (hwatched : a'.watched = a.watched)
    (hid : s.watchedId = old.watchedId) (hmounted : s.mounted = old.mounted)
    (hnamed : ∀ v, s.viewId = some v → s.watchedId = some v) : a'.Registered := by
  obtain ⟨h₁, h₂, h₃, h₄⟩ := h
  unfold Turned at hturn
  constructor
  · intro u k
    rw [hwatched, h₁]
    grind
  · grind
  · grind
  · grind

/-! ## Views and controllers -/

/-- A controller knows the view it was given to, and no other; each view has its own. -/
structure Attached (a : App α) : Prop where
  alone : ∀ w w' s s' c, a.views w = some s → a.views w' = some s' → s.held = some c → s'.held = some c → w = w'
  attached : ∀ w s c, a.views w = some s → s.held = some c →
    (a.controllers c).viewId = s.viewId ∧ (a.controllers c).bound = s.bound
  detached : ∀ c, (∀ w s, a.views w = some s → s.held ≠ some c) → (a.controllers c).viewId = none ∧ (a.controllers c).bound = false

theorem Attached.turn (h : a.Attached) (hturn : Turned a a' w s)
    (halone : ∀ c k t, s.held = some c → k ≠ w → a.views k = some t → t.held ≠ some c)
    (hgiven : ∀ c, s.held = some c → (a'.controllers c).viewId = s.viewId ∧ (a'.controllers c).bound = s.bound)
    (htaken : ∀ c old, a.views w = some old → old.held = some c → s.held ≠ some c →
      (a'.controllers c).viewId = none ∧ (a'.controllers c).bound = false)
    (hrest : ∀ c, (∀ old, a.views w = some old → old.held ≠ some c) → s.held ≠ some c →
      (a'.controllers c).viewId = (a.controllers c).viewId ∧ (a'.controllers c).bound = (a.controllers c).bound) :
    a'.Attached := by
  obtain ⟨h₁, h₂, h₃⟩ := h
  unfold Turned at hturn
  constructor
  · grind
  · grind
  · intro c hc
    have hno (k : Nat) (t) (hk : k ≠ w) (ht : a.views k = some t) : t.held ≠ some c := hc k t (by rw [hturn, if_neg hk, ht])
    have hs : s.held ≠ some c := hc w s (by rw [hturn, if_pos rfl])
    by_cases hold : ∃ old, a.views w = some old ∧ old.held = some c
    · obtain ⟨old, hw, hheld⟩ := hold
      exact htaken c old hw hheld hs
    · have hkept := hrest c (fun old hw hheld => hold ⟨old, hw, hheld⟩) hs
      have hfree := h₃ c fun k t ht => by
        by_cases hk : k = w
        · subst hk
          exact fun hheld => hold ⟨t, ht, hheld⟩
        · exact hno k t hk ht
      exact ⟨hkept.1.trans hfree.1, hkept.2.trans hfree.2⟩

theorem Attached.keep (h : a.Attached) {old : WaylandToplevelViewState α} (hold : a.views w = some old) (hturn : Turned a a' w s)
    (hheld : ∀ c, s.held = some c → old.held = some c)
    (hgiven : ∀ c, s.held = some c → (a'.controllers c).viewId = s.viewId ∧ (a'.controllers c).bound = s.bound)
    (htaken : ∀ c, old.held = some c → s.held ≠ some c → (a'.controllers c).viewId = none ∧ (a'.controllers c).bound = false)
    (hrest : ∀ c, old.held ≠ some c →
      (a'.controllers c).viewId = (a.controllers c).viewId ∧ (a'.controllers c).bound = (a.controllers c).bound) : a'.Attached := by
  refine h.turn hturn (fun c k t hc hk ht htc => hk (h.alone k w t old c ht hold htc (hheld c hc))) hgiven (fun c t ht htc hc => ?_)
    fun c hc _ => hrest c (hc old hold)
  cases hold.symm.trans ht
  exact htaken c htc hc

/-! ## Views and the module -/

/-- The module has what the view's controller sets and the size the app asks for. -/
structure Told (a : App α) : Prop where
  known : ∀ w s v, a.views w = some s → s.watchedId = some v → (moduleView a.told v).isSome = true
  told : ∀ w s v, a.views w = some s → s.mounted = true → s.viewId = some v →
    moduleView a.told v = some ⟨a.grants s.widget.controller, s.askedSize⟩

theorem Told.turn (h : a.Told) (hr : a.Registered) (hturn : Turned a a' w s) (hgrants : ∀ c, a'.grants c = a.grants c)
    (hothers : ∀ v, s.watchedId ≠ some v → moduleView a'.told v = moduleView a.told v)
    (hknown : ∀ v, s.watchedId = some v → (moduleView a'.told v).isSome = true)
    (hfresh : ∀ v k t, s.watchedId = some v → k ≠ w → a.views k = some t → t.watchedId ≠ some v)
    (htold : ∀ v, s.mounted = true → s.viewId = some v → moduleView a'.told v = some ⟨a.grants s.widget.controller, s.askedSize⟩) :
    a'.Told := by
  have hnamed := hr.named
  obtain ⟨h₁, h₂⟩ := h
  unfold Turned at hturn
  constructor
  · grind
  · grind

/-! ## Views and events -/

/-- The last of the bindings and unbindings a view was handed is that it shows a toplevel. -/
def boundAfter (taken : List (ViewId × Heard)) (v : ViewId) : Bool :=
  taken.foldl (fun bound e => match e with
    | (v', .event e) => if v' = v then e == .bound else bound
    | _ => bound) false

@[simp] theorem boundAfter_append (taken : List (ViewId × Heard)) (v' : ViewId) (e : Heard) (v : ViewId) :
    boundAfter (taken ++ [(v', e)]) v = match e with
      | .event e => if v' = v then e == .bound else boundAfter taken v
      | .request _ => boundAfter taken v := by
  rw [boundAfter, List.foldl_append]
  cases e <;> rfl

theorem boundAfter_none {taken : List (ViewId × Heard)} (h : ∀ e ∈ taken, e.1 ≠ v) : boundAfter taken v = false := by
  induction taken using List.reverseRecOn with
  | nil => rfl
  | append_singleton taken e ih =>
      obtain ⟨v', e⟩ := e
      have hne : v' ≠ v := h (v', e) (by simp)
      have hrest := ih fun x hx => h x (List.mem_append_left _ hx)
      cases e <;> simp [hne, hrest]

/-- A view knows whether it shows a toplevel from the events it was handed. -/
structure Listened (a : App α) : Prop where
  unborn : ∀ e ∈ a.taken, e.1 < a.nextId
  bound : ∀ w s, a.views w = some s → s.bound = s.watchedId.any fun v => boundAfter a.taken v

theorem Listened.keep (h : a.Listened) {old : WaylandToplevelViewState α} (hold : a.views w = some old) (hturn : Turned a a' w s)
    (hnext : a'.nextId = a.nextId) (htaken : a'.taken = a.taken) (hid : s.watchedId = old.watchedId)
    (hbound : s.bound = old.bound) :
    a'.Listened := by
  refine ⟨fun e he => ?_, fun k t ht => ?_⟩
  · rw [hnext]
    exact h.unborn e (htaken ▸ he)
  · rw [hturn] at ht
    rw [htaken]
    split at ht
    · cases ht
      rw [hbound, hid]
      exact h.bound w old hold
    · exact h.bound k t ht

theorem Listened.turn (h : a.Listened) (hturn : Turned a a' w s)
    (hunborn : ∀ e ∈ a'.taken, e.1 < a'.nextId) (hbound : s.bound = s.watchedId.any fun v => boundAfter a'.taken v)
    (hothers : ∀ v k t, k ≠ w → a.views k = some t → t.watchedId = some v → boundAfter a'.taken v = boundAfter a.taken v) :
    a'.Listened := by
  refine ⟨hunborn, fun k t ht => ?_⟩
  rw [hturn] at ht
  split at ht
  · cases ht
    exact hbound
  · rename_i hk
    rw [h.bound k t ht]
    cases hwatched : t.watchedId with
    | none => rfl
    | some v => exact (hothers v k t hk ht hwatched).symm

/-! ## One op -/

/-- What holds between the ops, apart from what the module was told. -/
structure Settled (a : App α) : Prop where
  registered : a.Registered
  attached : a.Attached
  listened : a.Listened
  honest : ∀ c, (a.controllers c).Honest

structure Synced (a : App α) : Prop where
  settled : a.Settled
  told : a.Told

theorem Settled.tell (h : a.Settled) (m : ToModule α) : (a.tell m).Settled := by
  obtain ⟨⟨h₁, h₂, h₃, h₄⟩, ⟨h₅, h₆, h₇⟩, ⟨h₈, h₉⟩, h₁₀⟩ := h
  exact ⟨⟨h₁, h₂, h₃, h₄⟩, ⟨h₅, h₆, h₇⟩, ⟨h₈, h₉⟩, h₁₀⟩

theorem Settled.sendController (h : a.Settled) {c : Option Nat} : (a.sendController c v).Settled := (h.tell _).tell _

theorem Settled.sendRequestedSize (h : a.Settled) : (a.sendRequestedSize w).Settled := by
  unfold App.sendRequestedSize
  split
  · exact h
  · split
    · exact h
    · exact h.tell _

theorem turned_modifyView {f : WaylandToplevelViewState α → WaylandToplevelViewState α} (hs : a.views w = some s) :
    Turned a (a.modifyView w f) w (f s) := by
  intro k
  simp only [modifyView, Function.update_apply, hs]
  rfl

theorem Turned.attach {c : Option Nat} {viewId : Option ViewId} {b : Bool} (h : Turned a a' w s) :
    Turned a (a'.attach client c viewId b) w s := by
  intro k
  rw [attach_views]
  exact h k

theorem held_of_mounted (hm : s.mounted = true) {c : Nat} : s.held = some c ↔ s.widget.controller = some c := by
  simp [WaylandToplevelViewState.held, hm]

theorem Registered.others (h : a.Registered) (hs : a.views w = some s) (v : ViewId) (k : Nat) (t : WaylandToplevelViewState α)
    (hv : s.watchedId = some v) (hk : k ≠ w) (ht : a.views k = some t) : t.watchedId ≠ some v :=
  fun htv => hk (h.distinct k w t s v ht hs htv hv)

theorem Synced.createView (h : a.Synced) (hs : a.views w = some s) (hm : s.mounted = true) (hn : s.watchedId = none) :
    (a.createView w s).Synced := by
  obtain ⟨⟨hregistered, hattached, hlistened, hhonest⟩, htold⟩ := h
  have hturn : Turned a (a.createView w s) w { s with watchedId := some a.nextId, bound := false } := turned_modifyView hs
  have hfresh (k : Nat) (t) (ht : a.views k = some t) : t.watchedId ≠ some (a.nextId : ViewId) :=
    fun hv => (hregistered.fresh k t _ ht hv).ne rfl
  have hunnamed (v : ViewId) : s.viewId ≠ some v := fun hv => by cases hn.symm.trans (hregistered.named w s v hs hv)
  have hunbound : s.bound = false := by rw [hlistened.bound w s hs, hn]; rfl
  refine ⟨⟨?_, ?_, ?_, hhonest⟩, ?_⟩
  · refine hregistered.turn hturn (Nat.le_succ _) (fun v => ?_) (fun old v hold hv => ?_)
      (fun v hv => ?_) fun v hv => absurd hv (hunnamed v)
    · simp only [App.createView, tell, modifyView, Function.update_apply, hm, if_true, Option.some.injEq, eq_comm (a := v)]
    · cases hs.symm.trans hold
      cases hn.symm.trans hv
    · cases hv
      exact ⟨Int.lt_succ _, fun k t _ ht => hfresh k t ht⟩
  · refine hattached.keep hs hturn (fun _ hc => hc) (fun c hc => ?_) (fun c hheld hc => absurd hheld hc) fun _ _ => ⟨rfl, rfl⟩
    obtain ⟨hid, hbound⟩ := hattached.attached w s c hs hc
    exact ⟨hid, hbound.trans hunbound⟩
  · refine hlistened.turn hturn (fun e he => ?_) ?_ fun _ _ _ _ _ _ => rfl
    · exact (hlistened.unborn e he).trans (Int.lt_succ _)
    · exact (boundAfter_none fun e he => (hlistened.unborn e he).ne).symm
  · refine htold.turn hregistered hturn (fun _ => rfl) (fun v hv => ?_) (fun v hv => ?_) (fun v k t hv _ ht => ?_)
      fun v _ hv => absurd hv (hunnamed v)
    · have hne : (a.nextId : ViewId) ≠ v := fun hav => hv (congrArg some hav)
      rw [App.createView, moduleView_tell]
      exact if_neg hne
    · cases hv
      rw [App.createView, moduleView_tell]
      simp [ModuleView.hear]
    · cases hv
      exact hfresh k t ht

/-- The view was given its controller's view and the state it shows. -/
theorem Settled.given (h : a.Settled) (hs : a.views w = some s) (hm : s.mounted = true) (hv : s.watchedId = some v) :
    ((a.modifyView w fun s => { s with viewId := some v }).attach client s.widget.controller (some v) s.bound).Settled := by
  obtain ⟨hregistered, hattached, hlistened, hhonest⟩ := h
  have hturn : Turned a ((a.modifyView w fun s => { s with viewId := some v }).attach client s.widget.controller (some v) s.bound)
      w { s with viewId := some v } := (turned_modifyView hs).attach
  refine ⟨?_, ?_, ?_, fun c => ?_⟩
  · exact hregistered.keep hs hturn attach_nextId attach_watched rfl rfl fun u hu => hv.trans hu
  · refine hattached.keep hs hturn (fun _ hc => hc) (fun c hc => ?_) (fun c hold hc => absurd hold hc) fun c hc => ?_
    · simp [attach_controllers, modifyView, (held_of_mounted hm).mp hc]
    · simp [attach_controllers, modifyView, mt (held_of_mounted hm).mpr hc]
  · exact hlistened.keep hs hturn attach_nextId attach_taken rfl rfl
  · rw [attach_controllers]
    split
    · exact (hhonest c).attach
    · exact hhonest c

/-- The module has all of the view `w`, and of the others what it had. -/
theorem Told.renew (h : a.Told) (hr : a.Registered) {old : WaylandToplevelViewState α} (hold : a.views w = some old)
    (hturn : Turned a a' w s) (hgrants : ∀ c, a'.grants c = a.grants c) (hid : old.watchedId = some v) (hw : s.watchedId = some v)
    (hv : s.viewId = some v) (hmodule : ∀ u, moduleView a'.told u =
      if v = u then some ⟨a.grants s.widget.controller, s.askedSize⟩ else moduleView a.told u) : a'.Told := by
  refine h.turn hr hturn hgrants (fun u hu => ?_) (fun u hu => ?_) (fun u k t hu hk ht => ?_) fun u _ hu => ?_
  · rw [hmodule, if_neg fun hvu => hu (hw.trans (congrArg some hvu))]
  · cases hw.symm.trans hu
    rw [hmodule, if_pos rfl]
    rfl
  · cases hw.symm.trans hu
    exact hr.others hold v k t hid hk ht
  · cases hv.symm.trans hu
    rw [hmodule, if_pos rfl]

theorem Synced.created (h : a.Synced) (hs : a.views w = some s) (hm : s.mounted = true) (hv : s.watchedId = some v) :
    (a.created client w v s).Synced := by
  have hturn : Turned a ((a.modifyView w fun s => { s with viewId := some v }).attach client s.widget.controller (some v) s.bound)
      w { s with viewId := some v } := (turned_modifyView hs).attach
  refine ⟨(h.settled.given hs hm hv).sendController.sendRequestedSize, ?_⟩
  have hsent := sendRequestedSize_eq (a := sendController s.widget.controller v _) ((hturn w).trans (if_pos rfl)) rfl
  rw [App.created, hsent]
  refine h.told.renew h.settled.registered hs hturn (fun _ => grants_attach) hv hv rfl fun u => ?_
  obtain ⟨view, hview⟩ := Option.isSome_iff_exists.mp (h.told.known w s v hs hv)
  rw [moduleView_requestSize, moduleView_sendController, attach_told, grants_attach]
  split
  · rename_i hvu
    rw [← hvu]
    exact congrArg (fun m => Option.map _ (Option.map _ m)) hview
  · rfl

/-- The app has another configuration for the view, with a controller no other view has. -/
theorem Settled.reattached (client : Nat → ViewId → Option ClientId) (h : a.Settled) (hs : a.views w = some s)
    (hm : s.mounted = true) {widget : WaylandToplevelView α}
    (hfree : ∀ c k t, widget.controller = some c → k ≠ w → a.views k = some t → t.held ≠ some c) :
    (((a.modifyView w fun s => { s with widget }).attach client s.widget.controller none false).attach client widget.controller
      s.viewId s.bound).Settled := by
  obtain ⟨hregistered, hattached, hlistened, hhonest⟩ := h
  have hturn : Turned a (((a.modifyView w fun s => { s with widget }).attach client s.widget.controller none false).attach client
      widget.controller s.viewId s.bound) w { s with widget } := (turned_modifyView hs).attach.attach
  have hheld (c : Nat) : ({ s with widget } : WaylandToplevelViewState α).held = some c ↔ widget.controller = some c :=
    held_of_mounted (s := { s with widget }) hm
  refine ⟨?_, ?_, ?_, fun c => ?_⟩
  · exact hregistered.keep hs hturn (attach_nextId.trans attach_nextId) (attach_watched.trans attach_watched) rfl rfl
      fun u hu => hregistered.named w s u hs hu
  · refine hattached.turn hturn (fun c k t hc hk ht => hfree c k t ((hheld c).mp hc) hk ht) (fun c hc => ?_)
      (fun c old hold htc hc => ?_)
      fun c hc hc' => ?_
    · simp [attach_controllers, (hheld c).mp hc]
    · cases hs.symm.trans hold
      have hno : widget.controller ≠ some c := mt (hheld c).mpr hc
      simp [attach_controllers, hno, (held_of_mounted hm).mp htc]
    · have hno : widget.controller ≠ some c := mt (hheld c).mpr hc'
      have hold : s.widget.controller ≠ some c := mt (held_of_mounted hm).mpr (hc s hs)
      simp [attach_controllers, hno, hold, modifyView]
  · exact hlistened.keep hs hturn (attach_nextId.trans attach_nextId) (attach_taken.trans attach_taken) rfl rfl
  · rw [attach_controllers, attach_controllers]
    have hbefore : (if s.widget.controller = some c then (a.controllers c).attach none false (client a.asks) else a.controllers c).Honest := by
      split
      · exact (hhonest c).attach
      · exact hhonest c
    split
    · exact hbefore.attach
    · exact hbefore

theorem Settled.modifyView (h : a.Settled) (hs : a.views w = some s) {f : WaylandToplevelViewState α → WaylandToplevelViewState α}
    (hid : (f s).watchedId = s.watchedId) (hname : (f s).viewId = s.viewId) (hbound : (f s).bound = s.bound)
    (hmounted : (f s).mounted = s.mounted) (hcontroller : (f s).widget.controller = s.widget.controller) :
    (a.modifyView w f).Settled := by
  obtain ⟨hregistered, hattached, hlistened, hhonest⟩ := h
  have hturn : Turned a (a.modifyView w f) w (f s) := turned_modifyView hs
  have hheld : (f s).held = s.held := by simp only [WaylandToplevelViewState.held, hmounted, hcontroller]
  refine ⟨?_, ?_, ?_, hhonest⟩
  · exact hregistered.keep hs hturn rfl rfl hid hmounted fun u hu => hid.trans (hregistered.named w s u hs (hname.symm.trans hu))
  · refine hattached.keep hs hturn (fun c hc => hheld.symm.trans hc) (fun c hc => ?_) (fun c hc hc' => absurd (hheld.trans hc) hc')
      fun _ _ => ⟨rfl, rfl⟩
    rw [hname, hbound]
    exact hattached.attached w s c hs (hheld.symm.trans hc)
  · exact hlistened.keep hs hturn rfl rfl hid hbound

theorem Told.keep (h : a.Told) (hr : a.Registered) {old : WaylandToplevelViewState α} (hold : a.views w = some old)
    (hturn : Turned a a' w s) (hgrants : ∀ c, a'.grants c = a.grants c) (htold : a'.told = a.told)
    (hid : s.watchedId = old.watchedId)
    (hhas : ∀ v, s.mounted = true → s.viewId = some v → moduleView a.told v = some ⟨a.grants s.widget.controller, s.askedSize⟩) :
    a'.Told := by
  refine h.turn hr hturn hgrants (fun u hu => by rw [htold]) (fun u hu => ?_) (fun u k t hu hk ht => ?_) fun u hm hu => ?_
  · rw [htold]
    exact h.known w old u hold (hid.symm.trans hu)
  · exact hr.others hold u k t (hid.symm.trans hu) hk ht
  · rw [htold]
    exact hhas u hm hu

theorem Told.resized (h : a.Told) (hr : a.Registered) {old : WaylandToplevelViewState α} (hold : a.views w = some old)
    (hturn : Turned a a' w s) (hgrants : ∀ c, a'.grants c = a.grants c) (hid : s.watchedId = old.watchedId)
    (hnamed : ∀ v, s.viewId = some v → s.watchedId = some v)
    (hsent : ∀ v, s.viewId = some v → ∃ size, moduleView a'.told v = some ⟨a.grants s.widget.controller, size⟩)
    (hothers : ∀ v, s.viewId ≠ some v → moduleView a'.told v = moduleView a.told v) (send : Prop) [Decidable send]
    (hasked : ¬send → ∀ v, s.viewId = some v → moduleView a'.told v = some ⟨a.grants s.widget.controller, s.askedSize⟩) :
    (if send then a'.sendRequestedSize w else a').Told := by
  have hs : a'.views w = some s := (hturn w).trans (if_pos rfl)
  cases hv : s.viewId with
  | none =>
      have hsame : (if send then a'.sendRequestedSize w else a') = a' := by rw [sendRequestedSize_none hs hv, ite_self]
      rw [hsame]
      refine h.turn hr hturn hgrants (fun u _ => hothers u (by simp [hv])) (fun u hu => ?_)
        (fun u k t hu hk ht => ?_) fun u _ hu => ?_
      · rw [hothers u (by simp [hv])]
        exact h.known w old u hold (hid.symm.trans hu)
      · exact hr.others hold u k t (hid.symm.trans hu) hk ht
      · cases hv.symm.trans hu
  | some v =>
      obtain ⟨size, hsize⟩ := hsent v hv
      rw [sendRequestedSize_eq hs hv]
      have hw := hnamed v hv
      have hturn' : Turned a (if send then a'.tell (.requestSize v s.askedSize) else a') w s := by split <;> exact hturn
      refine h.renew hr hold hturn' (fun c => by split <;> exact hgrants c) (hid.symm.trans hw) hw hv fun u => ?_
      by_cases hvu : v = u
      · subst hvu
        rw [if_pos rfl]
        by_cases hsend : send
        · rw [if_pos hsend, moduleView_requestSize, if_pos rfl, hsize]
          rfl
        · rw [if_neg hsend]
          exact hasked hsend v hv
      · have hne : s.viewId ≠ some u := fun hu => hvu (Option.some.inj (hv.symm.trans hu))
        rw [if_neg hvu, ← hothers u hne]
        split
        · rw [moduleView_requestSize, if_neg hvu]
        · rfl

theorem Synced.onLayout (h : a.Synced) (hs : a.views w = some s) (hm : s.mounted = true) (size : Size α) :
    (a.onLayout w size s).Synced := by
  have hsettled : (a.modifyView w fun s => { s with layoutSize := some size }).Settled :=
    h.settled.modifyView hs rfl rfl rfl rfl rfl
  have hhas (v : ViewId) (hv : s.viewId = some v) := h.told.told w s v hs hm hv
  refine ⟨?_, ?_⟩
  · unfold App.onLayout
    split
    · exact hsettled.sendRequestedSize
    · exact hsettled
  · have hturn : Turned a (a.modifyView w fun s => { s with layoutSize := some size }) w { s with layoutSize := some size } :=
      turned_modifyView hs
    refine h.told.resized h.settled.registered hs hturn (fun _ => rfl) rfl (fun v hv => h.settled.registered.named w s v hs hv)
      (fun v hv => ⟨_, hhas v hv⟩) (fun _ _ => rfl) _ fun hsend v hv => (hhas v hv).trans ?_
    have hasked : s.askedSize = ({ s with layoutSize := some size } : WaylandToplevelViewState α).askedSize := by
      simp only [WaylandToplevelViewState.askedSize]
      cases hrequested : s.widget.requestedSize <;> cases hscreen : s.widget.sizeOnScreen <;> simp_all
    rw [← hasked]

theorem Synced.didUpdateWidget [DecidableEq α] (h : a.Synced) (hs : a.views w = some s) (hm : s.mounted = true)
    {widget : WaylandToplevelView α}
    (hfree : ∀ c k t, widget.controller = some c → k ≠ w → a.views k = some t → t.held ≠ some c) :
    (a.didUpdateWidget client w widget s).Synced := by
  have hhas (v : ViewId) (hv : s.viewId = some v) := h.told.told w s v hs hm hv
  have hasked (hsame : ¬(widget.requestedSize ≠ s.widget.requestedSize ∨ widget.sizeOnScreen ≠ s.widget.sizeOnScreen)) :
      s.askedSize = ({ s with widget } : WaylandToplevelViewState α).askedSize := by
    rw [not_or, not_not, not_not] at hsame
    simp only [WaylandToplevelViewState.askedSize, hsame.1, hsame.2]
  have hnamed (v : ViewId) (hv : s.viewId = some v) : s.watchedId = some v := h.settled.registered.named w s v hs hv
  by_cases hchanged : widget.controller = s.widget.controller
  · have hturn : Turned a (a.modifyView w fun s => { s with widget }) w { s with widget } := turned_modifyView hs
    have hsettled : (a.modifyView w fun s => { s with widget }).Settled := h.settled.modifyView hs rfl rfl rfl rfl hchanged
    simp only [App.didUpdateWidget, hchanged, ne_eq, not_true, if_false]
    refine ⟨?_, ?_⟩
    · split
      · exact hsettled.sendRequestedSize
      · exact hsettled
    · refine h.told.resized h.settled.registered hs hturn (fun _ => rfl) rfl hnamed
        (fun v hv => ⟨s.askedSize, (hhas v hv).trans (by rw [hchanged])⟩) (fun _ _ => rfl) _ fun hsend v hv => (hhas v hv).trans ?_
      rw [hchanged, ← hasked hsend]
  · have hturn : Turned a (((a.modifyView w fun s => { s with widget }).attach client s.widget.controller none false).attach client
        widget.controller s.viewId s.bound) w { s with widget } := (turned_modifyView hs).attach.attach
    have hsettled := h.settled.reattached client hs hm hfree
    have hgrants (c : Option Nat) : (((a.modifyView w fun s => { s with widget }).attach client s.widget.controller none false).attach
        client widget.controller s.viewId s.bound).grants c = a.grants c := grants_attach.trans grants_attach
    have hsame : (((a.modifyView w fun s => { s with widget }).attach client s.widget.controller none false).attach client
        widget.controller s.viewId s.bound).told = a.told := attach_told.trans attach_told
    simp only [App.didUpdateWidget, ne_eq, hchanged, not_false_eq_true, if_true]
    generalize (((a.modifyView w fun s => { s with widget }).attach client s.widget.controller none false).attach client
      widget.controller s.viewId s.bound) = a₁ at *
    cases hv : s.viewId with
    | none =>
        refine ⟨?_, ?_⟩
        · split
          · exact hsettled.sendRequestedSize
          · exact hsettled
        · refine h.told.resized h.settled.registered hs hturn hgrants rfl hnamed (fun v hv' => ?_) (fun u _ => by rw [hsame]) _
            fun _ v hv' => ?_
          · cases hv.symm.trans hv'
          · cases hv.symm.trans hv'
    | some v =>
        have hturn' : Turned a (a₁.sendController widget.controller v) w { s with widget } := hturn
        have hnew : moduleView (a₁.sendController widget.controller v).told v = some ⟨a.grants widget.controller, s.askedSize⟩ := by
          rw [moduleView_sendController, if_pos rfl, hsame, hhas v hv, hgrants]
          rfl
        refine ⟨?_, ?_⟩
        · split
          · exact hsettled.sendController.sendRequestedSize
          · exact hsettled.sendController
        · refine h.told.resized h.settled.registered hs hturn' hgrants rfl hnamed (fun u hu => ⟨s.askedSize, ?_⟩) (fun u hu => ?_) _
            fun hsend u hu => ?_
          · cases hv.symm.trans hu
            exact hnew
          · have hne : v ≠ u := fun hvu => hu (hv.trans (congrArg some hvu))
            rw [moduleView_sendController, if_neg hne, hsame]
          · cases hv.symm.trans hu
            rw [hnew, ← hasked hsend]

theorem dispose_eq : a.dispose client w s =
    { (a.modifyView w fun s => { s with mounted := false }).attach client s.widget.controller none false with
      watched := fun v => if s.watchedId = some v then none else a.watched v } := by
  unfold App.dispose
  cases hv : s.watchedId with
  | none => cases hc : s.widget.controller <;> simp [attach, modifyView, modifyController]
  | some u =>
      have hwatched : Function.update a.watched u none = fun v => if some u = some v then none else a.watched v := by
        funext v
        simp [Function.update_apply, eq_comm (a := v)]
      cases hc : s.widget.controller <;> simp [attach, modifyView, modifyController, hwatched]

theorem Synced.dispose (h : a.Synced) (hs : a.views w = some s) (hm : s.mounted = true) : (a.dispose client w s).Synced := by
  obtain ⟨⟨hregistered, hattached, hlistened, hhonest⟩, htold⟩ := h
  rw [dispose_eq]
  have hturn : Turned a (a.modifyView w fun s => { s with mounted := false }) w { s with mounted := false } := turned_modifyView hs
  have hcontrollers (c : Nat) : ((a.modifyView w fun s => { s with mounted := false }).attach client s.widget.controller none
      false).controllers c = if s.widget.controller = some c then (a.controllers c).attach none false (client a.asks) else a.controllers c :=
    attach_controllers
  have hnext : ((a.modifyView w fun s => { s with mounted := false }).attach client s.widget.controller none false).nextId = a.nextId :=
    attach_nextId
  refine ⟨⟨?_, ?_, ?_, fun c => ?_⟩, ?_⟩
  · refine hregistered.turn hturn.attach hnext.ge (fun v => ?_) (fun old v hold hv => ?_) (fun v hv => ?_) fun v hv => ?_
    · rfl
    · cases hs.symm.trans hold
      exact hv
    · exact ⟨hnext ▸ hregistered.fresh w s v hs hv, fun k t hk ht => hregistered.others hs v k t hv hk ht⟩
    · exact hregistered.named w s v hs hv
  · refine hattached.keep hs hturn.attach (fun c hc => ?_) (fun c hc => ?_) (fun c hc _ => ?_) fun c hc => ?_
    · simp [WaylandToplevelViewState.held] at hc
    · simp [WaylandToplevelViewState.held] at hc
    · simp [attach_controllers, (held_of_mounted hm).mp hc]
    · simp [hcontrollers, mt (held_of_mounted hm).mpr hc]
  · exact hlistened.keep hs hturn.attach attach_nextId attach_taken rfl rfl
  · rw [hcontrollers]
    split
    · exact (hhonest c).attach
    · exact hhonest c
  · exact htold.keep hregistered hs hturn.attach (fun _ => grants_attach) attach_told rfl fun v hgone => absurd hgone (by simp)

theorem Synced.createState (h : a.Synced) (hs : a.views w = none) {widget : WaylandToplevelView α}
    (hfree : ∀ c k t, widget.controller = some c → k ≠ w → a.views k = some t → t.held ≠ some c) :
    ({ a with views := Function.update a.views w (some { widget }) } : App α).Synced := by
  obtain ⟨⟨hregistered, hattached, hlistened, hhonest⟩, htold⟩ := h
  have hturn : Turned a { a with views := Function.update a.views w (some { widget }) } w { widget } :=
    fun k => Function.update_apply ..
  have hno (old : WaylandToplevelViewState α) (hold : a.views w = some old) : False := by cases hs.symm.trans hold
  refine ⟨⟨?_, ?_, ?_, hhonest⟩, ?_⟩
  · exact hregistered.turn hturn le_rfl (fun v => by simp) (fun old v hold => (hno old hold).elim) (fun v hv => by cases hv)
      fun v hv => by cases hv
  · refine hattached.turn hturn (fun c k t hc hk ht => hfree c k t hc hk ht) (fun c hc => ?_)
      (fun c old hold => (hno old hold).elim)
      fun _ _ _ => ⟨rfl, rfl⟩
    refine hattached.detached c fun k t ht => ?_
    by_cases hk : k = w
    · subst hk
      exact (hno t ht).elim
    · exact hfree c k t hc hk ht
  · exact hlistened.turn hturn hlistened.unborn rfl fun _ _ _ _ _ _ => rfl
  · exact htold.turn hregistered hturn (fun _ => rfl) (fun _ _ => rfl) (fun v hv => by cases hv) (fun v k t hv => by cases hv)
      fun v _ hv => by cases hv

/-- A view is handed an event: it knows what it shows, and so does its controller. -/
theorem Synced.onViewEvent (h : a.Synced) (hs : a.views w = some s) (hm : s.mounted = true) (hv : s.watchedId = some v)
    (e : Heard) :
    ({ a.onViewEvent client w e s with taken := a.taken ++ [(v, e)] } : App α).Synced := by
  obtain ⟨⟨hregistered, hattached, hlistened, hhonest⟩, htold⟩ := h
  have hunborn : ∀ x ∈ a.taken ++ [(v, e)], x.1 < a.nextId := by
    intro x hx
    rcases List.mem_append.mp hx with hx | hx
    · exact hlistened.unborn x hx
    · rw [List.mem_singleton.mp hx]
      exact hregistered.fresh w s v hs hv
  cases e with
  | request r =>
      have hviews : ({ a.onViewEvent client w (.request r) s with taken := a.taken ++ [(v, .request r)] } : App α) =
          { a with requests := (a.onViewEvent client w (.request r) s).requests, taken := a.taken ++ [(v, .request r)] } := by
        simp only [App.onViewEvent]
        cases s.widget.controller <;> rfl
      rw [hviews]
      obtain ⟨h₁, h₂, h₃, h₄⟩ := hregistered
      obtain ⟨h₅, h₆, h₇⟩ := hattached
      obtain ⟨h₈, h₉⟩ := htold
      refine ⟨⟨⟨h₁, h₂, h₃, h₄⟩, ⟨h₅, h₆, h₇⟩, ⟨hunborn, fun k t ht => ?_⟩, hhonest⟩, ⟨h₈, h₉⟩⟩
      simp only [boundAfter_append]
      exact hlistened.bound k t ht
  | event e =>
      have hturn : Turned a ({ a.onViewEvent client w (.event e) s with taken := a.taken ++ [(v, .event e)] } : App α) w
          { s with bound := e == .bound } := by
        intro k
        simp only [App.onViewEvent, setBound_views]
        exact turned_modifyView hs k
      have hnext : (a.onViewEvent client w (.event e) s).nextId = a.nextId := setBound_nextId
      have hcontrollers (c : Nat) : (a.onViewEvent client w (.event e) s).controllers c =
          if s.widget.controller = some c then (a.controllers c).setBound (e == .bound) (client a.asks) else a.controllers c :=
        setBound_controllers
      refine ⟨⟨?_, ?_, ?_, fun c => ?_⟩, ?_⟩
      · exact hregistered.keep hs hturn hnext setBound_watched rfl rfl fun u hu => hregistered.named w s u hs hu
      · refine hattached.keep hs hturn (fun _ hc => hc) (fun c hc => ?_) (fun c hold hc => absurd hold hc) fun c hc => ?_
        · simp [hcontrollers, (held_of_mounted hm).mp hc, (hattached.attached w s c hs hc).1]
        · simp [hcontrollers, mt (held_of_mounted hm).mpr hc]
      · refine hlistened.turn hturn (fun x hx => hnext ▸ hunborn x hx) ?_ fun u k t hk ht hu => ?_
        · simp [hv]
        · have hne : v ≠ u := fun hvu => hregistered.others hs v k t hv hk ht (hu.trans (congrArg some hvu.symm))
          simp [hne]
      · rw [hcontrollers]
        split
        · exact (hhonest c).setBound
        · exact hhonest c
      · exact htold.keep hregistered hs hturn (fun _ => grants_setBound) setBound_told rfl
          fun u _ hu => htold.told w s u hs hm hu

/-- The app sets another thing for a controller, and the module is told of it for the view the controller has. -/
theorem Synced.set (h : a.Synced) (c : Nat) {f : WaylandToplevelController → WaylandToplevelController} {m : ViewId → ToModule α}
    (hid : (f (a.controllers c)).viewId = (a.controllers c).viewId) (hbound : (f (a.controllers c)).bound = (a.controllers c).bound)
    (hhonest : (f (a.controllers c)).Honest)
    (hhear : ∀ v size, ModuleView.hear v (some ⟨a.grants (some c), size⟩) (m v) = some ⟨(a.modifyController c f).grants (some c), size⟩)
    (hothers : ∀ u v view, u ≠ v → ModuleView.hear v view (m u) = view) :
    (match ((a.modifyController c f).controllers c).viewId with
      | none => a.modifyController c f
      | some v => (a.modifyController c f).tell (m v)).Synced := by
  obtain ⟨⟨hregistered, hattached, hlistened, hothershonest⟩, htold⟩ := h
  have hcontroller (k : Nat) : (a.modifyController c f).controllers k = if k = c then f (a.controllers c) else a.controllers k :=
    Function.update_apply ..
  have hsettled : (a.modifyController c f).Settled := by
    obtain ⟨h₁, h₂, h₃, h₄⟩ := hregistered
    obtain ⟨h₅, h₆, h₇⟩ := hattached
    obtain ⟨h₈, h₉⟩ := hlistened
    refine ⟨⟨h₁, h₂, h₃, h₄⟩, ⟨h₅, fun w s k hs hk => ?_, fun k hk => ?_⟩, ⟨h₈, h₉⟩, fun k => ?_⟩
    · have hthis := h₆ w s k hs hk
      rw [hcontroller]
      split
      · rename_i hkc
        rw [hid, hbound, ← hkc]
        exact hthis
      · exact hthis
    · have hthis := h₇ k hk
      rw [hcontroller]
      split
      · rename_i hkc
        rw [hid, hbound, ← hkc]
        exact hthis
      · exact hthis
    · rw [hcontroller]
      split
      · exact hhonest
      · exact hothershonest k
  have hgrants (k : Option Nat) (hk : k ≠ some c) : (a.modifyController c f).grants k = a.grants k := by
    cases k with
    | none => rfl
    | some k =>
        have hkc : k ≠ c := fun hkc => hk (congrArg some hkc)
        simp only [App.grants, hcontroller, if_neg hkc]
  have hsame : ((a.modifyController c f).controllers c).viewId = (a.controllers c).viewId := by rw [hcontroller, if_pos rfl, hid]
  rw [hsame]
  cases hv : (a.controllers c).viewId with
  | none =>
      refine ⟨hsettled, ⟨htold.known, fun w s v hs hm hsv => ?_⟩⟩
      have hother : s.widget.controller ≠ some c := fun hc => by
        have hgiven := (hattached.attached w s c hs ((held_of_mounted hm).mpr hc)).1
        cases hv.symm.trans (hgiven.trans hsv)
      rw [hgrants _ hother]
      exact htold.told w s v hs hm hsv
  | some u =>
      have hhas : ∃ w s, a.views w = some s ∧ s.held = some c := by
        by_contra hno
        have hfree := (hattached.detached c fun w s hs hc => hno ⟨w, s, hs, hc⟩).1
        cases hv.symm.trans hfree
      obtain ⟨w', s', hs', hc'⟩ := hhas
      have hm' : s'.mounted = true := by
        by_contra hno
        simp [WaylandToplevelViewState.held, hno] at hc'
      have hu : s'.viewId = some u := (hattached.attached w' s' c hs' hc').1.symm.trans hv
      have hmodule := htold.told w' s' u hs' hm' hu
      rw [(held_of_mounted hm').mp hc'] at hmodule
      refine ⟨hsettled.tell _, ⟨fun w s v hs hsv => ?_, fun w s v hs hm hsv => ?_⟩⟩
      · rw [moduleView_tell]
        by_cases huv : u = v
        · subst huv
          have hheard : ModuleView.hear u (moduleView (a.modifyController c f).told u) (m u) = _ :=
            (congrArg (ModuleView.hear u · (m u)) hmodule).trans (hhear u _)
          rw [hheard]
          rfl
        · rw [hothers u v _ huv]
          exact htold.known w s v hs hsv
      · rw [moduleView_tell]
        by_cases huv : u = v
        · subst huv
          have hw : w = w' := hregistered.distinct w w' s s' u hs hs' (hregistered.named w s u hs hsv)
            (hregistered.named w' s' u hs' hu)
          subst hw
          cases hs.symm.trans hs'
          rw [(held_of_mounted hm').mp hc']
          exact (congrArg (ModuleView.hear u · (m u)) hmodule).trans (hhear u _)
        · have hother : s.widget.controller ≠ some c := fun hc => by
            have hgiven := (hattached.attached w s c hs ((held_of_mounted hm).mpr hc)).1
            exact huv (Option.some.inj (hv.symm.trans (hgiven.trans hsv)))
          rw [hothers u v _ huv]
          have hgrants' : ((a.modifyController c f).tell (m u)).grants s.widget.controller = a.grants s.widget.controller :=
            hgrants _ hother
          rw [hgrants']
          exact htold.told w s v hs hm hsv

end App

end IhsWl
