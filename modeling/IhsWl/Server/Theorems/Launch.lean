import IhsWl.Server.Theorems.Links
import IhsWl.Server.Lemmas.Missing

/-!
# A client's launch

A client's toplevel maps and is activated with an issued token, while a view that matches it anyway and the
view that names the token are created, in any order.
-/

namespace IhsWl

open State

/-- What takes part in a launch: the update that maps the toplevel, the surface activated with the token, and
the two views. -/
structure Launch where
  update : Update
  asking : WlSurface
  token : String
  first : ViewHandle
  second : ViewHandle
  plain : first.params.token = none
  names : second.params.token = some token
  apart : first.id ≠ second.id

/-- The four events of a launch. -/
inductive Startup where
  | maps
  | activates
  | created
  | named
  deriving DecidableEq, Repr

def Startup.all : List Startup := [.maps, .activates, .created, .named]

namespace Launch

def event (l : Launch) : Startup → Event
  | .maps => .commit l.update
  | .activates => .activate l.asking l.token
  | .created => .cmd (.viewCreated l.first)
  | .named => .cmd (.viewCreated l.second)

def surface (l : Launch) : WlSurface := l.update.main.surface

/-- The launch may begin: the toplevel `t` has no token yet, is no dialog, and its client is in the sandbox the
view that names the token asks for; the token is known, and neither view is there. -/
structure Ready (w : World) (l : Launch) (t : ToplevelId) (s : State) : Prop where
  id : s.idOf l.surface = some t
  entry : (s.toplevel t).any (fun te => te.token.isNone && inSandbox w l.second.params te) = true
  alone : (s.surfaces l.surface).parent = none
  committable : s.committable w l.surface = true
  asks : s.toplevelOf l.asking = l.surface
  issued : s.tokens.find? (fun token => token.value == l.token) = some ⟨l.token, true⟩
  unnamed : s.named l.token = false
  unmade : s.view l.first.id = none ∧ s.view l.second.id = none

/-- The view that names the token shows the toplevel, and the other does not. -/
def Given (l : Launch) (t : ToplevelId) (s : State) : Prop :=
  s.shows l.second.id = some t ∧ s.shows l.first.id ≠ some t

end Launch

variable {w : World} {l : Launch} {t : ToplevelId} {s s' r : State} {todo : List Startup}

/-- A launch of which `todo` is left: the toplevel alone carries the token once it is activated, and the view
that names it shows nothing else. -/
structure Launching (w : World) (l : Launch) (t : ToplevelId) (todo : List Startup) (s : State) : Prop where
  id : s.idOf l.surface = some t
  alone : (s.surfaces l.surface).parent = none
  committable : s.committable w l.surface = true
  entry : ∃ te, s.toplevel t = some te ∧ te.surface = l.surface ∧ inSandbox w l.second.params te = true ∧
    te.token = (if .activates ∈ todo then none else some l.token) ∧ (.maps ∉ todo → te.mapped = true)
  asks : .activates ∈ todo → s.toplevelOf l.asking = l.surface ∧
    s.tokens.find? (fun token => token.value == l.token) = some ⟨l.token, true⟩
  carried : ∀ t' te, s.toplevel t' = some te → te.token = some l.token → t' = t
  naming : ∀ v e, s.view v = some e → e.handle.params.token = some l.token → v = l.second.id
  created : .created ∈ todo → s.view l.first.id = none
  named : (s.view l.second.id).map ViewEntry.handle = if .named ∈ todo then none else some l.second
  shown : ∀ t', s.shows l.second.id = some t' → t' = t ∧ .activates ∉ todo

/-- What suits a view that names a token carries it, and the other way round. -/
theorem suits_token {v : ViewId} {e : ViewEntry} {te : ToplevelEntry} (hs : s.suits w v t = true)
    (he : s.view v = some e) (hte : s.toplevel t = some te) (hor : (e.handle.params.token.isSome || te.token.isSome) = true) :
    te.token = e.handle.params.token := by
  rw [suits, he, Option.any_some, hte, Option.any_some, wants, if_pos hor, Bool.and_eq_true, beq_iff_eq] at hs
  exact hs.2

namespace Launching

theorem grows (h : Launching w l t todo s) (hg : Grows w s s') : Launching w l t todo s' := by
  have hdesk := hg.desk
  have hfaces := SameFaces.of_later hg.toLater
  have hhandle : ∀ v e', s'.view v = some e' → ∃ e, s.view v = some e ∧ e.handle = e'.handle := by
    intro v e' he'
    have hh := hg.handles v
    rw [he'] at hh
    obtain ⟨e, he, hh⟩ := Option.map_eq_some_iff.mp hh.symm
    exact ⟨e, he, hh⟩
  obtain ⟨te, hte, hsurface, hsandbox, htoken, hmapped⟩ := h.entry
  obtain ⟨te', hte', hl⟩ := hg.entry hte
  refine ⟨by rw [hdesk.idOf]; exact h.id, by rw [hdesk.surfaces]; exact h.alone, by rw [hdesk.committable]; exact h.committable,
    ⟨te', hte', hl.surface.trans hsurface, ?_, hl.token.trans htoken, fun hm => hl.mapped (hmapped hm)⟩, fun ha => ?_,
    fun t' te₁ hte₁ hcarried => ?_, fun v e' he' hnames => ?_, fun hc => ?_, ?_, fun t' hs => ?_⟩
  · simpa only [inSandbox, hl.surface] using hsandbox
  · rw [hdesk.toplevelOf, hdesk.tokens]
    exact h.asks ha
  · obtain ⟨te₀, hte₀, -, htok⟩ := hfaces.toplevel hte₁
    exact h.carried t' te₀ hte₀ (htok.trans hcarried)
  · obtain ⟨e, he, hh⟩ := hhandle v e' he'
    exact h.naming v e he (by rw [hh]; exact hnames)
  · have hh := hg.handles l.first.id
    rw [h.created hc] at hh
    simpa using hh
  · rw [hg.handles]
    exact h.named
  · rcases hg.gains _ _ hs with hs | hs
    · exact h.shown t' hs
    · -- What it gained carries its token.
      obtain ⟨e, he, hs'⟩ := (Option.any_eq_true _ _).mp hs
      obtain ⟨te₁, hte₁, -⟩ := (Option.any_eq_true _ _).mp hs'
      have hnamed := h.named
      rw [he, Option.map_some] at hnamed
      have hsecond : e.handle = l.second := by
        split at hnamed
        · cases hnamed
        · exact Option.some.inj hnamed
      have htok := suits_token hs he hte₁ (by rw [hsecond, l.names]; rfl)
      rw [hsecond, l.names] at htok
      have ht := h.carried t' te₁ hte₁ htok
      refine ⟨ht, fun ha => ?_⟩
      rw [ht, hte] at hte₁
      cases hte₁
      rw [htoken, if_pos ha] at htok
      cases htok

/-- One event fewer is left, and the state is no other. -/
theorem advance {e : Startup} (h : Launching w l t (e :: todo) s) (ha : e ≠ .activates) (hn : e ≠ .named)
    (hm : e = .maps → s.isMapped t = true) : Launching w l t todo s := by
  have hactive : .activates ∈ e :: todo ↔ .activates ∈ todo := by simp [ha.symm]
  have hnamed : .named ∈ e :: todo ↔ .named ∈ todo := by simp [hn.symm]
  obtain ⟨te, hte, hsurface, hsandbox, htoken, hmapped⟩ := h.entry
  refine ⟨h.id, h.alone, h.committable, ⟨te, hte, hsurface, hsandbox, ?_, fun hnot => ?_⟩,
    fun hmem => h.asks (hactive.mpr hmem), h.carried, h.naming, fun hmem => h.created (List.mem_cons_of_mem e hmem), ?_,
    fun t' hs => ?_⟩
  · rw [htoken, if_congr hactive rfl rfl]
  · by_cases he : e = .maps
    · have hm := hm he
      rw [isMapped, hte] at hm
      exact hm
    · exact hmapped (by simp [Ne.symm he, hnot])
  · rw [h.named, if_congr hnamed rfl rfl]
  · rw [← hactive]
    exact h.shown t' hs

theorem view_insertView (s : State) (view : ViewHandle) (v : ViewId) : (s.insertView view).view v =
    if v = view.id then some { handle := view, size := view.size, requested := view.params.requested } else s.view v :=
  Table.get_insert ..

/-- A view of the launch is made, and no other was there. -/
theorem insert {e : Startup} {view : ViewHandle} (h : Launching w l t (e :: todo) s)
    (he : e = .created ∧ view = l.first ∨ e = .named ∧ view = l.second) (hnot : e ∉ todo) :
    Launching w l t todo (s.insertView view) ∧ (s.insertView view).shows = s.shows := by
  have hnone : s.view view.id = none := by
    rcases he with ⟨rfl, rfl⟩ | ⟨rfl, rfl⟩
    · exact h.created List.mem_cons_self
    · have hnamed := h.named
      rw [if_pos List.mem_cons_self] at hnamed
      simpa using hnamed
  have hshows : (s.insertView view).shows = s.shows := by
    funext v
    rw [shows_insertView]
    split
    · rename_i hv
      rw [shows, hv, hnone]
      rfl
    · rfl
  have hactive : .activates ∈ e :: todo ↔ .activates ∈ todo := by rcases he with ⟨rfl, -⟩ | ⟨rfl, -⟩ <;> simp
  have hmaps : .maps ∈ e :: todo ↔ .maps ∈ todo := by rcases he with ⟨rfl, -⟩ | ⟨rfl, -⟩ <;> simp
  obtain ⟨te, hte, hsurface, hsandbox, htoken, hmapped⟩ := h.entry
  refine ⟨⟨h.id, h.alone, h.committable, ⟨te, hte, hsurface, hsandbox, ?_, fun hm => hmapped (by rwa [hmaps])⟩,
    fun hmem => h.asks (hactive.mpr hmem), h.carried, fun v e' hv hnames => ?_, fun hmem => ?_, ?_, fun t' hs => ?_⟩, hshows⟩
  · rw [htoken, if_congr hactive rfl rfl]
  · rw [view_insertView] at hv
    split at hv
    · rename_i hvv
      cases hv
      rcases he with ⟨-, rfl⟩ | ⟨-, rfl⟩
      · rw [l.plain] at hnames
        cases hnames
      · exact hvv
    · exact h.naming v e' hv hnames
  · have hcreated := h.created (List.mem_cons_of_mem e hmem)
    rcases he with ⟨rfl, rfl⟩ | ⟨rfl, rfl⟩
    · exact absurd hmem hnot
    · rw [view_insertView, if_neg l.apart]
      exact hcreated
  · rcases he with ⟨rfl, rfl⟩ | ⟨rfl, rfl⟩
    · rw [view_insertView, if_neg l.apart.symm, h.named]
      simp
    · rw [view_insertView, if_pos rfl, if_neg hnot]
      rfl
  · rw [hshows] at hs
    rw [← hactive]
    exact h.shown t' hs

/-- The toplevel is marked with its token. -/
theorem mark (h : Launching w l t (.activates :: todo) s) (hnot : .activates ∉ todo) :
    Launching w l t todo (s.markActivated t l.token) := by
  obtain ⟨te, hte, hsurface, hsandbox, -, hmapped⟩ := h.entry
  have htop (id : ToplevelId) : (s.markActivated t l.token).toplevel id =
      if id = t then some { te with token := some l.token } else s.toplevel id := by
    simp only [markActivated, toplevel_log, toplevel_modifyToplevel]
    split
    · change (s.toplevel t).map _ = _
      rw [hte]
      rfl
    · rfl
  refine ⟨h.id, h.alone, h.committable, ⟨{ te with token := some l.token }, by rw [htop, if_pos rfl], hsurface, hsandbox,
    by rw [if_neg hnot], fun hm => hmapped (by simp [hm])⟩, fun hmem => absurd hmem hnot, fun t' te' hte' hcarried => ?_,
    h.naming, fun hmem => h.created (List.mem_cons_of_mem _ hmem), ?_, fun t' hs => ?_⟩
  · rw [htop] at hte'
    split at hte'
    · assumption
    · exact h.carried t' te' hte' hcarried
  · change (s.view l.second.id).map _ = _
    rw [h.named]
    simp
  · exact absurd List.mem_cons_self (h.shown t' hs).2

theorem unlink (h : Launching w l t todo s) (v : ViewId) : Launching w l t todo (s.unlink v) := by
  have hdesk := unlink_desk s v
  have hhandle := handle_unlink s v
  obtain ⟨te, hte, hsurface, hsandbox, htoken, hmapped⟩ := h.entry
  have hentry : ∃ te', (s.unlink v).toplevel t = some te' ∧ te'.surface = te.surface ∧ te'.token = te.token ∧
      te'.mapped = te.mapped := by
    rw [toplevel_unlink, hte]
    split
    · exact ⟨_, rfl, rfl, rfl, rfl⟩
    · exact ⟨_, rfl, rfl, rfl, rfl⟩
  obtain ⟨te', hte', hs', ht', hm'⟩ := hentry
  refine ⟨by rw [hdesk.idOf]; exact h.id, by rw [hdesk.surfaces]; exact h.alone, by rw [hdesk.committable]; exact h.committable,
    ⟨te', hte', hs'.trans hsurface, by simpa only [inSandbox, hs'] using hsandbox, ht'.trans htoken, fun hm => by rw [hm', hmapped hm]⟩,
    fun ha => ?_, fun t' te₁ hte₁ hcarried => ?_, fun v' e' he' hnames => ?_, fun hc => ?_, ?_, fun t' hs => ?_⟩
  · rw [hdesk.toplevelOf, hdesk.tokens]
    exact h.asks ha
  · obtain ⟨te₀, hte₀, -, htok⟩ := (SameFaces.unlink s v).toplevel hte₁
    exact h.carried t' te₀ hte₀ (htok.trans hcarried)
  · have hh := hhandle v'
    rw [he'] at hh
    obtain ⟨e, he, hh⟩ := Option.map_eq_some_iff.mp hh.symm
    exact h.naming v' e he (by rw [hh]; exact hnames)
  · have hh := hhandle l.first.id
    rw [h.created hc] at hh
    simpa using hh
  · rw [hhandle]
    exact h.named
  · rw [shows_unlink] at hs
    split at hs
    · cases hs
    · exact h.shown t' hs

end Launching

/-! ## Who shows the toplevel -/

/-- No view but the one that names the token shows the toplevel. -/
def Reserved (l : Launch) (t : ToplevelId) (s : State) : Prop := ∀ v, s.shows v = some t → v = l.second.id

/-- Another view shows the toplevel. -/
def Elsewhere (l : Launch) (t : ToplevelId) (s : State) : Prop := ∃ v, s.shows v = some t ∧ v ≠ l.second.id

theorem Elsewhere.grows (h : Elsewhere l t s) (hg : Grows w s s') : Elsewhere l t s' := by
  obtain ⟨v, hv, hne⟩ := h
  exact ⟨v, hg.shows v t hv, hne⟩

namespace Launching

/-- Once it carries its token, the toplevel suits the view that names it only. -/
theorem suited (h : Launching w l t todo s) (ha : .activates ∉ todo) {v : ViewId} (hs : s.suits w v t = true) :
    v = l.second.id := by
  obtain ⟨te, hte, -, -, htoken, -⟩ := h.entry
  obtain ⟨e, he, -⟩ := (Option.any_eq_true _ _).mp hs
  rw [if_neg ha] at htoken
  have htok := suits_token hs he hte (by rw [htoken, Option.isSome_some, Bool.or_true])
  exact h.naming v e he (htok.symm.trans htoken)

theorem reserved (h : Launching w l t todo s) (ha : .activates ∉ todo) (hg : Grows w s s') (hr : Reserved l t s) :
    Reserved l t s' := fun v hv =>
  (hg.gains v t hv).elim (hr v) (h.suited ha)

theorem named_iff (h : Launching w l t todo s) : s.named l.token = true ↔ .named ∉ todo := by
  have hview := h.named
  rw [State.named, List.any_eq_true]
  constructor
  · rintro ⟨v, -, hv⟩ hmem
    obtain ⟨e, he, hnames⟩ := (Option.any_eq_true _ _).mp hv
    rw [if_pos hmem, Option.map_eq_none_iff] at hview
    rw [h.naming v e he (beq_iff_eq.mp hnames), hview] at he
    cases he
  · intro hnot
    rw [if_neg hnot] at hview
    obtain ⟨e, he, hh⟩ := Option.map_eq_some_iff.mp hview
    refine ⟨l.second.id, Table.mem_keys.mpr ?_, ?_⟩
    · rw [show s.views[l.second.id]? = some e from he]
      rfl
    · rw [he, Option.any_some, hh, l.names]
      exact beq_self_eq_true _

/-- One event of the launch but the activation: a view is made, if it is one, and commits are applied. -/
theorem step_other (depth : Nat) {e : Startup} (h : Launching w l t (e :: todo) s) (hnot : e ∉ todo)
    (ha : e ≠ .activates) : Launching w l t todo (step w depth s (l.event e)) ∧
    ∃ r, r.shows = s.shows ∧ Grows w r (step w depth s (l.event e)) ∧
      (.activates ∉ todo → Reserved l t r → Reserved l t (step w depth s (l.event e))) := by
  have hu := unblock_wakes w depth
  have hmade (view : ViewHandle) (he : e = .created ∧ view = l.first ∨ e = .named ∧ view = l.second) :
      Launching w l t todo (s.viewCreated w (unblock w depth) view) ∧
      ∃ r, r.shows = s.shows ∧ Grows w r (s.viewCreated w (unblock w depth) view) ∧
        (.activates ∉ todo → Reserved l t r → Reserved l t (s.viewCreated w (unblock w depth) view)) := by
    obtain ⟨hnext, hshows⟩ := h.insert he hnot
    have hnone : (s.view view.id).isSome = false := by
      rcases he with ⟨rfl, rfl⟩ | ⟨rfl, rfl⟩
      · rw [h.created List.mem_cons_self]
        rfl
      · have hnamed := h.named
        rw [if_pos List.mem_cons_self, Option.map_eq_none_iff] at hnamed
        rw [hnamed]
        rfl
    have hcreated : s.viewCreated w (unblock w depth) view = (s.insertView view).tryBindView w (unblock w depth) view.id := by
      unfold viewCreated
      rw [hnone]
      rfl
    have hgrows : Grows w (s.insertView view) ((s.insertView view).tryBindView w (unblock w depth) view.id) :=
      .of_settles (tryBindView_settles hu (D := ∅) view.id)
    rw [hcreated]
    exact ⟨hnext.grows hgrows, _, hshows, hgrows, fun hact hr => hnext.reserved hact hgrows hr⟩
  cases e with
  | activates => exact absurd rfl ha
  | created => exact hmade l.first (Or.inl ⟨rfl, rfl⟩)
  | named => exact hmade l.second (Or.inr ⟨rfl, rfl⟩)
  | maps =>
      have hgrows : Grows w s (s.applyUpdate w (unblock w depth) l.update) :=
        .of_settles (applyUpdate_settles hu (D := ∅) l.update)
      obtain ⟨te, hte, -⟩ := h.entry
      refine ⟨(h.grows hgrows).advance (by simp) (by simp) fun _ => applyUpdate_maps hu h.committable h.id hte, s, rfl,
        hgrows, fun hact hr => h.reserved (by simpa using hact) hgrows hr⟩

/-- The activation: the toplevel goes to the view that names the token, unless another shows it and no view
names the token. -/
theorem step_activates (depth : Nat) (h : Launching w l t (.activates :: todo) s) (hnot : .activates ∉ todo)
    (hp : Paired s) : Launching w l t todo (step w depth s (l.event .activates)) ∧
    (.named ∉ todo ∨ s.shownIn t = none → Reserved l t (step w depth s (l.event .activates))) ∧
    (¬(.named ∉ todo ∨ s.shownIn t = none) → Elsewhere l t (step w depth s (l.event .activates))) := by
  have hu := unblock_wakes w depth
  obtain ⟨hasks, hfind⟩ := h.asks List.mem_cons_self
  have hmarked := h.mark hnot
  obtain ⟨te, hte, -⟩ := h.entry
  have hnamed := hmarked.named_iff
  have hstep : step w depth s (l.event .activates) = s.requestActivation w (unblock w depth) l.asking ⟨l.token, true⟩ := by
    change s.handle w (unblock w depth) (.activate l.asking l.token) = _
    unfold handle
    dsimp only
    rw [hfind]
  have hshown : s.shownIn t = te.view := by rw [shownIn, hte]; rfl
  rw [hstep, requestActivation, if_neg (by simp), hasks, h.id, hshown]
  dsimp only
  rw [hte]
  dsimp only
  cases hv : te.view with
  | none =>
      have hfree : Reserved l t (s.markActivated t l.token) := by
        intro v hs
        have hs' := (hp v t).mp hs
        rw [hshown, hv] at hs'
        cases hs'
      have hgrows : Grows w (s.markActivated t l.token) ((s.markActivated t l.token).bindWaitingViews w (unblock w depth)) :=
        .of_settles (bindWaitingViews_settles hu (D := ∅))
      exact ⟨hmarked.grows hgrows, fun _ => hmarked.reserved hnot hgrows hfree, fun hno => absurd (Or.inr rfl) hno⟩
  | some v =>
      rw [hv] at hshown
      have hshows : s.shows v = some t := (hp v t).mpr hshown
      have hother : v ≠ l.second.id := fun hvs => (h.shown t (hvs ▸ hshows)).2 List.mem_cons_self
      have hown : ((s.markActivated t l.token).view v).any (fun e => e.handle.params.token == some l.token) = false := by
        by_contra hnames
        obtain ⟨e, he, hnames⟩ := (Option.any_eq_true _ _).mp ((Bool.not_eq_false _).mp hnames)
        exact hother (h.naming v e he (beq_iff_eq.mp hnames))
      dsimp only
      rw [hown, if_neg Bool.false_ne_true]
      by_cases hmem : .named ∈ todo
      · have hunnamed : (s.markActivated t l.token).named l.token = false := by
          rw [← Bool.not_eq_true, hnamed, not_not]
          exact hmem
        rw [hunnamed, if_pos (by rfl)]
        exact ⟨hmarked, fun hor => absurd hmem (hor.resolve_right (by simp)), fun _ => ⟨v, hshows, hother⟩⟩
      · rw [hnamed.mpr hmem, if_neg (by simp)]
        have hclear := Grows.clearing (w := w) hu (s.markActivated t l.token) v
        have hgrows : Grows w ((s.markActivated t l.token).unbindView w (unblock w depth) v)
            (((s.markActivated t l.token).unbindView w (unblock w depth) v).bindWaitingViews w (unblock w depth)) :=
          .of_settles (bindWaitingViews_settles hu (D := ∅))
        have hunbound := (hmarked.grows hclear).unlink v
        -- The view it is taken from was the only one to show it.
        have hfree : Reserved l t ((s.markActivated t l.token).unbindView w (unblock w depth) v) := by
          intro v' hs
          rw [unbindView, shows_unlink] at hs
          split at hs
          · cases hs
          · rename_i hne
            rcases hclear.gains v' t hs with hs | hs
            · have hs' := (hp v' t).mp hs
              rw [hshown] at hs'
              exact absurd (Option.some.inj hs').symm hne
            · exact hmarked.suited hnot hs
        exact ⟨hunbound.grows hgrows, fun _ => hunbound.reserved hnot hgrows hfree, fun hno => absurd (Or.inl hmem) hno⟩

end Launching

/-! ## The order of a launch -/

/-- As `Launching`, between events: the view that names the token does not miss the toplevel. -/
structure Begun (w : World) (l : Launch) (t : ToplevelId) (todo : List Startup) (s : State) : Prop
    extends Launching w l t todo s where
  paired : Paired s
  sound : Sound s
  sees : Sees w l.second.id t ∅ s

namespace Begun

/-- No event of the launch leaves a view that looked for no toplevel. -/
theorem step_sees (depth : Nat) {e : Startup} (h : Begun w l t (e :: todo) s) :
    Sees w l.second.id t ∅ (step w depth s (l.event e)) := by
  have hkeeps : keepsAppId s (l.event e) = true := by cases e <;> rfl
  have hdeeds : Deeds w (fun s e => keepsAppId s e = true) s ∅ (step w depth s (l.event e)) (unpaid s (l.event e)) :=
    step_deeds h.paired hkeeps
  have hall := Sees.deeds hdeeds h.sound h.sees
  intro hm
  rcases hall hm with hd | hd
  · cases e with
    | maps => cases hd
    | activates => obtain ⟨v, -, hd⟩ := hd; cases hd
    | created => obtain ⟨v, -, hd⟩ := hd; cases hd
    | named => obtain ⟨v, -, hd⟩ := hd; cases hd
  · cases e with
    | maps => cases hd
    | activates => obtain ⟨v, -, hd⟩ := hd; cases hd
    | created =>
        obtain ⟨t', ht, -⟩ := hd
        rw [shows, h.created List.mem_cons_self] at ht
        cases ht
    | named =>
        obtain ⟨t', ht, -⟩ := hd
        have hnamed := h.named
        rw [if_pos List.mem_cons_self, Option.map_eq_none_iff] at hnamed
        rw [shows, hnamed] at ht
        cases ht

theorem step (depth : Nat) {e : Startup} (h : Begun w l t (e :: todo) s) (hnot : e ∉ todo) :
    Begun w l t todo (step w depth s (l.event e)) := by
  have hdeeds : Deeds w (fun _ _ => True) s ∅ (IhsWl.step w depth s (l.event e)) (unpaid s (l.event e)) :=
    step_deeds h.paired trivial
  obtain ⟨hp, hs⟩ := hdeeds.invariant (P := fun s => Paired s ∧ Sound s)
    (fun hd h => ⟨h.1.act hd.act, h.2.act hd.act⟩) ⟨h.paired, h.sound⟩
  refine ⟨?_, hp, hs, h.step_sees depth⟩
  by_cases ha : e = .activates
  · subst ha
    exact (h.step_activates depth hnot h.paired).1
  · exact (h.step_other depth hnot ha).1

theorem foldl (depth : Nat) (before : List Startup) (hnodup : (before ++ todo).Nodup) {s : State}
    (h : Begun w l t (before ++ todo) s) : Begun w l t todo ((before.map l.event).foldl (IhsWl.step w depth) s) := by
  induction before generalizing s with
  | nil => exact h
  | cons e before ih =>
      rw [List.cons_append, List.nodup_cons] at hnodup
      exact ih hnodup.2 (h.step depth hnodup.1)

/-- What follows the activation leaves the toplevel where it is. -/
theorem settled (depth : Nat) (after : List Startup) (hnodup : after.Nodup) (hact : .activates ∉ after) {s : State}
    (h : Begun w l t after s) :
    (Reserved l t s → Reserved l t ((after.map l.event).foldl (IhsWl.step w depth) s)) ∧
    (Elsewhere l t s → Elsewhere l t ((after.map l.event).foldl (IhsWl.step w depth) s)) := by
  induction after generalizing s with
  | nil => exact ⟨id, id⟩
  | cons e after ih =>
      rw [List.nodup_cons] at hnodup
      rw [List.mem_cons, not_or] at hact
      obtain ⟨-, r, hshows, hgrows, hreserved⟩ := h.step_other depth hnodup.1 (Ne.symm hact.1)
      obtain ⟨hr, he⟩ := ih hnodup.2 hact.2 (h.step depth hnodup.1)
      refine ⟨fun hs => hr (hreserved hact.2 fun v hv => hs v (hshows ▸ hv)), fun ⟨v, hv, hne⟩ => he ?_⟩
      exact Elsewhere.grows ⟨v, hshows ▸ hv, hne⟩ hgrows

/-- Once all happened, the toplevel is shown, for the view that names the token missed nothing. -/
theorem given (h : Begun w l t [] s) : l.Given t s ↔ Reserved l t s := by
  constructor
  · rintro ⟨hsecond, -⟩ v hv
    have hvs := (h.paired v t).mp hv
    rw [(h.paired _ t).mp hsecond] at hvs
    exact (Option.some.inj hvs).symm
  · intro hr
    have hfirst : s.shows l.first.id ≠ some t := fun hs => l.apart (hr _ hs)
    refine ⟨?_, hfirst⟩
    cases hshown : s.shownIn t with
    | some v =>
        have hv := (h.paired v t).mpr hshown
        rwa [← hr v hv]
    | none =>
        obtain ⟨te, hte, hsurface, hsandbox, htoken, hmapped⟩ := h.entry
        obtain ⟨e, he, hh⟩ := Option.map_eq_some_iff.mp (h.named.trans (if_neg List.not_mem_nil))
        rw [if_neg List.not_mem_nil] at htoken
        cases hshows : s.shows l.second.id with
        | some t' => rw [(h.shown t' hshows).1]
        | none =>
            have hlone : s.lone t = true := by
              rw [lone, hte, Option.any_some, hsurface, h.alone]
              rfl
            have hsuits : s.suits w l.second.id t = true := by
              rw [suits, he, Option.any_some, hte, Option.any_some, hh, wants, hsandbox, htoken, l.names]
              simp
            have hm : s.isMapped t = true := by
              rw [isMapped, hte]
              exact hmapped List.not_mem_nil
            rcases h.sees ⟨hsuits, hshows, hshown, hlone, hm⟩ with hd | hd <;> cases hd

end Begun

/-- A launch that may begin, of which all is left. -/
theorem Launch.Ready.begun {depth : Nat} {pre : List Event} (hmint : Function.Injective w.mint)
    (h : l.Ready w t (run w depth pre)) (hall : ∀ e, e ∈ todo) : Begun w l t todo (run w depth pre) := by
  obtain ⟨hp, hs⟩ := run_sound w depth pre
  have htok : Paired (run w depth pre) ∧ Tokens w (run w depth pre) :=
    run_keeps (fun _ h ha => h.act hmint ha) .empty (meets_anything depth pre {})
  generalize run w depth pre = s at h hp hs htok
  obtain ⟨te, hte, hentry⟩ := (Option.any_eq_true _ _).mp h.entry
  rw [Bool.and_eq_true, Option.isNone_iff_eq_none] at hentry
  have hsecond : s.shows l.second.id = none := by
    rw [shows, h.unmade.2]
    rfl
  refine ⟨⟨h.id, h.alone, h.committable, ⟨te, hte, hs.own _ t te h.id hte, hentry.2, ?_, fun hn => absurd (hall _) hn⟩,
    fun _ => ⟨h.asks, h.issued⟩, fun t' te' hte' hcarried => ?_, fun v e he hnames => ?_, fun _ => h.unmade.1, ?_, fun t' hs' => ?_⟩,
    hp, hs, fun hm => ?_⟩
  · rw [hentry.1, if_pos (hall _)]
  · -- The token is known, so it marks no toplevel.
    have hmark := htok.2.carried t' te' l.token hte' hcarried
    exact absurd rfl ((htok.2.marks t' l.token hmark).2.2 _ (List.mem_of_find?_eq_some h.issued))
  · have hnamed := h.unnamed
    rw [State.named, List.any_eq_false] at hnamed
    refine absurd ?_ (hnamed v (Table.mem_keys.mpr ?_))
    · rw [he, Option.any_some, hnames]
      exact beq_self_eq_true _
    · rw [show s.views[v]? = some e from he]
      rfl
  · rw [h.unmade.2, if_pos (hall _)]
    rfl
  · rw [hsecond] at hs'
    cases hs'
  · obtain ⟨e, te', he, -⟩ := missing_iff.mp hm
    rw [h.unmade.2] at he
    cases he

/-- However the events of a launch are ordered, the view that names the token ends up with the toplevel, and the
other without, exactly when it is there before the activation or no view shows the toplevel at the activation. -/
theorem run_given (w : World) (depth : Nat) (pre : List Event) (l : Launch) (t : ToplevelId)
    (hmint : Function.Injective w.mint) (hready : l.Ready w t (run w depth pre)) (before after : List Startup)
    (horder : (before ++ .activates :: after).Perm Startup.all) :
    l.Given t (run w depth (pre ++ (before ++ .activates :: after).map l.event)) ↔
      .named ∈ before ∨ (run w depth (pre ++ before.map l.event)).shownIn t = none := by
  have hnodup : (before ++ .activates :: after).Nodup := horder.nodup_iff.mpr (by decide)
  have hall : ∀ e, e ∈ before ++ .activates :: after := fun e => horder.mem_iff.mpr (by cases e <;> decide)
  have hbegun : Begun w l t (.activates :: after) (run w depth (pre ++ before.map l.event)) := by
    rw [run, List.foldl_append]
    exact (hready.begun hmint hall).foldl depth before hnodup
  have hend : run w depth (pre ++ (before ++ .activates :: after).map l.event) =
      (after.map l.event).foldl (step w depth) (step w depth (run w depth (pre ++ before.map l.event)) (l.event .activates)) := by
    rw [run, List.map_append, List.map_cons, ← List.append_assoc, List.foldl_append, List.foldl_cons]
    rfl
  obtain ⟨-, hnodup', hdisjoint⟩ := List.nodup_append.mp hnodup
  obtain ⟨hact, hafter⟩ := List.nodup_cons.mp hnodup'
  have hnamed : .named ∉ after ↔ .named ∈ before := by
    constructor
    · intro hn
      simpa [hn] using hall .named
    · exact fun hb ha => hdisjoint _ hb _ (List.mem_cons_of_mem _ ha) rfl
  rw [hend, ← hnamed]
  generalize run w depth (pre ++ before.map l.event) = s at hbegun
  obtain ⟨-, hreserved, helsewhere⟩ := hbegun.step_activates depth hact hbegun.paired
  have hnext := hbegun.step depth hact
  obtain ⟨hr, he⟩ := hnext.settled depth after hafter hact
  rw [Begun.given (Begun.foldl depth after (by simpa using hafter) (by simpa using hnext))]
  refine ⟨fun hall => ?_, fun hor => hr (hreserved hor)⟩
  by_contra hno
  obtain ⟨v, hv, hne⟩ := he (helsewhere hno)
  exact hne (hall v hv)

/-- The module issues a token, and a client of an app makes a toplevel. -/
def launchRun : List Event := [.cmd .issueToken, .newToplevel 1, .setAppId 1 "org.a"]

/-- Its launch, in a view that names the app and one that names the token. -/
def appLaunch : Launch where
  update := { main := { surface := 1 } }
  asking := 1
  token := ""
  first := { uid := 0, id := 1, params := { appId := some "org.a" } }
  second := { uid := 1, id := 2, params := { token := some "" } }
  plain := rfl
  names := rfl
  apart := by decide

theorem appLaunch_ready : appLaunch.Ready World.granting 1 (run World.granting 1 launchRun) where
  id := by decide +kernel
  entry := by decide +kernel
  alone := by decide +kernel
  committable := by decide +kernel
  asks := by decide +kernel
  issued := by decide +kernel
  unnamed := by decide +kernel
  unmade := by decide +kernel

/-- The view that names the token is there when the toplevel, shown already, is activated. -/
theorem run_given_named : appLaunch.Given 1
    (run World.granting 1 (launchRun ++ ([Startup.maps, Startup.created, Startup.named] ++ Startup.activates :: []).map appLaunch.event)) :=
  (run_given World.granting 1 launchRun appLaunch 1 World.mint_granting appLaunch_ready [.maps, .created, .named] []
    (by decide)).mpr (Or.inl (by decide))

/-- It is created last, and the other view keeps the toplevel. -/
theorem not_given : ¬∀ (w : World) (depth : Nat) (pre : List Event) (l : Launch) (t : ToplevelId),
    Function.Injective w.mint → l.Ready w t (run w depth pre) → ∀ order : List Startup, order.Perm Startup.all →
    l.Given t (run w depth (pre ++ order.map l.event)) := by
  intro h
  have hshown := (h World.granting 1 launchRun appLaunch 1 World.mint_granting appLaunch_ready
    [.maps, .created, .activates, .named] (by decide)).1
  revert hshown
  decide +kernel

end IhsWl
