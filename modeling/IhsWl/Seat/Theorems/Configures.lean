import IhsWl.Seat.Lemmas.Notices
import IhsWl.Server.Theorems.Mirror

/-!
# Windows are told what their views grant

A window was last configured to the size of the view that shows it and to what its app grants, whatever happened
since, and its client's requests are passed on exactly when that configure said they would be.
-/

namespace IhsWl

open State

variable {w : SeatWorld} {c c' : Seat} {id : ToplevelId}

namespace Seat

/-- What a view tells the window it shows, but for its activation. -/
structure Suits (w : SeatWorld) (g : Grants) (x : WlSurface) (size : Int × Int) (p : Pending) : Prop where
  size : p.size = some (max size.1 1, max size.2 1)
  capabilities : p.capabilities = wmCapabilities g.capabilities
  tiled : p.tiled = w.tiles x
  fullscreen : p.fullscreen = (g.windowState &&& 2 != 0)
  maximized : p.maximized = (g.windowState &&& 1 != 0 || (!w.tiles x && !(g.windowState &&& 2 != 0)))

theorem Suits.of_fitted {g : Grants} {x : WlSurface} {size : Int × Int} {p p' : Pending} (h : Suits w g x size p)
    (hfitted : p'.fitted = p.fitted) : Suits w g x size p' := by
  simp only [Pending.fitted, Prod.mk.injEq] at hfitted
  obtain ⟨hsize, hcapabilities, htiled, hmaximized, hfullscreen⟩ := hfitted
  exact ⟨hsize.trans h.size, hcapabilities.trans h.capabilities, htiled.trans h.tiled, hfullscreen.trans h.fullscreen,
    hmaximized.trans h.maximized⟩

theorem mem_wmCapabilities (k : WmCapability) (mask : Nat) : k ∈ wmCapabilities mask ↔ mask &&& k.bit ≠ 0 := by
  cases k <;> simp [wmCapabilities, WmCapability.bit]

/-- Every view with a size suits the window it shows. -/
def Sized (w : SeatWorld) (c : Seat) : Prop := ∀ v e id te size, Shows c.state v e id te → clientSize w e = some size →
  Suits w (c.grants v) te.surface size (c.windows id).pending

/-- Once a window is configured, it is told at once what changes. -/
def Current (c : Seat) : Prop := ∀ id, (c.windows id).configures = [] ∨
  (c.windows id).configures.getLast? = some (c.windows id).pending

/-! ## What a notice keeps -/

theorem withPending_fitted {f : Pending → Pending} (hf : ∀ p, (f p).fitted = p.fitted) (i : ToplevelId) :
    ((c.withPending i f).windows id).pending.fitted = (c.windows id).pending.fitted := by
  simp only [withPending]
  split
  · rename_i hid
    rw [hid, hf]
  · rfl

theorem sendInitial_pending (i : ToplevelId) : ((c.sendInitial i).windows id).pending = (c.windows id).pending := by
  simp only [sendInitial]
  split <;> rfl

theorem sendConfigure_pending (i : ToplevelId) : ((c.sendConfigure i).windows id).pending = (c.windows id).pending := by
  simp only [sendConfigure]
  split
  · rename_i h
    rw [h.1]
  · rfl

theorem Sized.notice (h : Sized w c) (hn : Notice w c c') : Sized w c' := by
  cases hn with
  | rest _ hrests =>
      intro v e' id te' size hshows hsize
      obtain ⟨e, te, hbefore, hfits, hsurface, hgrants⟩ := hrests.showing not_false hshows
      rw [hgrants, hrests.windows, ← hsurface]
      exact h v e id te size hbefore (hfits.trans hsize)
  | made x hp =>
      intro v e id te size hshows hsize
      have hshown : c.state.shownIn id = some v := (hp v id).mp hshows.shows
      -- No view shows the new one.
      obtain ⟨te₀, hte₀, -⟩ := Option.bind_eq_some_iff.mp hshown
      have hid : id ≠ c.state.toplevels.nextId + 1 := fun hid =>
        Nat.not_succ_le_self _ (hid ▸ Toplevels.le_nextId hte₀)
      have hentry := hshows.entry
      simp only [newToplevel, State.newToplevel, State.toplevel, Toplevels.get_insert, if_neg hid] at hentry
      have hwindow : (c.newToplevel x).windows id = c.windows id := if_neg hid
      rw [hwindow]
      exact h v e id te size ⟨hshows.view, hshows.toplevel, hentry⟩ hsize
  | told i f hf =>
      intro v e id te size hshows hsize
      exact (h v e id te size hshows hsize).of_fitted (withPending_fitted hf i)
  | sent i =>
      intro v e id te size hshows hsize
      rw [sendInitial_pending]
      exact h v e id te size hshows hsize
  | answered i =>
      intro v e id te size hshows hsize
      rw [sendConfigure_pending]
      exact h v e id te size hshows hsize
  | sized c₁ v hrests hp =>
      intro u e id te size hshows hsize
      have hbefore : Shows c₁.state u e id te := by rw [configureView_state] at hshows; exact hshows
      by_cases huv : u = v
      · subst huv
        simp only [configureView, hbefore.view, hbefore.toplevel, hsize, hbefore.entry, withPending, if_pos]
        exact ⟨rfl, rfl, rfl, rfl, rfl⟩
      · -- What another view shows is not told.
        have hwindow : (c₁.configureView w v).windows id = c₁.windows id ∧ (c₁.configureView w v).grants = c₁.grants := by
          unfold configureView
          cases hv : c₁.state.view v with
          | none => exact ⟨rfl, rfl⟩
          | some e₁ =>
              dsimp only
              split
              · rename_i i size₁ hi hsize₁
                cases hte : c₁.state.toplevel i with
                | none => exact ⟨rfl, rfl⟩
                | some te₁ =>
                    have hne : id ≠ i := fun hid => by
                      have hshown := (hp u id).mp hbefore.shows
                      rw [hid, (hp v i).mp (Shows.shows ⟨hv, hi, hte⟩), Option.some.injEq] at hshown
                      exact huv hshown.symm
                    exact ⟨by simp only [withPending, if_neg hne], rfl⟩
              · exact ⟨rfl, rfl⟩
        obtain ⟨e₀, te₀, hshows₀, hfits, hsurface, hgrants⟩ := hrests.showing huv hbefore
        rw [hwindow.1, hwindow.2, hgrants, hrests.windows, ← hsurface]
        exact h u e₀ id te₀ size hshows₀ (hfits.trans hsize)

theorem Current.withPending (h : c.Current) (i : ToplevelId) (f : Pending → Pending) : (c.withPending i f).Current := by
  intro id
  simp only [Seat.withPending]
  split
  · dsimp only
    split
    · exact Or.inr (by simp)
    · rename_i hsame
      rcases h i with hnone | hlast
      · exact Or.inl hnone
      · refine Or.inr ?_
        have hconfigured : (c.windows i).configures ≠ [] := fun hnone => by simp [hnone] at hlast
        have hpending : f (c.windows i).pending = (c.windows i).pending := by
          by_contra hchanged
          exact hsame ⟨hchanged, hconfigured⟩
        rw [hlast, hpending]
  · exact h id

theorem Current.notice (h : c.Current) (hn : Notice w c c') : c'.Current := by
  cases hn with
  | rest _ hrests =>
      intro id
      rw [hrests.windows]
      exact h id
  | made x hp =>
      intro id
      simp only [newToplevel]
      split
      · exact Or.inl rfl
      · exact h id
  | told i f hf => exact h.withPending i f
  | sent i =>
      intro id
      simp only [sendInitial]
      split
      · exact Or.inr rfl
      · exact h id
  | answered i =>
      intro id
      simp only [sendConfigure]
      split
      · exact Or.inr (by simp)
      · exact h id
  | sized c₁ v hrests hp =>
      have hbefore : c₁.Current := fun id => by rw [hrests.windows]; exact h id
      unfold configureView
      split
      · exact hbefore
      · split
        · split
          · exact hbefore
          · exact hbefore.withPending _ _
        · exact hbefore

end Seat

namespace Port

/-! ## Runs -/

/-- The ops keep what every notice keeps. -/
theorem step_keeps {P : Seat → Prop} (hnotice : ∀ {c c'}, P c → Seat.Notice w c c' → P c') (depth : Nat) (p : Port) (op : PortOp)
    (h : Paired p.seat.state ∧ P p.seat) : Paired (p.step w depth op).seat.state ∧ P (p.step w depth op).seat := by
  have hnotices {c : Seat} (hn : Seat.Notices w p.seat c) : P c := by
    induction hn with
    | refl => exact h.2
    | tail _ hn ih => exact hnotice ih hn
  cases op with
  | seat op =>
      have hany : Seat.Guarded (fun _ _ => True) p.seat op := by cases op <;> trivial
      exact ⟨(Seat.step_acts h.1 hany).paired h.1, hnotices (Seat.step_notices w depth op h.1)⟩
  | request x r =>
      have hposted : (p.postRequest x r).seat = p.seat := by
        unfold postRequest
        split <;> rfl
      have hsent : Paired (p.windowRequest x r).seat.state ∧ P (p.windowRequest x r).seat := by
        unfold windowRequest
        dsimp only
        split
        · rw [hposted]
          exact h
        · rw [hposted]
          exact ⟨h.1, hnotice h.2 (.answered p.seat _)⟩
      unfold step
      dsimp only
      split
      · cases r with
        | minimize =>
            change Paired (p.postRequest x .minimize).seat.state ∧ P (p.postRequest x .minimize).seat
            rw [hposted]
            exact h
        | maximize | unmaximize | fullscreen | unfullscreen => exact hsent
      · exact h

theorem run_concat (w : SeatWorld) (depth : Nat) (ops : List PortOp) (op : PortOp) :
    run w depth (ops ++ [op]) = (run w depth ops).step w depth op := by
  simp only [run, List.foldl_append, List.foldl_cons, List.foldl_nil]

theorem run_keeps {P : Seat → Prop} (hnotice : ∀ {c c'}, P c → Seat.Notice w c c' → P c') (hstart : P {}) (depth : Nat)
    (ops : List PortOp) : Paired (run w depth ops).seat.state ∧ P (run w depth ops).seat := by
  refine Runs.keeps (P := fun p : Port => Paired p.seat.state ∧ P p.seat)
    (fun p op h => step_keeps hnotice depth p op h) ops ⟨?_, hstart⟩
  intro v t
  simp [Seat.run, State.shows, State.view, State.shownIn, State.toplevel]

theorem run_sized (w : SeatWorld) (depth : Nat) (ops : List PortOp) :
    (run w depth ops).seat.Sized w ∧ (run w depth ops).seat.Current := by
  refine (run_keeps (P := fun c => c.Sized w ∧ c.Current) (fun h hn => ⟨h.1.notice hn, h.2.notice hn⟩) ⟨?_, ?_⟩ depth ops).2
  · intro v e id te size hshows
    have hentry := hshows.entry
    simp [State.toplevel] at hentry
  · exact fun _ => Or.inl rfl

/-- A window that is shown and was configured was last told what its view grants it now. -/
theorem run_configured (w : SeatWorld) (depth : Nat) (ops : List PortOp) {v : ViewId} {e : ViewEntry} {id : ToplevelId}
    {te : ToplevelEntry} {size : Int × Int} (hshows : Shows (run w depth ops).seat.state v e id te)
    (hsize : Seat.clientSize w e = some size) (hsent : ((run w depth ops).seat.windows id).configures ≠ []) :
    ∃ p, ((run w depth ops).seat.windows id).configures.getLast? = some p ∧
      Seat.Suits w ((run w depth ops).seat.grants v) te.surface size p := by
  obtain ⟨hsized, hcurrent⟩ := run_sized w depth ops
  exact ⟨_, (hcurrent id).resolve_left hsent, hsized v e id te size hshows hsize⟩

/-- A view with a size, whose app takes maximizing and fullscreen, shows what a client mapped. -/
def requestRun : List PortOp :=
  [.seat (.event (.cmd (.viewCreated { uid := 0, id := 1 }))), .seat (.event (.cmd (.viewResized 1 (800, 600)))),
    .seat (.viewCapabilities 1 5), .seat (.event (.newToplevel 10)), .seat (.event (.commit { main := { surface := 10 } })),
    .seat (.viewState 1 1)]

theorem requestRun_showing : Shows (run .granting 1 requestRun).seat.state 1
    { handle := { uid := 0, id := 1 }, toplevel := some 1, size := some (800, 600) } 1
    { surface := 10, mapped := true, view := some 1 } :=
  ⟨by decide +kernel, rfl, by decide +kernel⟩

theorem run_configured_request : ∃ p, ((run .granting 1 requestRun).seat.windows 1).configures.getLast? = some p ∧
    Seat.Suits .granting ((run .granting 1 requestRun).seat.grants 1) 10 (800, 600) p :=
  run_configured .granting 1 requestRun requestRun_showing rfl (by decide +kernel)

/-- A request of a shown window is passed on when the last configure lists it, and answered, unless it is to be
minimized, with that configure again. -/
theorem run_answered (w : SeatWorld) (depth : Nat) (ops : List PortOp) (x : WlSurface) (r : WindowRequest) {v : ViewId}
    {e : ViewEntry} {id : ToplevelId} {te : ToplevelEntry} {size : Int × Int}
    (hlive : ((run w depth ops).seat.state.surfaces x).hasToplevel = true) (hid : (run w depth ops).seat.state.idOf x = some id)
    (hshows : Shows (run w depth ops).seat.state v e id te) (hsize : Seat.clientSize w e = some size)
    (hsent : ((run w depth ops).seat.windows id).configures ≠ []) :
    ∃ p, ((run w depth ops).seat.windows id).configures.getLast? = some p ∧
      (run w depth (ops ++ [.request x r])).heard =
        (run w depth ops).heard ++ (if r.capability ∈ p.capabilities then [(v, .request r)] else []) ∧
      ((run w depth (ops ++ [.request x r])).seat.windows id).configures =
        ((run w depth ops).seat.windows id).configures ++ (if r = .minimize then [] else [p]) := by
  obtain ⟨hsized, hcurrent⟩ := run_sized w depth ops
  have hpaired := (run_keeps (w := w) (P := fun _ => True) (fun _ _ => trivial) trivial depth ops).1
  rw [run_concat]
  generalize run w depth ops = p at *
  refine ⟨_, (hcurrent id).resolve_left hsent, ?_⟩
  have hcapabilities := (hsized v e id te size hshows hsize).capabilities
  have hview : te.view = some v := by
    have hshown := (hpaired v id).mp hshows.shows
    rw [State.shownIn, hshows.entry] at hshown
    exact hshown
  have hhandling : p.seat.viewHandling x r.capability =
      if r.capability ∈ (p.seat.windows id).pending.capabilities then some v else none := by
    simp only [Seat.viewHandling, hid, hshows.entry, hview, hshows.view, Option.bind_eq_bind, Option.bind_some,
      hcapabilities, Seat.mem_wmCapabilities]
  have hposted : p.postRequest x r = { p with
      heard := p.heard ++ if r.capability ∈ (p.seat.windows id).pending.capabilities then [(v, .request r)] else [] } := by
    unfold postRequest
    rw [hhandling]
    by_cases hlisted : r.capability ∈ (p.seat.windows id).pending.capabilities
    · rw [if_pos hlisted, if_pos hlisted]
    · rw [if_neg hlisted, if_neg hlisted, List.append_nil]
  have hsends : ((p.windowRequest x r).heard = (p.postRequest x r).heard) ∧ ((p.windowRequest x r).seat.windows id).configures =
      (p.seat.windows id).configures ++ [(p.seat.windows id).pending] := by
    unfold windowRequest
    rw [hposted]
    dsimp only
    rw [hid]
    simp [Seat.sendConfigure, hsent]
  unfold step
  dsimp only
  rw [if_pos hlive]
  cases r with
  | minimize =>
      change (p.postRequest x .minimize).heard = _ ∧ ((p.postRequest x .minimize).seat.windows id).configures = _
      rw [hposted, if_pos rfl, List.append_nil]
      exact ⟨rfl, rfl⟩
  | maximize | unmaximize | fullscreen | unfullscreen =>
      refine ⟨hsends.1.trans (congrArg heard hposted), ?_⟩
      rw [if_neg (by simp)]
      exact hsends.2

theorem run_answered_request : ∃ p, ((run .granting 1 requestRun).seat.windows 1).configures.getLast? = some p ∧
    (run .granting 1 (requestRun ++ [.request 10 .fullscreen])).heard = (run .granting 1 requestRun).heard ++
      (if WmCapability.fullscreen ∈ p.capabilities then [(1, .request .fullscreen)] else []) ∧
    ((run .granting 1 (requestRun ++ [.request 10 .fullscreen])).seat.windows 1).configures =
      ((run .granting 1 requestRun).seat.windows 1).configures ++ [p] :=
  run_answered .granting 1 requestRun 10 .fullscreen (by decide +kernel) (by decide +kernel) requestRun_showing rfl
    (by decide +kernel)

/-! ## What Dart hears -/

/-- Dart heard that the view shows a toplevel, and not since that it does not. -/
abbrev Told (v : ViewId) (heard : List (ViewId × Heard)) : Prop :=
  Runs.Since (· = (v, .event .bound)) (· = (v, .event .closed)) heard

/-- Since the trace `base`, what was posted leaves every view that shows a toplevel told so. -/
def Tells (base : List Effect) (heard : List (ViewId × Heard)) (s : State) : Prop :=
  ∃ es, s.trace = base ++ es ∧ ∀ v, (s.shows v).isSome = true → Told v (heard ++ es.filterMap Effect.post)

theorem Tells.more {base : List Effect} {heard : List (ViewId × Heard)} {s s' : State} (es : List Effect)
    (h : Tells base heard s) (htrace : s'.trace = s.trace ++ es)
    (hshows : ∀ v, (s'.shows v).isSome = true → es.filterMap Effect.post = [(v, .event .bound)] ∨
      (s.shows v).isSome = true ∧ (v, Heard.event .closed) ∉ es.filterMap Effect.post) : Tells base heard s' := by
  obtain ⟨past, hpast, htold⟩ := h
  refine ⟨past ++ es, by rw [htrace, hpast, List.append_assoc], fun v hv => ?_⟩
  rw [List.filterMap_append, ← List.append_assoc]
  rcases hshows v hv with hbound | ⟨hv, hclosed⟩
  · rw [hbound]
    exact Runs.since_concat.mpr (Or.inl rfl)
  · exact (htold v hv).append fun a ha hclose => hclosed (hclose ▸ ha)

theorem Tells.same {base : List Effect} {heard : List (ViewId × Heard)} {s s' : State} (es : List Effect)
    (h : Tells base heard s) (htrace : s'.trace = s.trace ++ es) (hposts : es.filterMap Effect.post = [])
    (hshows : ∀ v, (s'.shows v).isSome = true → (s.shows v).isSome = true) : Tells base heard s' :=
  h.more es htrace fun v hv => Or.inr ⟨hshows v hv, by simp [hposts]⟩

theorem post_of_linking {es : List Effect} (h : ∀ x ∈ es, x.linking = false) : es.filterMap Effect.post = [] := by
  rw [List.filterMap_eq_nil_iff]
  intro x hx
  have hquiet := h x hx
  cases x <;> first | rfl | cases hquiet

theorem Tells.act {base : List Effect} {heard : List (ViewId × Heard)} {guard : State → Event → Prop} {s s' : State}
    (h : Tells base heard s) (ha : Act w.toWorld guard s s') : Tells base heard s' := by
  cases ha with
  | same _ hl =>
      obtain ⟨es, htrace, hquiet⟩ := hl.trace
      exact h.same es htrace (post_of_linking hquiet) fun v hv => by rw [← hl.shows]; exact hv
  | mapped x id te hid hte hm => exact h.same [.mapped id] rfl rfl fun _ hv => hv
  | linked v₀ e t hv he hp =>
      refine h.more [.bound v₀ t, .posted .bound v₀] rfl fun v hshown => ?_
      rw [shows_link (by rw [hv]; rfl)] at hshown
      split at hshown
      · rename_i hvv
        exact Or.inl (by rw [hvv]; rfl)
      · exact Or.inr ⟨hshown, by simp [Effect.post]⟩
  | unlinked v₀ es hes =>
      obtain ⟨left, htrace, hquiet⟩ := unlink_trace s v₀
      refine h.more (left ++ es) (by rw [log, htrace, List.append_assoc]) fun v hshown => ?_
      change ((s.unlink v₀).shows v).isSome = true at hshown
      rw [shows_unlink] at hshown
      split at hshown
      · cases hshown
      · rename_i hvv
        refine Or.inr ⟨hshown, fun hmem => ?_⟩
        obtain ⟨x, hx, hpost⟩ := List.mem_filterMap.mp hmem
        have hclosed : x = .posted .closed v := by cases x <;> simp_all [Effect.post]
        subst hclosed
        rcases List.mem_append.mp hx with hx | hx
        · have hheard : ViewEvent.closed ∈ posts v left := List.mem_filterMap.mpr ⟨_, hx, if_pos rfl⟩
          rw [(hquiet v).1] at hheard
          cases hheard
        · have heq := hes _ hx
          simp only [Effect.posted.injEq, true_and] at heq
          exact hvv heq
  | inserted view hv =>
      refine h.same [] (List.append_nil _).symm rfl fun v hshown => ?_
      rw [shows_insertView] at hshown
      split at hshown
      · cases hshown
      · exact hshown
  | erased v₀ hv =>
      refine h.same [] (List.append_nil _).symm rfl fun v hshown => ?_
      rw [shows_eraseView] at hshown
      split at hshown
      · cases hshown
      · exact hshown
  | tokenIssued => exact h.same [.issued _] rfl rfl fun _ hv => hv
  | tokenUsed id token hmem hissued => exact h.same [.activated id token.value] rfl rfl fun _ hv => hv
  | _ => exact h.same [] (List.append_nil _).symm rfl fun _ hv => hv

theorem not_request_of_post {es : List Effect} {v : ViewId} {r : WindowRequest} :
    (v, .request r) ∉ es.filterMap Effect.post := by
  intro hmem
  obtain ⟨x, -, hx⟩ := List.mem_filterMap.mp hmem
  cases x <;> simp [Effect.post] at hx

/-- What comes before an element the second list does not have, comes in the first. -/
theorem split_of_not_mem {α : Type} {as bs pre post : List α} {a : α} (hsplit : as ++ bs = pre ++ a :: post) (ha : a ∉ bs) :
    ∃ rest, as = pre ++ a :: rest := by
  rcases List.append_eq_append_iff.mp hsplit with ⟨rest, rfl, hrest⟩ | ⟨rest, rfl, hrest⟩
  · refine absurd ?_ ha
    rw [hrest]
    simp
  · cases rest with
    | nil =>
        refine absurd ?_ ha
        rw [List.nil_append] at hrest
        rw [← hrest]
        simp
    | cons b rest =>
        obtain ⟨rfl, -⟩ := List.cons.inj hrest
        exact ⟨rest, rfl⟩

/-- Every request came while its view was told bound, and who shows a toplevel is. -/
structure Heeds (p : Port) : Prop where
  shown : ∀ v, (p.seat.state.shows v).isSome = true → Told v p.heard
  asked : ∀ pre v r post, p.heard = pre ++ (v, .request r) :: post → Told v pre

theorem Heeds.seat {p : Port} (h : p.Heeds) (hp : Paired p.seat.state) (depth : Nat) (op : SeatOp) :
    (p.step w depth (.seat op)).Heeds := by
  have hany : Seat.Guarded (fun _ _ => True) p.seat op := by cases op <;> trivial
  have hbegun : Tells p.seat.state.trace p.heard p.seat.state := ⟨[], by simp, by simpa using h.shown⟩
  have hacts : Acts w.toWorld (fun _ _ => True) p.seat.state (p.seat.step w depth op).state := Seat.step_acts hp hany
  obtain ⟨-, es, htrace, htold⟩ := hacts.keeps (P := Tells p.seat.state.trace p.heard) (fun _ h ha => h.act ha) ⟨hp, hbegun⟩
  have hheard : (p.step w depth (.seat op)).heard = p.heard ++ es.filterMap Effect.post := by
    simp only [step, htrace, List.drop_left]
  refine ⟨?_, fun pre v r post hsplit => ?_⟩
  · rw [hheard]
    exact htold
  · rw [hheard] at hsplit
    -- A handler of the seat posts no request.
    obtain ⟨rest, hrest⟩ := split_of_not_mem hsplit not_request_of_post
    exact h.asked pre v r rest hrest

theorem viewHandling_shows {c : Seat} {x : WlSurface} {k : WmCapability} {v : ViewId} (hp : Paired c.state)
    (h : c.viewHandling x k = some v) : (c.state.shows v).isSome = true := by
  simp only [Seat.viewHandling, Option.bind_eq_bind, Option.bind_eq_some_iff, Option.ite_none_right_eq_some,
    Option.some.injEq] at h
  obtain ⟨id, -, te, hte, u, hview, e, hu, -, rfl⟩ := h
  have hshown : c.state.shownIn id = some u := by rw [State.shownIn, hte]; exact hview
  rw [(hp u id).mpr hshown]
  rfl

theorem Heeds.postRequest {p : Port} (h : p.Heeds) (hp : Paired p.seat.state) (x : WlSurface) (r : WindowRequest) :
    (p.postRequest x r).Heeds := by
  unfold Port.postRequest
  split
  · exact h
  · rename_i v hv
    have htold := h.shown v (viewHandling_shows hp hv)
    refine ⟨fun u hu => (h.shown u hu).append fun a ha hclosed => ?_, fun pre u q post hsplit => ?_⟩
    · rw [List.mem_singleton.mp ha] at hclosed
      cases hclosed
    · rcases List.eq_nil_or_concat post with rfl | ⟨post, b, rfl⟩
      · obtain ⟨rfl, hlast⟩ := List.append_inj' hsplit rfl
        cases hlast
        exact htold
      · rw [List.concat_eq_append, ← List.cons_append, ← List.append_assoc] at hsplit
        exact h.asked pre u q post (List.append_inj' hsplit rfl).1

theorem Heeds.step {p : Port} (h : p.Heeds) (hp : Paired p.seat.state) (w : SeatWorld) (depth : Nat) (op : PortOp) :
    (p.step w depth op).Heeds := by
  cases op with
  | seat op => exact h.seat hp depth op
  | request x r =>
      have hrequested : (p.windowRequest x r).Heeds := by
        have hposted := h.postRequest hp x r
        unfold windowRequest
        dsimp only
        split
        · exact hposted
        · exact ⟨hposted.shown, hposted.asked⟩
      unfold Port.step
      dsimp only
      split
      · cases r with
        | minimize => exact h.postRequest hp x .minimize
        | maximize | unmaximize | fullscreen | unfullscreen => exact hrequested
      · exact h

/-- Dart hears of a request only for a view it was told is bound. -/
theorem run_heeds (w : SeatWorld) (depth : Nat) (ops : List PortOp) : (run w depth ops).Heeds := by
  refine (Runs.keeps (P := fun p : Port => Paired p.seat.state ∧ p.Heeds)
    (fun p op h => ⟨?_, h.2.step h.1 w depth op⟩) ops ⟨?_, ?_⟩).2
  · exact (step_keeps (P := fun _ => True) (fun _ _ => trivial) depth p op ⟨h.1, trivial⟩).1
  · intro v t
    simp [Seat.run, State.shows, State.view, State.shownIn, State.toplevel]
  · refine ⟨fun v hv => ?_, fun pre v r post hsplit => ?_⟩
    · simp [Seat.run, State.shows, State.view] at hv
    · simp at hsplit

end Port

end IhsWl
