import IhsWl.Server.Moves

/-!
# What links surfaces, toplevels and views

Two states with the same links show the same trees and route every surface alike. Most of what a handler
does leaves the links alone.
-/

namespace IhsWl

/-- What a view is, and what it shows. -/
def ViewEntry.binding (e : ViewEntry) : ViewHandle × Option ToplevelId := (e.handle, e.toplevel)

/-- An effect that tells of a link. -/
def Effect.linking : Effect → Bool
  | .unbinding _ _ | .bound _ _ | .unbound _ _ | .posted _ _ | .mapped _ | .issued _ | .activated _ _ => true
  | _ => false

/-- Smithay's side is the same, but for what waits to be answered. -/
structure SameDesk (s s' : State) : Prop where
  surfaces : s'.surfaces = s.surfaces
  subsurfaces : s'.subsurfaces = s.subsurfaces
  popups : s'.popups = s.popups
  connected : s'.connected = s.connected
  tokens : s'.tokens = s.tokens
  minted : s'.minted = s.minted

namespace SameDesk

variable {s s' t : State}

theorem refl (s : State) : SameDesk s s := ⟨rfl, rfl, rfl, rfl, rfl, rfl⟩

theorem trans (h : SameDesk s s') (h' : SameDesk s' t) : SameDesk s t :=
  ⟨h'.surfaces.trans h.surfaces, h'.subsurfaces.trans h.subsurfaces, h'.popups.trans h.popups,
    h'.connected.trans h.connected, h'.tokens.trans h.tokens, h'.minted.trans h.minted⟩

theorem subParent (h : SameDesk s s') : s'.subParent = s.subParent := by
  funext x
  simp only [State.subParent, h.subsurfaces]

theorem rootOf (h : SameDesk s s') : s'.rootOf = s.rootOf := by
  funext x
  simp only [State.rootOf, h.subParent, h.subsurfaces]

theorem tree (h : SameDesk s s') : s'.tree = s.tree := by
  funext r
  simp only [State.tree, h.rootOf, h.subsurfaces]

theorem toplevelOf (h : SameDesk s s') : s'.toplevelOf = s.toplevelOf := by
  funext x
  simp only [State.toplevelOf, h.rootOf, h.surfaces, h.popups]

theorem popupsOf (h : SameDesk s s') : s'.popupsOf = s.popupsOf := by
  funext x
  simp only [State.popupsOf, h.popups]

theorem idOf (h : SameDesk s s') : s'.idOf = s.idOf := by
  funext x
  simp only [State.idOf, h.surfaces]

theorem clientOf (h : SameDesk s s') (w : World) : s'.clientOf w = s.clientOf w := by
  funext x
  simp only [State.clientOf, h.connected]

theorem committable (h : SameDesk s s') (w : World) : s'.committable w = s.committable w := by
  funext x
  simp only [State.committable, h.surfaces, h.connected]

end SameDesk

/-- The links are the same, and none was made and undone. -/
structure SameLinks (s s' : State) : Prop extends SameDesk s s' where
  toplevels : s'.toplevels = s.toplevels
  bindings : ∀ v, (s'.view v).map ViewEntry.binding = (s.view v).map ViewEntry.binding
  trace : ∃ es, s'.trace = s.trace ++ es ∧ ∀ x ∈ es, x.linking = false

namespace SameLinks

variable {s s' t : State}

theorem refl (s : State) : SameLinks s s := ⟨.refl s, rfl, fun _ => rfl, [], by simp, by simp⟩

theorem trans (h : SameLinks s s') (h' : SameLinks s' t) : SameLinks s t := by
  obtain ⟨es, he, hes⟩ := h.trace
  obtain ⟨es', he', hes'⟩ := h'.trace
  refine ⟨h.toSameDesk.trans h'.toSameDesk, h'.toplevels.trans h.toplevels, fun v => (h'.bindings v).trans (h.bindings v), es ++ es', ?_, ?_⟩
  · rw [he', he, List.append_assoc]
  · intro x hx
    rcases List.mem_append.mp hx with hx | hx
    · exact hes x hx
    · exact hes' x hx

/-- Only what no link is part of changed. -/
theorem of_rest {s' : State} {es : List Effect}
    (h : s' = { s with
      registered := s'.registered, focusedView := s'.focusedView, contents := s'.contents
      clock := s'.clock, timed := s'.timed, loose := s'.loose, unsubmitted := s'.unsubmitted
      tick := s'.tick, asked := s'.asked, trace := s.trace ++ es }) (hes : ∀ x ∈ es, x.linking = false) :
    SameLinks s s' := by
  rw [h]
  exact ⟨⟨rfl, rfl, rfl, rfl, rfl, rfl⟩, rfl, fun _ => rfl, es, rfl, hes⟩

/-- Only what no link is part of changed, and nothing was done. -/
theorem of_data {s' : State}
    (h : s' = { s with
      registered := s'.registered, focusedView := s'.focusedView, contents := s'.contents
      clock := s'.clock, timed := s'.timed, loose := s'.loose, unsubmitted := s'.unsubmitted
      tick := s'.tick, asked := s'.asked }) : SameLinks s s' := by
  rw [h]
  exact ⟨⟨rfl, rfl, rfl, rfl, rfl, rfl⟩, rfl, fun _ => rfl, [], by simp, by simp⟩

theorem of_views {s' : State} (hs : s' = { s with views := s'.views })
    (h : ∀ v, (s'.view v).map ViewEntry.binding = (s.view v).map ViewEntry.binding) : SameLinks s s' := by
  rw [hs] at h ⊢
  exact ⟨⟨rfl, rfl, rfl, rfl, rfl, rfl⟩, rfl, h, [], by simp, by simp⟩

theorem modifyView {f : ViewEntry → ViewEntry} (v : ViewId) (hf : ∀ e, (f e).binding = e.binding) :
    SameLinks s (s.modifyView v f) := by
  refine of_views rfl fun v' => ?_
  rw [State.view_modifyView]
  split
  · rename_i h
    subst h
    simp only [Option.map_map, Function.comp_def, hf]
  · rfl

theorem log {es : List Effect} (h : ∀ x ∈ es, x.linking = false) : SameLinks s (s.log es) :=
  of_rest rfl h

theorem ask : SameLinks s s.ask := of_data rfl

theorem foldl {α : Type*} {f : State → α → State} (h : ∀ s a, SameLinks s (f s a)) (as : List α) (s : State) :
    SameLinks s (as.foldl f s) := by
  induction as generalizing s with
  | nil => exact refl s
  | cons a as ih => exact (h s a).trans (ih (f s a))

/-! ## What the links decide -/

theorem toplevel (h : SameLinks s s') : s'.toplevel = s.toplevel := by
  funext t
  simp only [State.toplevel, h.toplevels]

theorem windowAbove (h : SameLinks s s') : s'.windowAbove = s.windowAbove := by
  funext x
  simp only [State.windowAbove, h.idOf, h.toplevel, h.surfaces, h.toplevelOf]

theorem windowRoot (h : SameLinks s s') : s'.windowRoot = s.windowRoot := by
  funext x
  simp only [State.windowRoot, h.windowAbove, h.toplevelOf]

theorem view_toplevel (h : SameLinks s s') (v : ViewId) :
    (s'.view v).bind ViewEntry.toplevel = (s.view v).bind ViewEntry.toplevel := by
  have hb := congrArg (Option.bind · Prod.snd) (h.bindings v)
  simpa [Option.bind_map, Function.comp_def, ViewEntry.binding] using hb

theorem viewRoot (h : SameLinks s s') : s'.viewRoot = s.viewRoot := by
  funext v
  simp only [State.viewRoot, h.view_toplevel, h.toplevel]

theorem windowsOver (h : SameLinks s s') : s'.windowsOver = s.windowsOver := by
  have hadd : s'.addDialog = s.addDialog := by
    funext r ws t
    simp only [State.addDialog, h.surfaces, h.windowRoot, h.toplevelOf]
  funext r
  simp only [State.windowsOver, h.toplevels, h.toplevel, hadd]

theorem viewWindows (h : SameLinks s s') : s'.viewWindows = s.viewWindows := by
  funext v
  simp only [State.viewWindows, h.viewRoot, h.windowsOver]

theorem viewTrees (h : SameLinks s s') : s'.viewTrees = s.viewTrees := by
  funext v
  simp only [State.viewTrees, h.viewWindows, h.popupsOf]

theorem viewClient (h : SameLinks s s') (w : World) : s'.viewClient w = s.viewClient w := by
  funext v
  simp only [State.viewClient, h.viewRoot, h.clientOf]

/-- A view of one state is a view of the other, with the same handle and toplevel. -/
theorem view (h : SameLinks s s') {v : ViewId} {e' : ViewEntry} (he : s'.view v = some e') :
    ∃ e, s.view v = some e ∧ e'.handle = e.handle ∧ e'.toplevel = e.toplevel := by
  have hb := h.bindings v
  rw [he] at hb
  cases he' : s.view v with
  | none => rw [he'] at hb; cases hb
  | some e =>
      rw [he'] at hb
      simp only [Option.map_some, Option.some.injEq, ViewEntry.binding, Prod.mk.injEq] at hb
      exact ⟨e, rfl, hb.1, hb.2⟩

end SameLinks

/-! ## Effects that link nothing -/

/-- An effect of a view's frames. -/
def Effect.queued : Effect → Bool
  | .signal _ | .presented _ _ | .discarded _ => true
  | _ => false

theorem queued_release (f : Frame) : ∀ x ∈ f.release.2, x.queued = true := by
  intro x hx
  obtain ⟨b, -, rfl⟩ := List.mem_map.mp hx
  rfl

theorem queued_dropUnshown (f : Frame) : ∀ x ∈ f.dropUnshown, x.queued = true := by
  intro x hx
  rcases List.mem_append.mp hx with hx | hx
  · obtain ⟨fb, -, rfl⟩ := List.mem_map.mp hx
    rfl
  · exact queued_release f x hx

theorem queued_flatMap {fs : Frames} {g : Frame → List Effect}
    (hg : ∀ f ∈ fs, ∀ x ∈ g f, x.queued = true) : ∀ x ∈ fs.flatMap g, x.queued = true := by
  intro x hx
  obtain ⟨f, hf, hx⟩ := List.mem_flatMap.mp hx
  exact hg f hf x hx

theorem FramesOp.queued_call (fs : Frames) (op : FramesOp) : ∀ x ∈ (op.call fs).effects, x.queued = true := by
  have hold : ∀ before, ∀ x ∈ (fs.releaseOlder before).effects, x.queued = true := by
    refine fun before => queued_flatMap fun f _ x hx => ?_
    split at hx
    · exact queued_release f x hx
    · cases hx
  cases op with
  | push p =>
      intro x hx
      rcases List.mem_append.mp hx with hx | hx
      · obtain ⟨fb, -, rfl⟩ := List.mem_map.mp hx
        rfl
      · exact queued_flatMap (fun f _ => queued_dropUnshown f) x hx
  | presented r =>
      refine queued_flatMap fun f _ x hx => ?_
      rcases List.mem_append.mp hx with hx | hx
      · obtain ⟨fb, -, rfl⟩ := List.mem_map.mp hx
        split <;> rfl
      · exact queued_release f x hx
  | releaseOlder before => exact hold before
  | releaseAll => exact hold u64Max
  | flushOlder before => intro x hx; cases hx
  | clear => exact queued_flatMap fun f _ => queued_dropUnshown f

theorem Effect.linking_of_queued {x : Effect} (h : x.queued = true) : x.linking = false := by
  cases x <;> first | rfl | cases h

/-- No call on a queue links anything. -/
theorem FramesOp.linking_call (fs : Frames) (op : FramesOp) (x : Effect) (hx : x ∈ (op.call fs).effects) :
    x.linking = false :=
  Effect.linking_of_queued (op.queued_call fs x hx)

theorem Effect.linking_of_quiet {x : Effect} (h : x.quiet = true) : x.linking = false := by
  cases x <;> first | rfl | cases h

/-! ## What leaves the links alone -/

namespace State

variable (w : World) (s : State)

theorem visitTree_links (root : WlSurface) (f : Content → Content) : SameLinks s (s.visitTree root f) :=
  .of_data rfl

theorem sendFrameCallbacks_links (ustNs : Nat) (root : WlSurface) :
    SameLinks s (s.sendFrameCallbacks w ustNs root) := by
  refine ((visitTree_links s root _).trans (.log ?_)).trans .ask
  intro x hx
  obtain ⟨cb, -, rfl⟩ := List.mem_map.mp hx
  rfl

theorem sendViewCallbacks_links (v : ViewId) (ustNs : Nat) : SameLinks s (s.sendViewCallbacks w v ustNs) :=
  .foldl (fun s root => sendFrameCallbacks_links w s ustNs root) _ s

/-- Sending frame callbacks touches nothing but them. -/
theorem sendViewCallbacks_rest (v : ViewId) (ustNs : Nat) : s.sendViewCallbacks w v ustNs = { s with
    contents := (s.sendViewCallbacks w v ustNs).contents
    trace := (s.sendViewCallbacks w v ustNs).trace
    asked := (s.sendViewCallbacks w v ustNs).asked } := by
  suffices h : ∀ (roots : List WlSurface) (s : State), roots.foldl (sendFrameCallbacks w ustNs) s = { s with
      contents := (roots.foldl (sendFrameCallbacks w ustNs) s).contents
      trace := (roots.foldl (sendFrameCallbacks w ustNs) s).trace
      asked := (roots.foldl (sendFrameCallbacks w ustNs) s).asked } from h _ s
  intro roots
  induction roots with
  | nil => exact fun _ => rfl
  | cons root roots ih => exact fun s => ih (s.sendFrameCallbacks w ustNs root)

theorem takeTree_links (t : Taken × State) (root : WlSurface) : SameLinks t.2 (takeTree t root).2 := by
  exact visitTree_links t.2 root fun c => { c with feedback := [], barrier := none }

theorem takeTrees_links (roots : List WlSurface) : SameLinks s (s.takeTrees roots).2 := by
  suffices h : ∀ (roots : List WlSurface) (t : Taken × State), SameLinks t.2 (roots.foldl takeTree t).2 from
    h roots ({}, s)
  intro roots
  induction roots with
  | nil => exact fun t => .refl t.2
  | cons root roots ih => exact fun t => (takeTree_links t root).trans (ih (takeTree t root))

/-- Taking trees touches nothing but what waits on their surfaces. -/
theorem takeTrees_rest (roots : List WlSurface) :
    (s.takeTrees roots).2 = { s with contents := (s.takeTrees roots).2.contents } := by
  suffices h : ∀ (roots : List WlSurface) (t : Taken × State),
      (roots.foldl takeTree t).2 = { t.2 with contents := (roots.foldl takeTree t).2.contents } from h roots ({}, s)
  intro roots
  induction roots with
  | nil => exact fun _ => rfl
  | cons root roots ih => exact fun t => ih (takeTree t root)

theorem linking_signals (ls : List Loose) : ∀ x ∈ ls.map (fun l => Effect.signal l.barrier), x.linking = false := by
  intro x hx
  obtain ⟨l, -, rfl⟩ := List.mem_map.mp hx
  rfl

theorem addLoose_links (c : ClientId) (barriers : List Barrier) (dueNs : Nat) :
    SameLinks s (s.addLoose c barriers dueNs) := by
  have hloose (ls : List Loose) : SameLinks s { s with loose := ls } := .of_data rfl
  unfold addLoose
  refine (hloose _).trans (.log fun x hx => ?_)
  rcases List.mem_cons.mp hx with rfl | hx
  · rfl
  · exact linking_signals _ x hx

theorem admitLoose_links (c : Option ClientId) (barriers : List Barrier) :
    SameLinks s (s.admitLoose w c barriers).2 := by
  unfold admitLoose
  split
  · exact .refl s
  · split
    · refine .log fun x hx => ?_
      obtain ⟨b, -, rfl⟩ := List.mem_map.mp hx
      rfl
    · exact SameLinks.ask.trans (addLoose_links _ _ _ _)

theorem admitLoose_rest (c : Option ClientId) (barriers : List Barrier) : (s.admitLoose w c barriers).2 = { s with
    loose := (s.admitLoose w c barriers).2.loose
    trace := (s.admitLoose w c barriers).2.trace
    asked := (s.admitLoose w c barriers).2.asked } := by
  unfold admitLoose
  split
  · rfl
  · split
    · rfl
    · simp only [addLoose, log, ask]

theorem releaseLoose_links : SameLinks s s.releaseLoose := .of_rest rfl (linking_signals s.loose)

theorem releaseTimers_links : SameLinks s s.releaseTimers := .of_data rfl

theorem releaseFrames_links : SameLinks s (s.releaseFrames w).2 := by
  have hviews (views) (h : ∀ v, ((({ s with views } : State)).view v).map ViewEntry.binding =
      (s.view v).map ViewEntry.binding) : SameLinks s { s with views } := .of_views rfl h
  refine (hviews _ fun v => ?_).trans (.log fun x hx => ?_)
  · simp only [view, Std.TreeMap.getElem?_map, Option.map_map]
    rfl
  · obtain ⟨v, -, hx⟩ := List.mem_flatMap.mp hx
    cases hv : s.view v with
    | none => simp [hv] at hx
    | some e =>
        simp only [hv, Option.map_some, Option.getD_some] at hx
        exact FramesOp.linking_call e.frames .releaseAll x hx

theorem listUnsubmitted_links (v : ViewId) (dueNs : Nat) : SameLinks s (s.listUnsubmitted v dueNs) := by
  unfold listUnsubmitted
  split
  · exact .refl s
  · exact .of_data rfl

theorem pushFrame_links (v : ViewId) (seq : Nat) (shown : List (Nat × Nat)) (taken : Taken) :
    SameLinks s (s.pushFrame w v seq shown taken).2 := by
  unfold pushFrame
  split
  · exact .refl s
  · rename_i e _
    have hcall := FramesOp.linking_call e.frames (.push ⟨w.now s.asked, seq, shown, taken⟩)
    have hview := SameLinks.modifyView (s := s) v
      (f := fun e' => { e' with frames := (e.frames.push (w.now s.asked) seq shown taken).frames }) fun _ => rfl
    exact (hview.trans (.log hcall)).trans .ask

/-- Queueing a frame touches nothing but its view. -/
theorem pushFrame_rest (v : ViewId) (seq : Nat) (shown : List (Nat × Nat)) (taken : Taken) :
    (s.pushFrame w v seq shown taken).2 = { s with
      views := (s.pushFrame w v seq shown taken).2.views
      trace := (s.pushFrame w v seq shown taken).2.trace
      asked := (s.pushFrame w v seq shown taken).2.asked } := by
  unfold pushFrame
  split <;> rfl

theorem applyContent_links (c : Commit) : SameLinks s (s.applyContent w c) := by
  refine .of_rest rfl fun x hx => ?_
  obtain ⟨cb, -, rfl⟩ := List.mem_map.mp hx
  rfl

end State

namespace Quiet

variable {s s' t : State}

theorem trans (h : Quiet s s') (h' : Quiet s' t) : Quiet s t := by
  obtain ⟨es, he, hes⟩ := h.trace
  obtain ⟨es', he', hes'⟩ := h'.trace
  refine ⟨?_, fun v => (h'.views v).trans (h.views v), h.asked.trans h'.asked, es ++ es', ?_, ?_⟩
  · have := h'.rest
    rw [h.rest] at this
    exact this
  · rw [he', he, List.append_assoc]
  · intro x hx
    rcases List.mem_append.mp hx with hx | hx
    · exact hes x hx
    · exact hes' x hx

theorem refl (s : State) : Quiet s s := ⟨rfl, fun _ => rfl, le_rfl, [], by simp, by simp⟩

theorem modifyView {f : ViewEntry → ViewEntry} (v : ViewId) (hf : ∀ e, (f e).core = e.core) :
    Quiet s (s.modifyView v f) := by
  refine ⟨rfl, fun v' => ?_, le_rfl, [], by simp [State.modifyView], by simp⟩
  rw [State.view_modifyView]
  split
  · rename_i h
    subst h
    simp only [Option.map_map, Function.comp_def, hf]
  · rfl

theorem log {es : List Effect} (h : ∀ x ∈ es, x.quiet = true) : Quiet s (s.log es) :=
  ⟨rfl, fun _ => rfl, le_rfl, es, rfl, h⟩

theorem ask : Quiet s s.ask := ⟨rfl, fun _ => rfl, Nat.le_succ _, [], by simp [State.ask], by simp⟩

theorem links (h : Quiet s s') : SameLinks s s' := by
  obtain ⟨es, he, hes⟩ := h.trace
  have hb : ∀ v, (s'.view v).map ViewEntry.binding = (s.view v).map ViewEntry.binding := by
    intro v
    have := congrArg (Option.map fun c : ViewHandle × Option ToplevelId × Frames × Bool × Nat => (c.1, c.2.1))
      (h.views v)
    simp only [Option.map_map, Function.comp_def] at this
    exact this
  have hr := h.rest
  exact ⟨⟨by rw [hr], by rw [hr], by rw [hr], by rw [hr], by rw [hr], by rw [hr]⟩, by rw [hr], hb, es, he,
    fun x hx => Effect.linking_of_quiet (hes x hx)⟩

end Quiet

/-! ## What comes of trees that were taken -/

namespace State

variable {w : World} {s s₁ s₂ s' : State} {roots : List WlSurface} {taken : Taken} {c : Option ClientId}
  {barriers : List Barrier} {es : List Effect} {dueNs : Option Nat}

theorem takeTrees_eq (ht : s.takeTrees roots = (taken, s₁)) : s₁ = { s with contents := s₁.contents } := by
  have hrest := takeTrees_rest s roots
  rwa [ht] at hrest

theorem admitLoose_eq (ha : s.admitLoose w c barriers = (dueNs, s')) :
    s' = { s with loose := s'.loose, trace := s'.trace, asked := s'.asked } := by
  have hrest := admitLoose_rest w s c barriers
  rwa [ha] at hrest

/-- Nothing was shown: the barriers went to the clock. -/
theorem unshown_rest (ht : s.takeTrees roots = (taken, s₁)) (ha : (s₁.log es).admitLoose w c barriers = (dueNs, s')) :
    s' = { s with contents := s₁.contents, loose := s'.loose, trace := s'.trace, asked := s'.asked } := by
  have hrest := admitLoose_eq ha
  rw [takeTrees_eq ht] at hrest
  exact hrest

/-- As `unshown_rest`, once the shell was asked. -/
theorem refused_rest (ht : s.takeTrees roots = (taken, s₁)) (hq : Quiet s₁ s₂)
    (ha : (s₂.log es).admitLoose w c barriers = (dueNs, s')) :
    s' = { s with
      views := s₂.views, contents := s₁.contents, loose := s'.loose, trace := s'.trace, asked := s'.asked } := by
  have hrest := admitLoose_eq ha
  rw [hq.rest, takeTrees_eq ht] at hrest
  exact hrest

/-- What was taken is queued as a frame. -/
theorem pushed_rest {v : ViewId} {seq : Nat} {shown : List (Nat × Nat)} {released : Bool} (ht : s.takeTrees roots = (taken, s₁))
    (hq : Quiet s₁ s₂) (hp : s₂.pushFrame w v seq shown taken = (released, s')) :
    s' = { s with views := s'.views, contents := s₁.contents, trace := s'.trace, asked := s'.asked } := by
  have hrest := pushFrame_rest w s₂ v seq shown taken
  rw [hp] at hrest
  change s' = _ at hrest
  rw [hq.rest, takeTrees_eq ht] at hrest
  exact hrest

/-- Neither taking trees nor asking the shell queues anything. -/
theorem core_asked (ht : s.takeTrees roots = (taken, s₁)) (hq : Quiet s₁ s₂) (v : ViewId) :
    (s₂.view v).map ViewEntry.core = (s.view v).map ViewEntry.core := by
  have hviews := hq.views v
  rw [takeTrees_eq ht] at hviews
  exact hviews

end State

/-- A move that links nothing keeps the links. -/
theorem Pace.links {w : World} {s s' : State} {paid taken : Set Debt} (h : Pace w s paid taken s') :
    SameLinks s s' := by
  cases h with
  | asked => exact .ask
  | unblocked => exact .log (by simp [Effect.linking])
  | armed | failed => exact SameLinks.ask.trans (.of_data rfl)
  | looseReleased => exact State.releaseLoose_links s
  | timersReleased => exact State.releaseTimers_links s
  | framesReleased => exact State.releaseFrames_links w s
  | forgotten => exact .of_data rfl
  | applied c => exact State.applyContent_links w s c
  | called v ustNs => exact State.sendViewCallbacks_links w s v ustNs
  | quiet _ hq => exact hq.links
  | unshown root tk s₁ dueNs _ ht ha =>
      have h1 := State.takeTrees_links s [root]
      have h2 := State.admitLoose_links w (s₁.log tk.notShown.2) (s.clientOf w root) tk.barriers
      rw [ht] at h1
      rw [ha] at h2
      exact (h1.trans (.log (by simp [Taken.notShown, Effect.linking]))).trans h2
  | refused v root tk s₁ s₂ dueNs _ hr ht hq ha =>
      have h1 := State.takeTrees_links s (s.viewTrees v)
      have h2 := State.admitLoose_links w (s₂.log tk.notShown.2) (s.clientOf w root) tk.barriers
      rw [ht] at h1
      rw [ha] at h2
      exact ((h1.trans hq.links).trans (.log (by simp [Taken.notShown, Effect.linking]))).trans h2
  | listed v dueNs => exact State.listUnsubmitted_links s v dueNs
  | pushed v root tk s₁ s₂ seq shown released _ hr ht hq hp =>
      have h1 := State.takeTrees_links s (s.viewTrees v)
      have h2 := State.pushFrame_links w s₂ v seq shown tk
      rw [ht] at h1
      rw [hp] at h2
      exact (h1.trans hq.links).trans h2
  | _ => exact .refl _

/-- No move changes smithay's side. -/
theorem Move.desk {w : World} {s s' : State} {paid taken : Set Debt} (h : Move w s paid taken s') :
    SameDesk s s' := by
  cases h with
  | pace h => exact h.links.toSameDesk
  | mapped => exact ⟨rfl, rfl, rfl, rfl, rfl, rfl⟩
  | linked => exact ⟨rfl, rfl, rfl, rfl, rfl, rfl⟩

theorem Settles.desk {w : World} {s s' : State} {D E : Set Debt} (h : Settles w s D s' E) : SameDesk s s' :=
  h.related SameDesk.refl SameDesk.trans Move.desk

end IhsWl
