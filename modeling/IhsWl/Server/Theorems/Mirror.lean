import IhsWl.Server.Lemmas.Deeds

/-!
# Posted events mirror the binding

What the app is told of a view: `Bound` when it shows a toplevel, `Closed` when its toplevel goes. From them
the Dart controller says whether the view shows one, and whose.
-/

namespace IhsWl

open State

variable {w : World} {guard : State → Event → Prop} {s s' t : State} {v : ViewId}

/-! ## The controller -/

/-- What `WaylandToplevelController` says of its view. -/
structure Controller where
  isBound : Bool := false
  client : Option ClientId := none
  deriving DecidableEq, Repr

namespace Controller

/-- Whether a toplevel is shown, and then whose: `answer` is what the server says when asked. -/
def update (answer : Option ClientId) (bound : Bool) : Controller where
  isBound := bound
  client := if bound then answer else none

def setBound (answer : Option ClientId) (value : Bool) (c : Controller) : Controller :=
  if c.isBound = value then c else update answer value

def onViewEvent (answer : Option ClientId) (event : ViewEvent) (c : Controller) : Controller :=
  c.setBound answer (event == .bound)

/-- The events one after another; `answers` is what the server says at each. -/
def listen (answers : Nat → Option ClientId) (events : List ViewEvent) : Controller :=
  events.zipIdx.foldl (fun c x => c.onViewEvent (answers x.2) x.1) {}

end Controller

/-! ## What was posted -/

/-- The events posted to view `v`. -/
def posts (v : ViewId) (es : List Effect) : List ViewEvent :=
  es.filterMap fun
    | .posted event v' => if v' = v then some event else none
    | _ => none

/-- The toplevels view `v` was bound to. -/
def bindings (v : ViewId) (es : List Effect) : List ToplevelId :=
  es.filterMap fun
    | .bound v' t => if v' = v then some t else none
    | _ => none

theorem posts_append (v : ViewId) (es es' : List Effect) : posts v (es ++ es') = posts v es ++ posts v es' :=
  List.filterMap_append

theorem bindings_append (v : ViewId) (es es' : List Effect) : bindings v (es ++ es') = bindings v es ++ bindings v es' :=
  List.filterMap_append

/-- The event that follows. -/
def ViewEvent.other : ViewEvent → ViewEvent
  | .bound => .closed
  | .closed => .bound

/-- Bound and closed in turn, `next` first. -/
def Alternates : ViewEvent → List ViewEvent → Prop
  | _, [] => True
  | next, event :: rest => event = next ∧ Alternates next.other rest

/-- What comes next after events in turn. -/
def following (first : ViewEvent) (told : List ViewEvent) : ViewEvent :=
  match told.getLast? with
  | none => first
  | some event => event.other

theorem following_cons (first event : ViewEvent) (rest : List ViewEvent) :
    following first (event :: rest) = following event.other rest := by
  cases rest with
  | nil => rfl
  | cons e rest => rfl

theorem alternates_concat {first : ViewEvent} {told : List ViewEvent} (h : Alternates first told) :
    Alternates first (told ++ [following first told]) := by
  induction told generalizing first with
  | nil => exact ⟨rfl, trivial⟩
  | cons event rest ih =>
      obtain ⟨rfl, hrest⟩ := h
      rw [following_cons]
      exact ⟨rfl, ih hrest⟩

/-- In turn, each event is news: the controller asks at every one of them. -/
theorem listen_concat (answers : Nat → Option ClientId) (told : List ViewEvent) (event : ViewEvent) :
    Controller.listen answers (told ++ [event]) =
      (Controller.listen answers told).onViewEvent (answers told.length) event := by
  simp [Controller.listen, List.zipIdx_append]

/-- What was posted to `v` mirrors what it shows: the events come in turn, the last is `Bound` exactly when
it shows a toplevel, that is the one it was last bound to, and the controller, whatever it was answered, says
so and holds the answer to its last question. -/
structure Mirrors (s : State) (v : ViewId) (es : List Effect) : Prop where
  alternates : Alternates .bound (posts v es)
  last : (posts v es).getLast? = some .bound ↔ (s.shows v).isSome = true
  shown : ∀ t, s.shows v = some t → (bindings v es).getLast? = some t
  heard : ∀ answers, Controller.listen answers (posts v es) =
    .update (answers ((posts v es).length - 1)) (s.shows v).isSome

namespace Mirrors

variable {es es' : List Effect}

theorem start (hposts : posts v es = []) (hshows : s.shows v = none) : Mirrors s v es where
  alternates := by rw [hposts]; trivial
  last := by simp [hposts, hshows]
  shown := by simp [hshows]
  heard := by simp [hposts, hshows, Controller.listen, Controller.update]

/-- Nothing more was posted, and the view shows what it showed. -/
theorem keep (h : Mirrors s v es) (hposts : posts v es' = []) (hbindings : bindings v es' = [])
    (hshows : s'.shows v = s.shows v) : Mirrors s' v (es ++ es') := by
  have hp : posts v (es ++ es') = posts v es := by rw [posts_append, hposts, List.append_nil]
  have hb : bindings v (es ++ es') = bindings v es := by rw [bindings_append, hbindings, List.append_nil]
  refine ⟨?_, ?_, ?_, fun answers => ?_⟩
  · rw [hp]; exact h.alternates
  · rw [hp, hshows]; exact h.last
  · rw [hb, hshows]; exact h.shown
  · rw [hp, hshows]; exact h.heard answers

theorem following_bound (h : Mirrors s v es) (hshows : s.shows v = none) : following .bound (posts v es) = .bound := by
  unfold following
  cases hlast : (posts v es).getLast? with
  | none => rfl
  | some event =>
      cases event with
      | bound =>
          have := h.last.mp hlast
          rw [hshows] at this
          cases this
      | closed => rfl

/-- A toplevel bound is told of. -/
theorem bind (h : Mirrors s v es) (hshows : s.shows v = none) {t : ToplevelId} (hposts : posts v es' = [.bound])
    (hbindings : bindings v es' = [t]) (hshown : s'.shows v = some t) : Mirrors s' v (es ++ es') := by
  refine ⟨?_, ?_, ?_, fun answers => ?_⟩
  · have hall := alternates_concat h.alternates
    rw [h.following_bound hshows] at hall
    rw [posts_append, hposts]
    exact hall
  · simp [posts_append, hposts, hshown]
  · intro t' ht'
    cases hshown.symm.trans ht'
    simp [bindings_append, hbindings]
  · rw [posts_append, hposts, listen_concat, h.heard answers, hshows, hshown]
    simp [Controller.onViewEvent, Controller.setBound, Controller.update]

/-- So is one that goes. -/
theorem close (h : Mirrors s v es) (hshows : (s.shows v).isSome = true) (hposts : posts v es' = [.closed])
    (hshown : s'.shows v = none) : Mirrors s' v (es ++ es') := by
  have hnext : following .bound (posts v es) = .closed := by
    rw [following, h.last.mpr hshows]
    rfl
  refine ⟨?_, ?_, by simp [hshown], fun answers => ?_⟩
  · have hall := alternates_concat h.alternates
    rw [hnext] at hall
    rw [posts_append, hposts]
    exact hall
  · simp [posts_append, hposts, hshown]
  · rw [posts_append, hposts, listen_concat, h.heard answers, hshows, hshown]
    simp [Controller.onViewEvent, Controller.setBound, Controller.update]

end Mirrors

/-! ## What a deed posts -/

/-- Nothing was posted to `v`, and it shows what it showed. -/
structure Untold (v : ViewId) (s s' : State) : Prop where
  shows : s'.shows v = s.shows v
  trace : ∃ es, s'.trace = s.trace ++ es ∧ posts v es = [] ∧ bindings v es = []

theorem quiet_of_linking {es : List Effect} (h : ∀ x ∈ es, x.linking = false) : posts v es = [] ∧ bindings v es = [] := by
  constructor <;>
  · refine List.filterMap_eq_nil_iff.mpr fun x hx => ?_
    have := h x hx
    cases x <;> first | rfl | cases this

theorem SameLinks.untold (h : SameLinks s s') (v : ViewId) : Untold v s s' := by
  obtain ⟨es, he, hes⟩ := h.trace
  exact ⟨by rw [h.shows], es, he, quiet_of_linking hes⟩

namespace Untold

theorem refl (v : ViewId) (s : State) : Untold v s s := (SameLinks.refl s).untold v

theorem trans (h : Untold v s s') (h' : Untold v s' t) : Untold v s t := by
  obtain ⟨hshows, es, he, hp, hb⟩ := h
  obtain ⟨hshows', es', he', hp', hb'⟩ := h'
  refine ⟨hshows'.trans hshows, es ++ es', by rw [he', he, List.append_assoc], ?_, ?_⟩
  · rw [posts_append, hp, hp', List.append_nil]
  · rw [bindings_append, hb, hb', List.append_nil]

theorem of_rest (hshows : s'.shows v = s.shows v) (htrace : s'.trace = s.trace) : Untold v s s' :=
  ⟨hshows, [], by simp [htrace], rfl, rfl⟩

end Untold

/-- The effects of letting a toplevel go. -/
theorem unlink_trace (s : State) (v : ViewId) : ∃ es, (s.unlink v).trace = s.trace ++ es ∧
    ∀ v', posts v' es = [] ∧ bindings v' es = [] := by
  have hcleared (e : ViewEntry) (v' : ViewId) :
      posts v' (e.holds.clear v).2 = [] ∧ bindings v' (e.holds.clear v).2 = [] := by
    refine quiet_of_linking fun x hx => ?_
    obtain ⟨u, -, rfl⟩ := List.mem_map.mp hx
    rfl
  unfold unlink
  split
  · exact ⟨[], by simp, fun _ => ⟨rfl, rfl⟩⟩
  · rename_i e _
    dsimp only
    split
    · exact ⟨_, rfl, hcleared e⟩
    · refine ⟨_, List.append_assoc .., fun v' => ?_⟩
      rw [posts_append, bindings_append, (hcleared e v').1, (hcleared e v').2]
      exact ⟨rfl, rfl⟩

/-- A move binds a view that shows nothing, or tells it nothing. -/
theorem Move.posting {paid taken : Set Debt} (h : Move w s paid taken s') (v : ViewId) :
    Untold v s s' ∨ (s.shows v = none ∧ (s.view v).isSome = true ∧ ∃ t, s' = s.link v t) := by
  cases h with
  | pace h => exact Or.inl (h.links.untold v)
  | mapped x id te hid hte hm => exact Or.inl ⟨rfl, [.mapped id], rfl, rfl, rfl⟩
  | linked v₀ e t hv he hp =>
      have hlive : (s.view v₀).isSome = true := by rw [hv]; rfl
      by_cases hvv : v = v₀
      · subst hvv
        exact Or.inr ⟨by rw [shows, hv]; exact he, hlive, t, rfl⟩
      · refine Or.inl ⟨?_, [.bound v₀ t, .posted .bound v₀], rfl, ?_, ?_⟩
        · rw [shows_link hlive, if_neg hvv]
        · simp [posts, Ne.symm hvv]
        · simp [bindings, Ne.symm hvv]

/-- What a deed tells `v`, unless `v` is created or disposed of. -/
theorem Deed.posting {paid taken : Set Debt} (h : Deed w guard s paid taken s') (v : ViewId) :
    Untold v s s' ∨ (s.shows v = none ∧ (s.view v).isSome = true ∧ ∃ t, s' = s.link v t) ∨
    (∃ es, (.tell v ∈ taken ∨ (s.shows v).isSome = true ∧ es = [.posted .closed v]) ∧ s' = (s.unlink v).log es) ∨
    (∃ s₀ view, view.id = v ∧ guard s₀ (.cmd (.viewCreated view))) ∨ ∃ s₀, guard s₀ (.cmd (.viewDisposed v)) := by
  cases h with
  | move hm =>
      rcases hm.posting v with h | h
      · exact Or.inl h
      · exact Or.inr (Or.inl h)
  | unlinked v₀ es hes =>
      by_cases hvv : v = v₀
      · subst hvv
        refine Or.inr (Or.inr (Or.inl ⟨es, ?_, rfl⟩))
        exact hes.imp_left fun hnil => Or.inr (Or.inr ⟨hnil, rfl⟩)
      · obtain ⟨es', he', hes'⟩ := unlink_trace s v₀
        have htold : posts v es = [] ∧ bindings v es = [] := by
          rcases hes with rfl | ⟨-, rfl⟩ <;> simp [posts, bindings, Ne.symm hvv]
        refine Or.inl ⟨(shows_unlink s v₀ v).trans (if_neg hvv), es' ++ es, ?_, ?_, ?_⟩
        · rw [log, he', List.append_assoc]
        · rw [posts_append, (hes' v).1, htold.1]; rfl
        · rw [bindings_append, (hes' v).2, htold.2]; rfl
  | inserted s₀ view hv hg =>
      by_cases hvv : v = view.id
      · exact Or.inr (Or.inr (Or.inr (Or.inl ⟨s₀, view, hvv.symm, hg⟩)))
      · exact Or.inl (.of_rest (by rw [shows_insertView, if_neg hvv]) rfl)
  | erased s₀ v₀ hv hg =>
      by_cases hvv : v = v₀
      · exact Or.inr (Or.inr (Or.inr (Or.inr ⟨s₀, hvv ▸ hg⟩)))
      · exact Or.inl (.of_rest (by rw [shows_eraseView, if_neg hvv]) rfl)
  | called v₀ ustNs => exact Or.inl ((sendViewCallbacks_links w s v₀ ustNs).untold v)
  | framesCleared v₀ => exact Or.inl ((clearFrames_links s v₀).untold v)
  | reported v₀ r => exact Or.inl ((takeReport_links s v₀ r).untold v)
  | suspendedSet _ v₀ suspended => exact Or.inl ((setSuspended_links s v₀ suspended).untold v)
  | resumed v₀ => exact Or.inl ⟨rfl, _, rfl, rfl, rfl⟩
  | watchedResumed v₀ e atNs now hv hs hn hm => exact Or.inl (.refl v _)
  | targeted x => exact Or.inl ((addTimed_links s x).untold v)
  | tokenIssued => exact Or.inl ⟨rfl, _, rfl, rfl, rfl⟩
  | tokenUsed id token hmem hi => exact Or.inl ⟨rfl, _, rfl, rfl, rfl⟩
  | ticked hg =>
      have hdisarm : SameLinks s s.disarm := .of_data rfl
      exact Or.inl ((hdisarm.trans (sweep_links _ _)).untold v)
  | _ => exact Or.inl (.of_rest rfl rfl)

/-! ## Runs -/

/-- Whether the event neither creates nor disposes of view `v`. -/
def sparesView (v : ViewId) : Event → Bool
  | .cmd (.viewCreated view) => view.id != v
  | .cmd (.viewDisposed v') => v' != v
  | _ => true

/-- Whether the event takes the toplevel view `v` shows, for the view naming its token. -/
def takesFrom (v : ViewId) (s : State) : Event → Bool
  | .activate x value => takenFrom s x value == some v
  | _ => false

/-- Since `base`, what was posted mirrors what `v` shows, or it is owed the news. -/
def Mirroring (base : List Effect) (v : ViewId) (D : Set Debt) (s : State) : Prop :=
  ∃ es, s.trace = base ++ es ∧ (.tell v ∈ D ∨ Mirrors s v es)

theorem Mirroring.mono {base : List Effect} {D E : Set Debt} (hsub : D ⊆ E) (h : Mirroring base v D s) :
    Mirroring base v E s := by
  obtain ⟨es, he, h⟩ := h
  exact ⟨es, he, h.imp_left fun hd => hsub hd⟩

theorem Mirroring.deed {base : List Effect} {D paid taken : Set Debt} (h : Mirroring base v D s)
    (hd : Deed w (fun _ e => sparesView v e = true) s paid taken s') : Mirroring base v (D \ paid ∪ taken) s' := by
  obtain ⟨es, he, h⟩ := h
  -- What `v` is owed is paid to it only as it is created or disposed of.
  have hpaid : .tell v ∉ paid := by
    cases hd with
    | move hm =>
        cases hm with
        | pace hm => cases hm <;> simp [armsFrom]
        | mapped => simp
        | linked => simp
    | inserted s₀ view hv hg =>
        simp only [sparesView, bne_iff_ne] at hg
        simpa using hg.symm
    | erased s₀ v₀ hv hg =>
        simp only [sparesView, bne_iff_ne] at hg
        simpa using hg.symm
    | _ => simp
  have howed (es' : List Effect) (he' : s'.trace = s.trace ++ es') (h' : Mirrors s v es → Mirrors s' v (es ++ es')) :
      Mirroring base v (D \ paid ∪ taken) s' := by
    refine ⟨es ++ es', by rw [he', he, List.append_assoc], ?_⟩
    exact h.imp (fun hd => Or.inl ⟨hd, hpaid⟩) h'
  rcases hd.posting v with ⟨hshows, es', he', hp, hb⟩ | ⟨hshows, hlive, t, rfl⟩ | ⟨told, htold, rfl⟩ |
    ⟨s₀, view, hid, hg⟩ | ⟨s₀, hg⟩
  · exact howed es' he' fun h => h.keep hp hb hshows
  · have hshown : (s.link v t).shows v = some t := by rw [shows_link hlive, if_pos rfl]
    exact howed _ rfl fun h => h.bind hshows (by simp [posts]) (by simp [bindings]) hshown
  · obtain ⟨es', he', hes'⟩ := unlink_trace s v
    refine ⟨es ++ (es' ++ told), by rw [log, he', he]; simp, ?_⟩
    rcases htold with hd | ⟨hshows, rfl⟩
    · exact Or.inl (Or.inr hd)
    · refine h.imp (fun hd => Or.inl ⟨hd, hpaid⟩) fun h => h.close hshows ?_ ?_
      · rw [posts_append, (hes' v).1]
        simp [posts]
      · exact (shows_unlink s v v).trans (if_pos rfl)
  · simp [sparesView, hid] at hg
  · simp [sparesView] at hg

theorem step_mirroring {base : List Effect} {depth : Nat} (hp : Paired s) {e : Event} (hspares : sparesView v e = true)
    (hok : takesFrom v s e = false) (h : Mirroring base v ∅ s) : Mirroring base v ∅ (step w depth s e) := by
  have hdeeds : Deeds w (fun _ e => sparesView v e = true) s ∅ (step w depth s e) (unpaid s e) := step_deeds hp hspares
  obtain ⟨es, he, h⟩ := hdeeds.keeps (I := Mirroring base v) (fun hsub h => h.mono hsub) (fun hd h => h.deed hd) h
  refine ⟨es, he, Or.inr (h.resolve_left ?_)⟩
  unfold unpaid
  split
  case h_5 x value =>
    rintro ⟨v', hv', hd⟩
    cases hd
    simp [takesFrom, hv'] at hok
  all_goals simp [loneDebts]

/-- While a view shows a toplevel, applying commits tells it nothing. -/
theorem Settles.untold {D E : Set Debt} (h : Settles w s D s' E) {t : ToplevelId} (ht : s.shows v = some t) :
    Untold v s s' :=
  h.invariant (P := Untold v s) (fun hm hs => (hm.posting v).elim hs.trans fun ⟨hnone, _⟩ => by
    rw [hs.shows, ht] at hnone
    cases hnone) (.refl v s)

/-- A view that lets its toplevel go is told nothing by that alone. -/
theorem unbindView_trace {u : Unblock} (hu : Wakes w u) (s : State) (v : ViewId) :
    ∃ es, (s.unbindView w u v).trace = s.trace ++ es ∧ posts v es = [] := by
  have hdrop : Untold v s (s.dropFrames w u v) := by
    have hcleared := (clearFrames_links s v).untold v
    cases hv : s.shows v with
    | none =>
        rw [dropFrames_hidden hv]
        exact hcleared
    | some t => exact hcleared.trans ((woken_settles hu (D := ∅) _ _).untold (by rw [hcleared.shows]; exact hv))
  obtain ⟨-, es, he, hes, -⟩ := hdrop.trans ((clearView_quiet (w := w) v).links.untold v)
  obtain ⟨es', he', hes'⟩ := unlink_trace ((s.dropFrames w u v).clearView w v) v
  refine ⟨es ++ es', ?_, by rw [posts_append, hes, (hes' v).1]; rfl⟩
  rw [unbindView, he', he, List.append_assoc]

/-- A view's life begins with nothing told. -/
theorem viewCreated_mirroring {u : Unblock} (hu : Wakes w u) (s : State) (view : ViewHandle) :
    Mirroring s.trace view.id ∅ (s.viewCreated w u view) := by
  have hbegun : ∀ r : State, (∃ es, r.trace = s.trace ++ es ∧ posts view.id es = []) →
      Mirroring s.trace view.id ∅ ((r.insertView view).tryBindView w u view.id) := by
    rintro r ⟨es, he, hes⟩
    have hstart : Mirroring s.trace view.id (insert (.bind view.id) ∅) (r.insertView view) :=
      ⟨es, he, Or.inr (.start hes (by rw [shows_insertView, if_pos rfl]))⟩
    have hdeeds : Deeds w (fun _ e => sparesView view.id e = true) (r.insertView view) (insert (.bind view.id) ∅)
      ((r.insertView view).tryBindView w u view.id) ∅ := tryBindView_deeds hu view.id
    exact hdeeds.keeps (I := Mirroring s.trace view.id) (fun hsub h => h.mono hsub) (fun hd h => h.deed hd) hstart
  unfold viewCreated
  dsimp only
  split
  · exact hbegun _ (unbindView_trace hu s view.id)
  · exact hbegun s ⟨[], by simp, rfl⟩

/-- The effects since a state. -/
def State.since (s s₀ : State) : List Effect := s.trace.drop s₀.trace.length

/-- From a view's creation until it is disposed of, what is posted to it mirrors what it shows, as long as no
activation takes its toplevel from it. -/
theorem run_mirrors (w : World) (depth : Nat) (pre post : List Event) (view : ViewHandle)
    (hlife : post.all (sparesView view.id) = true)
    (hok : Runs.Meets (step w depth) (fun s e => takesFrom view.id s e = false)
      (run w depth (pre ++ [.cmd (.viewCreated view)])) post) :
    Mirrors (run w depth (pre ++ .cmd (.viewCreated view) :: post)) view.id
      ((run w depth (pre ++ .cmd (.viewCreated view) :: post)).since (run w depth pre)) := by
  have hbegun : Mirroring (run w depth pre).trace view.id ∅ (run w depth (pre ++ [.cmd (.viewCreated view)])) := by
    rw [run_concat]
    exact viewCreated_mirroring (unblock_wakes w depth) _ view
  have hpaired : Paired (run w depth (pre ++ [.cmd (.viewCreated view)])) :=
    (run_keeps (P := fun _ => True) (fun _ _ _ => trivial) trivial (meets_anything depth _ {})).1
  have hrun : run w depth (pre ++ .cmd (.viewCreated view) :: post) =
      post.foldl (step w depth) (run w depth (pre ++ [.cmd (.viewCreated view)])) := by
    rw [List.append_cons, run, List.foldl_append]
    rfl
  rw [hrun]
  generalize run w depth (pre ++ [.cmd (.viewCreated view)]) = s at hok hbegun hpaired
  have hall : ∀ (es : List Event) (s : State), es.all (sparesView view.id) = true →
      Runs.Meets (step w depth) (fun s e => takesFrom view.id s e = false) s es → Paired s →
      Mirroring (run w depth pre).trace view.id ∅ s →
      Mirroring (run w depth pre).trace view.id ∅ (es.foldl (step w depth) s) := by
    intro es
    induction es with
    | nil => exact fun _ _ _ _ h => h
    | cons e es ih =>
        intro s hlife hok hp h
        rw [List.all_cons, Bool.and_eq_true] at hlife
        have hdeeds : Deeds w (fun _ _ => True) s ∅ (step w depth s e) (unpaid s e) := step_deeds hp trivial
        exact ih _ hlife.2 hok.2 (hdeeds.invariant (P := Paired) (fun hd h => h.act hd.act) hp)
          (step_mirroring hp hlife.1 hok.1 h)
  obtain ⟨es, he, hnone | hmirrors⟩ := hall post s hlife hok hpaired hbegun
  · cases hnone
  · rw [State.since, he, List.drop_left]
    exact hmirrors

/-- A toplevel of an app maps in the view that names the app; another view names a token, and the toplevel is
activated with it. -/
def takeoverRun : List Event :=
  [.cmd .issueToken, .newToplevel 1, .setAppId 1 "org.a", .commit { main := { surface := 1 } }]

def appView : ViewHandle := { uid := 0, id := 1, params := { appId := some "org.a" } }

def tokenView : ViewHandle := { uid := 1, id := 2, params := { token := some "" } }

/-- The view that names the token is there too late to take the toplevel, and nothing is left untold. -/
theorem run_mirrors_late :
    Mirrors (run World.granting 1 (takeoverRun ++ .cmd (.viewCreated appView) :: [.activate 1 "", .cmd (.viewCreated tokenView)]))
      1 ((run World.granting 1 (takeoverRun ++ .cmd (.viewCreated appView) ::
        [.activate 1 "", .cmd (.viewCreated tokenView)])).since (run World.granting 1 takeoverRun)) :=
  run_mirrors World.granting 1 takeoverRun [.activate 1 "", .cmd (.viewCreated tokenView)] appView (by decide +kernel)
    (by decide +kernel)

/-- The view the toplevel is taken from is not told: the last event it was posted is `Bound`. -/
theorem not_mirrors : ¬∀ (w : World) (depth : Nat) (pre post : List Event) (view : ViewHandle),
    post.all (sparesView view.id) = true →
    Mirrors (run w depth (pre ++ .cmd (.viewCreated view) :: post)) view.id
      ((run w depth (pre ++ .cmd (.viewCreated view) :: post)).since (run w depth pre)) := by
  intro h
  have hlast := (h World.granting 1 takeoverRun [.cmd (.viewCreated tokenView), .activate 1 ""] appView (by decide +kernel)).last
  revert hlast
  decide +kernel

end IhsWl
