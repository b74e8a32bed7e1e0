import IhsWl.Hosting.Lemmas
import IhsWl.Seat.Theorems.Configures

/-!
# Dart sees what the server shows

A view is made known to the server some time after Dart has it, and Dart hears of its toplevels some time after they are
shown or go. Where nothing is on its way, the two agree.
-/

namespace IhsWl

open Runs State

variable {names : ViewId → ViewNames} {w : World} {depth : Nat} {v : ViewId}

/-! ## What is on its way -/

/-- The bindings and unbindings of view `v` among the events. -/
def heardOf (v : ViewId) (l : List (ViewId × Heard)) : List ViewEvent :=
  l.filterMap fun
    | (u, .event e) => if u = v then some e else none
    | _ => none

@[simp] theorem heardOf_append (v : ViewId) (l l' : List (ViewId × Heard)) : heardOf v (l ++ l') = heardOf v l ++ heardOf v l' :=
  List.filterMap_append

theorem heardOf_post (v : ViewId) (es : List Effect) : heardOf v (es.filterMap Effect.post) = posts v es := by
  rw [heardOf, List.filterMap_filterMap, posts]
  refine congrFun (congrArg List.filterMap (funext fun x => ?_)) es
  cases x <;> rfl

theorem heardOf_none {l : List (ViewId × Heard)} (h : ∀ m ∈ l, m.1 ≠ v) : heardOf v l = [] := by
  refine List.filterMap_eq_nil_iff.mpr fun m hm => ?_
  obtain ⟨u, e⟩ := m
  cases e with
  | event e => exact if_neg (h _ hm)
  | request r => rfl

theorem heardOf_cons_ne {u : ViewId} (h : v ≠ u) (e : Heard) (l : List (ViewId × Heard)) :
    heardOf v ((u, e) :: l) = heardOf v l := by
  cases e with
  | event e => exact List.filterMap_cons_none (if_neg h.symm)
  | request r => rfl

theorem boundAfter_eq (taken : List (ViewId × Heard)) (v : ViewId) :
    App.boundAfter taken v = true ↔ (heardOf v taken).getLast? = some .bound := by
  induction taken using List.reverseRecOn with
  | nil => simp [App.boundAfter, heardOf]
  | append_singleton taken m ih =>
      obtain ⟨u, e⟩ := m
      rw [App.boundAfter_append, heardOf_append]
      cases e with
      | request r => simpa [heardOf] using ih
      | event e =>
          by_cases hu : u = v
          · simp [heardOf, hu]
          · simpa [heardOf, hu] using ih

/-- The view a command makes. -/
def Cmd.made : Cmd → Option ViewId
  | .viewCreated view => some view.id
  | _ => none

theorem sparesView_cmd {c : Cmd} (hmade : c.made ≠ some v) (hdisposed : c ≠ .viewDisposed v) : sparesView v (.cmd c) = true := by
  cases c with
  | viewCreated view => simpa [sparesView, Cmd.made] using hmade
  | viewDisposed u => simpa [sparesView] using hdisposed
  | _ => rfl

@[simp] theorem made_sized (size : Option (Int × Int)) (c : Cmd) : (c.sized size).made = c.made := by cases c <;> rfl

theorem sized_disposed {size : Option (Int × Int)} {c : Cmd} (h : c.sized size = .viewDisposed v) : c = .viewDisposed v := by
  cases c <;> first | exact h | cases h

theorem called_of_made_none {m : ToModule Double} (h : m.made = none) : m.called names = none := by
  cases m with
  | create u g r => cases h
  | _ => rfl

theorem called_create (names : ViewId → ViewNames) (v : ViewId) (g : Grants) (r : Option (Size Double)) :
    ∃ view : ViewHandle, (ToModule.create v g r).called names = some (.viewCreated view) ∧ view.id = v := ⟨_, rfl, rfl⟩

theorem queued_spares {m : ToModule Double} {c : Cmd} (h : m.queued names = some c) (v : ViewId) :
    c.made = none ∧ c ≠ .viewDisposed v := by
  cases m with
  | create u g r => cases h
  | capabilities u bits =>
      simp only [ToModule.queued, ToModule.sent, ihsWlViewCapabilities] at h
      split at h <;> cases h
  | windowState u bits =>
      simp only [ToModule.queued, ToModule.sent, ihsWlViewState] at h
      split at h <;> cases h
  | requestSize u size =>
      simp only [ToModule.queued, ToModule.sent, ihsWlViewSize] at h
      split at h
      · cases h
        exact ⟨rfl, by simp⟩
      · cases h
  | close u => cases h

namespace Hosting

variable {h : Hosting} {e : Event} {es : List Effect}

/-! ## A view's way to the server -/

/-- How many of the commands on their way make view `v`. -/
def making (v : ViewId) (h : Hosting) : Nat := (h.queue ++ h.calls).countP fun c => c.made = some v

/-- The server has not made view `v`. -/
structure Unmet (v : ViewId) (h : Hosting) : Prop where
  view : h.server.view v = none
  port : ∀ m ∈ h.port, m.1 ≠ v

/-- The server has made it, and has done `es` since. -/
structure Met (v : ViewId) (es : List Effect) (h : Hosting) : Prop where
  trace : ∃ base, h.server.trace = base ++ es
  mirrors : Mirrors h.server v es
  heard : posts v es = heardOf v (h.app.taken ++ h.port)
  asked : ∀ pre r post, h.port = pre ++ (v, .request r) :: post → (heardOf v (h.app.taken ++ pre)).getLast? = some .bound

theorem serve_port (htrace : (IhsWl.step w depth h.server e).trace = h.server.trace ++ es) :
    (h.serve w depth e).port = h.port ++ es.filterMap Effect.post := by
  simp only [serve, htrace, List.drop_left]

theorem Unmet.serve (hu : h.Unmet v) (hp : Paired h.server) (hspares : sparesView v e = true) : (h.serve w depth e).Unmet v := by
  obtain ⟨hview, es, he, hes⟩ := step_unborn depth hp hspares hu.view
  refine ⟨hview, fun m hm => ?_⟩
  rw [serve_port he] at hm
  rcases List.mem_append.mp hm with hm | hm
  · exact hu.port m hm
  · obtain ⟨x, hx, hpost⟩ := List.mem_filterMap.mp hm
    rintro rfl
    cases x with
    | posted event u =>
        cases hpost
        have hheard : event ∈ posts u es := List.mem_filterMap.mpr ⟨_, hx, if_pos rfl⟩
        rw [hes] at hheard
        cases hheard
    | _ => cases hpost

theorem Met.serve (hm : h.Met v es) (w : World) (depth : Nat) (hp : Paired h.server) (hspares : sparesView v e = true)
    (hok : takesFrom v h.server e = false) :
    ∃ es', (h.serve w depth e).Met v (es ++ es') ∧ (h.serve w depth e).port = h.port ++ es'.filterMap Effect.post ∧
      (posts v es' = [] → (h.serve w depth e).server.shows v = h.server.shows v) := by
  obtain ⟨base, hbase⟩ := hm.trace
  obtain ⟨es', he', hshows⟩ := step_untold (w := w) depth hp hspares hok
  have hmirroring : Mirroring base v ∅ (IhsWl.step w depth h.server e) :=
    step_mirroring hp hspares hok ⟨es, hbase, Or.inr hm.mirrors⟩
  obtain ⟨all, hall, hnone | hmirrors⟩ := hmirroring
  · cases hnone
  obtain rfl : all = es ++ es' := by
    rw [hall, hbase, List.append_assoc] at he'
    exact List.append_cancel_left he'
  refine ⟨es', ⟨⟨base, hall⟩, hmirrors, ?_, fun pre r post hsplit => ?_⟩, serve_port he', hshows⟩
  · rw [posts_append, hm.heard, serve_port he', ← List.append_assoc, heardOf_append _ _ (es'.filterMap _), heardOf_post]
    rfl
  · rw [serve_port he'] at hsplit
    obtain ⟨rest, hrest⟩ := Port.split_of_not_mem hsplit Port.not_request_of_post
    exact hm.asked pre r rest hrest

/-! ## What holds between the ops -/

/-- Dart has view `v`, or has not made it yet. -/
def Current (v : ViewId) (h : Hosting) : Prop := (h.app.watched v).isSome = true ∨ (h.app.nextId : ViewId) ≤ v

/-- How far view `v` is on its way. -/
def Stage (v : ViewId) (h : Hosting) : Prop :=
  h.Unmet v ∧ h.making v = 1 ∧ heardOf v h.app.taken = [] ∨ h.making v = 0 ∧ ∃ es, h.Met v es

theorem Unmet.same {h' : Hosting} (hu : h.Unmet v) (hserver : h'.server = h.server) (hport : h'.port = h.port) : h'.Unmet v :=
  ⟨hserver ▸ hu.view, hport ▸ hu.port⟩

theorem Unmet.pop {h' : Hosting} {m : ViewId × Heard} (hu : h.Unmet v) (hserver : h'.server = h.server)
    (hport : h.port = m :: h'.port) : h'.Unmet v :=
  ⟨hserver ▸ hu.view, fun n hn => hu.port n (hport ▸ List.mem_cons_of_mem _ hn)⟩

theorem Met.same {h' : Hosting} (hm : h.Met v es) (hserver : h'.server = h.server) (hport : h'.port = h.port)
    (htaken : h'.app.taken = h.app.taken) : h'.Met v es := by
  refine ⟨?_, hserver ▸ hm.mirrors, ?_, ?_⟩
  · rw [hserver]
    exact hm.trace
  · rw [htaken, hport]
    exact hm.heard
  · rw [htaken, hport]
    exact hm.asked

theorem Stage.same {h' : Hosting} (hs : h.Stage v) (hserver : h'.server = h.server) (hport : h'.port = h.port)
    (htaken : h'.app.taken = h.app.taken) (hmaking : h'.making v = h.making v) : h'.Stage v := by
  rcases hs with ⟨hu, hone, hnone⟩ | ⟨hzero, es, hm⟩
  · exact Or.inl ⟨hu.same hserver hport, hmaking.trans hone, (congrArg (heardOf v) htaken).trans hnone⟩
  · exact Or.inr ⟨hmaking.trans hzero, es, hm.same hserver hport htaken⟩

/-- A controller names the client of what its view shows, once its view heard of it. -/
def Named (w : World) (h : Hosting) : Prop := ∀ k s c v, h.app.views k = some s → s.held = some c → s.viewId = some v →
  s.bound = true → heardOf v h.port = [] → ∀ x, h.server.viewClient w v = some x → (h.app.controllers c).client = some x

structure Linked (w : World) (h : Hosting) : Prop where
  synced : h.app.Synced
  paired : Paired h.server
  fresh : ∀ v, (h.app.nextId : ViewId) ≤ v → h.Unmet v ∧ h.making v = 0
  stage : ∀ v, (h.app.watched v).isSome = true → h.Stage v
  kept : ∀ v, h.Current v → .viewDisposed v ∉ h.queue ++ h.calls
  named : h.Named w

theorem Linked.watched (hl : h.Linked w) {k : Nat} {s : WaylandToplevelViewState Double} {c : Nat} (hs : h.app.views k = some s)
    (hc : s.held = some c) (hv : s.viewId = some v) : h.app.watched v = some k := by
  refine (hl.synced.settled.registered.watched v k).mpr ⟨s, hs, ?_, hl.synced.settled.registered.named k s v hs hv⟩
  by_contra hm
  simp [WaylandToplevelViewState.held, hm] at hc

/-- A view says it shows a toplevel only once the server made it. -/
theorem Linked.heard (hl : h.Linked w) {k : Nat} {s : WaylandToplevelViewState Double} (hs : h.app.views k = some s)
    (hv : s.watchedId = some v) : s.bound = true ↔ (heardOf v h.app.taken).getLast? = some .bound := by
  rw [hl.synced.settled.listened.bound k s hs, hv, Option.any_some]
  exact boundAfter_eq h.app.taken v

theorem Linked.serve (hl : h.Linked w) {queue : List Cmd} (depth : Nat)
    (hkept : ∀ v, h.Current v → .viewDisposed v ∉ queue ++ h.calls)
    (hcase : ∀ v, h.Current v →
      sparesView v e = true ∧ takesFrom v h.server e = false ∧ ({ h with queue } : Hosting).making v = h.making v ∨
      (∃ view : ViewHandle, e = .cmd (.viewCreated view) ∧ view.id = v) ∧ h.making v = ({ h with queue } : Hosting).making v + 1) :
    (({ h with queue } : Hosting).serve w depth e).Linked w := by
  have hunmet (v : ViewId) (hu : h.Unmet v) : ({ h with queue } : Hosting).Unmet v := hu.same rfl rfl
  have hmet (v : ViewId) {es : List Effect} (hm : h.Met v es) : ({ h with queue } : Hosting).Met v es := hm.same rfl rfl rfl
  have hdeeds : Deeds w (fun _ _ => True) h.server ∅ (IhsWl.step w depth h.server e) (unpaid h.server e) :=
    step_deeds hl.paired trivial
  refine ⟨hl.synced, hdeeds.invariant (P := Paired) (fun hd h => h.act hd.act) hl.paired, fun v hv => ?_, fun v hv => ?_, hkept, ?_⟩
  · obtain ⟨hu, hnone⟩ := hl.fresh v hv
    rcases hcase v (Or.inr hv) with ⟨hspares, -, hmaking⟩ | ⟨-, hmaking⟩
    · exact ⟨(hunmet v hu).serve hl.paired hspares, hmaking.trans hnone⟩
    · rw [hnone] at hmaking
      cases hmaking
  · rcases hl.stage v hv with ⟨hu, hone, htaken⟩ | ⟨hnone, es, hm⟩
    · rcases hcase v (Or.inl hv) with ⟨hspares, -, hmaking⟩ | ⟨⟨view, rfl, rfl⟩, hmaking⟩
      · exact Or.inl ⟨(hunmet v hu).serve hl.paired hspares, hmaking.trans hone, htaken⟩
      · -- The server makes it now.
        obtain ⟨es, hes, hnone | hmirrors⟩ := viewCreated_mirroring (unblock_wakes w depth) h.server view
        · cases hnone
        have hport := serve_port (h := { h with queue }) (w := w) (e := .cmd (.viewCreated view)) hes
        refine Or.inr ⟨Nat.succ.inj (hmaking.symm.trans hone), es, ⟨_, hes⟩, hmirrors, ?_, fun pre r post hsplit => ?_⟩
        · rw [hport, heardOf_append, heardOf_append, heardOf_post]
          change _ = heardOf view.id h.app.taken ++ _
          rw [htaken, heardOf_none hu.port]
          rfl
        · rw [hport] at hsplit
          obtain ⟨rest, hrest⟩ := Port.split_of_not_mem hsplit Port.not_request_of_post
          have hmem : (view.id, Heard.request r) ∈ h.port := by
            rw [show h.port = _ from hrest]
            simp
          exact absurd rfl (hu.port _ hmem)
    · rcases hcase v (Or.inl hv) with ⟨hspares, hok, hmaking⟩ | ⟨-, hmaking⟩
      · obtain ⟨es', hm', -⟩ := (hmet v hm).serve w depth hl.paired hspares hok
        exact Or.inr ⟨hmaking.trans hnone, _, hm'⟩
      · rw [hnone] at hmaking
        cases hmaking
  · intro k s c v hs hc hv hb hquiet x hx
    have hwatched := hl.watched hs hc hv
    have hlast := (hl.heard hs (hl.synced.settled.registered.named k s v hs hv)).mp hb
    rcases hl.stage v (by rw [hwatched]; rfl) with ⟨-, -, htaken⟩ | ⟨hnone, es, hm⟩
    · rw [htaken] at hlast
      cases hlast
    · rcases hcase v (Or.inl (by rw [hwatched]; rfl)) with ⟨hspares, hok, -⟩ | ⟨-, hmaking⟩
      · obtain ⟨es', -, hport, hshows⟩ := (hmet v hm).serve w depth hl.paired hspares hok
        rw [hport, heardOf_append, heardOf_post, List.append_eq_nil_iff] at hquiet
        exact hl.named k s c v hs hc hv hb hquiet.1 x (step_viewClient hl.paired (hshows hquiet.2) hx)
      · rw [hnone] at hmaking
        cases hmaking

theorem told_spares (names : ViewId → ViewNames) {ms : List (ToModule Double)} (hms : ∀ m ∈ ms, m.made = none) :
    ms.filterMap (ToModule.called names) = [] ∧
      (∀ v, (ms.filterMap (ToModule.queued names)).countP (fun c => c.made = some v) = 0) ∧
      ∀ v, .viewDisposed v ∉ ms.filterMap (ToModule.queued names) := by
  refine ⟨List.filterMap_eq_nil_iff.mpr fun m hm => called_of_made_none (hms m hm), fun v => ?_, fun v hv => ?_⟩
  · refine List.countP_eq_zero.mpr fun c hc => ?_
    obtain ⟨m, -, hm⟩ := List.mem_filterMap.mp hc
    simp [(queued_spares hm v).1]
  · obtain ⟨m, -, hm⟩ := List.mem_filterMap.mp hv
    exact (queued_spares hm v).2 rfl

theorem Linked.act (hl : h.Linked w) {op : AppOp Double} (hop : h.app.Orderly op) (hown : op.own = true) :
    (h.act names w op).Linked w := by
  have hsynced : (h.app.step (h.answer w) op).Synced := hl.synced.step hop
  have hnames : App.Names (h.server.viewClient w) h.app (h.app.step (h.answer w) op) := App.step_names hl.synced.settled hop hown
  have hnamed : (h.act names w op).Named w := by
    intro k s c v hs hc hv hb hquiet x hx
    rcases hnames k s c v hs hc hv hb with hanswer | ⟨t, ht, htc, htv, htb, hsame⟩
    · exact hanswer.trans hx
    · exact hsame.trans (hl.named k t c v ht htc htv htb hquiet x hx)
  rcases App.step_speaks (h.answer w) h.app hown with hspeaks | hmakes
  · obtain ⟨ms, htold, hms⟩ := hspeaks.told
    obtain ⟨hcalled, hcount, hdisposed⟩ := told_spares names hms
    have hcalls : (h.act names w op).calls = h.calls := by
      simp only [Hosting.act, htold, List.drop_left, hcalled, List.append_nil]
    have hqueue : (h.act names w op).queue = h.queue ++ ms.filterMap (ToModule.queued names) := by
      simp only [Hosting.act, htold, List.drop_left]
    have hmaking (v : ViewId) : (h.act names w op).making v = h.making v := by
      simp only [making, hcalls, hqueue, List.countP_append, hcount v, Nat.add_zero]
    refine ⟨hsynced, hl.paired, fun v hv => ?_, fun v hv => ?_, fun v hv => ?_, hnamed⟩
    · obtain ⟨hu, hnone⟩ := hl.fresh v (hspeaks.nextId ▸ hv)
      exact ⟨hu.same rfl rfl, (hmaking v).trans hnone⟩
    · exact (hl.stage v (hspeaks.watched v hv)).same rfl rfl hspeaks.taken (hmaking v)
    · have hbefore : h.Current v := hv.imp (hspeaks.watched v) fun hfresh => hspeaks.nextId ▸ hfresh
      have hnot := hl.kept v hbefore
      rw [hcalls, hqueue]
      simp only [List.mem_append, not_or] at hnot ⊢
      exact ⟨⟨hnot.1, hdisposed v⟩, hnot.2⟩
  · obtain ⟨g, r, htold⟩ := hmakes.told
    obtain ⟨view, hview, hid⟩ := called_create names (h.app.nextId : ViewId) g r
    have hcalls : (h.act names w op).calls = h.calls ++ [.viewCreated view] := by
      simp only [Hosting.act, htold, List.drop_left, List.filterMap_cons, hview, List.filterMap_nil]
    have hqueue : (h.act names w op).queue = h.queue := by
      simp only [Hosting.act, htold, List.drop_left]
      exact List.append_nil _
    have hmaking (v : ViewId) : (h.act names w op).making v = h.making v + if (h.app.nextId : ViewId) = v then 1 else 0 := by
      simp only [making, hcalls, hqueue, List.countP_append, List.countP_cons, List.countP_nil, Cmd.made, hid, Option.some.injEq,
        decide_eq_true_eq]
      omega
    have hnext : ((h.app.step (h.answer w) op).nextId : ViewId) = h.app.nextId + 1 := by rw [hmakes.nextId]; rfl
    refine ⟨hsynced, hl.paired, fun v hv => ?_, fun v hv => ?_, fun v hv => ?_, hnamed⟩
    · have hlt : (h.app.nextId : ViewId) < v := Int.add_one_le_iff.mp (hnext ▸ hv)
      obtain ⟨hu, hnone⟩ := hl.fresh v hlt.le
      refine ⟨hu.same rfl rfl, ?_⟩
      rw [hmaking, hnone, if_neg hlt.ne]
    · rcases hmakes.watched v hv with rfl | hold
      · obtain ⟨hu, hnone⟩ := hl.fresh _ le_rfl
        refine Or.inl ⟨hu.same rfl rfl, ?_, ?_⟩
        · rw [hmaking, hnone, if_pos rfl]
        · change heardOf _ (h.app.step (h.answer w) op).taken = []
          rw [hmakes.taken]
          exact heardOf_none fun m hm => (hl.synced.settled.listened.unborn m hm).ne
      · obtain ⟨k, hk⟩ := Option.isSome_iff_exists.mp hold
        obtain ⟨s, hs, -, hid⟩ := (hl.synced.settled.registered.watched v k).mp hk
        have hlt := hl.synced.settled.registered.fresh k s v hs hid
        exact (hl.stage v hold).same rfl rfl hmakes.taken (by rw [hmaking, if_neg hlt.ne']; rfl)
    · have hbefore : h.Current v := by
        rcases hv with hv | hv
        · exact (hmakes.watched v hv).symm.imp id fun heq => heq.ge
        · exact Or.inr (Int.add_one_le_iff.mp (hnext ▸ hv)).le
      have hnot := hl.kept v hbefore
      rw [hcalls, hqueue]
      simp only [List.mem_append, List.mem_singleton, reduceCtorEq, or_false] at hnot ⊢
      exact hnot

theorem alternates_news {first event : ViewEvent} {l rest : List ViewEvent} (h : Alternates first (l ++ event :: rest)) :
    l.getLast? ≠ some event := by
  induction l generalizing first with
  | nil => simp
  | cons x l ih =>
      obtain ⟨rfl, hrest⟩ := h
      cases l with
      | nil =>
          obtain ⟨rfl, -⟩ := hrest
          cases x <;> simp [ViewEvent.other]
      | cons y l =>
          rw [List.getLast?_cons_cons]
          exact ih hrest

/-- The next event goes to no view Dart has. -/
theorem Linked.dropped (hl : h.Linked w) {u : ViewId} {e : Heard} {port : List (ViewId × Heard)} (hport : h.port = (u, e) :: port)
    (hnone : h.app.watched u = none) : ({ h with port } : Hosting).Linked w := by
  have hother {v : ViewId} (hv : (h.app.watched v).isSome = true) : v ≠ u := by
    rintro rfl
    rw [hnone] at hv
    cases hv
  have hunmet {v : ViewId} (hu : h.Unmet v) : ({ h with port } : Hosting).Unmet v := hu.pop rfl hport
  refine ⟨hl.synced, hl.paired, fun v hv => (hl.fresh v hv).imp_left hunmet, fun v hv => ?_, hl.kept, ?_⟩
  · rcases hl.stage v hv with ⟨hu, hone, htaken⟩ | ⟨hzero, es, hm⟩
    · exact Or.inl ⟨hunmet hu, hone, htaken⟩
    · refine Or.inr ⟨hzero, es, hm.trace, hm.mirrors, ?_, fun pre r post hsplit => ?_⟩
      · rw [hm.heard, hport, heardOf_append, heardOf_append, heardOf_cons_ne (hother hv)]
      · have hlast := hm.asked ((u, e) :: pre) r post (hport.trans (congrArg (List.cons _) hsplit))
        rw [heardOf_append, heardOf_cons_ne (hother hv)] at hlast
        rw [heardOf_append]
        exact hlast
  · intro k s c v hs hc hv hb hquiet
    refine hl.named k s c v hs hc hv hb ?_
    rw [hport, heardOf_cons_ne (hother (by rw [hl.watched hs hc hv]; rfl))]
    exact hquiet

/-- The next event goes to its view. -/
theorem Linked.taken (hl : h.Linked w) {u : ViewId} {e : Heard} {port : List (ViewId × Heard)} (hport : h.port = (u, e) :: port)
    {k : Nat} (hk : h.app.watched u = some k) : (({ h with port } : Hosting).act names w (.dispatch u e)).Linked w := by
  obtain ⟨s, hs, hmounted, hid⟩ := (hl.synced.settled.registered.watched u k).mp hk
  have hwatched : (h.app.watched u).isSome = true := by rw [hk]; rfl
  obtain ⟨htold, hsame, hnext⟩ := App.dispatch_rest (h.answer w) h.app u e
  have htaken : (h.app.step (h.answer w) (.dispatch u e)).taken = h.app.taken ++ [(u, e)] := App.dispatch_taken hk hs
  have hact : ({ h with port } : Hosting).act names w (.dispatch u e) =
      { h with port, app := h.app.step (h.answer w) (.dispatch u e) } := by
    have hnews : (h.app.step (h.answer w) (.dispatch u e)).told.drop h.app.told.length = [] := by rw [htold, List.drop_length]
    change Hosting.mk _ (h.calls ++ List.filterMap _ ((h.app.step (h.answer w) (.dispatch u e)).told.drop h.app.told.length))
      (h.queue ++ List.filterMap _ ((h.app.step (h.answer w) (.dispatch u e)).told.drop h.app.told.length)) _ _ = _
    rw [hnews, List.filterMap_nil, List.filterMap_nil, List.append_nil, List.append_nil]
    rfl
  rw [hact]
  have hheard (v : ViewId) : heardOf v (h.app.taken ++ [(u, e)] ++ port) = heardOf v (h.app.taken ++ h.port) := by
    rw [hport, List.append_assoc]
    rfl
  have hunmet {v : ViewId} (hu : h.Unmet v) : ({ h with port, app := h.app.step (h.answer w) (.dispatch u e) } : Hosting).Unmet v :=
    hu.pop rfl hport
  have hnotunmet : ¬h.Unmet u := fun hu => hu.port (u, e) (by rw [hport]; simp) rfl
  -- Its view says the other thing yet.
  have hnew : e = .event .bound → s.bound = false := by
    rintro rfl
    rcases hl.stage u hwatched with ⟨hu, -⟩ | ⟨-, es, hm⟩
    · exact absurd hu hnotunmet
    · have hin := hm.mirrors.alternates
      rw [hm.heard, hport, heardOf_append] at hin
      have hsplit : Alternates .bound (heardOf u h.app.taken ++ .bound :: heardOf u port) := by simpa [heardOf] using hin
      have hnews := alternates_news hsplit
      by_contra hb
      exact hnews ((hl.heard hs hid).mp (by simpa using hb))
  have hsynced : (h.app.step (h.answer w) (.dispatch u e)).Synced := hl.synced.step trivial
  refine ⟨hsynced, hl.paired, fun v hv => ?_, fun v hv => ?_, fun v hv => hl.kept v ?_, ?_⟩
  · exact (hl.fresh v (hnext ▸ hv)).imp_left hunmet
  · rcases hl.stage v (hsame ▸ hv) with ⟨hu, hone, hnone⟩ | ⟨hzero, es, hm⟩
    · refine Or.inl ⟨hunmet hu, hone, ?_⟩
      have hne : u ≠ v := by
        rintro rfl
        exact hnotunmet hu
      change heardOf v (h.app.step (h.answer w) (.dispatch u e)).taken = []
      rw [htaken, heardOf_append, hnone, heardOf_none (by simpa using hne)]
      rfl
    · refine Or.inr ⟨hzero, es, hm.trace, hm.mirrors, ?_, fun pre r post hsplit => ?_⟩
      · change _ = heardOf v ((h.app.step (h.answer w) (.dispatch u e)).taken ++ port)
        rw [htaken, hheard]
        exact hm.heard
      · have hlast := hm.asked ((u, e) :: pre) r post (hport.trans (congrArg (List.cons _) hsplit))
        change (heardOf v ((h.app.step (h.answer w) (.dispatch u e)).taken ++ pre)).getLast? = _
        rw [htaken, List.append_assoc]
        exact hlast
  · exact hv.imp (fun hv => hsame ▸ hv) fun hv => hnext ▸ hv
  · intro k' t c v ht hc hv hb hquiet x hx
    rcases App.dispatch_names hl.synced.settled hs hmounted hid hnew ht hc hv hb with hanswer |
        ⟨hother, t₀, ht₀, htc, htv, htb, hkept⟩
    · exact hanswer.trans hx
    · refine hkept.trans (hl.named k' t₀ c v ht₀ htc htv htb ?_ x hx)
      rw [hport]
      cases e with
      | request r => exact hquiet
      | event event => exact (heardOf_cons_ne (hother event rfl) _ port).trans hquiet

/-- Nothing is on its way of a view but what was. -/
theorem Linked.requeued (hl : h.Linked w) {calls queue : List Cmd}
    (hmaking : ∀ v, ({ h with calls, queue } : Hosting).making v = h.making v)
    (hdisposed : ∀ v, h.Current v → .viewDisposed v ∉ queue ++ calls) : ({ h with calls, queue } : Hosting).Linked w := by
  refine ⟨hl.synced, hl.paired, fun v hv => ?_, fun v hv => ?_, hdisposed, hl.named⟩
  · obtain ⟨hu, hnone⟩ := hl.fresh v hv
    exact ⟨hu.same rfl rfl, (hmaking v).trans hnone⟩
  · exact (hl.stage v hv).same rfl rfl rfl (hmaking v)

theorem Linked.disposes (hl : h.Linked w) (k : Nat) : (h.disposes k).Linked w := by
  unfold Hosting.disposes
  split
  · exact hl
  · rename_i s hs
    split
    · exact hl
    · rename_i hm
      split
      · exact hl
      · rename_i u hu
        refine hl.requeued (fun v => ?_) fun v hv hmem => ?_
        · simp [making, ← List.append_assoc, List.countP_append, Cmd.made]
        · rw [← List.append_assoc] at hmem
          rcases List.mem_append.mp hmem with hmem | hmem
          · exact hl.kept v hv hmem
          · obtain rfl : v = u := by simpa using List.mem_singleton.mp hmem
            have hregistered := hl.synced.settled.registered
            rcases hv with hv | hv
            · obtain ⟨k', hk'⟩ := Option.isSome_iff_exists.mp hv
              obtain ⟨s', hs', hm', hu'⟩ := (hregistered.watched v k').mp hk'
              cases hregistered.distinct k k' s s' v hs hs' hu hu'
              cases hs.symm.trans hs'
              exact hm hm'
            · exact absurd (hregistered.fresh k s v hs hu) hv.not_gt

theorem Linked.requested (hl : h.Linked w) {u : ViewId} (r : WindowRequest) (hshown : (h.server.shows u).isSome = true) :
    ({ h with port := h.port ++ [(u, .request r)] } : Hosting).Linked w := by
  have hheard (v : ViewId) (l : List (ViewId × Heard)) : heardOf v (l ++ [(u, .request r)]) = heardOf v l := by
    rw [heardOf_append]
    exact List.append_nil _
  have hunmet {v : ViewId} (hu : h.Unmet v) : ({ h with port := h.port ++ [(u, .request r)] } : Hosting).Unmet v := by
    refine ⟨hu.view, fun m hm => ?_⟩
    rcases List.mem_append.mp hm with hm | hm
    · exact hu.port m hm
    · cases List.mem_singleton.mp hm
      rintro rfl
      rw [shows, hu.view] at hshown
      cases hshown
  refine ⟨hl.synced, hl.paired, fun v hv => (hl.fresh v hv).imp_left hunmet, fun v hv => ?_, hl.kept, ?_⟩
  · rcases hl.stage v hv with ⟨hu, hone, hnone⟩ | ⟨hzero, es, hm⟩
    · exact Or.inl ⟨hunmet hu, hone, hnone⟩
    · refine Or.inr ⟨hzero, es, hm.trace, hm.mirrors, ?_, fun pre r' post hsplit => ?_⟩
      · rw [hm.heard, ← List.append_assoc, hheard]
      · rcases List.eq_nil_or_concat post with rfl | ⟨post, b, rfl⟩
        · obtain ⟨rfl, hlast⟩ := List.append_inj' hsplit rfl
          cases hlast
          rw [← hm.heard]
          exact hm.mirrors.last.mpr hshown
        · rw [List.concat_eq_append, ← List.cons_append, ← List.append_assoc] at hsplit
          exact hm.asked pre r' post (List.append_inj' hsplit rfl).1
  · intro k s c v hs hc hv hb hquiet
    rw [hheard] at hquiet
    exact hl.named k s c v hs hc hv hb hquiet

/-! ## Runs -/

/-- No event makes or disposes of a view but by the shell, and none takes a toplevel from a view. The app gives a controller
to one view at a time, and a create is answered while Flutter has the view still. -/
def Orderly (h : Hosting) : HostingOp → Prop
  | .app op => h.app.Orderly op ∧ op.own = true
  | .event e => keepsViews e = true ∧ ∀ v, takesFrom v h.server e = false
  | _ => True

theorem Linked.step (hl : h.Linked w) {op : HostingOp} (hop : h.Orderly op) : (h.step names w depth op).Linked w := by
  cases op with
  | app op => exact hl.act hop.1 hop.2
  | dispatches =>
      simp only [Hosting.step]
      split
      · exact hl
      · rename_i u e port hport
        cases hk : h.app.watched u with
        | some k => exact hl.taken hport hk
        | none =>
            have hact : ({ h with port } : Hosting).act names w (.dispatch u e) = { h with port } := by
              simp [Hosting.act, App.step, hk]
            rw [hact]
            exact hl.dropped hport hk
  | disposes k => exact hl.disposes k
  | shell size =>
      simp only [Hosting.step]
      split
      · exact hl
      · rename_i c calls hcalls
        refine hl.requeued (fun v => ?_) fun v hv hmem => ?_
        · simp [making, hcalls, List.countP_append, List.countP_cons]
        · have hnot := hl.kept v hv
          rw [hcalls] at hnot
          simp only [List.append_assoc, List.cons_append, List.nil_append, List.mem_append, List.mem_cons, not_or] at hmem hnot
          rcases hmem with hmem | hmem | hmem
          · exact hnot.1 hmem
          · exact hnot.2.1 (sized_disposed hmem.symm).symm
          · exact hnot.2.2 hmem
  | serves =>
      simp only [Hosting.step]
      split
      · exact hl
      · rename_i c queue hqueue
        have hmaking (v : ViewId) : h.making v = ({ h with queue } : Hosting).making v + if c.made = some v then 1 else 0 := by
          simp [making, hqueue, List.countP_cons]
        refine hl.serve depth (fun v hv hmem => hl.kept v hv (by rw [hqueue]; exact List.mem_cons_of_mem _ hmem)) fun v hv => ?_
        have hnot : c ≠ .viewDisposed v := fun hc => hl.kept v hv (by rw [hqueue, hc]; simp)
        by_cases hmade : c.made = some v
        · refine Or.inr ⟨?_, by rw [hmaking, if_pos hmade]⟩
          cases c with
          | viewCreated view => exact ⟨view, rfl, Option.some.inj hmade⟩
          | _ => cases hmade
        · exact Or.inl ⟨sparesView_cmd hmade hnot, rfl, by rw [hmaking, if_neg hmade]; rfl⟩
  | event e =>
      have hspares (v : ViewId) : sparesView v e = true := by
        cases e with
        | cmd c =>
            cases c with
            | viewCreated view => cases hop.1
            | viewDisposed u => cases hop.1
            | _ => rfl
        | _ => rfl
      have hserved : (({ h with queue := h.queue } : Hosting).serve w depth e).Linked w :=
        hl.serve depth hl.kept fun v _ => Or.inl ⟨hspares v, hop.2 v, rfl⟩
      exact hserved
  | requests u r =>
      simp only [Hosting.step]
      split
      · rename_i hshown
        exact hl.requested r hshown
      · exact hl

theorem linked_new : ({} : Hosting).Linked w := by
  refine ⟨App.synced_new, paired_empty, fun v _ => ⟨⟨?_, by simp⟩, rfl⟩, fun v hv => ?_, by simp, fun k s c v hs => ?_⟩
  · simp [State.view]
  · cases hv
  · cases hs

theorem run_linked {ops : List HostingOp} (hok : Meets (step names w depth) Orderly {} ops) : (run names w depth ops).Linked w :=
  hok.keeps (fun _ _ hop hl => hl.step hop) linked_new

/-- Where Dart heard of all that was bound and unbound in a view, its controller says a toplevel is shown exactly where the
server shows one, and names its client. It is handed what the client asks of its window only while it says so. -/
theorem run_sees {ops : List HostingOp} (hok : Meets (step names w depth) Orderly {} ops) {k : Nat}
    {s : WaylandToplevelViewState Double} {c : Nat} (hs : (run names w depth ops).app.mounted k = some s)
    (hc : s.widget.controller = some c) (hv : s.watchedId = some v) :
    (heardOf v (run names w depth ops).port = [] →
      ((run names w depth ops).app.controllers c).bound = ((run names w depth ops).server.shows v).isSome ∧
      ((run names w depth ops).server.shows v = none → ((run names w depth ops).app.controllers c).client = none) ∧
      ∀ x, s.viewId = some v → (run names w depth ops).server.viewClient w v = some x →
        ((run names w depth ops).app.controllers c).client = some x) ∧
    ∀ r rest, (run names w depth ops).port = (v, .request r) :: rest →
      ((run names w depth ops).app.controllers c).bound = true := by
  have hl := run_linked hok
  generalize run names w depth ops = h at *
  obtain ⟨hviews, hm⟩ := App.mounted_iff.mp hs
  have hheld : s.held = some c := (App.held_of_mounted hm).mpr hc
  have hsettled := hl.synced.settled
  have hbound : (h.app.controllers c).bound = s.bound := (hsettled.attached.attached k s c hviews hheld).2
  have hheard := hl.heard hviews hv
  have hwatched : h.app.watched v = some k := (hsettled.registered.watched v k).mpr ⟨s, hviews, hm, hv⟩
  refine ⟨fun hquiet => ?_, fun r rest hport => ?_⟩
  · have hagree : (h.app.controllers c).bound = (h.server.shows v).isSome := by
      rw [hbound, Bool.eq_iff_iff, hheard]
      rcases hl.stage v (by rw [hwatched]; rfl) with ⟨hu, -, hnone⟩ | ⟨-, es, hmet⟩
      · simp [hnone, shows, hu.view]
      · rw [← hmet.mirrors.last, hmet.heard, heardOf_append, hquiet, List.append_nil]
    refine ⟨hagree, fun hnone => ?_, fun x hid hx => ?_⟩
    · exact (hsettled.honest c).client (Or.inl (hagree.trans (by rw [hnone]; rfl)))
    · have hshown : s.bound = true := by
        rw [← hbound, hagree]
        obtain ⟨root, hroot, -⟩ := Option.bind_eq_some_iff.mp hx
        obtain ⟨te, hte, -⟩ := Option.map_eq_some_iff.mp hroot
        obtain ⟨t, ht, -⟩ := Option.bind_eq_some_iff.mp hte
        rw [shows, ht]
        rfl
      exact hl.named k s c v hviews hheld hid hshown hquiet x hx
  · rw [hbound, hheard]
    rcases hl.stage v (by rw [hwatched]; rfl) with ⟨hu, -⟩ | ⟨-, es, hmet⟩
    · exact absurd rfl (hu.port (v, .request r) (by rw [hport]; simp))
    · have hlast := hmet.asked [] r rest hport
      rwa [List.append_nil] at hlast

/-- A view that takes any toplevel is made, and a toplevel maps before Dart hears that the view is. -/
def shownRun : List HostingOp :=
  [.app (.createState 0 { controller := some 0 }), .app (.createView 0), .shell none, .serves, .event (.newToplevel 1),
    .event (.commit { main := { surface := 1 } }), .requests 0 .maximize, .app (.created 0), .dispatches]

theorem mounted_of_all {o : Option (WaylandToplevelViewState Double)} (h : o.all (fun s => s.mounted) = true) :
    ∀ s, o = some s → s.mounted = true := by
  rintro s rfl
  exact h

theorem shownRun_orderly : Meets (step (fun _ => { dpr := .one }) World.granting 1) Orderly {} shownRun := by
  refine ⟨⟨?_, rfl⟩, ⟨trivial, rfl⟩, trivial, trivial, ⟨rfl, fun _ => rfl⟩, ⟨rfl, fun _ => rfl⟩, trivial, ⟨?_, rfl⟩,
    trivial, trivial⟩
  · intro c k s _ _ hs
    cases hs
  · exact mounted_of_all (by decide +kernel)

theorem run_sees_shown :
    ((run (fun _ => { dpr := .one }) World.granting 1 shownRun).app.controllers 0).bound = true ∧
      ((run (fun _ => { dpr := .one }) World.granting 1 shownRun).app.controllers 0).client = some 0 := by
  obtain ⟨hquiet, -⟩ := run_sees shownRun_orderly (k := 0)
    (s := { widget := ⟨some 0, none, true⟩, viewId := some 0, watchedId := some 0, bound := true }) (by decide +kernel) rfl rfl
  obtain ⟨hbound, -, hclient⟩ := hquiet (by decide +kernel)
  exact ⟨hbound.trans (by decide +kernel), hclient 0 rfl (by decide +kernel)⟩

end Hosting

end IhsWl
