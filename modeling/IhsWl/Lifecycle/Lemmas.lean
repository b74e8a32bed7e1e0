import IhsWl.Lifecycle

/-!
# What the threads know of each other

A thread under way knows of the server and the views what the locks it holds keep from changing.
-/

namespace IhsWl

namespace Lifecycle

variable {shell : Shell} {held : Lock → Bool} {s s' : Shared} {c : Choice} {a b d : At} {new : List At} {n m v : Nat}

/-! ## Servers and views -/

/-- The server `n` is there, and is as `P` says. -/
def Shared.Has (s : Shared) (n : Nat) (P : Server → Prop) : Prop := ∃ server, s.servers[n]? = some server ∧ P server

namespace Shared

theorem Has.imp {P Q : Server → Prop} (h : s.Has n P) (himp : ∀ server, P server → Q server) : s.Has n Q := by
  obtain ⟨server, hn, hP⟩ := h
  exact ⟨server, hn, himp server hP⟩

theorem Has.modify_ne {P : Server → Prop} {f : Server → Server} (h : s.Has n P) (hm : m ≠ n) : (s.modifyServer m f).Has n P := by
  obtain ⟨server, hn, hP⟩ := h
  exact ⟨server, by simp [modifyServer, hn, hm], hP⟩

theorem Has.modify_self {P Q : Server → Prop} {f : Server → Server} (h : s.Has n P)
    (hf : ∀ server, s.servers[n]? = some server → P server → Q (f server)) : (s.modifyServer n f).Has n Q := by
  obtain ⟨server, hn, hP⟩ := h
  exact ⟨f server, by simp [modifyServer, hn], hf server hn hP⟩

theorem Has.modify {P : Server → Prop} {f : Server → Server} (h : s.Has n P)
    (hf : ∀ server, s.servers[m]? = some server → P server → P (f server)) : (s.modifyServer m f).Has n P := by
  by_cases hm : m = n
  · subst hm
    exact h.modify_self hf
  · exact h.modify_ne hm

theorem Has.append {P : Server → Prop} (h : s.Has n P) (server : Server) (running : Option Nat) :
    ({ s with running, servers := s.servers ++ [server] } : Shared).Has n P := by
  obtain ⟨old, hn, hP⟩ := h
  exact ⟨old, by rw [List.getElem?_append_left (List.getElem?_eq_some_iff.mp hn).1]; exact hn, hP⟩

theorem Has.lt {P : Server → Prop} (h : s.Has n P) : n < s.servers.length := by
  obtain ⟨server, hn, -⟩ := h
  exact (List.getElem?_eq_some_iff.mp hn).1

/-- The view `v` is there, and is as `P` says. -/
def Shows (s : Shared) (v : Nat) (P : ViewShared → Prop) : Prop := ∃ view, s.views[v]? = some view ∧ P view

theorem hasLink_iff : s.hasLink v = true ↔ s.Shows v fun view => view.link = true := by
  rw [hasLink, Option.any_eq_true]
  exact Iff.rfl

theorem Shows.modify {P : ViewShared → Prop} {f : ViewShared → ViewShared} {u : Nat} (h : s.Shows v P)
    (hf : u = v → ∀ view, P view → P (f view)) : (s.modifyView u f).Shows v P := by
  obtain ⟨view, hv, hP⟩ := h
  by_cases hu : u = v
  · exact ⟨f view, by simp [modifyView, hv, hu], hf hu view hP⟩
  · exact ⟨view, by simp [modifyView, hv, hu], hP⟩

theorem Shows.modify_self {P Q : ViewShared → Prop} {f : ViewShared → ViewShared} (h : s.Shows v P)
    (hf : ∀ view, P view → Q (f view)) : (s.modifyView v f).Shows v Q := by
  obtain ⟨view, hv, hP⟩ := h
  exact ⟨f view, by simp [modifyView, hv], hf view hP⟩

theorem Shows.append {P : ViewShared → Prop} (h : s.Shows v P) (view : ViewShared) :
    ({ s with views := s.views ++ [view] } : Shared).Shows v P := by
  obtain ⟨old, hv, hP⟩ := h
  exact ⟨old, by rw [List.getElem?_append_left (List.getElem?_eq_some_iff.mp hv).1]; exact hv, hP⟩

end Shared

/-- The loop runs. -/
structure Server.Listens (server : Server) : Prop where
  ready : server.ready = some true
  opened : server.closed = false
  running : server.finished = false

/-- The loop is gone, or will hear that it is to stop. -/
def Server.Asked (server : Server) : Prop := server.closed = true ∨ server.stopping = true ∨ .quit ∈ server.queue

theorem Server.Asked.push {server : Server} (h : server.Asked) (m : Msg) : (server.push m).Asked := by
  unfold Server.push
  split
  · exact h
  · rcases h with hclosed | hstopping | hqueued
    · exact Or.inl hclosed
    · exact Or.inr (Or.inl hstopping)
    · exact Or.inr (Or.inr (List.mem_append_left _ hqueued))

theorem Server.asked_push (server : Server) : (server.push .quit).Asked := by
  unfold Server.push
  split
  · rename_i hclosed
    exact Or.inl hclosed
  · exact Or.inr (Or.inr (by simp))

@[simp] theorem Server.ready_push (server : Server) (m : Msg) : (server.push m).ready = server.ready := by
  unfold Server.push
  split <;> rfl

@[simp] theorem Server.closed_push (server : Server) (m : Msg) : (server.push m).closed = server.closed := by
  unfold Server.push
  split <;> rfl

@[simp] theorem Server.finished_push (server : Server) (m : Msg) : (server.push m).finished = server.finished := by
  unfold Server.push
  split <;> rfl

@[simp] theorem Server.finished_handle (server : Server) (m : Msg) : (server.handle m).finished = server.finished := by
  cases m <;> rfl

theorem Server.Listens.push {server : Server} (h : server.Listens) (m : Msg) : (server.push m).Listens :=
  ⟨(ready_push server m).trans h.ready, (closed_push server m).trans h.opened, (finished_push server m).trans h.running⟩

/-! ## What a thread knows -/

namespace At

/-- What it knows of `SERVER` and of the factory. -/
def Needs (shell : Shell) (s : Shared) : At → Prop
  | startQuery | startSpawned _ | startFailed _ => s.running = none
  | startStored | stopUnregister => s.running.isSome = true
  | stopTake => s.running.isSome = true ∧ s.registered = false
  | stopQuit _ | stopJoin _ => s.running = none ∧ s.registered = false
  | createCheck | createNegotiate | createSend => shell.Guards → s.registered = true
  | _ => True

/-- What it knows of a server. -/
def Knows (s : Shared) : At → Prop
  | startSpawned n | stopQuit n => s.Has n fun _ => True
  | startFailed n => s.Has n fun server => server.ready = some false
  | stopJoin n => s.Has n Server.Asked
  | starting n => s.Has n fun server => server.ready = none ∧ server.closed = false ∧ server.finished = false
  | serving n | submit n _ | submitting n _ => s.Has n Server.Listens
  | leaving n => s.Has n fun server => server.ready.isSome = true ∧ server.closed = true ∧ server.finished = false
  | finished n => s.Has n fun server => server.ready.isSome = true ∧ server.closed = true ∧ server.finished = true
  | _ => True

/-- What it knows of a view. -/
def Sees (s : Shared) : At → Prop
  | dispose v | disposeLink v => s.Shows v fun _ => True
  | disposeSend v => s.Shows v fun view => view.link = false
  | renegotiating v | submitting _ v => s.Shows v fun view => view.link = true
  | _ => True

structure Ok (shell : Shell) (s : Shared) (a : At) : Prop where
  needs : a.Needs shell s
  knows : a.Knows s
  sees : a.Sees s

end At

/-- What is shared agrees with itself: the server in `SERVER` was up once, and the link of a view disposed of is gone. -/
structure Whole (s : Shared) : Prop where
  running : ∀ n, s.running = some n → s.Has n fun server => server.ready = some true
  disposed : ∀ (v : Nat) view, s.views[v]? = some view → view.shell = .disposed → view.link = false

/-! ## What a step changes -/

/-- What the thread of a server makes of it. -/
structure Served (server server' : Server) : Prop where
  ready : server.ready.isSome = true → server'.ready = server.ready
  asked : server.Asked → server'.Asked

/-- What is shared changes in these ways, each under the locks it takes. -/
inductive Effect (shell : Shell) (held : Lock → Bool) (a : At) : Shared → Shared → Prop
  | none (s : Shared) : Effect shell held a s s
  | stored (s : Shared) (running) : a.holds shell .lifecycle = true →
      (∀ n, running = some n → s.Has n fun server => server.ready = some true) → Effect shell held a s { s with running }
  | spawned (s : Shared) : Effect shell held a s { s with servers := s.servers ++ [{}] }
  | registered (s : Shared) : a.holds shell .lifecycle = true → Effect shell held a s { s with registered := true }
  | unregistered (s : Shared) : a.holds shell .lifecycle = true → (shell.takes .register = true → held .registry = false) →
      Effect shell held a s { s with registered := false }
  | queued (s : Shared) (n : Nat) (m : Msg) : Effect shell held a s (s.modifyServer n (Server.push m))
  | served (s : Shared) (n : Nat) (f) : a.server = some n → (∀ server, s.servers[n]? = some server → Served server (f server)) →
      Effect shell held a s (s.modifyServer n f)
  | viewMade (s : Shared) : Effect shell held a s { s with views := s.views ++ [{}] }
  | viewGiven (s : Shared) (v : Nat) (stage) : (stage = .disposed → s.Shows v fun view => view.link = false) →
      (stage = .disposed ∨ s.Shows v fun view => view.shell ≠ .disposed) →
      Effect shell held a s (s.modifyView v fun view => { view with shell := stage })
  | unlinked (s : Shared) (v : Nat) : held (.link v) = false →
      Effect shell held a s (s.modifyView v fun view => { view with link := false })
  | comp {s s₁ s₂ : Shared} : Effect shell held a s s₁ → Effect shell held a s₁ s₂ → Effect shell held a s s₂

theorem Effect.taken (h : a.holds shell .lifecycle = true) : Effect shell held a s { s with running := .none } :=
  .stored s .none h fun _ hn => nomatch hn

theorem send_cases {msg : Msg} (h : s.send msg = some s') : ∃ n, s.running = some n ∧ s' = s.modifyServer n (Server.push msg) := by
  unfold Shared.send at h
  split at h
  · cases h
  · rename_i n hn
    split at h
    · cases h
    · split at h
      · cases h
      · cases h
        exact ⟨n, hn, rfl⟩

theorem send_effect {msg : Msg} (h : s.send msg = some s') : Effect shell held a s s' := by
  obtain ⟨n, -, rfl⟩ := send_cases h
  exact .queued s n msg

theorem served_handle (server : Server) {m : Msg} {rest : List Msg} (h : server.queue = m :: rest) :
    Served server ({ server with queue := rest }.handle m) := by
  refine ⟨fun _ => by cases m <;> rfl, fun hasked => ?_⟩
  cases m with
  | quit => exact Or.inr (Or.inl rfl)
  | viewCreated v | viewDisposed v | other => simpa [Server.Asked, Server.handle, h] using hasked

theorem served_close (server : Server) : Served server server.close := ⟨fun _ => rfl, fun _ => Or.inl rfl⟩

/-- Until a server is up or failed, nobody knows which. -/
theorem served_starting (hok : (At.starting n).Ok shell s) {f : Server → Server} (hf : ∀ server, server.Asked → (f server).Asked) :
    ∀ server, s.servers[n]? = some server → Served server (f server) := by
  intro server hserver
  obtain ⟨server', hn, hready, -, -⟩ := hok.knows
  cases hserver.symm.trans hn
  refine ⟨fun hsome => ?_, hf server⟩
  rw [hready] at hsome
  cases hsome

theorem next_effect (h : next shell held s c a = some (b, s', new)) (hok : a.Ok shell s) : Effect shell held a s s' := by
  cases a <;> simp only [next, startStep, stopStep, sendStep, viewStep, compositorStep, locking, calledBack, calling] at h
  all_goals repeat' split at h
  all_goals simp only [Option.some.injEq, Prod.mk.injEq, reduceCtorEq] at h
  all_goals obtain ⟨rfl, rfl, rfl⟩ := h
  all_goals first
    | exact .none _
    | exact .taken rfl
    | exact .spawned _
    | exact .registered _ rfl
    | skip
  case h_2 n _ hup =>
    refine .stored s (some n) rfl fun m hm => ?_
    obtain ⟨server, hn, hready⟩ := Option.bind_eq_some_iff.mp hup
    cases hm
    exact ⟨server, hn, hready⟩
  case stopUnregister.isFalse hfree => exact .unregistered s rfl fun hregister => by simpa [hregister] using hfree
  case stopQuit n => exact .queued s n .quit
  case h_2 hsent | h_2 hsent => exact send_effect hsent
  case h_2 hsent => exact .comp (send_effect hsent) (.viewMade _)
  case disposeLink.isFalse v hfree => exact .unlinked s v (by simpa using hfree)
  case disposeSend.isFalse v _ =>
    cases hsent : s.send (.viewDisposed v) with
    | none => exact .viewGiven s v .disposed (fun _ => hok.sees) (Or.inl rfl)
    | some s₁ =>
        obtain ⟨n, -, rfl⟩ := send_cases hsent
        exact .comp (send_effect hsent) (.viewGiven _ v .disposed (fun _ => hok.sees) (Or.inl rfl))
  case starting.isTrue n _ => exact .served s n _ rfl (served_starting hok fun _ _ => Or.inl rfl)
  case starting.isFalse n _ => exact .served s n _ rfl (served_starting hok fun _ hasked => hasked)
  case h_2 n _ _ server hn _ m rest hqueue =>
    refine .served s n _ rfl fun server' hserver => ?_
    cases hn.symm.trans hserver
    exact served_handle server hqueue
  case h_4.isTrue n _ _ server _ _ => exact .served s n _ rfl fun server _ => served_close server
  case h_5 n _ _ server _ => exact .served s n _ rfl fun server _ => served_close server
  case leaving n => exact .served s n _ rfl fun server _ => ⟨fun _ => rfl, fun hasked => hasked⟩

/-! ## What a thread beside it still knows -/

theorem Effect.needs (h : Effect shell held a s s') (hd : d.Needs shell s) (hlock : a.holds shell .lifecycle = true → d.holds shell .lifecycle = false)
    (hheld : d.holds shell .registry = true → held .registry = true) : d.Needs shell s' := by
  induction h with
  | stored _ _ hlifecycle =>
      have hfree := hlock hlifecycle
      cases d <;> first | exact hd | exact absurd hfree (by simp [At.holds])
  | registered _ hlifecycle =>
      have hfree := hlock hlifecycle
      cases d <;> first | exact hd | rfl | exact fun _ => rfl | exact absurd hfree (by simp [At.holds])
  | unregistered _ hlifecycle hregistry =>
      have hfree := hlock hlifecycle
      cases d with
      | createCheck | createNegotiate | createSend =>
          intro hguards
          exact absurd ((hregistry hguards.register).symm.trans (hheld hguards.factory)) (by decide)
      | startStored | stopUnregister | stopTake => exact absurd hfree (by simp [At.holds])
      | _ => first | exact hd | exact absurd hfree (by simp [At.holds])
  | comp _ _ ih ih' => exact ih' (ih hd)
  | none | spawned | queued | served | viewMade | viewGiven | unlinked => exact hd

theorem Effect.knows (h : Effect shell held a s s') (hd : d.Knows s) (hserver : ∀ n, a.server = some n → d.server ≠ some n) :
    d.Knows s' := by
  induction h with
  | spawned => cases d <;> first | exact hd.append _ _ | exact trivial
  | queued s n m =>
      cases d with
      | startSpawned | stopQuit => exact Shared.Has.modify hd fun _ _ h => h
      | stopJoin => exact Shared.Has.modify hd fun _ _ h => h.push m
      | serving | submit | submitting => exact Shared.Has.modify hd fun _ _ h => h.push m
      | startFailed | starting | leaving | finished => exact Shared.Has.modify hd fun _ _ h => by simpa using h
      | _ => exact trivial
  | served s n f hn hf =>
      cases d with
      | startSpawned | stopQuit => exact Shared.Has.modify hd fun _ _ h => h
      | startFailed k =>
          refine Shared.Has.modify hd fun server hserver h => ?_
          rw [(hf server hserver).ready (by rw [h]; rfl), h]
      | stopJoin => exact Shared.Has.modify hd fun server hserver h => (hf server hserver).asked h
      | starting k | serving k | submit k | submitting k | leaving k | finished k =>
          have hne : n ≠ k := fun hnk => hserver n hn (hnk ▸ rfl)
          exact Shared.Has.modify_ne hd hne
      | _ => exact trivial
  | comp _ _ ih ih' => exact ih' (ih hd)
  | none | stored | registered | unregistered | viewMade | viewGiven | unlinked => exact hd

theorem Effect.sees (h : Effect shell held a s s') (hd : d.Sees s) (hheld : ∀ l, d.holds shell l = true → held l = true) : d.Sees s' := by
  induction h with
  | viewMade => cases d <;> first | exact hd.append _ | exact trivial
  | viewGiven => cases d <;> first | exact Shared.Shows.modify hd fun _ _ h => h | exact trivial
  | unlinked s v hfree =>
      cases d with
      | dispose | disposeLink => exact Shared.Shows.modify hd fun _ _ h => h
      | disposeSend => exact Shared.Shows.modify hd fun _ _ _ => rfl
      | renegotiating u | submitting _ u =>
          refine Shared.Shows.modify hd fun hvu => ?_
          rw [hvu, hheld (.link u) (by simp [At.holds])] at hfree
          cases hfree
      | _ => exact trivial
  | comp _ _ ih ih' => exact ih' (ih hd)
  | none | stored | spawned | registered | unregistered | queued | served => exact hd

theorem Effect.whole (h : Effect shell held a s s') (hs : Whole s) : Whole s' := by
  induction h with
  | none => exact hs
  | stored s running _ hup => exact ⟨hup, hs.disposed⟩
  | spawned s => exact ⟨fun n hn => (hs.running n hn).append {} s.running, hs.disposed⟩
  | registered | unregistered => exact ⟨hs.running, hs.disposed⟩
  | queued s n m => exact ⟨fun k hk => (hs.running k hk).modify fun server _ h => (server.ready_push m).trans h, hs.disposed⟩
  | served s n f _ hf =>
      refine ⟨fun k hk => (hs.running k hk).modify fun server hserver h => ?_, hs.disposed⟩
      rw [(hf server hserver).ready (by rw [h]; rfl), h]
  | viewMade s =>
      refine ⟨hs.running, fun v view hv hshell => ?_⟩
      rcases List.mem_append.mp (List.mem_of_getElem? hv) with hmem | hmem
      · obtain ⟨u, hu⟩ := List.mem_iff_getElem?.mp hmem
        exact hs.disposed u view hu hshell
      · rw [List.mem_singleton.mp hmem] at hshell
        cases hshell
  | viewGiven s v stage hlink _ =>
      refine ⟨hs.running, fun u view hu hshell => ?_⟩
      simp only [Shared.modifyView, List.getElem?_modify] at hu
      obtain ⟨old, hold, hview⟩ := Option.map_eq_some_iff.mp hu
      split at hview
      · rename_i hvu
        subst hvu hview
        obtain ⟨view', hv, hgone⟩ := hlink hshell
        cases hold.symm.trans hv
        exact hgone
      · exact hs.disposed u view (hold.trans (congrArg some hview)) hshell
  | unlinked s v _ =>
      refine ⟨hs.running, fun u view hu hshell => ?_⟩
      simp only [Shared.modifyView, List.getElem?_modify] at hu
      obtain ⟨old, hold, hview⟩ := Option.map_eq_some_iff.mp hu
      split at hview
      · rw [← hview]
      · exact hs.disposed u view (hold.trans (congrArg some hview)) hshell
  | comp _ _ ih ih' => exact ih' (ih hs)

theorem Effect.disposed (h : Effect shell held a s s') (hv : s.Shows v fun view => view.shell = .disposed) :
    s'.Shows v fun view => view.shell = .disposed := by
  induction h with
  | viewMade => exact hv.append _
  | viewGiven s u stage _ hstage =>
      rcases hstage with rfl | ⟨view, hu, hundisposed⟩
      · exact hv.modify fun _ _ _ => rfl
      · refine hv.modify fun huv => ?_
        subst huv
        obtain ⟨view', hv', hdisposed⟩ := hv
        cases hu.symm.trans hv'
        exact absurd hdisposed hundisposed
  | unlinked => exact hv.modify fun _ _ h => h
  | comp _ _ ih ih' => exact ih' (ih hv)
  | none | stored | spawned | registered | unregistered | queued | served => exact hv

theorem Effect.ok (h : Effect shell held a s s') (hd : d.Ok shell s) (hlock : a.holds shell .lifecycle = true → d.holds shell .lifecycle = false)
    (hheld : ∀ l, d.holds shell l = true → held l = true) (hserver : ∀ n, a.server = some n → d.server ≠ some n) : d.Ok shell s' :=
  ⟨h.needs hd.needs hlock (hheld _), h.knows hd.knows hserver, h.sees hd.sees hheld⟩

/-! ## What a thread knows after a step -/

theorem Server.Listens.handle {server : Server} (h : server.Listens) (rest : List Msg) (m : Msg) :
    ({ server with queue := rest }.handle m).Listens := by
  cases m <;> exact ⟨h.ready, h.opened, h.running⟩

theorem next_ok (h : next shell held s c a = some (b, s', new)) (hs : Whole s) (hok : a.Ok shell s) : b.Ok shell s' := by
  have hneeds := hok.needs
  have hknows := hok.knows
  have hsees := hok.sees
  cases a <;> simp only [next, startStep, stopStep, sendStep, viewStep, compositorStep, locking, calledBack, calling] at h
  all_goals repeat' split at h
  all_goals simp only [Option.some.injEq, Prod.mk.injEq, reduceCtorEq] at h
  all_goals obtain ⟨rfl, rfl, rfl⟩ := h
  all_goals first
    | exact ⟨trivial, trivial, trivial⟩
    | exact ⟨hneeds, hknows, trivial⟩
    | exact ⟨rfl, trivial, trivial⟩
    | skip
  case startQuery.isFalse.isFalse =>
    exact ⟨hneeds, ⟨{}, by simp, trivial⟩, trivial⟩
  case h_3 n _ hup =>
    obtain ⟨server, hn, hready⟩ := Option.bind_eq_some_iff.mp hup
    exact ⟨hneeds, ⟨server, hn, hready⟩, trivial⟩
  case stopLocked.isFalse.isFalse hrunning => exact ⟨by simpa [At.Needs, Option.isSome_iff_ne_none] using hrunning, trivial,
    trivial⟩
  case stopUnregister.isFalse => exact ⟨⟨hneeds, rfl⟩, trivial, trivial⟩
  case h_2 n hn => exact ⟨⟨rfl, hneeds.2⟩, (hs.running n hn).imp fun _ _ => trivial, trivial⟩
  case stopQuit n => exact ⟨hneeds, Shared.Has.modify_self hknows fun server _ _ => server.asked_push, trivial⟩
  case create.isFalse.isTrue hregistered => exact ⟨fun _ => hregistered, trivial, trivial⟩
  case dispose.isFalse => exact ⟨trivial, trivial, hsees⟩
  case disposeLink.isFalse v _ => exact ⟨trivial, trivial, Shared.Shows.modify_self hsees fun _ _ => rfl⟩
  case starting.isTrue n _ => exact ⟨trivial, Shared.Has.modify_self hknows fun server _ h => ⟨rfl, rfl, h.2.2⟩, trivial⟩
  case starting.isFalse n _ => exact ⟨trivial, Shared.Has.modify_self hknows fun server _ h => ⟨rfl, h.2.1, h.2.2⟩, trivial⟩
  case h_2 n _ _ server hn _ m rest hqueue =>
    exact ⟨trivial, Shared.Has.modify_self hknows fun server _ h => h.handle rest m, trivial⟩
  case h_4.isTrue n _ _ _ _ _ =>
    exact ⟨trivial, Shared.Has.modify_self hknows fun server _ h => ⟨by rw [Server.close, h.ready]; rfl, rfl, h.running⟩, trivial⟩
  case h_5 n _ _ _ _ =>
    exact ⟨trivial, Shared.Has.modify_self hknows fun server _ h => ⟨by rw [Server.close, h.ready]; rfl, rfl, h.running⟩, trivial⟩
  case renegotiateLink.isFalse.isTrue v _ hlink => exact ⟨trivial, trivial, Shared.hasLink_iff.mp hlink⟩
  case submit.isFalse.isTrue n v _ hlink => exact ⟨trivial, hknows, Shared.hasLink_iff.mp hlink⟩
  case leaving n => exact ⟨trivial, Shared.Has.modify_self hknows fun server _ h => ⟨h.1, h.2.1, rfl⟩, trivial⟩

/-- The thread of a server stays its thread, and the one a step may start is that of a new server. -/
theorem next_threads (h : next shell held s c a = some (b, s', new)) : b.server = a.server ∧
    (new = [] ∨ a = .startQuery ∧ b.server = none ∧ new = [.starting s.servers.length] ∧
      s' = { s with servers := s.servers ++ [{}] }) := by
  cases a <;> simp only [next, startStep, stopStep, sendStep, viewStep, compositorStep, locking, calledBack, calling] at h
  all_goals repeat' split at h
  all_goals simp only [Option.some.injEq, Prod.mk.injEq, reduceCtorEq] at h
  all_goals obtain ⟨rfl, rfl, rfl⟩ := h
  all_goals first
    | exact ⟨rfl, Or.inl rfl⟩
    | exact ⟨rfl, Or.inr ⟨rfl, rfl, rfl, rfl⟩⟩

end Lifecycle

end IhsWl
