import IhsWl.Lifecycle.Lemmas

/-!
# Starting, stopping and the views of a server

What holds however the calls and the servers' threads take turns: no call is stuck, one server is up at most, the
factory finds it, and nothing is submitted to a view that was disposed of.
-/

namespace IhsWl

namespace Lifecycle

variable {shell : Shell} {held : Lock → Bool} {s s' : Shared} {c : Choice} {a b d : At} {new : List At} {n m v : Nat} {p p' : Pool At Shared}

/-! ## Any threads at once -/

/-- Two threads are not those of one server. -/
def Others (a b : At) : Prop := ∀ n, a.server = some n → b.server ≠ some n

theorem Others.symm (h : Others a b) : Others b a := fun n hb ha => h n ha hb

theorem At.Ok.server_lt (h : d.Ok shell s) (hd : d.server = some n) : n < s.servers.length := by
  have hknows := h.knows
  cases d with
  | starting | serving | submit | submitting | leaving | finished =>
      cases hd
      exact Shared.Has.lt hknows
  | _ => cases hd

theorem program_sound : Pool.Sound (program shell) (fun _ => True) Whole (At.Ok shell) Others where
  symm h := h.symm
  own := by
    intro held s c a b s' new h _ hs hok
    refine ⟨(next_effect h hok).whole hs, next_ok h hs hok, fun d hd => ?_⟩
    rcases (next_threads h).2 with rfl | ⟨-, -, rfl, rfl⟩
    · cases hd
    · rw [List.mem_singleton.mp hd]
      exact ⟨trivial, ⟨{}, by simp, rfl, rfl, rfl⟩, trivial⟩
  beside := by
    intro held s c a b s' new d h _ _ hok hd hapart hheld
    obtain ⟨hserver, hnew⟩ := next_threads h
    refine ⟨(next_effect h hok).ok hd (hapart.locks .lifecycle) hheld hapart.rest, fun n hb => ?_, fun e he n hn => ?_⟩
    · exact hapart.rest n (hserver ▸ hb)
    · rcases hnew with rfl | ⟨-, -, rfl, -⟩
      · cases he
      · rw [List.mem_singleton.mp he] at hn
        cases hn
        exact fun hserver => Nat.lt_irrefl _ (hd.server_lt hserver)
  fresh := by
    intro held s c a b s' new h _ _
    rcases (next_threads h).2 with rfl | ⟨-, hb, rfl, -⟩
    · exact ⟨by simp, Nat.zero_le 1⟩
    · refine ⟨fun e _ n _ hn => ?_, Nat.le_refl 1⟩
      rw [hb] at hn
      cases hn

/-- A call that begins has no lock and has done nothing, and what it changes no thread knows better. -/
structure Enters (shell : Shell) (s : Shared) (a : At) (s' : Shared) : Prop where
  bare : ∀ l, a.holds shell l = false
  server : a.server = none
  begun : ∀ n o, a ≠ .startSpawned n ∧ a ≠ .returned o
  ok : a.Ok shell s'
  effect : Effect shell (fun _ => true) a s s'
  rest : s'.servers = s.servers ∧ s'.running = s.running ∧ s'.registered = s.registered

theorem enter_cases (shell : Shell) {e : Entry} (h : enter e p = some p') : ∃ a s, p' = p.enter a s ∧ Enters shell p.shared a s := by
  have hplain {a : At} (hbare : ∀ l, a.holds shell l = false) (hserver : a.server = none)
      (hbegun : ∀ n o, a ≠ .startSpawned n ∧ a ≠ .returned o) (hok : a.Ok shell p.shared) :
      ∃ a' s, p.enter a p.shared = p.enter a' s ∧ Enters shell p.shared a' s :=
    ⟨a, p.shared, rfl, hbare, hserver, hbegun, hok, .none _, rfl, rfl, rfl⟩
  cases e with
  | start | stop | send | notify | create =>
      cases h
      exact hplain (fun _ => rfl) rfl (fun _ _ => by simp) ⟨trivial, trivial, trivial⟩
  | renegotiate v =>
      simp only [enter] at h
      split at h
      · cases h
        exact hplain (fun _ => rfl) rfl (fun _ _ => by simp) ⟨trivial, trivial, trivial⟩
      · cases h
  | dispose v =>
      simp only [enter] at h
      split at h
      · rename_i hlive
        cases h
        obtain ⟨view, hv, hshell⟩ := (Option.any_eq_true _ _).mp hlive
        have hundisposed : view.shell ≠ .disposed := by
          rw [eq_of_beq hshell]
          nofun
        have hshown : p.shared.Shows v fun _ => True := ⟨view, hv, trivial⟩
        exact ⟨_, _, rfl, fun _ => rfl, rfl, fun _ _ => by simp,
          ⟨trivial, trivial, Shared.Shows.modify_self hshown fun _ _ => trivial⟩,
            .viewGiven _ v .disposing nofun (Or.inr ⟨view, hv, hundisposed⟩), rfl, rfl, rfl⟩
      · cases h

theorem Enters.beside (h : Enters shell s a s') (hd : d.Ok shell s) : d.Ok shell s' ∧ Others a d := by
  have hserver (n : Nat) : a.server ≠ some n := by simp [h.server]
  refine ⟨h.effect.ok hd (fun hlock => ?_) (fun _ _ => rfl) fun n hn => absurd hn (hserver n), fun n hn => absurd hn (hserver n)⟩
  rw [h.bare] at hlock
  cases hlock

abbrev Sane (shell : Shell) (p : Pool At Shared) : Prop := p.Keeps (program shell) Whole (At.Ok shell) Others

theorem step_sane (h : Sane shell p) {op : Op} (hstep : step shell p op = some p') : Sane shell p' := by
  cases op with
  | call e =>
      obtain ⟨a, s, rfl, henters⟩ := enter_cases shell hstep
      exact h.enter (fun hR => Others.symm hR) henters.bare (henters.effect.whole h.shared) henters.ok fun d _ hd => henters.beside hd
  | go i c => exact h.go program_sound trivial hstep

theorem start_sane : Sane shell { shared := {} } := by
  refine ⟨⟨fun _ => nofun, fun v view hv => ?_⟩, fun i a ha => ?_, fun i j a b ha => ?_⟩
  · simp at hv
  · simp at ha
  · simp at ha

theorem run_sane {ops : List Op} (h : run shell ops = some p) : Sane shell p :=
  Runs.keepsM (fun _ _ _ _ hp hstep => step_sane hp hstep) (fun _ _ => trivial) start_sane h

/-! ## One server -/

/-- A start or stop under way has the server's `JoinHandle`. -/
def At.Has : At → Nat → Prop
  | .startSpawned m, n | .startFailed m, n | .stopQuit m, n | .stopJoin m, n => m = n
  | _, _ => False

/-- The server's thread has not finished. -/
abbrev Shared.Up (s : Shared) (n : Nat) : Prop := s.Has n fun server => server.finished = false

theorem At.Has.lifecycle (h : a.Has n) : a.holds shell .lifecycle = true := by
  cases a <;> first | rfl | cases h

theorem At.Has.unique (h : a.Has n) (h' : a.Has m) : n = m := by
  cases a <;> first | exact h.symm.trans h' | cases h

theorem At.Ok.taken (hok : a.Ok shell s) (h : a.Has n) : s.running = none := by
  have hneeds := hok.needs
  cases a with
  | startSpawned | startFailed => exact hneeds
  | stopQuit | stopJoin => exact hneeds.1
  | _ => cases h

theorem Shared.Up.isRunning (hup : s.Up n) (hn : s.running = some n) : s.isRunning = true := by
  obtain ⟨server, hserver, hfinished⟩ := hup
  simp [Shared.isRunning, hn, hserver, hfinished]

theorem Shared.Up.not_joined (hup : s.Up n) : s.servers[n]?.any Server.finished ≠ true := by
  obtain ⟨server, hserver, hfinished⟩ := hup
  simp [hserver, hfinished]

theorem Shared.Up.of_modify {f : Server → Server} (hup : (s.modifyServer m f).Up n)
    (hf : ∀ server, (f server).finished = false → server.finished = false) : s.Up n := by
  obtain ⟨server, hserver, hfinished⟩ := hup
  simp only [Shared.modifyServer, List.getElem?_modify] at hserver
  obtain ⟨old, hold, hserver⟩ := Option.map_eq_some_iff.mp hserver
  refine ⟨old, hold, ?_⟩
  split at hserver
  · exact hf old (hserver ▸ hfinished)
  · exact hserver ▸ hfinished

theorem send_up {msg : Msg} (hsent : s.send msg = some s') : s'.running = s.running ∧ (s'.Up n → s.Up n) := by
  obtain ⟨m, -, rfl⟩ := send_cases hsent
  exact ⟨rfl, fun hup => hup.of_modify fun server h => (server.finished_push msg).symm.trans h⟩

/-- No thread forgets a server that is up, and one that was not is had by who started it. -/
theorem next_up (h : next shell held s c a = some (b, s', new)) (hok : a.Ok shell s) (hup : s'.Up n) :
    (s.Up n ∨ b.Has n) ∧ (s.running = some n ∨ a.Has n → s'.running = some n ∨ b.Has n) := by
  cases a <;> simp only [next, startStep, stopStep, sendStep, viewStep, compositorStep, locking, calledBack, calling] at h
  all_goals repeat' split at h
  all_goals simp only [Option.some.injEq, Prod.mk.injEq, reduceCtorEq] at h
  all_goals obtain ⟨rfl, rfl, rfl⟩ := h
  all_goals first
    | exact ⟨Or.inl hup, fun h => h⟩
    | skip
  case startLocked.isFalse.isFalse hrunning =>
    have hold : s.Up n := hup
    exact ⟨Or.inl hold, fun hhad => hhad.elim (fun hn => absurd (hold.isRunning hn) hrunning) False.elim⟩
  case startQuery.isFalse.isFalse =>
    obtain ⟨server, hserver, hfinished⟩ := hup
    rw [List.getElem?_append] at hserver
    split at hserver
    · exact ⟨Or.inl ⟨server, hserver, hfinished⟩, fun hhad => hhad.imp_right False.elim⟩
    · have hlt := (List.getElem?_eq_some_iff.mp hserver).1
      rw [List.length_singleton] at hlt
      have hnew : s.servers.length = n := by omega
      exact ⟨Or.inr hnew, fun hhad => hhad.imp_right False.elim⟩
  case h_2 m _ _ =>
    refine ⟨Or.inl hup, fun hhad => Or.inl ?_⟩
    rcases hhad with hn | rfl
    · rw [hok.taken (n := m) rfl] at hn
      cases hn
    · rfl
  case startFailed.isTrue m hjoined =>
    refine ⟨Or.inl hup, fun hhad => hhad.imp_right fun hn => ?_⟩
    cases hn
    exact absurd hjoined hup.not_joined
  case h_2 m _ hrunning =>
    refine ⟨Or.inl hup, fun hhad => Or.inr ?_⟩
    rcases hhad with hn | hn
    · exact Option.some.inj (hrunning.symm.trans hn)
    · cases hn
  case stopQuit m => exact ⟨Or.inl (hup.of_modify fun server h => (server.finished_push .quit).symm.trans h), fun h => h⟩
  case stopJoin.isTrue m hjoined =>
    refine ⟨Or.inl hup, fun hhad => hhad.imp_right fun hn => ?_⟩
    cases hn
    exact absurd hjoined hup.not_joined
  case h_2 hsent | h_2 hsent =>
    obtain ⟨hrunning, hold⟩ := send_up hsent
    exact ⟨Or.inl (hold hup), fun hhad => hrunning ▸ hhad⟩
  case h_2 hsent =>
    obtain ⟨hrunning, hold⟩ := send_up hsent
    exact ⟨Or.inl (hold hup), fun hhad => hhad.imp_left hrunning.trans⟩
  case disposeSend.isFalse v _ =>
    cases hsent : s.send (.viewDisposed v) with
    | none =>
        rw [hsent] at hup
        exact ⟨Or.inl hup, fun hhad => hhad⟩
    | some s₁ =>
        rw [hsent] at hup
        obtain ⟨hrunning, hold⟩ := send_up hsent
        exact ⟨Or.inl (hold hup), fun hhad => hhad.imp_left hrunning.trans⟩
  case starting.isTrue | starting.isFalse | h_4.isTrue | h_5 => exact ⟨Or.inl (hup.of_modify fun _ h => h), fun h => h⟩
  case h_2 =>
    exact ⟨Or.inl (hup.of_modify fun _ h => by rw [Server.finished_handle] at h; exact h), fun h => h⟩
  case leaving => exact ⟨Or.inl (hup.of_modify fun _ h => by cases h), fun h => h⟩

/-- A server that is up is the one in `SERVER`, or a start or stop under way has it. -/
def Had (p : Pool At Shared) : Prop := ∀ n, p.shared.Up n → p.shared.running = some n ∨ ∃ a ∈ p.threads, a.Has n

theorem step_had (hs : Sane shell p) (h : Had p) {op : Op} (hstep : step shell p op = some p') : Had p' := by
  intro n hup
  cases op with
  | call e =>
      obtain ⟨a, s, rfl, henters⟩ := enter_cases shell hstep
      obtain ⟨hservers, hrunning, -⟩ := henters.rest
      have hold : p.shared.Up n := by simpa only [Shared.Has, Pool.enter, hservers] using hup
      rcases h n hold with hn | ⟨d, hd, hhas⟩
      · exact Or.inl (hrunning.trans hn)
      · exact Or.inr ⟨d, List.mem_append_left _ hd, hhas⟩
  | go i c =>
      obtain ⟨a, b, s, new, ha, hnext, rfl⟩ := Pool.go_cases hstep
      obtain ⟨hold, hkept⟩ := next_up hnext (hs.each i a ha) hup
      have hb : b ∈ p.threads.set i b ++ new :=
        List.mem_append_left _ (List.mem_set (List.getElem?_eq_some_iff.mp ha).1 b)
      have hdone (hhas : s.running = some n ∨ b.Has n) : s.running = some n ∨ ∃ a ∈ p.threads.set i b ++ new, a.Has n :=
        hhas.imp_right fun hhas => ⟨b, hb, hhas⟩
      rcases hold with hold | hhas
      · rcases h n hold with hn | ⟨d, hd, hhas⟩
        · exact hdone (hkept (Or.inl hn))
        · obtain ⟨j, hj⟩ := List.mem_iff_getElem?.mp hd
          by_cases hij : i = j
          · subst hij
            cases ha.symm.trans hj
            exact hdone (hkept (Or.inr hhas))
          · refine Or.inr ⟨d, List.mem_append_left _ (List.mem_of_getElem? (i := j) ?_), hhas⟩
            rw [List.getElem?_set_ne hij]
            exact hj
      · exact hdone (Or.inr hhas)

theorem run_had {ops : List Op} (h : run shell ops = some p) : Sane shell p ∧ Had p := by
  refine Runs.keepsM (P := fun p => Sane shell p ∧ Had p) (fun p op p' _ hp hstep => ?_) (fun _ _ => trivial)
    ⟨start_sane, fun n hup => ?_⟩ h
  · exact ⟨step_sane hp.1 hstep, step_had hp.1 hp.2 hstep⟩
  · obtain ⟨server, hserver, -⟩ := hup
    cases hserver

/-- Two threads that have a server under way are one. -/
theorem Sane.has_unique (hs : Sane shell p) {a d : At} (ha : a ∈ p.threads) (hd : d ∈ p.threads) (hn : a.Has n) (hm : d.Has m) :
    n = m := by
  obtain ⟨i, hi⟩ := List.mem_iff_getElem?.mp ha
  obtain ⟨j, hj⟩ := List.mem_iff_getElem?.mp hd
  by_cases hij : i = j
  · subst hij
    cases hi.symm.trans hj
    exact hn.unique hm
  · have hfree := (hs.apart i j a d hi hj hij).locks .lifecycle hn.lifecycle
    cases hfree.symm.trans hm.lifecycle

theorem Sane.has_taken (hs : Sane shell p) {a : At} (ha : a ∈ p.threads) (hn : a.Has n) : p.shared.running = none := by
  obtain ⟨i, hi⟩ := List.mem_iff_getElem?.mp ha
  exact (hs.each i a hi).taken hn

/-- One server is up at most: the one in `SERVER` unless a start or stop is under way, and none once `stop` has joined. -/
theorem run_lone {ops : List Op} (h : run shell ops = some p) :
    (∀ n m, p.shared.Up n → p.shared.Up m → n = m) ∧
    ((∀ a ∈ p.threads, a.holds shell .lifecycle = false) → ∀ n, p.shared.Up n → p.shared.running = some n) ∧
    (∀ i n p', p.threads[i]? = some (.stopJoin n) → step shell p (.go i .go) = some p' → ∀ m, ¬p'.shared.Up m) := by
  obtain ⟨hs, hhad⟩ := run_had h
  have hlone {n m : Nat} (hn : p.shared.Up n) (hm : p.shared.Up m) : n = m := by
    rcases hhad n hn with hn | ⟨a, ha, hn⟩ <;> rcases hhad m hm with hm | ⟨d, hd, hm⟩
    · exact Option.some.inj (hn.symm.trans hm)
    · cases (hs.has_taken hd hm).symm.trans hn
    · cases (hs.has_taken ha hn).symm.trans hm
    · exact hs.has_unique ha hd hn hm
  refine ⟨fun n m => hlone, fun hfree n hup => ?_, fun i n p' hi hstep m hup => ?_⟩
  · refine (hhad n hup).resolve_right fun ⟨a, ha, hn⟩ => ?_
    cases (hfree a ha).symm.trans hn.lifecycle
  obtain ⟨a, b, s, new, ha, hnext, rfl⟩ := Pool.go_cases hstep
  cases hi.symm.trans ha
  simp only [program, next, stopStep] at hnext
  split at hnext
  · rename_i hjoined
    cases hnext
    have hmem := List.mem_of_getElem? hi
    rcases hhad m hup with hm | ⟨d, hd, hm⟩
    · cases (hs.has_taken hmem (n := n) rfl).symm.trans hm
    · cases hs.has_unique hmem hd rfl hm
      exact hup.not_joined hjoined
  · cases hnext

/-- A shell that calls the factory with the mutex of its registry held, and no other callback. Registering, submitting
and renegotiating wait for it. -/
def Shell.guarded : Shell where
  locks callback := callback == .factory
  takes call := call == .register || call == .submit || call == .renegotiate

/-- Two starts at once, a view that comes and goes, and a stop that waits for the server. -/
def session : List Op :=
  [.call .start, .call .start, .go 0 .go, .go 0 .go, .go 0 .go, .go 2 .go, .go 0 .go, .go 0 .go, .go 1 .go, .go 1 .go,
   .call .create, .go 3 .go, .go 3 .go, .go 3 .go, .go 3 .go, .go 2 .go, .go 2 (.submit 0), .go 2 .go, .call (.dispose 0),
   .go 4 .go, .go 2 .go, .go 4 .go, .go 4 .go, .call .stop, .go 5 .go, .go 5 .go, .go 5 .go, .go 5 .go, .go 5 .go, .go 2 .go,
   .go 2 .go, .go 2 .leave, .go 2 .go]

theorem run_lone_session : ∃ p, run .guarded session = some p ∧
    (∃ p', p.threads[5]? = some (.stopJoin 0) ∧ step .guarded p (.go 5 .go) = some p' ∧ ∀ m, ¬p'.shared.Up m) := by
  refine ⟨_, rfl, _, rfl, rfl, ?_⟩
  have hrun : run .guarded session = some _ := rfl
  exact (run_lone hrun).2.2 5 0 _ rfl rfl

/-! ## Views disposed of -/

theorem step_disposed (hs : Sane shell p) {op : Op} (hstep : step shell p op = some p')
    (hv : p.shared.Shows v fun view => view.shell = .disposed) : p'.shared.Shows v fun view => view.shell = .disposed := by
  cases op with
  | call e =>
      obtain ⟨a, s, rfl, henters⟩ := enter_cases shell hstep
      exact henters.effect.disposed hv
  | go i c =>
      obtain ⟨a, b, s, new, ha, hnext, rfl⟩ := Pool.go_cases hstep
      exact (next_effect hnext (hs.each i a ha)).disposed hv

theorem At.Ok.link (hok : a.Ok shell s) (h : a.holds shell (.link v) = true) : s.Shows v fun view => view.link = true := by
  have hsees := hok.sees
  cases a with
  | renegotiating u | submitting n u =>
      have huv : u = v := by simpa [At.holds] using h
      exact huv ▸ hsees
  | _ => cases h

/-- Once `on_dispose` has returned, nobody is at the view with the shell, and nobody comes back to it. -/
theorem run_disposed {ops : List Op} (h : run shell ops = some p) (hv : p.shared.Shows v fun view => view.shell = .disposed)
    {rest : List Op} (hrest : rest.foldlM (step shell) p = some p') :
    p'.shared.hasLink v = false ∧ ∀ a ∈ p'.threads, a.holds shell (.link v) = false := by
  obtain ⟨hs, view, hview, hdisposed⟩ := Runs.keepsM (P := fun p => Sane shell p ∧ p.shared.Shows v fun view => view.shell = .disposed)
    (fun p op p' _ hp hstep => ⟨step_sane hp.1 hstep, step_disposed hp.1 hstep hp.2⟩) (fun _ _ => trivial) ⟨run_sane h, hv⟩ hrest
  have hgone : view.link = false := hs.shared.disposed v view hview hdisposed
  refine ⟨by simp [Shared.hasLink, hview, hgone], fun a ha => ?_⟩
  rw [← Bool.not_eq_true]
  intro hheld
  obtain ⟨i, hi⟩ := List.mem_iff_getElem?.mp ha
  obtain ⟨view', hview', hlink⟩ := (hs.each i a hi).link hheld
  cases hview.symm.trans hview'
  cases hgone.symm.trans hlink

theorem run_disposed_session : ∃ p p', run .guarded (session.take 23) = some p ∧
    (session.drop 23).foldlM (step .guarded) p = some p' ∧ p'.shared.hasLink 0 = false ∧
    ∀ a ∈ p'.threads, a.holds .guarded (.link 0) = false := by
  refine ⟨_, _, rfl, rfl, ?_⟩
  have hrun : run .guarded (session.take 23) = some _ := rfl
  exact run_disposed hrun ⟨_, rfl, rfl⟩ (by rfl : (session.drop 23).foldlM (step .guarded) _ = some _)

/-! ## The factory -/

/-- A server that is up, or will be, or will have failed to be. -/
structure Server.Stays (server : Server) : Prop where
  opened : server.closed = false
  running : server.finished = false
  staying : server.stopping = false
  unasked : .quit ∉ server.queue

def Server.Fit (server : Server) : Prop := server.ready = some false ∨ server.Stays

theorem Server.Fit.stays {server : Server} (h : server.Fit) (hready : server.ready ≠ some false) : server.Stays :=
  h.resolve_left hready

theorem Server.Fit.push {server : Server} (h : server.Fit) {msg : Msg} (hmsg : msg ≠ .quit) : (server.push msg).Fit := by
  unfold Server.push
  split
  · exact h
  · refine h.imp_right fun hstays => ⟨hstays.opened, hstays.running, hstays.staying, fun hquit => ?_⟩
    rcases List.mem_append.mp hquit with hquit | hquit
    · exact hstays.unasked hquit
    · exact hmsg (List.mem_singleton.mp hquit).symm

theorem Shared.Has.get {P : Server → Prop} (h : s.Has n P) {server : Server} (hserver : s.servers[n]? = some server) :
    P server := by
  obtain ⟨server', hserver', hP⟩ := h
  cases hserver.symm.trans hserver'
  exact hP

theorem send_fit {msg : Msg} (hsent : s.send msg = some s') (hmsg : msg ≠ .quit) (hfit : s.Has n Server.Fit) :
    s'.Has n Server.Fit := by
  obtain ⟨m, -, rfl⟩ := send_cases hsent
  exact hfit.modify fun _ _ h => h.push hmsg

/-- Unless a thread dies, only `stop` asks a server to quit. -/
theorem next_fit (h : next shell held s c a = some (b, s', new)) (hc : c ≠ .die) (hok : a.Ok shell s) (hquit : a ≠ .stopQuit n)
    (hfit : s.Has n Server.Fit) : s'.Has n Server.Fit := by
  have hknows := hok.knows
  cases a <;> simp only [next, startStep, stopStep, sendStep, viewStep, compositorStep, locking, calledBack, calling] at h
  all_goals repeat' split at h
  all_goals simp only [Option.some.injEq, Prod.mk.injEq, reduceCtorEq] at h
  all_goals obtain ⟨rfl, rfl, rfl⟩ := h
  all_goals first
    | exact hfit
    | skip
  case startQuery.isFalse.isFalse => exact hfit.append _ _
  case stopQuit m => exact hfit.modify_ne fun hm => hquit (hm ▸ rfl)
  case h_2 hsent | h_2 hsent => exact send_fit hsent (by simp) hfit
  case h_2 hsent =>
    have hkept := send_fit hsent (by simp) hfit
    exact hkept
  case disposeSend.isFalse v _ =>
    cases hsent : s.send (.viewDisposed v) with
    | none => exact hfit
    | some s₁ =>
        have hkept := send_fit hsent (by simp) hfit
        exact hkept
  case starting.isTrue m _ => exact hfit.modify fun _ _ _ => Or.inl rfl
  case starting.isFalse m _ =>
    refine hfit.modify fun server hserver h => Or.inr ?_
    have hready : server.ready = none := (Shared.Has.get hknows hserver).1
    have hstays := h.stays (by simp [hready])
    exact ⟨hstays.opened, hstays.running, hstays.staying, hstays.unasked⟩
  case h_2 m _ _ server hm _ msg rest hqueue =>
    refine hfit.modify fun server' hserver h => ?_
    cases hm.symm.trans hserver
    have hlistens := Shared.Has.get hknows hserver
    have hstays := h.stays (by simp [hlistens.ready])
    have hunasked := hstays.unasked
    rw [hqueue, List.mem_cons, not_or] at hunasked
    cases msg with
    | quit => exact absurd rfl hunasked.1
    | viewCreated | viewDisposed | other => exact Or.inr ⟨hstays.opened, hstays.running, hstays.staying, hunasked.2⟩
  case h_4.isTrue m _ server _ hm hstopping =>
    refine hfit.modify fun server' hserver h => ?_
    cases hm.symm.trans hserver
    have hlistens := Shared.Has.get hknows hserver
    cases hstopping.symm.trans (h.stays (by simp [hlistens.ready])).staying
  case h_5 => exact absurd rfl hc
  case leaving m =>
    refine hfit.modify fun server hserver h => h.imp_right fun hstays => ?_
    cases (Shared.Has.get hknows hserver).2.1.symm.trans hstays.opened

/-- The factory is registered only while there is a server it finds. -/
structure Steady (s : Shared) : Prop where
  whole : Whole s
  registered : s.registered = true → s.running.isSome = true
  fit : ∀ n, s.running = some n → s.Has n Server.Fit

theorem Steady.stays (hs : Steady s) (hregistered : s.registered = true) :
    ∃ n server, s.running = some n ∧ s.servers[n]? = some server ∧ server.Stays := by
  obtain ⟨n, hn⟩ := Option.isSome_iff_exists.mp (hs.registered hregistered)
  obtain ⟨server, hserver, hready⟩ := hs.whole.running n hn
  exact ⟨n, server, hn, hserver, ((hs.fit n hn).get hserver).stays (by simp [hready])⟩

theorem Steady.isRunning (hs : Steady s) (hregistered : s.registered = true) : s.isRunning = true := by
  obtain ⟨n, server, hn, hserver, hstays⟩ := hs.stays hregistered
  exact Shared.Up.isRunning ⟨server, hserver, hstays.running⟩ hn

theorem Steady.send (hs : Steady s) (hregistered : s.registered = true) (msg : Msg) : s.send msg ≠ none := by
  obtain ⟨n, server, hn, hserver, hstays⟩ := hs.stays hregistered
  simp [Shared.send, hn, hserver, hstays.opened]

/-- A server is put in `SERVER` by who started it, and only while there is one the factory is registered. -/
theorem next_running (h : next shell held s c a = some (b, s', new)) (hs : Steady s) (hok : a.Ok shell s) :
    (∀ n, s'.running = some n → s.running = some n ∨ a = .startSpawned n) ∧ (s'.registered = true → s'.running.isSome = true) := by
  have hregistered := hs.registered
  have hneeds := hok.needs
  cases a <;> simp only [next, startStep, stopStep, sendStep, viewStep, compositorStep, locking, calledBack, calling] at h
  all_goals repeat' split at h
  all_goals simp only [Option.some.injEq, Prod.mk.injEq, reduceCtorEq] at h
  all_goals obtain ⟨rfl, rfl, rfl⟩ := h
  all_goals first
    | exact ⟨fun _ => Or.inl, hregistered⟩
    | skip
  case startLocked.isFalse.isFalse hrunning => exact ⟨fun _ h => (by cases h), fun h => absurd (hs.isRunning h) hrunning⟩
  case h_2 n _ _ => exact ⟨fun m hm => Or.inr (congrArg At.startSpawned (Option.some.inj hm)), fun _ => rfl⟩
  case startStored.isFalse => exact ⟨fun _ => Or.inl, fun _ => hneeds⟩
  case stopUnregister.isFalse => exact ⟨fun _ => Or.inl, fun h => by cases h⟩
  case h_2 => exact ⟨fun _ h => (by cases h), fun h => by cases hneeds.2.symm.trans h⟩
  case h_2 hsent | h_2 hsent | h_2 hsent =>
    obtain ⟨n, -, rfl⟩ := send_cases hsent
    exact ⟨fun _ => Or.inl, hregistered⟩
  case disposeSend.isFalse v _ =>
    cases hsent : s.send (.viewDisposed v) with
    | none => exact ⟨fun _ => Or.inl, hregistered⟩
    | some s₁ =>
        obtain ⟨n, -, rfl⟩ := send_cases hsent
        exact ⟨fun _ => Or.inl, hregistered⟩

theorem next_steady (h : next shell held s c a = some (b, s', new)) (hc : c ≠ .die) (hs : Steady s) (hok : a.Ok shell s)
    (hfit : ∀ n, a = .startSpawned n → s.Has n Server.Fit) : Steady s' := by
  obtain ⟨hrunning, hregistered⟩ := next_running h hs hok
  refine ⟨(next_effect h hok).whole hs.whole, hregistered, fun n hn => ?_⟩
  rcases hrunning n hn with hold | rfl
  · refine next_fit h hc hok (fun hquit => ?_) (hs.fit n hold)
    subst hquit
    cases hok.needs.1.symm.trans hold
  · exact next_fit h hc hok nofun (hfit n rfl)

/-- A server that was just started is fit, and a create under way does not miss the one it was registered for. -/
theorem next_finds (hguards : shell.Guards)
    (h : next shell held s c a = some (b, s', new)) (hs : Steady s) (hok : a.Ok shell s) :
    (∀ n, b = .startSpawned n → s'.Has n Server.Fit) ∧ b ≠ .returned .noBackend := by
  have hneeds := hok.needs
  cases a <;> simp only [next, startStep, stopStep, sendStep, viewStep, compositorStep, locking, calledBack, calling] at h
  all_goals repeat' split at h
  all_goals simp only [Option.some.injEq, Prod.mk.injEq, reduceCtorEq] at h
  all_goals obtain ⟨rfl, rfl, rfl⟩ := h
  all_goals first
    | (constructor <;> simp; done)
    | skip
  case startQuery.isFalse.isFalse =>
    refine ⟨fun n hn => ?_, by simp⟩
    cases hn
    exact ⟨{}, by simp, Or.inr ⟨rfl, rfl, rfl, by simp⟩⟩
  case createCheck.isFalse.isFalse hrunning => exact absurd (hs.isRunning (hneeds hguards)) hrunning
  case h_1 hsent => exact absurd hsent (hs.send (hneeds hguards) _)

/-- What a thread knows as long as none dies. -/
structure At.Finds (shell : Shell) (s : Shared) (a : At) : Prop where
  ok : a.Ok shell s
  fit : ∀ n, a = .startSpawned n → s.Has n Server.Fit
  found : a ≠ .returned .noBackend

theorem Enters.finds (h : Enters shell s a s') : a.Finds shell s' :=
  ⟨h.ok, fun n ha => absurd ha (h.begun n .ok).1, (h.begun 0 .noBackend).2⟩

theorem program_finds (hguards : shell.Guards) : Pool.Sound (program shell) (· ≠ .die) Steady (At.Finds shell) Others where
  symm h := h.symm
  own := by
    intro held s c a b s' new h hc hs hfinds
    obtain ⟨-, hok, hnew⟩ := program_sound.own h trivial hs.whole hfinds.ok
    obtain ⟨hfit, hfound⟩ := next_finds hguards h hs hfinds.ok
    refine ⟨next_steady h hc hs hfinds.ok hfinds.fit, ⟨hok, hfit, hfound⟩, fun d hd => ?_⟩
    have hok' := hnew d hd
    rcases (next_threads h).2 with rfl | ⟨-, -, rfl, -⟩
    · cases hd
    · cases List.mem_singleton.mp hd
      exact ⟨hok', fun _ => nofun, nofun⟩
  beside := by
    intro held s c a b s' new d h hc hs hfinds hd hapart hheld
    obtain ⟨hok, hrest, hnew⟩ := program_sound.beside h trivial hs.whole hfinds.ok hd.ok hapart hheld
    refine ⟨⟨hok, fun n hn => next_fit h hc hfinds.ok (fun hquit => ?_) (hd.fit n hn), hd.found⟩, hrest, hnew⟩
    have hfree := hapart.locks .lifecycle (by rw [hquit]; rfl)
    rw [hn] at hfree
    cases hfree
  fresh h hs hfinds := program_sound.fresh h hs.whole hfinds.ok

theorem step_finds (hguards : shell.Guards)
    (h : p.Keeps (program shell) Steady (At.Finds shell) Others) {op : Op} (hop : ∀ i, op ≠ .go i .die)
    (hstep : step shell p op = some p') :
    p'.Keeps (program shell) Steady (At.Finds shell) Others := by
  cases op with
  | call e =>
      obtain ⟨a, s, rfl, henters⟩ := enter_cases shell hstep
      obtain ⟨hservers, hrunning, hregistered⟩ := henters.rest
      have hhas {n : Nat} (hn : p.shared.Has n Server.Fit) : s.Has n Server.Fit := by simpa only [Shared.Has, hservers] using hn
      have hsteady : Steady s := by
        refine ⟨henters.effect.whole h.shared.whole, fun hs => ?_, fun n hn => hhas (h.shared.fit n (hrunning ▸ hn))⟩
        rw [hrunning]
        exact h.shared.registered (hregistered ▸ hs)
      refine h.enter (fun hR => Others.symm hR) henters.bare hsteady henters.finds fun d _ hd => ?_
      obtain ⟨hok, hothers⟩ := henters.beside hd.ok
      exact ⟨⟨hok, fun n hn => hhas (hd.fit n hn), hd.found⟩, hothers⟩
  | go i c => exact h.go (program_finds hguards) (fun hc => hop i (hc ▸ rfl)) hstep

theorem start_finds : ({ shared := {} } : Pool At Shared).Keeps (program shell) Steady (At.Finds shell) Others := by
  have hsane : Sane shell { shared := {} } := start_sane
  refine ⟨⟨hsane.shared, nofun, fun _ => nofun⟩, fun i a ha => ?_, hsane.apart⟩
  simp at ha

/-- Unless a server's thread dies, no view is created that finds no server: the factory is in only while one runs. That
is up to the shell, too. -/
theorem run_found (hguards : shell.Guards) {ops : List Op} (h : run shell ops = some p) (hops : ∀ i, .go i .die ∉ ops) :
    .returned .noBackend ∉ p.threads := by
  have hfinds := Runs.keepsM (fun p op p' hop hp hstep => step_finds hguards hp hop hstep)
    (fun op hop i hdie => hops i (hdie ▸ hop)) start_finds h
  intro hmem
  obtain ⟨i, hi⟩ := List.mem_iff_getElem?.mp hmem
  exact (hfinds.each i _ hi).found rfl

theorem run_found_session : ∃ p, run .guarded session = some p ∧ .returned .noBackend ∉ p.threads := by
  have hrun : run .guarded session = some _ := rfl
  exact ⟨_, hrun, run_found ⟨rfl, rfl⟩ hrun (by simp [session])⟩

/-- A shell that holds no lock while it calls back may be at the factory when the server goes. -/
example : (run ⟨fun _ => false, fun _ => true⟩ [.call .start, .go 0 .go, .go 0 .go, .go 0 .go, .go 1 .go, .go 0 .go, .go 0 .go,
    .call .create, .go 2 .go, .call .stop, .go 3 .go, .go 3 .go, .go 3 .go, .go 3 .go, .go 2 .go]).any
      (fun p => .returned .noBackend ∈ p.threads) = true := by decide

end Lifecycle

end IhsWl
