import IhsWl.Lifecycle.Theorems
import Mathlib.Algebra.Ring.Nat

/-!
# No call is stuck

Whoever waits, waits for one that is further: the locks are taken in one order, and under none of the server's loop's
locks anyone waits for its thread.
-/

namespace IhsWl

namespace Lifecycle

variable {shell : Shell} {held : Lock → Bool} {s s' : Shared} {c : Choice} {a b d : At} {new : List At} {n m v : Nat} {p p' : Pool At Shared}

/-! ## What is left to do -/

def Shared.queued (s : Shared) : Nat := (s.servers.map fun server => server.queue.length).sum

/-- A thread that is under way goes on: nothing fails, and no handler submits. -/
def Choice.Lets (c : Choice) : Prop := c = .go ∨ c = .leave

theorem sum_modify {α : Type*} (f : α → Nat) (g : α → α) (xs : List α) {i : Nat} {x : α} (hx : xs[i]? = some x) :
    ((xs.modify i g).map f).sum + f x = (xs.map f).sum + f (g x) := by
  induction xs generalizing i with
  | nil => cases hx
  | cons y xs ih =>
      cases i with
      | zero =>
          cases hx
          simp only [List.modify_zero_cons, List.map_cons, List.sum_cons]
          omega
      | succ i =>
          have hrest := ih (i := i) (by simpa using hx)
          simp only [List.modify_succ_cons, List.map_cons, List.sum_cons]
          omega

theorem queued_modify {f : Server → Server} {server : Server} (hserver : s.servers[n]? = some server) :
    (s.modifyServer n f).queued + server.queue.length = s.queued + (f server).queue.length :=
  sum_modify _ f s.servers hserver

/-- Nothing is left for it to do, until a call or a client comes. -/
def At.Idle (s : Shared) : At → Prop
  | returned _ | finished _ => True
  | serving n => s.Has n fun server => server.queue = [] ∧ server.stopping = false
  | _ => False

/-- Whoever waits, waits for a thread of higher rank. The factory asks the shell for a grant with the mutex of the
registry held, or may wait for it. -/
def At.rank (shell : Shell) : At → Nat
  | start | stop => 0
  | startStored | stopUnregister | stopJoin _ | notify | create | dispose _ | renegotiate _ => 1
  | disposeLink _ | renegotiateLink _ | submit _ _ => 2
  | renegotiating _ | submitting _ _ => 3
  | startLocked | stopLocked | stopTake | send | notifySend | createCheck | createSend | disposeSend _ => 4
  | startQuery | startSpawned _ | startFailed _ => 5
  | createNegotiate => if shell.locks .factory then 6 else 1
  | _ => 6

/-- What holds a lock is of this rank at least. -/
def Lock.floor (shell : Shell) : Lock → Nat
  | lifecycle => 1
  | registry => if shell.locks .dispose || shell.locks .renegotiate then 2 else 4
  | link _ => 3
  | server => 5

theorem At.floor_le {l : Lock} (h : a.holds shell l = true) : l.floor shell ≤ a.rank shell ∧ ¬a.Idle s := by
  have hfloor : Lock.registry.floor shell ≤ 4 := by
    simp only [Lock.floor]
    split <;> omega
  cases a <;> cases l <;> first
    | (cases h; done)
    | (refine ⟨?_, fun hidle => hidle⟩
       simp [Lock.floor, At.rank]
       done)
    | exact ⟨hfloor, fun hidle => hidle⟩
    | (have hlocks : shell.locks _ = true := h
       refine ⟨?_, fun hidle => hidle⟩
       simp only [Lock.floor, At.rank, hlocks, Bool.true_or, Bool.or_true, if_true]
       omega)
    | (have hlocks : shell.locks _ = true := h
       refine ⟨Nat.le_trans hfloor ?_, fun hidle => hidle⟩
       simp only [At.rank, hlocks, if_true]
       omega)

/-- Some callback is under the mutex that is held. -/
theorem At.locks_of_holds (h : a.holds shell .registry = true) : ∃ callback, shell.locks callback = true := by
  cases a <;> first
    | exact ⟨_, h⟩
    | cases h

theorem At.server_rank (h : a.server = some n) (hidle : ¬a.Idle s) : 1 < a.rank shell := by
  cases a <;> first
    | (cases h; done)
    | exact absurd trivial hidle
    | simp [At.rank]

/-- A server's thread with nothing to do is done, or nobody asked it to stop. -/
theorem At.Idle.settled (hidle : d.Idle s) (hserver : d.server = some n) (hok : d.Ok shell s) :
    s.Has n fun server => server.ready.isSome = true ∧ (server.finished = true ∨ server.Listens ∧ ¬server.Asked) := by
  have hknows := hok.knows
  cases d with
  | serving m =>
      cases hserver
      obtain ⟨server, hn, hlistens⟩ := id hknows
      obtain ⟨server', hn', hqueue, hstopping⟩ := id hidle
      cases hn.symm.trans hn'
      refine ⟨server, hn, by rw [hlistens.ready]; rfl, Or.inr ⟨hlistens, fun hasked => ?_⟩⟩
      rcases hasked with hclosed | hstop | hquit
      · cases hlistens.opened.symm.trans hclosed
      · cases hstopping.symm.trans hstop
      · rw [hqueue] at hquit
        cases hquit
  | finished m =>
      cases hserver
      exact Shared.Has.imp hknows fun server h => ⟨h.1, Or.inl h.2.2⟩
  | starting | submit | submitting | leaving => exact absurd hidle id
  | _ => cases hserver

/-- Until a server is up, and once it failed to be, its thread has something to do and waits for nobody. -/
theorem At.rank_of_server (hserver : d.server = some n) (hok : d.Ok shell s)
    (h : s.Has n fun server => server.ready = none ∨ server.ready = some false ∧ server.finished = false) :
    ¬d.Idle s ∧ d.rank shell = 6 := by
  have hknows := hok.knows
  obtain ⟨server, hn, hdown⟩ := h
  cases d with
  | starting | leaving => exact ⟨id, rfl⟩
  | serving | submit | submitting =>
      cases hserver
      have hready := (Shared.Has.get hknows hn).ready
      rcases hdown with hnone | ⟨hfalse, -⟩
      · cases hnone.symm.trans hready
      · cases hfalse.symm.trans hready
  | finished =>
      cases hserver
      obtain ⟨hready, -, hfinished⟩ := Shared.Has.get hknows hn
      rcases hdown with hnone | ⟨-, hrunning⟩
      · rw [hnone] at hready
        cases hready
      · cases hrunning.symm.trans hfinished
  | _ => cases hserver

/-- A thread with something to do goes on, unless a lock is taken, or the thread of a server is not done. -/
inductive Waits (shell : Shell) (held : Lock → Bool) (s : Shared) (a : At) : Prop
  | none (c : Choice) : c.Lets → (next shell held s c a).isSome = true → Waits shell held s a
  | lock (l : Lock) : held l = true → a.rank shell < l.floor shell → Waits shell held s a
  | thread (n : Nat) : n < s.servers.length →
      (∀ d : At, d.server = some n → d.Ok shell s → ¬d.Idle s ∧ a.rank shell < d.rank shell) → Waits shell held s a

theorem next_waits (hyields : shell.Yields) (hheld : held .registry = true → ∃ callback, shell.locks callback = true)
    (hok : a.Ok shell s) (hidle : ¬a.Idle s) : Waits shell held s a := by
  have hknows := hok.knows
  have hgo {a : At} (hgoes : (next shell held s .go a).isSome = true) : Waits shell held s a := .none .go (Or.inl rfl) hgoes
  have hlock {a : At} (l : Lock) (hrank : a.rank shell < l.floor shell) (hgoes : held l = false → (next shell held s .go a).isSome = true) :
      Waits shell held s a := by
    cases hl : held l with
    | false => exact hgo (hgoes hl)
    | true => exact .lock l hl hrank
  have hfirst : 1 < Lock.registry.floor shell := by
    simp only [Lock.floor]
    split <;> omega
  -- A call into the shell waits for the mutex, if it takes it.
  have hcall {a : At} (call : ShellCall)
      (hrank : shell.takes call = true → held .registry = true → a.rank shell < Lock.registry.floor shell)
      (hgoes : (shell.takes call && held .registry) = false → (next shell held s .go a).isSome = true) : Waits shell held s a := by
    cases hl : held .registry with
    | false => exact hgo (hgoes (by simp [hl]))
    | true =>
        cases htakes : shell.takes call with
        | false => exact hgo (hgoes (by simp [htakes]))
        | true => exact .lock .registry hl (hrank htakes hl)
  have hlast (htakes : shell.takes .renegotiate = true ∨ shell.takes .submit = true) : 3 < Lock.registry.floor shell := by
    have hfree : (shell.locks .dispose || shell.locks .renegotiate) = false := by
      rw [← Bool.not_eq_true, Bool.or_eq_true]
      intro hlocks
      obtain ⟨hrenegotiate, hsubmit⟩ := hyields.link hlocks
      simp [hrenegotiate, hsubmit] at htakes
    simp [Lock.floor, hfree]
  cases a with
  | start => exact hlock .lifecycle (by simp [At.rank, Lock.floor]) fun hfree => by simp [next, startStep, locking, hfree]
  | stop => exact hlock .lifecycle (by simp [At.rank, Lock.floor]) fun hfree => by simp [next, stopStep, locking, hfree]
  | startLocked =>
      exact hlock .server (by simp [At.rank, Lock.floor]) fun hfree => by simp [next, startStep, locking, hfree]; split <;> rfl
  | stopLocked =>
      exact hlock .server (by simp [At.rank, Lock.floor]) fun hfree => by simp [next, stopStep, locking, hfree]; split <;> rfl
  | stopTake =>
      exact hlock .server (by simp [At.rank, Lock.floor]) fun hfree => by simp [next, stopStep, locking, hfree]; split <;> rfl
  | send | notifySend =>
      exact hlock .server (by simp [At.rank, Lock.floor]) fun hfree => by simp [next, sendStep, locking, hfree]; split <;> rfl
  | createCheck | createSend =>
      exact hlock .server (by simp [At.rank, Lock.floor]) fun hfree => by simp [next, viewStep, locking, hfree]; split <;> rfl
  | disposeSend v =>
      exact hlock .server (by simp [At.rank, Lock.floor]) fun hfree => by simp [next, viewStep, locking, hfree]
  | notify => exact hlock .registry hfirst fun hfree => by simp [next, sendStep, calledBack, hfree]
  | create => exact hlock .registry hfirst fun hfree => by simp [next, viewStep, calledBack, hfree]; split <;> rfl
  | dispose v => exact hlock .registry hfirst fun hfree => by simp [next, viewStep, calledBack, hfree]
  | renegotiate v => exact hlock .registry hfirst fun hfree => by simp [next, viewStep, calledBack, hfree]
  | disposeLink v =>
      exact hlock (.link v) (by simp [At.rank, Lock.floor]) fun hfree => by simp [next, viewStep, locking, hfree]
  | renegotiateLink v =>
      exact hlock (.link v) (by simp [At.rank, Lock.floor]) fun hfree => by simp [next, viewStep, locking, hfree]; split <;> rfl
  | submit n v =>
      exact hlock (.link v) (by simp [At.rank, Lock.floor]) fun hfree => by
        simp [next, compositorStep, locking, hfree]; split <;> rfl
  | startQuery =>
      refine hcall .query (fun htakes hregistry => ?_) fun hfree => by simp [next, startStep, calling, hfree]
      obtain ⟨callback, hlocks⟩ := hheld hregistry
      cases htakes.symm.trans (hyields.query callback hlocks)
  | startStored => exact hcall .register (fun _ _ => hfirst) fun hfree => by simp [next, startStep, calling, hfree]
  | stopUnregister => exact hcall .register (fun _ _ => hfirst) fun hfree => by simp [next, stopStep, calling, hfree]
  | createNegotiate =>
      refine hcall .negotiate (fun htakes _ => ?_) fun hfree => by simp [next, viewStep, calling, hfree]
      have hfree : shell.locks .factory = false := by
        rw [← Bool.not_eq_true]
        intro hlocks
        cases htakes.symm.trans (hyields.negotiate hlocks)
      simpa [At.rank, hfree] using hfirst
  | renegotiating v =>
      exact hcall .renegotiate (fun htakes _ => hlast (Or.inl htakes)) fun hfree => by simp [next, viewStep, calling, hfree]
  | submitting n v =>
      exact hcall .submit (fun htakes _ => hlast (Or.inr htakes)) fun hfree => by simp [next, compositorStep, calling, hfree]
  | stopQuit | leaving | starting => exact hgo rfl
  | startSpawned n =>
      obtain ⟨server, hserver, -⟩ := id hknows
      cases hready : server.ready with
      | some up => exact hgo (by cases up <;> simp [next, startStep, hserver, hready])
      | none =>
          refine .thread n (Shared.Has.lt hknows) fun d hd hdok => ?_
          obtain ⟨hbusy, hrank⟩ := At.rank_of_server hd hdok ⟨server, hserver, Or.inl hready⟩
          exact ⟨hbusy, by rw [hrank]; exact Nat.lt_succ_self 5⟩
  | startFailed n =>
      obtain ⟨server, hserver, hready⟩ := id hknows
      cases hfinished : server.finished with
      | true => exact hgo (by simp [next, startStep, hserver, hfinished])
      | false =>
          refine .thread n (Shared.Has.lt hknows) fun d hd hdok => ?_
          obtain ⟨hbusy, hrank⟩ := At.rank_of_server hd hdok ⟨server, hserver, Or.inr ⟨hready, hfinished⟩⟩
          exact ⟨hbusy, by rw [hrank]; exact Nat.lt_succ_self 5⟩
  | stopJoin n =>
      obtain ⟨server, hserver, hasked⟩ := id hknows
      cases hfinished : server.finished with
      | true => exact hgo (by simp [next, stopStep, hserver, hfinished])
      | false =>
          refine .thread n (Shared.Has.lt hknows) fun d hd hdok => ?_
          have hbusy : ¬d.Idle s := by
            intro hdidle
            rcases ((hdidle.settled hd hdok).get hserver).2 with hjoined | ⟨-, hunasked⟩
            · cases hfinished.symm.trans hjoined
            · exact hunasked hasked
          exact ⟨hbusy, At.server_rank hd hbusy⟩
  | serving n =>
      obtain ⟨server, hserver, -⟩ := id hknows
      by_cases hstopping : server.stopping = true
      · exact .none .leave (Or.inr rfl) (by simp [next, compositorStep, hserver, hstopping])
      · cases hqueue : server.queue with
        | nil => exact absurd ⟨server, hserver, hqueue, by simpa using hstopping⟩ hidle
        | cons msg rest => exact hgo (by simp [next, compositorStep, hserver, hqueue])
  | returned | finished => exact absurd trivial hidle

/-! ## All of them -/

/-- Every server has its thread. -/
def Staffed (p : Pool At Shared) : Prop := ∀ n < p.shared.servers.length, ∃ a ∈ p.threads, a.server = some n

/-- As long as a thread has something to do, one that has goes on. -/
theorem Sane.moves (hyields : shell.Yields) (hs : Sane shell p) (hstaffed : Staffed p) (ha : a ∈ p.threads)
    (hidle : ¬a.Idle p.shared) : ∃ i c, Choice.Lets c ∧ (step shell p (.go i c)).isSome = true := by
  have hwait (a : At) (hbusy : a ∈ p.threads ∧ ¬a.Idle p.shared) :
      (∃ c, Choice.Lets c ∧ (next shell (p.held (program shell)) p.shared c a).isSome = true) ∨
      ∃ d, (d ∈ p.threads ∧ ¬d.Idle p.shared) ∧ a.rank shell < d.rank shell := by
    obtain ⟨i, hi⟩ := List.mem_iff_getElem?.mp hbusy.1
    have hlocks (hheld : p.held (program shell) .registry = true) : ∃ callback, shell.locks callback = true := by
      obtain ⟨d, -, hd⟩ := Pool.held_iff.mp hheld
      exact At.locks_of_holds hd
    have hwaits : Waits shell (p.held (program shell)) p.shared a := next_waits hyields hlocks (hs.each i a hi) hbusy.2
    cases hwaits with
    | none c hc hgo => exact Or.inl ⟨c, hc, hgo⟩
    | lock l hheld hrank =>
        obtain ⟨d, hd, hl⟩ := Pool.held_iff.mp hheld
        obtain ⟨hfloor, hdidle⟩ := At.floor_le (s := p.shared) hl
        exact Or.inr ⟨d, ⟨hd, hdidle⟩, Nat.lt_of_lt_of_le hrank hfloor⟩
    | thread n hn hfurther =>
        obtain ⟨d, hd, hserver⟩ := hstaffed n hn
        obtain ⟨j, hj⟩ := List.mem_iff_getElem?.mp hd
        obtain ⟨hdidle, hrank⟩ := hfurther d hserver (hs.each j d hj)
        exact Or.inr ⟨d, ⟨hd, hdidle⟩, hrank⟩
  have htop (a : At) (_ : a ∈ p.threads ∧ ¬a.Idle p.shared) : a.rank shell ≤ 6 := by
    cases a with
    | createNegotiate =>
        simp only [At.rank]
        split <;> omega
    | _ => simp [At.rank]
  obtain ⟨d, ⟨hd, -⟩, c, hc, hgo⟩ := Pool.exists_moving htop hwait ⟨ha, hidle⟩
  obtain ⟨i, hi⟩ := List.mem_iff_getElem?.mp hd
  refine ⟨i, c, hc, ?_⟩
  simp only [step, Pool.go, hi, Option.isSome_map]
  exact hgo

end Lifecycle

end IhsWl
