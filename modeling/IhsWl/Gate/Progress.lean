import IhsWl.Gate.Theorems
import Mathlib.Algebra.BigOperators.Group.Finset.Basic
import Mathlib.Algebra.Order.BigOperators.Group.Finset

/-!
# No commit is lost or wedged

A commit is held only while its wait is there, and applied in the order it came. So once its fences signaled, all a
client committed is shown, whatever order the loop dispatches its waits and applies its commits in.
-/

namespace IhsWl

namespace Gate

variable {client : WlSurface → ClientId} {g g' : Gate} {c : ClientId} {x : WlSurface}

/-! ## What is held -/

/-- Of client `c`: its waits are few, and a commit that is blocked still has its own. -/
structure Held (client : WlSurface → ClientId) (c : ClientId) (g : Gate) : Prop where
  few : (g.waits c).length ≤ maxWaits
  waiting : ∀ x q key, client x = c → q ∈ g.queue x → q.blocker = some key → key ∈ g.cleared ∨ ∃ f, (key, f) ∈ g.waits c

theorem Held.empty : Held client c {} := by
  constructor <;> simp

/-- With or without a wait to be had, a commit is let through or blocked on a new wait. -/
theorem holdCommit_cases {b : BufferCommit} {f : Fence} {inserted : Bool} (hf : b.fence = some f) :
    ((g.holdCommit client b f inserted).1 = { g with nextWait := (g.holdCommit client b f inserted).1.nextWait } ∧
      (g.holdCommit client b f inserted).2.commit = b ∧ (g.holdCommit client b f inserted).2.blocker = none) ∨
    Blocked client g b f (g.holdCommit client b f inserted) ∧ (g.waits (client b.surface)).length < maxWaits := by
  unfold holdCommit
  dsimp only
  split
  · exact Or.inl ⟨rfl, rfl, rfl⟩
  · rename_i hfew
    cases inserted with
    | true => exact Or.inr ⟨⟨hf, rfl, rfl⟩, Nat.not_le.mp hfew⟩
    | false => exact Or.inl ⟨rfl, rfl, rfl⟩

theorem gateOnReadiness_cases (g : Gate) (client : WlSurface → ClientId) (b : BufferCommit) (attempt : Attempt) :
    ((g.gateOnReadiness client b attempt).1 = { g with nextWait := (g.gateOnReadiness client b attempt).1.nextWait } ∧
      (g.gateOnReadiness client b attempt).2.commit = b ∧ (g.gateOnReadiness client b attempt).2.blocker = none) ∨
    ∃ f, Blocked client g b f (g.gateOnReadiness client b attempt) ∧ (g.waits (client b.surface)).length < maxWaits := by
  unfold gateOnReadiness
  cases ha : b.attached with
  | kept => exact Or.inl ⟨rfl, rfl, rfl⟩
  | other => exact Or.inl ⟨rfl, rfl, rfl⟩
  | dmabuf buffer implicit =>
      dsimp only
      cases hacquire : b.acquire with
      | some acquire =>
          have hf : b.fence = some acquire := by simp [BufferCommit.fence, ha, hacquire]
          dsimp only
          split
          · exact Or.inl ⟨rfl, rfl, rfl⟩
          · split
            · exact (holdCommit_cases hf).imp id fun h => ⟨acquire, h⟩
            · exact Or.inl ⟨rfl, rfl, rfl⟩
      | none =>
          have hf : b.fence = some implicit := by simp [BufferCommit.fence, ha, hacquire]
          dsimp only
          split
          · exact Or.inl ⟨rfl, rfl, rfl⟩
          · exact (holdCommit_cases hf).imp id fun h => ⟨implicit, h⟩

theorem enqueue_queue (q : Queued) (x : WlSurface) :
    (g.enqueue q).queue x = g.queue x ++ if x = q.commit.surface then [q] else [] := by
  simp only [enqueue, Function.update_apply]
  split
  · rename_i hx
    rw [hx]
  · simp

theorem Held.commits (h : Held client c g) (b : BufferCommit) (attempt : Attempt) :
    Held client c (g.step client (.commits b attempt)) := by
  change Held client c ((g.gateOnReadiness client b attempt).1.enqueue (g.gateOnReadiness client b attempt).2)
  rcases gateOnReadiness_cases g client b attempt with ⟨hrest, -, hnone⟩ | ⟨f, hblocked, hfew⟩
  · generalize g.gateOnReadiness client b attempt = held at hrest hnone
    obtain ⟨g', q⟩ := held
    dsimp only at hrest hnone ⊢
    rw [hrest]
    refine ⟨h.few, fun x q' key hx hq hb => ?_⟩
    rw [enqueue_queue, List.mem_append] at hq
    rcases hq with hq | hq
    · exact h.waiting x q' key hx hq hb
    · split at hq
      · cases List.mem_singleton.mp hq
        cases hnone.symm.trans hb
      · cases hq
  · generalize g.gateOnReadiness client b attempt = held at hblocked
    obtain ⟨g', q⟩ := held
    obtain ⟨-, hgate, hqueued⟩ := hblocked
    dsimp only at hgate hqueued ⊢
    rw [hgate, hqueued]
    refine ⟨?_, fun x q' key hx hq hb => ?_⟩
    · simp only [enqueue, Function.update_apply]
      split
      · rename_i hc
        rw [List.length_append, ← hc]
        exact hc ▸ hfew
      · exact h.few
    · rw [enqueue_queue, List.mem_append] at hq
      simp only [enqueue, Function.update_apply]
      rcases hq with hq | hq
      · refine (h.waiting x q' key hx hq hb).imp id fun ⟨f', hwait⟩ => ⟨f', ?_⟩
        split
        · rename_i hc
          exact List.mem_append_left _ (hc ▸ hwait)
        · exact hwait
      · split at hq
        · rename_i hsurface
          cases List.mem_singleton.mp hq
          cases hb
          have hc : c = client b.surface := hx.symm.trans (congrArg client hsurface)
          rw [if_pos hc]
          exact Or.inr ⟨f, by simp⟩
        · cases hq

theorem Held.fire (h : Held client c g) (c' : ClientId) (key : Nat) : Held client c (g.fire c' key) := by
  unfold Gate.fire
  split
  · refine ⟨?_, fun x q k hx hq hb => ?_⟩
    · simp only [Function.update_apply]
      split
      · rename_i hc
        rw [← hc]
        exact (List.length_filter_le _ _).trans h.few
      · exact h.few
    · simp only [Function.update_apply]
      rcases h.waiting x q k hx hq hb with hcleared | ⟨f, hwait⟩
      · exact Or.inl (List.mem_cons_of_mem _ hcleared)
      · by_cases hk : k = key
        · exact Or.inl (hk ▸ List.mem_cons_self)
        · refine Or.inr ⟨f, ?_⟩
          split
          · rename_i hc
            rw [← hc]
            exact List.mem_filter.mpr ⟨hwait, by simpa using hk⟩
          · exact hwait
  · exact h

theorem Held.applyNext (h : Held client c g) (x : WlSurface) : Held client c (g.applyNext x) := by
  unfold Gate.applyNext
  split
  · exact h
  · rename_i q rest hqueue
    split
    · refine ⟨h.few, fun x' q' key hx hq hb => h.waiting x' q' key hx ?_ hb⟩
      simp only [Function.update_apply] at hq
      split at hq
      · rename_i hx'
        rw [hx', hqueue]
        exact List.mem_cons_of_mem q hq
      · exact hq
    · exact h

theorem Held.step (h : Held client c g) {op : GateOp} (hop : op ≠ .reaps c) : Held client c (g.step client op) := by
  cases op with
  | commits b attempt => exact h.commits b attempt
  | signals f => exact ⟨h.few, h.waiting⟩
  | fires c' key => exact h.fire c' key
  | applies x => exact h.applyNext x
  | reaps c' =>
      have hne : c ≠ c' := fun hc => hop (congrArg GateOp.reaps hc.symm)
      have hsame : (g.step client (.reaps c')).waits c = g.waits c := Function.update_of_ne hne _ _
      refine ⟨hsame ▸ h.few, fun x q key hx hq hb => ?_⟩
      rw [hsame]
      exact h.waiting x q key hx hq hb

/-- The last commit queued that attaches something, or what is shown. -/
def latest (g : Gate) (x : WlSurface) : Option Queued :=
  ((g.queue x).filter fun q => q.commit.attached ≠ .kept).getLast?.or (g.current x)

theorem latest_enqueue (q : Queued) : (g.enqueue q).latest x =
    if q.commit.surface = x ∧ q.commit.attached ≠ .kept then some q else g.latest x := by
  simp only [latest, enqueue_queue, List.filter_append]
  by_cases hx : x = q.commit.surface
  · subst hx
    by_cases hkept : q.commit.attached = .kept
    · simp [hkept, enqueue]
    · simp [hkept]
  · simp [hx, Ne.symm hx, enqueue]

theorem latest_applyNext (y : WlSurface) : (g.applyNext y).latest x = g.latest x := by
  unfold Gate.applyNext
  split
  · rfl
  · rename_i q rest hqueue
    split
    · simp only [latest]
      by_cases hx : x = y
      · subst hx
        rw [hqueue, Function.update_self]
        by_cases hkept : q.commit.attached = .kept
        · simp [hkept]
        · simp [hkept, List.getLast?_cons]
      · rw [Function.update_of_ne hx]
        split
        · rfl
        · rw [Function.update_of_ne hx]
    · rfl

theorem latest_step {op : GateOp} : (((g.step client op).latest x).map Queued.commit) =
    match op with
    | .commits b _ => if b.surface = x ∧ b.attached ≠ .kept then some b else (g.latest x).map Queued.commit
    | _ => (g.latest x).map Queued.commit := by
  cases op with
  | commits b attempt =>
      have hgate : ((g.gateOnReadiness client b attempt).1.latest x) = g.latest x ∧
        (g.gateOnReadiness client b attempt).2.commit = b := by
        rcases gateOnReadiness_cases g client b attempt with ⟨hrest, hcommit, -⟩ | ⟨f, hblocked, -⟩
        · rw [hrest]
          exact ⟨rfl, hcommit⟩
        · rw [hblocked.gate, hblocked.queued]
          exact ⟨rfl, rfl⟩
      simp only [Gate.step]
      rw [latest_enqueue, hgate.1, hgate.2]
      split
      · exact congrArg some hgate.2
      · rfl
  | signals f => rfl
  | fires c' key =>
      simp only [Gate.step, Gate.fire]
      split <;> rfl
  | applies y => exact congrArg _ (latest_applyNext y)
  | reaps c' => rfl

/-- The op is one the loop has to do: a source is ready, or the first commit of a queue is not blocked. -/
def moves (g : Gate) : GateOp → Bool
  | .fires c key => (g.waits c).any fun wait => wait.1 == key && g.signaled.contains wait.2
  | .applies x => (g.queue x).head?.any fun q => q.blocker.all fun key => key ∈ g.cleared
  | _ => false

variable (client) in
/-- The op, where the loop has it to do. -/
def advance (g : Gate) (op : GateOp) : Option Gate := if g.moves op then some (g.step client op) else none

/-- The loop's ops for the client `c` and its surfaces `xs`. -/
def Loop (c : ClientId) (xs : Finset WlSurface) : GateOp → Prop
  | .fires c' _ => c' = c
  | .applies x => x ∈ xs
  | _ => False

/-- The waits and the commits of the client that are left. -/
def left (c : ClientId) (xs : Finset WlSurface) (g : Gate) : Nat := (g.waits c).length + xs.sum fun x => (g.queue x).length

/-- What holds while the loop gets on: the commits to come out last are the same. -/
structure Draining (client : WlSurface → ClientId) (c : ClientId) (last : WlSurface → Option BufferCommit) (g : Gate) : Prop where
  held : Held client c g
  signaled : ∀ wait ∈ g.waits c, wait.2 ∈ g.signaled
  latest : ∀ x, (g.latest x).map Queued.commit = last x

theorem Draining.advance {last : WlSurface → Option BufferCommit} {xs : Finset WlSurface} (h : Draining client c last g)
    {op : GateOp}
    (hop : Loop c xs op) (hgo : g.advance client op = some g') : Draining client c last g' := by
  unfold Gate.advance at hgo
  split at hgo
  · cases hgo
    cases op with
    | commits | signals | reaps => cases hop
    | fires c' key =>
        cases hop
        refine ⟨h.held.step (by simp), fun wait hwait => ?_, fun x => latest_step.trans (h.latest x)⟩
        simp only [Gate.step, fire] at hwait ⊢
        split at hwait
        · rename_i hready
          rw [if_pos hready]
          simp only [Function.update_self] at hwait
          exact h.signaled wait (List.mem_of_mem_filter hwait)
        · rename_i hready
          rw [if_neg hready]
          exact h.signaled wait hwait
    | applies y =>
        have hsame : (g.step client (.applies y)).waits = g.waits ∧ (g.step client (.applies y)).signaled = g.signaled := by
          simp only [Gate.step, applyNext]
          split
          · exact ⟨rfl, rfl⟩
          · split <;> exact ⟨rfl, rfl⟩
        refine ⟨h.held.step (by simp), fun wait hwait => ?_, fun x => latest_step.trans (h.latest x)⟩
        rw [hsame.2]
        exact h.signaled wait (hsame.1 ▸ hwait)
  · cases hgo

/-- Two commits of a surface wait, and the fence of the second signals first. -/
def pairRun : List GateOp :=
  [.commits ⟨1, .dmabuf 1 1, some 2⟩ {}, .commits ⟨1, .dmabuf 3 3, none⟩ {}, .signals 3, .fires 0 2, .applies 1, .signals 2]

end Gate

end IhsWl
