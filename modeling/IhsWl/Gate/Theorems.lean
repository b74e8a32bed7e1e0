import IhsWl.Gate
import IhsWl.Lib.Runs

/-!
# Only finished buffers reach the shell

A key names one wait for one fence, for as long as anything knows it. What is queued with no blocker of its own
is finished already, as long as no commit finds its client's waits used up.
-/

namespace IhsWl

namespace Gate

variable {client : WlSurface → ClientId} {g : Gate}

/-- What waits, what is blocked and what was cleared agree on the fence of every key, and what is not blocked
is finished. -/
structure Sound (g : Gate) : Prop where
  waiting : ∀ c wait, wait ∈ g.waits c → wait.1 ≤ g.nextWait
  cleared : ∀ key ∈ g.cleared, key ≤ g.nextWait
  blocked : ∀ x q, q ∈ g.queue x → ∀ key, q.blocker = some key → key ≤ g.nextWait ∧
    (∀ c f, (key, f) ∈ g.waits c → q.commit.fence = some f) ∧ (key ∈ g.cleared → g.finished q = true)
  free : ∀ x q, q ∈ g.queue x → q.blocker = none → g.finished q = true
  current : ∀ x q, g.current x = some q → g.finished q = true

theorem Sound.empty : Sound {} := by
  constructor <;> simp

/-! ## The gate -/

/-- The commit is let through: keys may have been used up, and nothing else. -/
structure LetThrough (g : Gate) (c : BufferCommit) (held : Gate × Queued) : Prop where
  rest : held.1 = { g with nextWait := held.1.nextWait }
  later : g.nextWait ≤ held.1.nextWait
  commit : held.2.commit = c
  blocker : held.2.blocker = none
  finished : g.finished held.2 = true

/-- The commit is blocked on a new wait for its fence. -/
structure Blocked (client : WlSurface → ClientId) (g : Gate) (c : BufferCommit) (f : Fence) (held : Gate × Queued) :
    Prop where
  fence : c.fence = some f
  gate : held.1 = { g with
    nextWait := g.nextWait + 1
    waits := Function.update g.waits (client c.surface) (g.waits (client c.surface) ++ [(g.nextWait + 1, f)]) }
  queued : held.2 = { commit := c, blocker := some (g.nextWait + 1) }

theorem holdCommit_spec {c : BufferCommit} {f : Fence} {inserted : Bool} (hf : c.fence = some f)
    (hroom : (g.waits (client c.surface)).length < maxWaits) :
    LetThrough g c (g.holdCommit client c f inserted) ∨ Blocked client g c f (g.holdCommit client c f inserted) := by
  unfold holdCommit
  dsimp only
  rw [if_neg (Nat.not_le.mpr hroom)]
  cases inserted with
  | true => exact Or.inr ⟨hf, rfl, rfl⟩
  | false => exact Or.inl ⟨rfl, Nat.le_succ _, rfl, rfl, by simp [finished, hf]⟩

/-- With room to wait, a commit is let through finished, or blocked on its fence. -/
theorem gateOnReadiness_spec {c : BufferCommit} {attempt : Attempt}
    (hroom : g.hasRoom client (.commits c attempt) = true) :
    LetThrough g c (g.gateOnReadiness client c attempt) ∨
      ∃ f, Blocked client g c f (g.gateOnReadiness client c attempt) := by
  -- A commit let through with nothing done to the gate.
  have hpass {q : Queued} (hc : q.commit = c) (hb : q.blocker = none) (hfin : g.finished q = true) :
      LetThrough g c (g, q) := ⟨rfl, Nat.le_refl _, hc, hb, hfin⟩
  unfold gateOnReadiness
  cases ha : c.attached with
  | kept => exact Or.inl (hpass rfl rfl (by simp [finished, BufferCommit.fence, ha]))
  | other => exact Or.inl (hpass rfl rfl (by simp [finished, BufferCommit.fence, ha]))
  | dmabuf buffer implicit =>
      have hheld {f : Fence} (hf : c.fence = some f) (hready : f ∉ g.signaled)
          (heventfd : (c.acquire.isSome && !attempt.eventfd) = false) :
          LetThrough g c (g.holdCommit client c f attempt.inserted) ∨
            ∃ f', Blocked client g c f' (g.holdCommit client c f attempt.inserted) := by
        have hlen : (g.waits (client c.surface)).length < maxWaits := by
          simp only [hasRoom, hf, Option.all_some, heventfd, Bool.or_false, Bool.or_eq_true, List.contains_iff_mem,
            decide_eq_true_eq] at hroom
          exact hroom.resolve_left hready
        exact (holdCommit_spec hf hlen).imp id fun h => ⟨f, h⟩
      dsimp only
      cases hacquire : c.acquire with
      | some acquire =>
          have hf : c.fence = some acquire := by simp [BufferCommit.fence, ha, hacquire]
          dsimp only
          split
          · rename_i hready
            exact Or.inl (hpass rfl rfl (by simp [finished, hf, hready]))
          · rename_i hready
            split
            · rename_i heventfd
              exact hheld hf hready (by simp [heventfd])
            · exact Or.inl (hpass rfl rfl (by simp [finished, hf]))
      | none =>
          have hf : c.fence = some implicit := by simp [BufferCommit.fence, ha, hacquire]
          dsimp only
          split
          · rename_i hready
            exact Or.inl (hpass rfl rfl (by simp [finished, hf, hready]))
          · rename_i hready
            exact hheld hf hready (by simp [hacquire])

/-! ## Steps -/

theorem finished_signals {f : Fence} {q : Queued} (h : g.finished q = true) :
    ({ g with signaled := f :: g.signaled } : Gate).finished q = true := by
  unfold finished at h ⊢
  cases hq : q.commit.fence with
  | none => rfl
  | some f' =>
      rw [hq, Option.all_some, Bool.or_eq_true] at h
      rw [Option.all_some, Bool.or_eq_true]
      refine h.imp (fun hs => ?_) id
      rw [List.contains_iff_mem] at hs ⊢
      exact List.mem_cons_of_mem f hs

theorem Sound.signals (h : Sound g) (f : Fence) : Sound { g with signaled := f :: g.signaled } where
  waiting := h.waiting
  cleared := h.cleared
  blocked x q hq key hb := by
    obtain ⟨hle, hwait, hclear⟩ := h.blocked x q hq key hb
    exact ⟨hle, hwait, fun hk => finished_signals (hclear hk)⟩
  free x q hq hb := finished_signals (h.free x q hq hb)
  current x q hq := finished_signals (h.current x q hq)

/-- A queued commit is one that was, or the one that came last. -/
theorem mem_enqueue {q q' : Queued} {x : WlSurface} (h : q' ∈ (g.enqueue q).queue x) : q' ∈ g.queue x ∨ q' = q := by
  unfold enqueue at h
  dsimp only at h
  rw [Function.update_apply] at h
  split at h
  · rename_i hx
    rw [hx]
    simpa using h
  · exact Or.inl h

theorem Sound.commits (h : Sound g) {c : BufferCommit} {attempt : Attempt}
    (hroom : g.hasRoom client (.commits c attempt) = true) : Sound (g.step client (.commits c attempt)) := by
  change Sound ((g.gateOnReadiness client c attempt).1.enqueue (g.gateOnReadiness client c attempt).2)
  rcases gateOnReadiness_spec hroom with hthrough | ⟨f, hblocked⟩
  · generalize g.gateOnReadiness client c attempt = held at hthrough
    obtain ⟨g', q⟩ := held
    obtain ⟨hrest, hlater, -, hnone, hfin⟩ := hthrough
    dsimp only at hrest hlater hnone hfin ⊢
    rw [hrest]
    refine ⟨fun c wait hw => Nat.le_trans (h.waiting c wait hw) hlater, fun key hk => Nat.le_trans (h.cleared key hk) hlater,
      fun x q' hq key hb => ?_, fun x q' hq hb => ?_, h.current⟩
    · rcases mem_enqueue hq with hq | rfl
      · obtain ⟨hle, hwait, hclear⟩ := h.blocked x q' hq key hb
        exact ⟨Nat.le_trans hle hlater, hwait, hclear⟩
      · rw [hnone] at hb
        cases hb
    · rcases mem_enqueue hq with hq | rfl
      · exact h.free x q' hq hb
      · exact hfin
  · generalize g.gateOnReadiness client c attempt = held at hblocked
    obtain ⟨g', q⟩ := held
    obtain ⟨hfence, hgate, hqueued⟩ := hblocked
    dsimp only at hgate hqueued ⊢
    rw [hgate]
    -- No one knew the new key.
    have hwaits : ∀ c' wait, wait ∈ Function.update g.waits (client c.surface)
        (g.waits (client c.surface) ++ [(g.nextWait + 1, f)]) c' → wait ∈ g.waits c' ∨ wait = (g.nextWait + 1, f) := by
      intro c' wait hw
      rw [Function.update_apply] at hw
      split at hw
      · rename_i hc
        rw [hc]
        simpa using hw
      · exact Or.inl hw
    refine ⟨fun c' wait hw => ?_, fun key hk => Nat.le_succ_of_le (h.cleared key hk), fun x q' hq key hb => ?_,
      fun x q' hq hb => ?_, h.current⟩
    · rcases hwaits c' wait hw with hw | rfl
      · exact Nat.le_succ_of_le (h.waiting c' wait hw)
      · exact Nat.le_refl _
    · rcases mem_enqueue hq with hq | rfl
      · obtain ⟨hle, hwait, hclear⟩ := h.blocked x q' hq key hb
        refine ⟨Nat.le_succ_of_le hle, fun c' f' hw => ?_, hclear⟩
        rcases hwaits c' _ hw with hw | he
        · exact hwait c' f' hw
        · rw [(Prod.mk.inj he).1] at hle
          exact absurd hle (Nat.not_succ_le_self _)
      · rw [hqueued] at hb
        cases hb
        refine ⟨Nat.le_refl _, fun c' f' hw => ?_, fun hk => absurd (h.cleared _ hk) (Nat.not_succ_le_self _)⟩
        rw [hqueued]
        rcases hwaits c' _ hw with hw | he
        · exact absurd (h.waiting c' _ hw) (Nat.not_succ_le_self _)
        · rw [(Prod.mk.inj he).2]
          exact hfence
    · rcases mem_enqueue hq with hq | rfl
      · exact h.free x q' hq hb
      · rw [hqueued] at hb
        cases hb

/-- A blocker is cleared by the source of its own fence. -/
theorem Sound.fire (h : Sound g) (c : ClientId) (key : Nat) : Sound (g.fire c key) := by
  unfold Gate.fire
  split
  · rename_i hready
    obtain ⟨⟨key', f⟩, hwait, hf⟩ := List.any_eq_true.mp hready
    rw [Bool.and_eq_true, beq_iff_eq, List.contains_iff_mem] at hf
    obtain ⟨rfl, hsignaled⟩ := hf
    have hsub : ∀ c' wait, wait ∈ Function.update g.waits c ((g.waits c).filter fun wait => wait.1 ≠ key') c' →
        wait ∈ g.waits c' := by
      intro c' wait hw
      rw [Function.update_apply] at hw
      split at hw
      · rename_i hc
        rw [hc]
        exact List.mem_of_mem_filter hw
      · exact hw
    refine ⟨fun c' wait hw => h.waiting c' wait (hsub c' wait hw), fun k hk => ?_, fun x q hq k hb => ?_, h.free, h.current⟩
    · rcases List.mem_cons.mp hk with rfl | hk
      · exact h.waiting c _ hwait
      · exact h.cleared k hk
    · obtain ⟨hle, hwaits, hclear⟩ := h.blocked x q hq k hb
      refine ⟨hle, fun c' f' hw => hwaits c' f' (hsub c' _ hw), fun hk => ?_⟩
      rcases List.mem_cons.mp hk with rfl | hk
      · change g.finished q = true
        rw [finished, hwaits c f hwait, Option.all_some, List.contains_iff_mem.mpr hsignaled, Bool.true_or]
      · exact hclear hk
  · exact h

/-- What is applied was not blocked, or its blocker was cleared. -/
theorem Sound.applyNext (h : Sound g) (x : WlSurface) : Sound (g.applyNext x) := by
  unfold Gate.applyNext
  split
  · exact h
  · rename_i q rest hqueue
    split
    · rename_i hcleared
      have hmem : q ∈ g.queue x := by rw [hqueue]; exact List.mem_cons_self
      have hfin : g.finished q = true := by
        cases hb : q.blocker with
        | none => exact h.free x q hmem hb
        | some key =>
            rw [hb, Option.all_some, decide_eq_true_eq] at hcleared
            exact (h.blocked x q hmem key hb).2.2 hcleared
      have hsub : ∀ x' q', q' ∈ Function.update g.queue x rest x' → q' ∈ g.queue x' := by
        intro x' q' hq
        rw [Function.update_apply] at hq
        split at hq
        · rename_i hx
          rw [hx, hqueue]
          exact List.mem_cons_of_mem q hq
        · exact hq
      refine ⟨h.waiting, h.cleared, fun x' q' hq => h.blocked x' q' (hsub x' q' hq),
        fun x' q' hq => h.free x' q' (hsub x' q' hq), fun x' q' hq => ?_⟩
      dsimp only at hq
      split at hq
      · exact h.current x' q' hq
      · rw [Function.update_apply] at hq
        split at hq
        · cases hq
          exact hfin
        · exact h.current x' q' hq
    · exact h

theorem Sound.reaps (h : Sound g) (c : ClientId) : Sound { g with waits := Function.update g.waits c [] } := by
  have hsub : ∀ c' wait, wait ∈ Function.update g.waits c [] c' → wait ∈ g.waits c' := by
    intro c' wait hw
    rw [Function.update_apply] at hw
    split at hw
    · cases hw
    · exact hw
  refine ⟨fun c' wait hw => h.waiting c' wait (hsub c' wait hw), h.cleared, fun x q hq key hb => ?_, h.free, h.current⟩
  obtain ⟨hle, hwait, hclear⟩ := h.blocked x q hq key hb
  exact ⟨hle, fun c' f hw => hwait c' f (hsub c' _ hw), hclear⟩

theorem Sound.step (h : Sound g) {op : GateOp} (hroom : g.hasRoom client op = true) : Sound (g.step client op) := by
  cases op with
  | commits c attempt => exact h.commits hroom
  | signals f => exact h.signals f
  | fires c key => exact h.fire c key
  | applies x => exact h.applyNext x
  | reaps c => exact h.reaps c

/-! ## Runs -/

/-- In every run in which no commit finds its client's waits used up while its fence has not signaled, the shell is
handed only buffers whose fences signaled, or for which no wait could be made. -/
theorem run_finished (client : WlSurface → ClientId) (ops : List GateOp)
    (hok : Runs.Meets (step client) (fun g op => g.hasRoom client op = true) {} ops) (xs : List WlSurface) :
    ∀ q ∈ (run client ops).handed xs, (run client ops).finished q = true := by
  have hsound : Sound (run client ops) := hok.keeps (P := Sound) (fun _ _ hroom h => h.step hroom) Sound.empty
  intro q hq
  obtain ⟨x, -, hx⟩ := List.mem_filterMap.mp hq
  exact hsound.current x q hx

/-- A commit waits for its acquire point, and is applied once that signaled. -/
def readyRun : List GateOp :=
  [.commits ⟨1, .dmabuf 1 1, some 2⟩ {}, .applies 1, .signals 2, .fires 0 1, .applies 1]

theorem run_finished_ready : ((run (fun _ => 0) readyRun).handed [1]).length = 1 ∧
    ∀ q ∈ (run (fun _ => 0) readyRun).handed [1], (run (fun _ => 0) readyRun).finished q = true :=
  ⟨by decide, run_finished (fun _ => 0) readyRun (by decide) [1]⟩

/-- As many commits of one surface wait as may, and one of another surface comes. -/
def crowdedRun : List GateOp :=
  (List.range maxWaits).map (fun i => .commits ⟨1, .dmabuf i i, none⟩ {}) ++
    [.commits ⟨2, .dmabuf maxWaits maxWaits, none⟩ {}, .applies 2]

/-- It is applied at once, and its buffer handed over before its fence signaled. -/
theorem not_finished : ¬∀ (client : WlSurface → ClientId) (ops : List GateOp) (xs : List WlSurface),
    ∀ q ∈ (run client ops).handed xs, (run client ops).finished q = true := by
  intro h
  have hfinished := h (fun _ => 0) crowdedRun [2] { commit := ⟨2, .dmabuf maxWaits maxWaits, none⟩ } (by decide +kernel)
  revert hfinished
  decide +kernel

end Gate

end IhsWl
