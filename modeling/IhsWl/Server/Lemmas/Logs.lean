import IhsWl.Server.Lemmas.Settles

/-!
# What applying commits does

No commit applied gives a buffer back because a frame was shown, or because a view let go of it; nor does one send frame
callbacks.
-/

namespace IhsWl

open State

variable {w : World} {s s' t : State} {P : Effect → Prop}

/-- What was done since is as `P` says. -/
def Logs (P : Effect → Prop) (s s' : State) : Prop := ∃ es, s'.trace = s.trace ++ es ∧ ∀ x ∈ es, P x

namespace Logs

theorem none (h : s'.trace = s.trace) : Logs P s s' := ⟨[], by simp [h], by simp⟩

theorem log {es : List Effect} (h : ∀ x ∈ es, P x) : Logs P s (s.log es) := ⟨es, rfl, h⟩

theorem trans (h : Logs P s s') (h' : Logs P s' t) : Logs P s t := by
  obtain ⟨es, he, hes⟩ := h
  obtain ⟨es', he', hes'⟩ := h'
  refine ⟨es ++ es', by rw [he', he, List.append_assoc], fun x hx => ?_⟩
  rcases List.mem_append.mp hx with hx | hx
  · exact hes x hx
  · exact hes' x hx

theorem foldl {α : Type*} {f : State → α → State} (h : ∀ s a, Logs P s (f s a)) (as : List α) (s : State) :
    Logs P s (as.foldl f s) := by
  induction as generalizing s with
  | nil => exact none rfl
  | cons a as ih => exact (h s a).trans (ih (f s a))

end Logs

/-- What applying commits may do: no buffer goes back because the shell is done with it, and frame callbacks are
sent only when no timer could be set. -/
def Effect.commits (w : World) : Effect → Prop
  | .gaveBack _ _ .shown => False
  | .gaveBack _ _ .cleared => False
  | .done _ _ => ∃ k, w.timer k = false
  | _ => True

theorem Effect.commits_of_queued {x : Effect} (h : x.queued = true) : x.commits w := by
  cases x <;> first | exact trivial | cases h

theorem Effect.commits_of_quiet {x : Effect} (h : x.quiet = true) : x.commits w := by
  cases x with
  | gaveBack v b why => cases why <;> first | exact trivial | cases h
  | _ => first | exact trivial | cases h

namespace State

theorem takeTrees_trace (s : State) (roots : List WlSurface) : (s.takeTrees roots).2.trace = s.trace := by
  rw [takeTrees_rest]

theorem sendViewCallbacks_logs (hP : ∀ cb time, P (.done cb time)) (v : ViewId) (ustNs : Nat) :
    Logs P s (s.sendViewCallbacks w v ustNs) := by
  refine .foldl (fun s root => ⟨_, rfl, fun x hx => ?_⟩) _ s
  obtain ⟨cb, -, rfl⟩ := List.mem_map.mp hx
  exact hP cb _

theorem admitLoose_logs (c : Option ClientId) (barriers : List Barrier) (hn : ∀ n, P (.holding n))
    (hb : ∀ b, P (.signal b)) : Logs P s (s.admitLoose w c barriers).2 := by
  unfold admitLoose
  split
  · exact .none rfl
  · split
    · refine .log fun x hx => ?_
      obtain ⟨b, -, rfl⟩ := List.mem_map.mp hx
      exact hb b
    · refine ⟨_, rfl, fun x hx => ?_⟩
      rcases List.mem_cons.mp hx with rfl | hx
      · exact hn _
      · obtain ⟨l, -, rfl⟩ := List.mem_map.mp hx
        exact hb _

end State

theorem Pace.commits {paid taken : Set Debt} (h : Pace w s paid taken s') : Logs (·.commits w) s s' := by
  have hdiscarded (r : State) (tk : Taken) : Logs (·.commits w) r (r.log tk.notShown.2) :=
    .log (by simp [Taken.notShown, Effect.commits])
  have hquiet {r r' : State} (hq : Quiet r r') : Logs (·.commits w) r r' := by
    obtain ⟨es, he, hes⟩ := hq.trace
    exact ⟨es, he, fun x hx => Effect.commits_of_quiet (hes x hx)⟩
  cases h with
  | unblocked c => exact .log (by simp [Effect.commits])
  | looseReleased =>
      refine ⟨_, rfl, fun x hx => ?_⟩
      obtain ⟨l, -, rfl⟩ := List.mem_map.mp hx
      trivial
  | framesReleased =>
      refine ⟨_, rfl, fun x hx => ?_⟩
      obtain ⟨v, -, hx⟩ := List.mem_flatMap.mp hx
      cases hv : s.view v with
      | none => simp [hv] at hx
      | some e =>
          simp only [hv, Option.map_some, Option.getD_some] at hx
          exact Effect.commits_of_queued (FramesOp.queued_call e.frames .releaseAll x hx)
  | applied c =>
      refine ⟨_, rfl, fun x hx => ?_⟩
      obtain ⟨cb, -, rfl⟩ := List.mem_map.mp hx
      trivial
  | called v ustNs hk => exact sendViewCallbacks_logs (fun _ _ => hk) v ustNs
  | quiet _ hq => exact hquiet hq
  | unshown root tk s₁ dueNs _ ht ha =>
      have h1 := takeTrees_trace s [root]
      have h2 := admitLoose_logs (P := (·.commits w)) (w := w) (s := s₁.log tk.notShown.2) (s.clientOf w root)
        tk.barriers (fun _ => trivial) fun _ => trivial
      rw [ht] at h1
      rw [ha] at h2
      exact ((Logs.none h1).trans (hdiscarded s₁ tk)).trans h2
  | refused v root tk s₁ s₂ dueNs _ hr ht hq ha =>
      have h1 := takeTrees_trace s (s.viewTrees v)
      have h2 := admitLoose_logs (P := (·.commits w)) (w := w) (s := s₂.log tk.notShown.2) (s.clientOf w root)
        tk.barriers (fun _ => trivial) fun _ => trivial
      rw [ht] at h1
      rw [ha] at h2
      exact (((Logs.none h1).trans (hquiet hq)).trans (hdiscarded s₂ tk)).trans h2
  | listed v dueNs =>
      refine .none ?_
      unfold listUnsubmitted
      split <;> rfl
  | pushed v root tk s₁ s₂ seq shown released _ hr ht hq hp =>
      have h1 := takeTrees_trace s (s.viewTrees v)
      have h2 : Logs (·.commits w) s₂ (s₂.pushFrame w v seq shown tk).2 := by
        unfold pushFrame
        split
        · exact .none rfl
        · rename_i e _
          refine ⟨_, rfl, fun x hx => ?_⟩
          exact Effect.commits_of_queued (FramesOp.queued_call e.frames (.push ⟨w.now s₂.asked, seq, shown, tk⟩) x hx)
      rw [ht] at h1
      rw [hp] at h2
      exact ((Logs.none h1).trans (hquiet hq)).trans h2
  | _ => exact .none rfl

/-- All that applying commits does. -/
theorem Settles.commits {D E : Set Debt} (h : Settles w s D s' E) : Logs (·.commits w) s s' := by
  refine h.related (fun s => .none rfl) (fun h h' => h.trans h') ?_
  rintro s paid taken s' hm
  cases hm with
  | pace hm => exact hm.commits
  | mapped x id te hid hte hmapped => exact .log (by simp [Effect.commits])
  | linked v e t hv he hp => exact .log (by simp [Effect.commits])

end IhsWl
