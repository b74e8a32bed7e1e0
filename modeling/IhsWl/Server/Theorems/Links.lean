import IhsWl.Server.Lemmas.Sound

/-!
# Views, toplevels and tokens

A view and its toplevel name each other, and a view shows only what it was authorized to: in every state
a run reaches.
-/

namespace IhsWl

open State

variable {w : World} {guard : State → Event → Prop} {s s' : State}

/-! ## Pairs -/

/-- Views and toplevels form a partial bijection in every reachable state. -/
theorem run_bijection (w : World) (depth : Nat) (es : List Event) :
    (∀ v t, (run w depth es).shows v = some t ↔ (run w depth es).shownIn t = some v) ∧
    (∀ v t, (run w depth es).shows v = some t →
      ∃ te, (run w depth es).toplevel t = some te ∧ te.mapped = true) ∧
    (∀ v v' t, (run w depth es).shows v = some t → (run w depth es).shows v' = some t → v = v') ∧
    (∀ v t, (run w depth es).shownIn t = some v → ((run w depth es).view v).isSome = true) := by
  obtain ⟨hp, hsound⟩ := run_sound w depth es
  generalize run w depth es = s at hp hsound ⊢
  refine ⟨hp, fun v t hs => ?_, fun v v' t hs hs' => ?_, fun v t hs => ?_⟩
  · obtain ⟨te, hte, hv⟩ := Option.bind_eq_some_iff.mp ((hp v t).mp hs)
    exact ⟨te, hte, hsound.bound t te hte (by rw [hv]; rfl)⟩
  · exact Option.some.inj (((hp v t).mp hs).symm.trans ((hp v' t).mp hs'))
  · obtain ⟨e, he, -⟩ := Option.bind_eq_some_iff.mp ((hp v t).mpr hs)
    rw [he]
    rfl

/-! ## Tokens -/

/-- The toplevel was marked with the token. -/
def Marked (s : State) (t : ToplevelId) (token : String) : Prop := .activated t token ∈ s.trace

/-- The module issued the token. -/
def Issued (s : State) (token : String) : Prop := .issued token ∈ s.trace

/-- What is known of the tokens: they were minted once each, those the module made it issued, and one
used marks a single toplevel and is known no more. -/
structure Tokens (w : World) (s : State) : Prop where
  minted : ∀ token ∈ s.tokens, ∃ i < s.minted, token.value = w.mint i
  issued : ∀ token ∈ s.tokens, token.issued = true → Issued s token.value
  marks : ∀ t value, Marked s t value → Issued s value ∧ (∃ i < s.minted, value = w.mint i) ∧
    ∀ token ∈ s.tokens, token.value ≠ value
  once : ∀ t t' value, Marked s t value → Marked s t' value → t = t'
  carried : ∀ t te value, s.toplevel t = some te → te.token = some value → Marked s t value

/-- An effect that tells of a token. -/
def Effect.ofToken : Effect → Bool
  | .issued _ | .activated _ _ => true
  | _ => false

/-- Nothing was done to the tokens but forget some, and no toplevel carries another. -/
structure SameTokens (s s' : State) : Prop where
  tokens : ∀ token ∈ s'.tokens, token ∈ s.tokens
  minted : s'.minted = s.minted
  trace : ∃ es, s'.trace = s.trace ++ es ∧ ∀ x ∈ es, x.ofToken = false
  carried : ∀ t te' value, s'.toplevel t = some te' → te'.token = some value →
    ∃ te, s.toplevel t = some te ∧ te.token = some value

namespace SameTokens

theorem marked (h : SameTokens s s') (t : ToplevelId) (value : String) : Marked s' t value ↔ Marked s t value := by
  obtain ⟨es, he, hes⟩ := h.trace
  rw [Marked, he, List.mem_append]
  refine or_iff_left fun hx => ?_
  cases hes _ hx

theorem issued (h : SameTokens s s') (value : String) : Issued s' value ↔ Issued s value := by
  obtain ⟨es, he, hes⟩ := h.trace
  rw [Issued, he, List.mem_append]
  refine or_iff_left fun hx => ?_
  cases hes _ hx

theorem keeps (h : SameTokens s s') (ht : Tokens w s) : Tokens w s' where
  minted token hm := by rw [h.minted]; exact ht.minted token (h.tokens token hm)
  issued token hm hi := (h.issued _).mpr (ht.issued token (h.tokens token hm) hi)
  marks t value hm := by
    obtain ⟨hi, hv, hn⟩ := ht.marks t value ((h.marked t value).mp hm)
    exact ⟨(h.issued value).mpr hi, h.minted ▸ hv, fun token hk => hn token (h.tokens token hk)⟩
  once t t' value hm hm' := ht.once t t' value ((h.marked t value).mp hm) ((h.marked t' value).mp hm')
  carried t te' value hte hv := by
    obtain ⟨te, hte, hv⟩ := h.carried t te' value hte hv
    exact (h.marked t value).mpr (ht.carried t te value hte hv)

theorem trans {t : State} (h : SameTokens s s') (h' : SameTokens s' t) : SameTokens s t := by
  obtain ⟨es, he, hes⟩ := h.trace
  obtain ⟨es', he', hes'⟩ := h'.trace
  refine ⟨fun token hm => h.tokens token (h'.tokens token hm), h'.minted.trans h.minted,
    ⟨es ++ es', by rw [he', he, List.append_assoc], fun x hx => (List.mem_append.mp hx).elim (hes x) (hes' x)⟩, ?_⟩
  intro id te' value hte hv
  obtain ⟨te, hte, hv⟩ := h'.carried id te' value hte hv
  exact h.carried id te value hte hv

/-- Only what concerns neither toplevels nor tokens changed. -/
theorem of_rest {s' : State} (h : s' = { s with
    surfaces := s'.surfaces, subsurfaces := s'.subsurfaces, popups := s'.popups
    connected := s'.connected, views := s'.views, focusedView := s'.focusedView }) : SameTokens s s' := by
  rw [h]
  exact ⟨fun _ h => h, rfl, ⟨[], by simp, by simp⟩, fun _ te' _ hte hv => ⟨te', hte, hv⟩⟩

theorem log {es : List Effect} (h : ∀ x ∈ es, x.ofToken = false) : SameTokens s (s.log es) :=
  ⟨fun _ h => h, rfl, ⟨es, rfl, h⟩, fun _ te' _ hte hv => ⟨te', hte, hv⟩⟩

theorem modifyToplevel {f : ToplevelEntry → ToplevelEntry} (id : ToplevelId)
    (hf : ∀ te, (f te).token = te.token) : SameTokens s (s.modifyToplevel id f) := by
  refine ⟨fun _ h => h, rfl, ⟨[], (List.append_nil _).symm, by simp⟩, fun t te' value hte hv => ?_⟩
  rw [toplevel_modifyToplevel] at hte
  split at hte
  · rename_i h
    obtain ⟨te, hte₀, rfl⟩ := Option.map_eq_some_iff.mp hte
    exact ⟨te, h ▸ hte₀, (hf te) ▸ hv⟩
  · exact ⟨te', hte, hv⟩

end SameTokens

theorem SameLinks.sameTokens (h : SameLinks s s') : SameTokens s s' := by
  obtain ⟨es, he, hes⟩ := h.trace
  refine ⟨fun _ hm => h.tokens ▸ hm, h.minted, ⟨es, he, fun x hx => ?_⟩, fun t te' value hte hv => ?_⟩
  · have := hes x hx
    cases x <;> first | rfl | cases this
  · exact ⟨te', by rwa [h.toplevel] at hte, hv⟩

theorem unlink_sameTokens (s : State) (v : ViewId) : SameTokens s (s.unlink v) := by
  unfold unlink
  split
  · exact .of_rest rfl
  · rename_i e _
    have hviews (f : ViewEntry → ViewEntry) : SameTokens s (s.modifyView v f) := .of_rest rfl
    have hclear : ∀ x ∈ (e.holds.clear v).2, x.ofToken = false := by
      intro x hx
      obtain ⟨h, -, rfl⟩ := List.mem_map.mp hx
      rfl
    dsimp only
    split
    · exact (hviews _).trans (.log hclear)
    · refine (((hviews _).trans (.log hclear)).trans (.modifyToplevel _ ?_)).trans (.log ?_)
      · exact fun _ => rfl
      · simp [Effect.ofToken]

/-- What an act does to the tokens. -/
theorem Act.tokens (ha : Act w guard s s') : SameTokens s s' ∨ s' = s.clientToken w ∨
    s' = s.issueActivationToken w ∨
    ∃ id, ∃ token ∈ s.tokens, token.issued = true ∧ s' = s.markActivated id token.value := by
  cases ha with
  | same _ hl => exact Or.inl hl.sameTokens
  | mapped x id te hid hte hm =>
      refine Or.inl ((SameTokens.modifyToplevel id ?_).trans (.log ?_))
      · exact fun _ => rfl
      · simp [Effect.ofToken]
  | linked v e t hv he hp =>
      have hview (r : State) (f : ViewEntry → ViewEntry) : SameTokens r (r.modifyView v f) := .of_rest rfl
      refine Or.inl (((SameTokens.modifyToplevel t ?_).trans (hview _ _)).trans (.log ?_))
      · exact fun _ => rfl
      · simp [Effect.ofToken]
  | unlinked v es hes =>
      refine Or.inl ((unlink_sameTokens s v).trans (.log fun x hx => ?_))
      rw [hes x hx]
      rfl
  | made x hx hr =>
      refine Or.inl ⟨fun _ h => h, rfl, ⟨[], (List.append_nil _).symm, by simp⟩, fun t te' value hte hv => ?_⟩
      simp only [newToplevel, State.toplevel, Toplevels.get_insert] at hte
      split at hte
      · cases hte; cases hv
      · exact ⟨te', hte, hv⟩
  | removed s₀ x id hid hs hg =>
      refine Or.inl ⟨fun _ h => h, rfl, ⟨[], (List.append_nil _).symm, by simp⟩, fun t te' value hte hv => ?_⟩
      simp only [removeToplevel, State.toplevel, Toplevels.get_remove] at hte
      split at hte
      · cases hte
      · exact ⟨te', hte, hv⟩
  | tokenDropped value =>
      exact Or.inl ⟨fun token hm => (List.mem_filter.mp hm).1, rfl, ⟨[], (List.append_nil _).symm, by simp⟩,
        fun _ te' _ hte hv => ⟨te', hte, hv⟩⟩
  | tokenMade => exact Or.inr (Or.inl rfl)
  | tokenIssued => exact Or.inr (Or.inr (Or.inl rfl))
  | tokenUsed id token hmem hissued => exact Or.inr (Or.inr (Or.inr ⟨id, token, hmem, hissued, rfl⟩))
  | _ => exact Or.inl (.of_rest rfl)

namespace Tokens

theorem empty : Tokens w {} := by
  constructor <;> simp [Marked, State.toplevel]

/-- A token minted now is none of those used before. -/
theorem fresh (h : Tokens w s) (hmint : Function.Injective w.mint) {t : ToplevelId} {value : String}
    (hm : Marked s t value) : w.mint s.minted ≠ value := by
  obtain ⟨-, ⟨i, hlt, rfl⟩, -⟩ := h.marks t value hm
  exact fun he => absurd (hmint he) (Nat.ne_of_gt hlt)

/-- A token was minted, and issued when the module made it. -/
theorem mint (h : Tokens w s) (hmint : Function.Injective w.mint) (b : Bool) (es : List Effect)
    (hs' : s' = { s with
      tokens := s.tokens ++ [⟨w.mint s.minted, b⟩], minted := s.minted + 1, trace := s.trace ++ es })
    (hes : ∀ t value, .activated t value ∉ es) (hissued : b = true → .issued (w.mint s.minted) ∈ es) :
    Tokens w s' := by
  subst hs'
  have hmarked {t : ToplevelId} {value : String} (hm : .activated t value ∈ s.trace ++ es) : Marked s t value :=
    (List.mem_append.mp hm).resolve_right (hes t value)
  have hmem {token : Token} (hm : token ∈ s.tokens ++ [⟨w.mint s.minted, b⟩]) :
      token ∈ s.tokens ∨ token = ⟨w.mint s.minted, b⟩ :=
    (List.mem_append.mp hm).imp_right List.mem_singleton.mp
  refine ⟨fun token hm => ?_, fun token hm hi => ?_, fun t value hm => ?_,
    fun t t' value hm hm' => h.once t t' value (hmarked hm) (hmarked hm'),
    fun t te value hte hv => List.mem_append_left _ (h.carried t te value hte hv)⟩
  · rcases hmem hm with hm | rfl
    · obtain ⟨i, hi, hv⟩ := h.minted token hm
      exact ⟨i, Nat.lt_succ_of_lt hi, hv⟩
    · exact ⟨s.minted, Nat.lt_succ_self _, rfl⟩
  · rcases hmem hm with hm | rfl
    · exact List.mem_append_left _ (h.issued token hm hi)
    · exact List.mem_append_right _ (hissued hi)
  · obtain ⟨hi, ⟨i, hlt, hv⟩, hn⟩ := h.marks t value (hmarked hm)
    refine ⟨List.mem_append_left _ hi, ⟨i, Nat.lt_succ_of_lt hlt, hv⟩, fun token hk => ?_⟩
    rcases hmem hk with hk | rfl
    · exact hn token hk
    · exact h.fresh hmint (hmarked hm)

/-- A known token marks a toplevel, and is forgotten. -/
theorem use (h : Tokens w s) (id : ToplevelId) {token : Token} (hmem : token ∈ s.tokens)
    (hissued : token.issued = true) : Tokens w (s.markActivated id token.value) := by
  have hunused {t : ToplevelId} {value : String} (hm : Marked s t value) : token.value ≠ value :=
    (h.marks t value hm).2.2 token hmem
  have hmarked {t : ToplevelId} {value : String} (hm : Marked (s.markActivated id token.value) t value) :
      Marked s t value ∨ (t = id ∧ value = token.value) := by
    refine (List.mem_append.mp hm).imp_right fun hx => ?_
    cases List.mem_singleton.mp hx
    exact ⟨rfl, rfl⟩
  refine ⟨fun tok hm => h.minted tok (List.mem_filter.mp hm).1,
    fun tok hm hi => List.mem_append_left _ (h.issued tok (List.mem_filter.mp hm).1 hi),
    fun t value hm => ?_, fun t t' value hm hm' => ?_, fun t te value hte hv => ?_⟩
  · rcases hmarked hm with hm | ⟨rfl, rfl⟩
    · obtain ⟨hi, hv, hn⟩ := h.marks t value hm
      exact ⟨List.mem_append_left _ hi, hv, fun tok hk => hn tok (List.mem_filter.mp hk).1⟩
    · refine ⟨List.mem_append_left _ (h.issued token hmem hissued), h.minted token hmem, fun tok hk => ?_⟩
      simpa using (List.mem_filter.mp hk).2
  · rcases hmarked hm with h₁ | ⟨ht, rfl⟩ <;> rcases hmarked hm' with h₂ | ⟨ht', he⟩
    · exact h.once t t' value h₁ h₂
    · exact absurd he.symm (hunused h₁)
    · exact absurd rfl (hunused h₂)
    · exact ht.trans ht'.symm
  · simp only [markActivated, toplevel_log, toplevel_modifyToplevel] at hte
    split at hte
    · rename_i ht
      obtain ⟨te₀, -, rfl⟩ := Option.map_eq_some_iff.mp hte
      cases hv
      exact List.mem_append_right _ (by rw [ht]; exact List.mem_singleton.mpr rfl)
    · exact List.mem_append_left _ (h.carried t te value hte hv)

theorem act (h : Tokens w s) (hmint : Function.Injective w.mint) (ha : Act w guard s s') : Tokens w s' := by
  rcases ha.tokens with hsame | hs' | hs' | ⟨id, token, hmem, hissued, hs'⟩
  · exact hsame.keeps h
  · exact h.mint hmint false [] (by simp [hs', clientToken]) (by simp) (by simp)
  · exact h.mint hmint true _ hs' (by simp) (by simp)
  · exact hs' ▸ h.use id hmem hissued

end Tokens

/-! ## Authorization -/

/-- What `try_bind_view` checked of a pair it bound, in terms of what no client can change later. -/
structure Matches (w : World) (s : State) (params : ViewParams) (t : ToplevelId) (x : WlSurface) : Prop where
  sandbox : ∀ sandbox, params.sandboxAppId = some sandbox →
    (securityContextOf w x).bind SecurityContext.appId = some sandbox
  token : ∀ value, params.token = some value → Marked s t value
  appId : ∀ appId context, params.token = none → params.appId = some appId →
    securityContextOf w x = some context → context.appId = some appId

/-- Every view shows only what matches it. -/
def Matched (w : World) (s : State) : Prop :=
  ∀ v e t te, s.view v = some e → e.toplevel = some t → s.toplevel t = some te →
    Matches w s e.handle.params t te.surface

/-- The rules of `wants` decide a match. -/
theorem matches_of_wants (htok : Tokens w s) {params : ViewParams} {t : ToplevelId} {te : ToplevelEntry}
    (hte : s.toplevel t = some te) (h : s.wants w params te = true) : Matches w s params t te.surface := by
  rw [wants, Bool.and_eq_true] at h
  obtain ⟨hsandbox, hrule⟩ := h
  refine ⟨fun sandbox hs => ?_, fun value hv => ?_, fun appId context hnone hid hc => ?_⟩
  · rw [inSandbox, hs] at hsandbox
    exact beq_iff_eq.mp hsandbox
  · rw [if_pos (by simp [hv]), hv] at hrule
    exact htok.carried t te value hte (beq_iff_eq.mp hrule)
  · split at hrule
    · rename_i hor
      rw [hnone, beq_iff_eq] at hrule
      simp [hnone, hrule] at hor
    · rw [hid, Bool.and_eq_true, beq_iff_eq, ownsAppId, hc, beq_iff_eq] at hrule
      rw [hrule.1, hrule.2]

theorem Matched.act (h : Matched w s) (hp : Paired s) (htok : Tokens w s) (ha : Act w guard s s') :
    Matched w s' := by
  have hmarks : ∀ t value, Marked s t value → Marked s' t value := by
    rcases ha.tokens with hsame | rfl | rfl | ⟨id, token, -, -, rfl⟩
    · exact fun t value => (hsame.marked t value).mpr
    · exact fun _ _ hm => hm
    · exact fun _ _ hm => List.mem_append_left _ hm
    · exact fun _ _ hm => List.mem_append_left _ hm
  intro v e' t te' hv hshows hte'
  obtain ⟨e, he, hhandle, hfrom⟩ := ha.handle hv hshows
  -- It is not the toplevel just made, for no view shows that one.
  obtain ⟨te, hte, hsurface⟩ : ∃ te, s.toplevel t = some te ∧ te.surface = te'.surface := by
    rcases ha.entry hte' with ⟨te, hte, hfrom⟩ | ⟨rfl, -⟩
    · exact ⟨te, hte, hfrom.surface.symm⟩
    · rcases hfrom with hf | ⟨-, hpick, rfl⟩
      · have hs : s.shows v = some (s.toplevels.nextId + 1) := by rw [shows, he]; exact hf
        obtain ⟨te, hte, -⟩ := Option.bind_eq_some_iff.mp ((hp v _).mp hs)
        exact absurd (Toplevels.le_nextId hte) (Nat.not_succ_le_self _)
      · obtain ⟨te, hte, -⟩ := pick_spec hpick
        exact absurd (Toplevels.le_nextId hte) (Nat.not_succ_le_self _)
  have hmatch : Matches w s e.handle.params t te.surface := by
    rcases hfrom with hf | ⟨-, hpick, -⟩
    · exact h v e t te he hf hte
    · obtain ⟨te₀, hte₀, -, hwants⟩ := pick_spec hpick
      cases hte.symm.trans hte₀
      exact matches_of_wants htok hte hwants
  rw [← hhandle, ← hsurface]
  exact ⟨hmatch.sandbox, fun value hv => hmarks t value (hmatch.token value hv), hmatch.appId⟩

/-- A view shows only a toplevel it was authorized to, whatever clients did before. -/
theorem run_authorized (w : World) (depth : Nat) (es : List Event) (hmint : Function.Injective w.mint)
    (v : ViewId) (e : ViewEntry) (t : ToplevelId) (te : ToplevelEntry) (hv : (run w depth es).view v = some e)
    (hshows : e.toplevel = some t) (hte : (run w depth es).toplevel t = some te) :
    (∀ sandbox, e.handle.params.sandboxAppId = some sandbox →
      (securityContextOf w te.surface).bind SecurityContext.appId = some sandbox) ∧
    (∀ value, e.handle.params.token = some value →
      Marked (run w depth es) t value ∧ Issued (run w depth es) value ∧
        ∀ t', Marked (run w depth es) t' value → t' = t) ∧
    (∀ appId context, e.handle.params.token = none → e.handle.params.appId = some appId →
      securityContextOf w te.surface = some context → context.appId = some appId) := by
  obtain ⟨-, htok, hmatched⟩ : Paired (run w depth es) ∧ Tokens w (run w depth es) ∧ Matched w (run w depth es) := by
    refine run_keeps (P := fun s => Tokens w s ∧ Matched w s)
      (fun hp h ha => ⟨h.1.act hmint ha, h.2.act hp h.1 ha⟩) ⟨.empty, ?_⟩ (meets_anything depth es {})
    intro v e t te hv
    simp [State.view] at hv
  have h := hmatched v e t te hv hshows hte
  refine ⟨h.sandbox, fun value hval => ?_, h.appId⟩
  have hm := h.token value hval
  exact ⟨hm, (htok.marks t value hm).1, fun t' hm' => htok.once t' t value hm' hm⟩

/-- A sandboxed client activates its toplevel with an issued token, and the view that names it opens. -/
def tokenRun : List Event :=
  [.newToplevel 10, .commit { main := { surface := 10 } }, .cmd .issueToken,
    .activate 10 (World.granting.mint 0),
    .cmd (.viewCreated { uid := 0, id := 3, params :=
      { token := some (World.granting.mint 0), sandboxAppId := some "org.a" } })]

theorem run_authorized_token : (securityContextOf World.granting 10).bind SecurityContext.appId = some "org.a" ∧
    Marked (run World.granting 1 tokenRun) 1 (World.granting.mint 0) := by
  have h := run_authorized World.granting 1 tokenRun World.mint_granting 3
    (((run World.granting 1 tokenRun).view 3).get (by decide +kernel)) 1
    (((run World.granting 1 tokenRun).toplevel 1).get (by decide +kernel))
    (Option.some_get _).symm (by decide +kernel) (Option.some_get _).symm
  have hparams : (((run World.granting 1 tokenRun).view 3).get (by decide +kernel)).handle.params =
      { token := some (World.granting.mint 0), sandboxAppId := some "org.a" } := by decide +kernel
  have hsurface : (((run World.granting 1 tokenRun).toplevel 1).get (by decide +kernel)).surface = 10 := by
    decide +kernel
  rw [hparams, hsurface] at h
  exact ⟨h.1 _ rfl, (h.2.1 _ rfl).1⟩

end IhsWl
