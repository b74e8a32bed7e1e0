import IhsWl.Hosting
import IhsWl.Server.Theorems.Mirror
import IhsWl.Server.Theorems.Senders
import IhsWl.Widget.Runs

/-!
# What an event does to a view it is not about, and an op to what the app knows of it
-/

namespace IhsWl

open State

/-! ## The server -/

section

variable {w : World} {s s' : State} {v : ViewId} {e : Event}

theorem handles_eq_none : s.handles v = none ↔ s.view v = none := Option.map_eq_none_iff

theorem Deed.spared {paid taken : Set Debt} (h : Deed w (fun _ e => sparesView v e = true) s paid taken s') :
    s'.handles v = s.handles v := by
  cases h with
  | move hm => exact congrFun (Deed.handles (w := w) (.move hm)) v
  | inserted s₀ view hv hg =>
      have hne : v ≠ view.id := fun hvv => by simp [sparesView, hvv] at hg
      simp [State.handles, insertView, State.view, Table.get_insert, hne]
  | erased s₀ v₀ hv hg =>
      have hne : v ≠ v₀ := fun hvv => by simp [sparesView, hvv] at hg
      simp [State.handles, eraseView, State.view, Table.get_erase, hne]
  | unlinked v₀ => exact handle_unlink s v₀ v
  | called v₀ ustNs => exact (sendViewCallbacks_links w s v₀ ustNs).later.handles v
  | framesCleared v₀ => exact (clearFrames_links s v₀).later.handles v
  | reported v₀ r => exact (takeReport_links s v₀ r).later.handles v
  | suspendedSet _ v₀ suspended => exact (setSuspended_links s v₀ suspended).later.handles v
  | targeted x => exact (addTimed_links s x).later.handles v
  | ticked hg =>
      have hdisarm : SameLinks s s.disarm := .of_data rfl
      exact (hdisarm.trans (sweep_links _ _)).later.handles v
  | _ => rfl

/-- What a deed tells a view neither created nor disposed of, and what that says of what it shows. -/
structure Notified (v : ViewId) (s : State) (paid taken : Set Debt) (s' : State) : Prop where
  owed : .tell v ∉ paid
  trace : ∃ es, s'.trace = s.trace ++ es ∧
    (posts v es = [] ∧ (s'.shows v = s.shows v ∨ .tell v ∈ taken) ∨ posts v es ≠ [] ∧ (s.view v).isSome = true)

theorem Untold.notified {paid taken : Set Debt} (h : Untold v s s') (hpaid : .tell v ∉ paid) : Notified v s paid taken s' := by
  obtain ⟨es, he, hp, -⟩ := h.trace
  exact ⟨hpaid, es, he, Or.inl ⟨hp, Or.inl h.shows⟩⟩

theorem Deed.notified {paid taken : Set Debt} (h : Deed w (fun _ e => sparesView v e = true) s paid taken s') :
    Notified v s paid taken s' := by
  cases h with
  | move hm =>
      have hpaid : .tell v ∉ paid := by
        cases hm with
        | pace hm => cases hm <;> simp [armsFrom]
        | mapped => simp
        | linked => simp
      rcases hm.posting v with h | ⟨-, hlive, t, rfl⟩
      · exact h.notified hpaid
      · exact ⟨hpaid, _, rfl, Or.inr ⟨by simp [posts], hlive⟩⟩
  | unlinked v₀ es hes =>
      obtain ⟨left, hleft, hquiet⟩ := unlink_trace s v₀
      refine ⟨by simp, left ++ es, by rw [log, hleft, List.append_assoc], ?_⟩
      rw [posts_append, (hquiet v).1, List.nil_append]
      by_cases hvv : v = v₀
      · subst hvv
        rcases hes with rfl | ⟨hshown, rfl⟩
        · exact Or.inl ⟨rfl, Or.inr (Or.inr (Or.inr ⟨rfl, rfl⟩))⟩
        · refine Or.inr ⟨by simp [posts], ?_⟩
          obtain ⟨t, ht⟩ := Option.isSome_iff_exists.mp hshown
          obtain ⟨e, he, -⟩ := Option.bind_eq_some_iff.mp ht
          rw [he]
          rfl
      · refine Or.inl ⟨?_, Or.inl ((shows_unlink s v₀ v).trans (if_neg hvv))⟩
        rcases hes with rfl | ⟨-, rfl⟩ <;> simp [posts, Ne.symm hvv]
  | inserted s₀ view hv hg =>
      have hne : v ≠ view.id := fun hvv => by simp [sparesView, hvv] at hg
      exact (Untold.of_rest ((shows_insertView s view v).trans (if_neg hne)) rfl).notified (by simp [hne])
  | erased s₀ v₀ hv hg =>
      have hne : v ≠ v₀ := fun hvv => by simp [sparesView, hvv] at hg
      exact (Untold.of_rest ((shows_eraseView s v₀ v).trans (if_neg hne)) rfl).notified (by simp [hne])
  | called v₀ ustNs => exact ((sendViewCallbacks_links w s v₀ ustNs).untold v).notified (by simp)
  | framesCleared v₀ => exact ((clearFrames_links s v₀).untold v).notified (by simp)
  | reported v₀ r => exact ((takeReport_links s v₀ r).untold v).notified (by simp)
  | suspendedSet _ v₀ suspended => exact ((setSuspended_links s v₀ suspended).untold v).notified (by simp)
  | targeted x => exact ((addTimed_links s x).untold v).notified (by simp)
  | resumed v₀ => exact ⟨by simp, _, rfl, Or.inl ⟨rfl, Or.inl rfl⟩⟩
  | tokenIssued => exact ⟨by simp, _, rfl, Or.inl ⟨rfl, Or.inl rfl⟩⟩
  | tokenUsed id token => exact ⟨by simp, _, rfl, Or.inl ⟨rfl, Or.inl rfl⟩⟩
  | ticked hg =>
      have hdisarm : SameLinks s s.disarm := .of_data rfl
      exact ((hdisarm.trans (sweep_links _ _)).untold v).notified (by simp)
  | _ => exact Untold.notified (.of_rest rfl rfl) (by simp)

/-- What is posted to a view not there is nothing, and it does not come by itself. -/
theorem step_unborn (depth : Nat) (hp : Paired s) (hspares : sparesView v e = true) (hv : s.view v = none) :
    (step w depth s e).view v = none ∧ ∃ es, (step w depth s e).trace = s.trace ++ es ∧ posts v es = [] := by
  have hdeeds : Deeds w (fun _ e => sparesView v e = true) s ∅ (step w depth s e) (unpaid s e) := step_deeds hp hspares
  refine hdeeds.invariant (P := fun r => r.view v = none ∧ ∃ es, r.trace = s.trace ++ es ∧ posts v es = []) (fun hd h => ?_)
    ⟨hv, [], (List.append_nil _).symm, rfl⟩
  obtain ⟨hr, es, he, hes⟩ := h
  refine ⟨handles_eq_none.mp (hd.spared.trans (handles_eq_none.mpr hr)), ?_⟩
  obtain ⟨es', he', ⟨hes', -⟩ | ⟨-, hlive⟩⟩ := hd.notified.trace
  · exact ⟨es ++ es', by rw [he', he, List.append_assoc], by rw [posts_append, hes, hes']; rfl⟩
  · rw [hr] at hlive
    cases hlive

/-- A view that is told nothing shows what it showed, unless its toplevel is taken from it. -/
theorem step_untold (depth : Nat) (hp : Paired s) (hspares : sparesView v e = true) (hok : takesFrom v s e = false) :
    ∃ es, (step w depth s e).trace = s.trace ++ es ∧ (posts v es = [] → (step w depth s e).shows v = s.shows v) := by
  have hdeeds : Deeds w (fun _ e => sparesView v e = true) s ∅ (step w depth s e) (unpaid s e) := step_deeds hp hspares
  have hkept := hdeeds.keeps
    (I := fun D r => ∃ es, r.trace = s.trace ++ es ∧ (.tell v ∈ D ∨ (posts v es = [] → r.shows v = s.shows v)))
    (fun hsub h => h.imp fun es h => ⟨h.1, h.2.imp_left fun hd => hsub hd⟩) (fun hd h => ?_)
    ⟨[], (List.append_nil _).symm, Or.inr fun _ => rfl⟩
  · obtain ⟨es, he, h⟩ := hkept
    refine ⟨es, he, h.resolve_left ?_⟩
    unfold unpaid
    split
    case h_5 x value =>
      rintro ⟨v', hv', hd⟩
      cases hd
      simp [takesFrom, hv'] at hok
    all_goals simp [loneDebts]
  · obtain ⟨es, he, h⟩ := h
    obtain ⟨hpaid, es', he', htold⟩ := hd.notified
    refine ⟨es ++ es', by rw [he', he, List.append_assoc], ?_⟩
    rcases h with h | h
    · exact Or.inl (Or.inl ⟨h, hpaid⟩)
    · rcases htold with ⟨hes', hshows | hd⟩ | ⟨hes', -⟩
      · refine Or.inr fun hnone => hshows.trans (h ?_)
        rw [posts_append, hes', List.append_nil] at hnone
        exact hnone
      · exact Or.inl (Or.inr hd)
      · refine Or.inr fun hnone => absurd ?_ hes'
        rw [posts_append] at hnone
        exact (List.append_eq_nil_iff.mp hnone).2

/-- Since `s₀`, the toplevel `t` is still `x`, if it is there, and no client came back. -/
structure Remains (s₀ : State) (t : ToplevelId) (x : WlSurface) (s : State) : Prop where
  known : t ≤ s.toplevels.nextId
  surface : ∀ te, s.toplevel t = some te → te.surface = x
  connected : ∀ c, s.connected c = true → s₀.connected c = true

theorem Remains.desk {s₀ : State} {t : ToplevelId} {x : WlSurface} (h : Remains s₀ t x s)
    (hdesk : s'.connected = s.connected) (hnext : s'.toplevels.nextId = s.toplevels.nextId)
    (htoplevel : ∀ te', s'.toplevel t = some te' → ∃ te, s.toplevel t = some te ∧ te.surface = te'.surface) :
    Remains s₀ t x s' := by
  refine ⟨by rw [hnext]; exact h.known, fun te' hte' => ?_, by rw [hdesk]; exact h.connected⟩
  obtain ⟨te, hte, hsurface⟩ := htoplevel te' hte'
  exact hsurface.symm.trans (h.surface te hte)

theorem unlink_nextId (s : State) (v : ViewId) : (s.unlink v).toplevels.nextId = s.toplevels.nextId := by
  unfold unlink
  split
  · rfl
  · dsimp only
    split <;> rfl

theorem Remains.act {s₀ : State} {guard : State → Event → Prop} {t : ToplevelId} {x : WlSurface} (h : Remains s₀ t x s)
    (ha : Act w guard s s') : Remains s₀ t x s' := by
  have hsame {s' : State} (hc : s'.connected = s.connected) (ht : s'.toplevels = s.toplevels) : Remains s₀ t x s' := by
    refine h.desk hc (by rw [ht]) fun te hte => ⟨te, ?_, rfl⟩
    rw [State.toplevel, ht] at hte
    exact hte
  have hmodified (id : ToplevelId) (f : ToplevelEntry → ToplevelEntry) (hf : ∀ te, (f te).surface = te.surface) {s' : State}
      (hc : s'.connected = s.connected) (ht : s'.toplevels = s.toplevels.modify id f) : Remains s₀ t x s' := by
    refine h.desk hc (by rw [ht]; rfl) fun te' hte' => ?_
    rw [State.toplevel, ht, Toplevels.get_modify] at hte'
    split at hte'
    · rename_i hid
      obtain ⟨te, hte, rfl⟩ := Option.map_eq_some_iff.mp hte'
      exact ⟨te, hid ▸ hte, (hf te).symm⟩
    · exact ⟨te', hte', rfl⟩
  cases ha with
  | same _ hl => exact hsame hl.connected hl.toplevels
  | mapped x' id te hid hte hm => exact hmodified id (fun te => { te with mapped := true }) (fun _ => rfl) rfl rfl
  | linked v₀ e t₀ hv he hp => exact hmodified t₀ (fun te => { te with view := some v₀ }) (fun _ => rfl) rfl rfl
  | unlinked v₀ es hes =>
      refine h.desk (letGo_desk s v₀ es).connected (unlink_nextId s v₀) fun te' hte' => ?_
      rw [toplevel_log, toplevel_unlink] at hte'
      split at hte'
      · obtain ⟨te, hte, rfl⟩ := Option.map_eq_some_iff.mp hte'
        exact ⟨te, hte, rfl⟩
      · exact ⟨te', hte', rfl⟩
  | made x' ht hr hg =>
      refine ⟨Nat.le_succ_of_le h.known, fun te hte => h.surface te ?_, h.connected⟩
      have hne : t ≠ s.toplevels.nextId + 1 := (Nat.lt_succ_of_le h.known).ne
      rw [State.toplevel, newToplevel, Toplevels.get_insert, if_neg hne] at hte
      exact hte
  | removed s₁ x' id hid hs hg =>
      refine ⟨h.known, fun te hte => h.surface te ?_, h.connected⟩
      rw [State.toplevel, removeToplevel, Toplevels.get_remove] at hte
      split at hte
      · cases hte
      · exact hte
  | tokenUsed id token hmem hissued => exact hmodified id (fun te => { te with token := some token.value }) (fun _ => rfl) rfl rfl
  | disconnected c =>
      refine ⟨h.known, h.surface, fun c' hc' => h.connected c' ?_⟩
      dsimp only at hc'
      split at hc'
      · cases hc'
      · exact hc'
  | inserted view hv => exact hsame rfl rfl
  | erased v₀ hv => exact hsame rfl rfl
  | _ => exact hsame rfl rfl

theorem step_viewClient {depth : Nat} (hp : Paired s) (hshows : (step w depth s e).shows v = s.shows v) {c : ClientId}
    (hc : (step w depth s e).viewClient w v = some c) : s.viewClient w v = some c := by
  obtain ⟨x, hroot, hclient⟩ := Option.bind_eq_some_iff.mp hc
  obtain ⟨te', hte', rfl⟩ := Option.map_eq_some_iff.mp hroot
  obtain ⟨t, ht, hentry⟩ := Option.bind_eq_some_iff.mp hte'
  have hshown : s.shows v = some t := hshows.symm.trans ht
  obtain ⟨te, hte, -⟩ := Option.bind_eq_some_iff.mp ((hp v t).mp hshown)
  have hdeeds : Deeds w (fun _ _ => True) s ∅ (step w depth s e) (unpaid s e) := step_deeds hp trivial
  have hrooted : Remains s t te.surface (step w depth s e) := by
    refine hdeeds.invariant (P := Remains s t te.surface) (fun hd h => h.act hd.act)
      ⟨Toplevels.le_nextId hte, fun te₁ h₁ => ?_, fun _ h => h⟩
    cases hte.symm.trans h₁
    rfl
  obtain ⟨hconnected, rfl⟩ := clientOf_eq_some.mp hclient
  have hroot : s.viewRoot v = some te.surface := by
    have hbound : (s.view v).bind ViewEntry.toplevel = some t := hshown
    rw [viewRoot, hbound, Option.bind_some, hte]
    rfl
  rw [viewClient, hroot, Option.bind_some, clientOf_eq_some, hrooted.surface te' hentry]
  exact ⟨hrooted.connected _ (hrooted.surface te' hentry ▸ hconnected), rfl⟩

end

/-! ## The app -/

/-- The view a message makes. -/
def ToModule.made : ToModule Double → Option ViewId
  | .create v _ _ => some v
  | _ => none

/-- The op is not an event that came. -/
def AppOp.own : AppOp Double → Bool
  | .dispatch .. => false
  | _ => true

namespace App

variable {client : Nat → ViewId → Option ClientId} {a a' : App Double} {op : AppOp Double}

/-- No view is made, and no event taken. -/
structure Speaks (a a' : App Double) : Prop where
  told : ∃ ms, a'.told = a.told ++ ms ∧ ∀ m ∈ ms, m.made = none
  nextId : a'.nextId = a.nextId
  watched : ∀ v, (a'.watched v).isSome = true → (a.watched v).isSome = true
  taken : a'.taken = a.taken

theorem Speaks.same (htold : a'.told = a.told) (hnext : a'.nextId = a.nextId) (hwatched : a'.watched = a.watched)
    (htaken : a'.taken = a.taken) : Speaks a a' :=
  ⟨⟨[], by rw [htold, List.append_nil], by simp⟩, hnext, fun v hv => hwatched ▸ hv, htaken⟩

theorem Speaks.trans {b : App Double} (h : Speaks a b) (h' : Speaks b a') : Speaks a a' := by
  obtain ⟨ms, hms, hquiet⟩ := h.told
  obtain ⟨ms', hms', hquiet'⟩ := h'.told
  refine ⟨⟨ms ++ ms', by rw [hms', hms, List.append_assoc], fun m hm => ?_⟩, h'.nextId.trans h.nextId,
    fun v hv => h.watched v (h'.watched v hv), h'.taken.trans h.taken⟩
  exact (List.mem_append.mp hm).elim (hquiet m) (hquiet' m)

theorem Speaks.tell (a : App Double) {m : ToModule Double} (hm : m.made = none) : Speaks a (a.tell m) :=
  ⟨⟨[m], rfl, by simpa using hm⟩, rfl, fun _ hv => hv, rfl⟩

theorem Speaks.modifyView (a : App Double) (w : Nat) (f : WaylandToplevelViewState Double → WaylandToplevelViewState Double) :
    Speaks a (a.modifyView w f) := .same rfl rfl rfl rfl

theorem Speaks.attach (client : Nat → ViewId → Option ClientId) (a : App Double) (c : Option Nat) (v : Option ViewId) (b : Bool) :
    Speaks a (a.attach client c v b) :=
  .same attach_told attach_nextId attach_watched attach_taken

theorem Speaks.sendController (a : App Double) (c : Option Nat) (v : ViewId) : Speaks a (a.sendController c v) :=
  .trans (.tell a rfl) (.tell _ rfl)

theorem Speaks.sendRequestedSize (a : App Double) (w : Nat) : Speaks a (a.sendRequestedSize w) := by
  unfold App.sendRequestedSize
  split
  · exact .same rfl rfl rfl rfl
  · split
    · exact .same rfl rfl rfl rfl
    · exact .tell a rfl

/-- A view is made, under the next id. -/
structure Makes (a a' : App Double) : Prop where
  told : ∃ g r, a'.told = a.told ++ [.create a.nextId g r]
  nextId : a'.nextId = a.nextId + 1
  watched : ∀ v, (a'.watched v).isSome = true → v = (a.nextId : ViewId) ∨ (a.watched v).isSome = true
  taken : a'.taken = a.taken

theorem step_speaks (client : Nat → ViewId → Option ClientId) (a : App Double) (hown : op.own = true) :
    Speaks a (a.step client op) ∨ Makes a (a.step client op) := by
  have hnothing : Speaks a a := .same rfl rfl rfl rfl
  cases op with
  | windowState c value =>
      simp only [App.step]
      split
      · exact Or.inl hnothing
      · have hset : Speaks a (a.modifyController c fun c => { c with state := value }) := .same rfl rfl rfl rfl
        split
        · exact Or.inl hset
        · exact Or.inl (hset.trans (.tell _ rfl))
  | windowCapabilities c value =>
      simp only [App.step]
      split
      · exact Or.inl hnothing
      · have hset : Speaks a (a.modifyController c fun c => { c with capabilities := value }) := .same rfl rfl rfl rfl
        split
        · exact Or.inl hset
        · exact Or.inl (hset.trans (.tell _ rfl))
  | close c =>
      simp only [App.step]
      split
      · exact Or.inl hnothing
      · split
        · exact Or.inl (.tell a rfl)
        · exact Or.inl hnothing
  | createState w widget =>
      simp only [App.step]
      split
      · exact Or.inl hnothing
      · exact Or.inl (.same rfl rfl rfl rfl)
  | createView w =>
      simp only [App.step]
      split
      · exact Or.inl hnothing
      · rename_i s _
        split
        · exact Or.inl hnothing
        · refine Or.inr ⟨⟨_, _, rfl⟩, rfl, fun v hv => ?_, rfl⟩
          simp only [App.createView, App.tell, App.modifyView, Function.update_apply] at hv
          split at hv
          · exact Or.inl (by assumption)
          · exact Or.inr hv
  | created w =>
      simp only [App.step]
      split
      · exact Or.inl hnothing
      · split
        · exact Or.inl ((Speaks.modifyView a w _).trans (.trans (.attach ..) (.trans (.sendController ..) (.sendRequestedSize ..))))
        · exact Or.inl hnothing
  | didUpdateWidget w widget =>
      simp only [App.step]
      split
      · exact Or.inl hnothing
      · rename_i s _
        refine Or.inl ?_
        have hsend {b : App Double} (hb : Speaks a b) (send : Prop) [Decidable send] :
            Speaks a (if send then b.sendRequestedSize w else b) := by
          split
          · exact hb.trans (.sendRequestedSize b w)
          · exact hb
        simp only [App.didUpdateWidget]
        refine hsend ?_ _
        split
        · have hmoved := ((Speaks.modifyView a w fun s => { s with widget }).trans (.attach client _ s.widget.controller none false)).trans
            (.attach client _ widget.controller s.viewId s.bound)
          split
          · exact hmoved
          · exact hmoved.trans (.sendController ..)
        · exact .modifyView a w _
  | onLayout w size =>
      simp only [App.step]
      split
      · exact Or.inl hnothing
      · refine Or.inl ?_
        unfold App.onLayout
        split
        · exact (Speaks.modifyView a w _).trans (.sendRequestedSize ..)
        · exact .modifyView a w _
  | dispatch v event => cases hown
  | dispose w =>
      simp only [App.step]
      split
      · exact Or.inl hnothing
      · rename_i s _
        refine Or.inl ?_
        rw [dispose_eq]
        have hleft := (Speaks.modifyView a w fun s => { s with mounted := false }).trans (.attach client _ s.widget.controller none false)
        refine ⟨hleft.told, hleft.nextId, fun v hv => ?_, hleft.taken⟩
        dsimp only at hv
        split at hv
        · cases hv
        · exact hv

theorem dispatch_rest (client : Nat → ViewId → Option ClientId) (a : App Double) (v : ViewId) (e : Heard) :
    (a.step client (.dispatch v e)).told = a.told ∧ (a.step client (.dispatch v e)).watched = a.watched ∧
      (a.step client (.dispatch v e)).nextId = a.nextId := by
  simp only [App.step]
  split
  · exact ⟨rfl, rfl, rfl⟩
  · split
    · exact ⟨rfl, rfl, rfl⟩
    · cases e with
      | event e => exact ⟨setBound_told, setBound_watched, setBound_nextId⟩
      | request r =>
          simp only [App.onViewEvent]
          split <;> exact ⟨rfl, rfl, rfl⟩

theorem dispatch_taken {v : ViewId} {e : Heard} {k : Nat} {s : WaylandToplevelViewState Double} (hk : a.watched v = some k)
    (hs : a.views k = some s) : (a.step client (.dispatch v e)).taken = a.taken ++ [(v, e)] := by
  simp only [App.step, hk, hs]

/-- The controller of a view that shows a toplevel names the client it was answered now, or names whom it did. -/
def Names (answer : ViewId → Option ClientId) (a a' : App Double) : Prop :=
  ∀ k s c v, a'.views k = some s → s.held = some c → s.viewId = some v → s.bound = true →
    (a'.controllers c).client = answer v ∨ ∃ t, a.views k = some t ∧ t.held = some c ∧ t.viewId = some v ∧ t.bound = true ∧
      (a'.controllers c).client = (a.controllers c).client

section

variable {answer : ViewId → Option ClientId} {w : Nat} {s : WaylandToplevelViewState Double}

theorem Names.same (hviews : a'.views = a.views) (hclient : ∀ c, (a'.controllers c).client = (a.controllers c).client) :
    Names answer a a' :=
  fun _ s _ _ hs hc hv hb => Or.inr ⟨s, hviews ▸ hs, hc, hv, hb, hclient _⟩

theorem Names.congr {b : App Double} (h : Names answer a a') (hviews : b.views = a'.views)
    (hcontrollers : b.controllers = a'.controllers) :
    Names answer a b := by
  intro k s c v hs
  rw [hviews] at hs
  rw [hcontrollers]
  exact h k s c v hs

theorem Names.turned (hturn : Turned a a' w s)
    (hrest : ∀ c k t, k ≠ w → a.views k = some t → t.held = some c → (a'.controllers c).client = (a.controllers c).client)
    (hself : ∀ c v, s.held = some c → s.viewId = some v → s.bound = true →
      (a'.controllers c).client = answer v ∨ ∃ t, a.views w = some t ∧ t.held = some c ∧ t.viewId = some v ∧ t.bound = true ∧
        (a'.controllers c).client = (a.controllers c).client) : Names answer a a' := by
  intro k t c v ht hc hv hb
  rw [hturn] at ht
  split at ht
  · rename_i hk
    cases ht
    rw [hk]
    exact hself c v hc hv hb
  · rename_i hk
    exact Or.inr ⟨t, ht, hc, hv, hb, hrest c k t hk ht hc⟩

theorem Names.modifyController {c : Nat} {f : WaylandToplevelController → WaylandToplevelController}
    (hf : (f (a.controllers c)).client = (a.controllers c).client) : Names answer a (a.modifyController c f) := by
  refine .same rfl fun k => ?_
  simp only [App.modifyController, Function.update_apply]
  split
  · rename_i hk
    rw [hk]
    exact hf
  · rfl

theorem Names.modifyView {f : WaylandToplevelViewState Double → WaylandToplevelViewState Double} (hs : a.views w = some s)
    (hheld : (f s).held = s.held) (hname : (f s).viewId = s.viewId) (hbound : (f s).bound = s.bound) :
    Names answer a (a.modifyView w f) :=
  .turned (turned_modifyView hs) (fun _ _ _ _ _ _ => rfl)
    fun _ _ hc hv hb => Or.inr ⟨s, hs, hheld.symm.trans hc, hname.symm.trans hv, hbound.symm.trans hb, rfl⟩

theorem shown_client {c : WaylandToplevelController} {v : ViewId} : (c.attach (some v) true answer).client = answer v := by
  rw [WaylandToplevelController.attach, WaylandToplevelController.client_update]
  rfl

theorem sendRequestedSize_rest (a : App Double) (w : Nat) :
    (a.sendRequestedSize w).views = a.views ∧ (a.sendRequestedSize w).controllers = a.controllers := by
  unfold App.sendRequestedSize
  split
  · exact ⟨rfl, rfl⟩
  · split <;> exact ⟨rfl, rfl⟩

theorem Names.sized (h : Names answer a a') (w : Nat) : Names answer a (a'.sendRequestedSize w) :=
  h.congr (sendRequestedSize_rest a' w).1 (sendRequestedSize_rest a' w).2

theorem step_names (h : a.Settled) (hop : a.Orderly op) (hown : op.own = true) : Names answer a (a.step (fun _ => answer) op) := by
  have hnothing : Names answer a a := .same rfl fun _ => rfl
  obtain ⟨hregistered, hattached, -, -⟩ := h
  cases op with
  | windowState c value =>
      simp only [App.step]
      split
      · exact hnothing
      · have hset : Names answer a (a.modifyController c fun c => { c with state := value }) := .modifyController rfl
        split
        · exact hset
        · exact hset.congr rfl rfl
  | windowCapabilities c value =>
      simp only [App.step]
      split
      · exact hnothing
      · have hset : Names answer a (a.modifyController c fun c => { c with capabilities := value }) := .modifyController rfl
        split
        · exact hset
        · exact hset.congr rfl rfl
  | close c =>
      simp only [App.step]
      split
      · exact hnothing
      · split
        · exact .same rfl fun _ => rfl
        · exact hnothing
  | createState w widget =>
      simp only [App.step]
      split
      · exact hnothing
      · refine .turned (s := { widget }) (w := w) (fun k => by simp [Function.update_apply])
          (fun _ _ _ _ _ _ => rfl) fun c v _ hv _ => ?_
        cases hv
  | createView w =>
      simp only [App.step]
      split
      · exact hnothing
      · rename_i s hmounted
        obtain ⟨hs, -⟩ := mounted_iff.mp hmounted
        split
        · exact hnothing
        · rename_i hnone
          have hset : Names answer a (a.modifyView w fun s => { s with watchedId := some (a.nextId : ViewId), bound := false }) :=
            .turned (turned_modifyView hs) (fun _ _ _ _ _ _ => rfl) fun c v _ _ hb => by cases hb
          exact hset.congr rfl rfl
  | created w =>
      simp only [App.step]
      split
      · exact hnothing
      · rename_i s hs
        split
        · rename_i v hv hnone
          have hm := hop s hs
          have hgiven : Names answer a ((a.modifyView w fun s => { s with viewId := some v }).attach (fun _ => answer)
              s.widget.controller (some v) s.bound) := by
            refine .turned (turned_modifyView hs).attach (fun c k t hk ht hc => ?_) fun c u hc hu hb => Or.inl ?_
            · have hother : s.widget.controller ≠ some c := fun hsc =>
                hk (hattached.alone k w t s c ht hs hc ((held_of_mounted hm).mpr hsc))
              rw [attach_controllers, if_neg hother]
              rfl
            · have hsc : s.widget.controller = some c := (held_of_mounted hm).mp hc
              cases hu
              rw [attach_controllers, if_pos hsc, show s.bound = true from hb]
              exact shown_client
          refine Names.sized ?_ w
          exact hgiven.congr rfl rfl
        · exact hnothing
  | didUpdateWidget w widget =>
      simp only [App.step]
      split
      · exact hnothing
      · rename_i s hmounted
        obtain ⟨hs, hm⟩ := mounted_iff.mp hmounted
        have hsend {b : App Double} (hb : Names answer a b) (send : Prop) [Decidable send] :
            Names answer a (if send then b.sendRequestedSize w else b) := by
          split
          · exact hb.sized w
          · exact hb
        simp only [App.didUpdateWidget]
        refine hsend ?_ _
        split
        · have hmoved : Names answer a (((a.modifyView w fun s => { s with widget }).attach (fun _ => answer) s.widget.controller none
              false).attach (fun _ => answer) widget.controller s.viewId s.bound) := by
            refine .turned (turned_modifyView hs).attach.attach (fun c k t hk ht hc => ?_) fun c u hc hu hb => Or.inl ?_
            · have hold : s.widget.controller ≠ some c := fun hsc =>
                hk (hattached.alone k w t s c ht hs hc ((held_of_mounted hm).mpr hsc))
              have hnew : widget.controller ≠ some c := fun hwc => hop c k t hwc hk ht hc
              rw [attach_controllers, if_neg hnew, attach_controllers, if_neg hold]
              rfl
            · have hwc : widget.controller = some c := (held_of_mounted (s := { s with widget }) hm).mp hc
              rw [attach_controllers, if_pos hwc, show s.bound = true from hb, show s.viewId = some u from hu]
              exact shown_client
          split
          · exact hmoved
          · exact hmoved.congr rfl rfl
        · rename_i hsame
          have hcontroller : widget.controller = s.widget.controller := not_not.mp hsame
          refine .modifyView hs ?_ rfl rfl
          simp only [WaylandToplevelViewState.held, hcontroller]
  | onLayout w size =>
      simp only [App.step]
      split
      · exact hnothing
      · rename_i s hmounted
        obtain ⟨hs, -⟩ := mounted_iff.mp hmounted
        have hset : Names answer a (a.modifyView w fun s => { s with layoutSize := some size }) := .modifyView hs rfl rfl rfl
        unfold App.onLayout
        split
        · exact hset.sized w
        · exact hset
  | dispatch v event => cases hown
  | dispose w =>
      simp only [App.step]
      split
      · exact hnothing
      · rename_i s hmounted
        obtain ⟨hs, hm⟩ := mounted_iff.mp hmounted
        rw [dispose_eq]
        have hleft : Names answer a ((a.modifyView w fun s => { s with mounted := false }).attach (fun _ => answer) s.widget.controller
            none false) := by
          refine .turned (turned_modifyView hs).attach (fun c k t hk ht hc => ?_) fun c u hc _ _ => ?_
          · have hother : s.widget.controller ≠ some c := fun hsc =>
              hk (hattached.alone k w t s c ht hs hc ((held_of_mounted hm).mpr hsc))
            rw [attach_controllers, if_neg hother]
            rfl
          · simp [WaylandToplevelViewState.held] at hc
        exact hleft.congr rfl rfl

/-- So it is when an event comes that says something new: it is answered now, if the event is about its view. -/
theorem dispatch_names (h : a.Settled) {v : ViewId} {e : Heard} (hs : a.views w = some s) (hm : s.mounted = true)
    (hv : s.watchedId = some v) (hnew : e = .event .bound → s.bound = false) {k : Nat} {t : WaylandToplevelViewState Double} {c : Nat}
    {u : ViewId} (ht : (a.step (fun _ => answer) (.dispatch v e)).views k = some t) (hc : t.held = some c) (hu : t.viewId = some u)
    (hb : t.bound = true) :
    ((a.step (fun _ => answer) (.dispatch v e)).controllers c).client = answer u ∨
      (∀ event, e = .event event → u ≠ v) ∧ ∃ t, a.views k = some t ∧ t.held = some c ∧ t.viewId = some u ∧ t.bound = true ∧
        ((a.step (fun _ => answer) (.dispatch v e)).controllers c).client = (a.controllers c).client := by
  obtain ⟨hregistered, hattached, -, -⟩ := h
  have hw : a.watched v = some w := (hregistered.watched v w).mpr ⟨s, hs, hm, hv⟩
  simp only [App.step, hw, hs] at ht ⊢
  cases e with
  | request r =>
      have hsame : (a.onViewEvent (fun _ => answer) w (.request r) s).views = a.views ∧
          (a.onViewEvent (fun _ => answer) w (.request r) s).controllers = a.controllers := by
        simp only [App.onViewEvent]
        split <;> exact ⟨rfl, rfl⟩
      rw [hsame.1] at ht
      rw [hsame.2]
      refine Or.inr ⟨fun _ hevent => ?_, t, ht, hc, hu, hb, rfl⟩
      cases hevent
  | event event =>
      simp only [App.onViewEvent, setBound_views] at ht ⊢
      have hturn : Turned a (a.modifyView w fun s => { s with bound := event == .bound }) w { s with bound := event == .bound } :=
        turned_modifyView hs
      rw [hturn] at ht
      split at ht
      · cases ht
        have hsc : s.widget.controller = some c := (held_of_mounted hm).mp hc
        have hbound : (event == ViewEvent.bound) = true := hb
        obtain ⟨hid, hwas⟩ := hattached.attached w s c hs ((held_of_mounted hm).mpr hsc)
        rw [hnew (by rw [eq_of_beq hbound])] at hwas
        have hnamed : (a.controllers c).viewId = some u := hid.trans hu
        refine Or.inl ?_
        rw [setBound_controllers, if_pos hsc, hbound]
        change ((a.controllers c).setBound true answer).client = answer u
        rw [WaylandToplevelController.setBound, hwas, if_pos (by decide), WaylandToplevelController.client_update,
          WaylandToplevelController.shown, hnamed]
        rfl
      · rename_i hk
        have hother : s.widget.controller ≠ some c := fun hsc =>
          hk (hattached.alone k w t s c ht hs hc ((held_of_mounted hm).mpr hsc))
        refine Or.inr ⟨fun _ _ huv => ?_, t, ht, hc, hu, hb, ?_⟩
        · exact hk (hregistered.distinct k w t s v ht hs (hregistered.named k t v ht (huv ▸ hu)) hv)
        · rw [setBound_controllers, if_neg hother]
          rfl

end

end App

end IhsWl
