import Mathlib.Tactic.TypeStar
import IhsWl.Fit.Exact
import IhsWl.Lib.Runs

/-!
# Input uses the fit on screen

Between handlers a view's fit is the one its layers on screen were placed with, as long as whatever moves its content
submits it again.
-/

namespace IhsWl

variable {F : Type}

namespace FitView

variable [Floats F] {e : FitView F}

/-- A window no larger than asked is as good as none. -/
theorem fit_of_not_oversized {window : Option (Int × Int)} (h : e.oversized window = false) :
    e.fit window = e.fit none := by
  unfold oversized at h
  unfold fit
  cases hsize : e.size with
  | none => rfl
  | some size =>
      cases hasked : e.clientSize with
      | none => rfl
      | some asked =>
          cases window with
          | none => rfl
          | some w =>
              simp only [hasked, Bool.or_eq_false_iff, decide_eq_false_iff_not, Int.not_lt] at h
              simp only [Int.max_eq_left h.1, Int.max_eq_left h.2]

/-- Without a requested size, a window no larger than the view is shown as it is. -/
theorem fit_of_unrequested (hrequested : e.requested = none) : e.fit none = Fit.identity := by
  unfold fit clientSize
  rw [hrequested]
  cases hsize : e.size with
  | none => rfl
  | some size =>
      cases e.logicalSize with
      | none => rfl
      | some asked => simp

end FitView

namespace Layouts

variable {s s' : Layouts F} {v : ViewId} {e : FitView F} {a : Offer}

/-- A toplevel knows the view it is bound in, and only a view that shows layers has them placed. -/
structure Sound (s : Layouts F) : Prop where
  bound : ∀ v e x, s.views v = some e → e.root = some x → s.boundIn x = some v
  shown : ∀ v e, s.views v = some e → ((s.placed v).isSome ↔ e.shows = true)
  gone : ∀ v, s.views v = none → s.placed v = none

/-- Only view `v` changes. -/
structure Only (v : ViewId) (s s' : Layouts F) : Prop where
  geometry : s'.geometry = s.geometry
  views : ∀ v', v' ≠ v → s'.views v' = s.views v'
  placed : ∀ v', v' ≠ v → s'.placed v' = s.placed v'

theorem Only.refl (v : ViewId) (s : Layouts F) : Only v s s := ⟨rfl, fun _ _ => rfl, fun _ _ => rfl⟩

theorem Only.trans {s'' : Layouts F} (h : Only v s s') (h' : Only v s' s'') : Only v s s'' :=
  ⟨h'.geometry.trans h.geometry, fun v' hv => (h'.views v' hv).trans (h.views v' hv),
    fun v' hv => (h'.placed v' hv).trans (h.placed v' hv)⟩

theorem Sound.idle (h : Sound s) (he : s.views v = some e) (hidle : e.shows = false) : s.placed v = none := by
  have hnot := (h.shown v e he).not.mpr (by simp [hidle])
  simpa using hnot

theorem sound_start : Sound ({} : Layouts F) where
  bound _ _ _ he := by cases he
  shown _ _ he := by cases he
  gone _ _ := rfl

/-! ## One view -/

/-- A view is set: whose toplevel knows it, and which shows what was placed of it. -/
theorem Sound.set (h : Sound s) (e : FitView F) {boundIn : WlSurface → Option ViewId}
    {placed : ViewId → Option (Fit F)} (hroot : ∀ x, e.root = some x → boundIn x = some v)
    (hothers : ∀ v' e' x, v' ≠ v → s.views v' = some e' → e'.root = some x → boundIn x = some v')
    (hplaced : ∀ v', v' ≠ v → placed v' = s.placed v') (hshown : (placed v).isSome ↔ e.shows = true) :
    Sound { s.setView v e with boundIn := boundIn, placed := placed } := by
  refine ⟨fun v' e' x he' hx => ?_, fun v' e' he' => ?_, fun v' hv' => ?_⟩ <;>
    simp only [Layouts.setView] at *
  · by_cases hv : v' = v
    · subst hv
      rw [Function.update_self] at he'
      cases he'
      exact hroot x hx
    · rw [Function.update_of_ne hv] at he'
      exact hothers v' e' x hv he' hx
  · by_cases hv : v' = v
    · subst hv
      rw [Function.update_self] at he'
      cases he'
      exact hshown
    · rw [Function.update_of_ne hv] at he'
      rw [hplaced v' hv]
      exact h.shown v' e' he'
  · by_cases hv : v' = v
    · subst hv
      rw [Function.update_self] at hv'
      cases hv'
    · rw [Function.update_of_ne hv] at hv'
      rw [hplaced v' hv]
      exact h.gone v' hv'

/-- The view keeps its toplevel. -/
theorem Sound.setKept (h : Sound s) (he : s.views v = some e) (e' : FitView F) (hroot : e'.root = e.root)
    {placed : ViewId → Option (Fit F)} (hplaced : ∀ v', v' ≠ v → placed v' = s.placed v')
    (hshown : (placed v).isSome ↔ e'.shows = true) : Sound { s.setView v e' with placed := placed } :=
  h.set e' (fun x hx => h.bound v e x he (hroot ▸ hx)) (fun v' e' x _ he' hx => h.bound v' e' x he' hx) hplaced hshown

/-- Only where its content goes changes. -/
theorem Sound.relaid (h : Sound s) (he : s.views v = some e) (e' : FitView F) (hroot : e'.root = e.root)
    (hshows : e'.shows = e.shows) : Sound (s.setView v e') :=
  h.setKept he e' hroot (fun _ _ => rfl) (by rw [hshows]; exact h.shown v e he)

theorem only_set (e : FitView F) (boundIn : WlSurface → Option ViewId) {placed : ViewId → Option (Fit F)}
    (hplaced : ∀ v', v' ≠ v → placed v' = s.placed v') :
    Only v s { s.setView v e with boundIn := boundIn, placed := placed } :=
  ⟨rfl, fun _ hv => Function.update_of_ne hv .., hplaced⟩

theorem view_set (e : FitView F) : (s.setView v e).views v = some e := Function.update_self ..

/-- What a clear does. -/
theorem clearView_cases (v : ViewId) (accepted : Bool) (s : Layouts F) : s.clearView v accepted = s ∨
    ∃ e, s.views v = some e ∧ accepted = true ∧ s.clearView v accepted =
      { s.setView v { e with seq := e.seq + 1, cleared := true } with placed := Function.update s.placed v none } := by
  unfold clearView
  cases he : s.views v with
  | none => exact Or.inl rfl
  | some e =>
      dsimp only
      split
      · exact Or.inl rfl
      · split
        · rename_i haccepted
          exact Or.inr ⟨e, rfl, haccepted, rfl⟩
        · exact Or.inl rfl

theorem clearView_only (v : ViewId) (accepted : Bool) (s : Layouts F) : Only v s (s.clearView v accepted) := by
  obtain heq | ⟨e, -, -, heq⟩ := clearView_cases v accepted s <;> rw [heq]
  · exact .refl ..
  · refine only_set _ _ fun v' hv => ?_
    exact Function.update_of_ne hv ..

theorem Sound.clearView (h : Sound s) (v : ViewId) (accepted : Bool) : Sound (s.clearView v accepted) := by
  obtain heq | ⟨e, he, -, heq⟩ := clearView_cases v accepted s <;> rw [heq]
  · exact h
  · refine h.setKept he { e with seq := e.seq + 1, cleared := true } rfl (fun v' hv => ?_) ?_
    · exact Function.update_of_ne hv ..
    · simp [FitView.shows]

/-- Once the shell accepts it, nothing is placed. -/
theorem clearView_accepted (h : Sound s) : (s.clearView v true).placed v = none := by
  unfold Layouts.clearView
  split
  · rename_i he
    exact h.gone v he
  · rename_i e he
    split
    · rename_i hidle
      refine h.idle he ?_
      rcases hidle with hc | hz <;> simp [FitView.shows, *]
    · exact Function.update_self ..

theorem clearView_refused (v : ViewId) (s : Layouts F) : s.clearView v false = s := by
  obtain heq | ⟨-, -, haccepted, -⟩ := clearView_cases v false s
  · exact heq
  · cases haccepted

theorem unlink_only (v : ViewId) (s : Layouts F) : Only v s (s.unlink v) := by
  unfold unlink
  split
  · exact .refl ..
  · exact only_set _ _ fun _ _ => rfl

theorem Sound.unlink (h : Sound s) (v : ViewId) : Sound (s.unlink v) := by
  unfold Layouts.unlink
  split
  · exact h
  · rename_i e he
    refine h.set { e with root := none } (fun _ hx => by cases hx) (fun v' e' x' hv he' hx' => ?_) (fun _ _ => rfl)
      (h.shown v e he)
    have hbound := h.bound v' e' x' he' hx'
    cases hx : e.root with
    | none => exact hbound
    | some x =>
        -- Another view's toplevel is another one.
        have hne : x' ≠ x := by
          rintro rfl
          exact hv (Option.some.inj (hbound.symm.trans (h.bound v e x' he hx)))
        exact (Function.update_of_ne hne ..).trans hbound

/-! ## Fits -/

variable [Floats F]

theorem viewFit_of_view (h : s.views v = some e) : s.viewFit v = e.fit (s.window e) := by
  rw [viewFit, h]

/-- The layers on screen are where input takes them to be. -/
def Right (s : Layouts F) (v : ViewId) : Prop := ∀ f, s.placed v = some f → s.viewFit v = f

theorem Only.right (h : Only v s s') {v' : ViewId} (hv : v' ≠ v) (hr : Right s v') : Right s' v' := by
  intro f hf
  rw [h.placed v' hv] at hf
  rw [← hr f hf]
  unfold viewFit window
  rw [h.views v' hv, h.geometry]

theorem right_of_none (h : s.placed v = none) : Right s v := by
  intro f hf
  rw [h] at hf
  cases hf

theorem Sound.right_of_idle (h : Sound s) (he : s.views v = some e) (hidle : e.shows = false) : Right s v :=
  right_of_none (h.idle he hidle)

/-! ## Submissions -/

theorem Right.clearView (h : Right s v) (accepted : Bool) : Right (s.clearView v accepted) v := by
  obtain heq | ⟨e, -, -, heq⟩ := clearView_cases v accepted s <;> rw [heq]
  · exact h
  · exact right_of_none (Function.update_self ..)

/-- What a submission does. -/
theorem submitView_cases (v : ViewId) (a : Offer) (s : Layouts F) :
    s.submitView v a = s ∨ s.submitView v a = s.clearView v a.accepted ∨
      ∃ e, s.views v = some e ∧ s.submitView v a = { s.setView v { e with seq := e.seq + 1, cleared := false } with
        placed := Function.update s.placed v (some (s.viewFit v)) } := by
  unfold submitView
  cases he : s.views v with
  | none => exact Or.inl rfl
  | some e =>
      dsimp only
      split
      · exact Or.inl rfl
      · split
        · exact Or.inr (Or.inl rfl)
        · split
          · exact Or.inr (Or.inr ⟨e, rfl, rfl⟩)
          · exact Or.inl rfl

theorem submitView_only (v : ViewId) (a : Offer) (s : Layouts F) : Only v s (s.submitView v a) := by
  obtain heq | heq | ⟨e, -, heq⟩ := submitView_cases v a s <;> rw [heq]
  · exact .refl ..
  · exact clearView_only ..
  · refine only_set _ _ fun v' hv => ?_
    exact Function.update_of_ne hv ..

theorem Sound.submitView (h : Sound s) (v : ViewId) (a : Offer) : Sound (s.submitView v a) := by
  obtain heq | heq | ⟨e, he, heq⟩ := submitView_cases v a s <;> rw [heq]
  · exact h
  · exact h.clearView v a.accepted
  · refine h.setKept he { e with seq := e.seq + 1, cleared := false } rfl (fun v' hv => ?_) ?_
    · exact Function.update_of_ne hv ..
    · simp [FitView.shows]

/-- A frame is placed with the fit there is. -/
theorem right_placed (he : s.views v = some e) :
    Right { s.setView v { e with seq := e.seq + 1, cleared := false } with
      placed := Function.update s.placed v (some (s.viewFit v)) } v := by
  intro f hf
  have heq : some (s.viewFit v) = some f := (Function.update_self v (some (s.viewFit v)) s.placed).symm.trans hf
  cases heq
  rw [viewFit_of_view he]
  have hview := view_set (s := s) (v := v) { e with seq := e.seq + 1, cleared := false }
  rw [viewFit, show ({ s.setView v { e with seq := e.seq + 1, cleared := false } with
    placed := Function.update s.placed v (some (e.fit (s.window e))) } : Layouts F).views v = _ from hview]
  rfl

theorem Right.submitView (h : Right s v) (a : Offer) : Right (s.submitView v a) v := by
  obtain heq | heq | ⟨e, he, heq⟩ := submitView_cases v a s <;> rw [heq]
  · exact h
  · exact h.clearView a.accepted
  · exact right_placed he

theorem submitView_accepted (h : Sound s) (he : s.views v = some e) (hroot : e.root.isSome = true)
    (ha : a.accepted = true) : Right (s.submitView v a) v := by
  unfold Layouts.submitView
  rw [he]
  dsimp only
  rw [if_neg (by simp [Option.isSome_iff_ne_none.mp hroot]), ha]
  split
  · exact right_of_none (clearView_accepted h)
  · exact right_placed he

/-! ## Handlers -/

/-- The view's content moves, and the shell accepts it where it is now; or it does not move. -/
theorem relaid_right (h : Sound s) (he : s.views v = some e) (e' : FitView F) (hr : Right s v)
    (hfit : e.shows = true → e'.fit (e'.root.bind s.geometry) = e.fit (s.window e)) : Right (s.setView v e') v := by
  intro f hf
  have hshows : e.shows = true := (h.shown v e he).mp (by
    rw [show s.placed v = some f from hf]
    rfl)
  rw [viewFit_of_view (view_set e'), ← hr f hf, viewFit_of_view he]
  exact hfit hshows

theorem refitView_cases (v : ViewId) (a : Offer) (s : Layouts F) :
    s.refitView v a = s ∨ s.refitView v a = s.submitView v a := by
  unfold refitView
  split
  · exact Or.inl rfl
  · split
    · exact Or.inr rfl
    · exact Or.inl rfl

theorem refitView_only (v : ViewId) (a : Offer) (s : Layouts F) : Only v s (s.refitView v a) := by
  obtain heq | heq := refitView_cases v a s <;> rw [heq]
  · exact .refl ..
  · exact submitView_only ..

theorem Sound.refitView (h : Sound s) (v : ViewId) (a : Offer) : Sound (s.refitView v a) := by
  obtain heq | heq := refitView_cases v a s <;> rw [heq]
  · exact h
  · exact h.submitView v a

theorem Right.refitView (h : Right s v) (a : Offer) : Right (s.refitView v a) v := by
  obtain heq | heq := refitView_cases v a s <;> rw [heq]
  · exact h
  · exact h.submitView a

/-- A view that shows layers is submitted where its content is now. -/
theorem refitView_accepted (h : Sound s) (he : s.views v = some e) (hroot : e.root.isSome = true)
    (ha : a.accepted = true) : Right (s.refitView v a) v := by
  unfold Layouts.refitView
  rw [he]
  dsimp only
  split
  · exact submitView_accepted h he hroot ha
  · rename_i hidle
    exact h.right_of_idle he (by simpa using hidle)

/-- What a handler of one view leaves: what every run keeps, and the view's layers where input takes them to be. -/
structure Handled (v : ViewId) (s s' : Layouts F) : Prop where
  only : Only v s s'
  sound : Sound s'
  right : Right s' v

theorem viewResized_handled (h : Sound s) (hr : Right s v) (size : Int × Int) (a : Offer)
    (hok : s.replaces (.resizes v size a) = true) : Handled v s (s.viewResized v size a) := by
  unfold viewResized
  cases he : s.views v with
  | none => exact ⟨.refl .., h, hr⟩
  | some e =>
      have hset := h.relaid he { e with size := some size } rfl rfl
      have honly : Only v s (s.setView v { e with size := some size }) := only_set _ s.boundIn fun _ _ => rfl
      simp only [replaces, he, Option.all_some, Bool.or_eq_true, Bool.not_eq_true', beq_iff_eq] at hok
      dsimp only
      -- Either nothing shows, or the size is the same, or its content goes where it did, or it is placed anew.
      have hkeeps : (e.shows = false ∨ e.size = some size) → Right (s.setView v { e with size := some size }) v := by
        rintro (hidle | hsame)
        · exact relaid_right h he _ hr fun hshows => by rw [hidle] at hshows; cases hshows
        · refine relaid_right h he _ hr fun _ => ?_
          rw [← hsame]
          rfl
      split
      · rename_i hrequested
        refine ⟨honly.trans (refitView_only ..), hset.refitView v a, ?_⟩
        rcases hok with hkept | hplaced
        · exact (hkeeps hkept).refitView a
        · rw [if_pos hrequested, Bool.and_eq_true] at hplaced
          exact refitView_accepted hset (view_set _) hplaced.1 hplaced.2
      · rename_i hrequested
        refine ⟨honly, hset, ?_⟩
        rcases hok with hkept | hplaced
        · exact hkeeps hkept
        · have hnone : e.requested = none := by simpa using hrequested
          rw [if_neg hrequested, Bool.and_eq_true, Bool.not_eq_true', Bool.not_eq_true'] at hplaced
          refine relaid_right h he _ hr fun _ => ?_
          rw [FitView.fit_of_not_oversized hplaced.1, FitView.fit_of_unrequested hnone]
          exact (FitView.fit_of_not_oversized hplaced.2).trans (FitView.fit_of_unrequested hnone)

theorem viewRequestSize_handled (h : Sound s) (hr : Right s v) (size : Option (Int × Int)) (a : Offer)
    (hok : s.replaces (.requests v size a) = true) : Handled v s (s.viewRequestSize v size a) := by
  unfold viewRequestSize
  cases he : s.views v with
  | none => exact ⟨.refl .., h, hr⟩
  | some e =>
      simp only [replaces, he, Option.all_some, Bool.or_eq_true, Bool.not_eq_true', beq_iff_eq,
        Bool.and_eq_true] at hok
      dsimp only
      split
      · exact ⟨.refl .., h, hr⟩
      · rename_i hnew
        have hset := h.relaid he { e with requested := size } rfl rfl
        have honly : Only v s (s.setView v { e with requested := size }) := only_set _ s.boundIn fun _ _ => rfl
        refine ⟨honly.trans (refitView_only ..), hset.refitView v a, ?_⟩
        rcases hok with (hidle | hsame) | ⟨hroot, haccepted⟩
        · refine Right.refitView (relaid_right h he _ hr fun hshows => ?_) a
          rw [hidle] at hshows
          cases hshows
        · exact absurd hsame hnew
        · exact refitView_accepted hset (view_set _) hroot haccepted

/-! ## Bindings -/

theorem Right.unlink (hr : Right s v) (h : Sound s)
    (hfits : ∀ e, s.views v = some e → e.shows = true → e.oversized (s.window e) = false) : Right (s.unlink v) v := by
  unfold Layouts.unlink
  split
  · exact hr
  · rename_i e he
    exact relaid_right h he { e with root := none } hr fun hshows =>
      (FitView.fit_of_not_oversized (hfits e he hshows)).symm

theorem unbindView_handled (h : Sound s) (hr : Right s v) (clears : Bool)
    (hok : s.replaces (.unbinds v clears) = true) : Handled v s (s.unbindView v clears) := by
  unfold unbindView
  have hclear := h.clearView v clears
  have hfits : ∀ e, (s.clearView v clears).views v = some e → e.shows = true →
      e.oversized ((s.clearView v clears).window e) = false := by
    intro e he hshows
    cases clears with
    | true =>
        have hplaced := (hclear.shown v e he).mpr hshows
        rw [clearView_accepted h] at hplaced
        cases hplaced
    | false =>
        rw [clearView_refused] at he ⊢
        simpa [replaces, he, hshows] using hok
  exact ⟨(clearView_only ..).trans (unlink_only ..), hclear.unlink v, (hr.clearView clears).unlink hclear hfits⟩

theorem bindView_handled (h : Sound s) (hr : Right s v) (x : WlSurface) (a : Offer)
    (hok : s.replaces (.binds v x a) = true) : Handled v s (s.bindView v x a) := by
  unfold bindView
  cases he : s.views v with
  | none => exact ⟨.refl .., h, hr⟩
  | some e =>
      dsimp only
      split
      · exact ⟨.refl .., h, hr⟩
      · rename_i hfree
        simp only [not_or, Bool.not_eq_true, Option.isSome_eq_false_iff, Option.isNone_iff_eq_none] at hfree
        obtain ⟨hroot, hx⟩ := hfree
        have hset : Sound { s.setView v { e with root := some x } with
            boundIn := Function.update s.boundIn x (some v) } := by
          refine h.set { e with root := some x } (fun x' hx' => ?_) (fun v' e' x' _ he' hx' => ?_) (fun _ _ => rfl)
            (h.shown v e he)
          · cases hx'
            exact Function.update_self ..
          · have hbound := h.bound v' e' x' he' hx'
            rw [Function.update_of_ne fun heq => by rw [heq, hx] at hbound; cases hbound]
            exact hbound
        refine ⟨(only_set _ _ fun _ _ => rfl).trans (submitView_only ..), hset.submitView v a, ?_⟩
        simp only [replaces, he, Option.all_some, hroot, hx, Option.isSome_none, Bool.false_or, Bool.or_eq_true,
          Bool.not_eq_true'] at hok
        have hwindow : s.window e = none := by rw [window, hroot]; rfl
        have hkeeps : (e.shows = true → e.oversized (s.geometry x) = false) →
            Right { s.setView v { e with root := some x } with
              boundIn := Function.update s.boundIn x (some v) } v := by
          intro hfits
          exact relaid_right h he { e with root := some x } hr fun hshows => by
            rw [hwindow]
            exact FitView.fit_of_not_oversized (hfits hshows)
        rcases hok with (hidle | haccepted) | hfits
        · exact (hkeeps fun hshows => by rw [hidle] at hshows; cases hshows).submitView a
        · exact submitView_accepted hset (Function.update_self ..) rfl haccepted
        · exact (hkeeps fun _ => hfits).submitView a

theorem replaces_binds {x : WlSurface} (he : s.views v = some e) (hidle : e.shows = false) :
    s.replaces (.binds v x a) = true := by
  simp [replaces, he, hidle]

/-- A new view shows nothing yet, whoever showed what under its id. -/
theorem viewCreated_handled (h : Sound s) (v : ViewId) (clears : Bool) (size : Option (Int × Int)) (dpr : F)
    (requested : Option (Int × Int)) (picked : Option WlSurface) (a : Offer) :
    Handled v s (s.viewCreated v clears size dpr requested picked a) := by
  have hunbound : Sound (s.unbindView v clears) := (h.clearView v clears).unlink v
  have honly : Only v s (s.unbindView v clears) := (clearView_only ..).trans (unlink_only ..)
  unfold viewCreated
  generalize s.unbindView v clears = s₁ at hunbound honly
  let e : FitView F := { size := size, dpr := dpr, requested := requested }
  have hnew : Sound { s₁.setView v e with placed := Function.update s₁.placed v none } := by
    refine hunbound.set e (fun _ hx => by cases hx) (fun v' e' x _ he' hx => hunbound.bound v' e' x he' hx)
      (fun v' hv => ?_) ?_
    · exact Function.update_of_ne hv ..
    · rw [Function.update_self]
      simp [e, FitView.shows]
  have hset : Only v s₁ { s₁.setView v e with placed := Function.update s₁.placed v none } := by
    refine only_set e s₁.boundIn fun v' hv => ?_
    exact Function.update_of_ne hv ..
  have hright : Right { s₁.setView v e with placed := Function.update s₁.placed v none } v :=
    right_of_none (Function.update_self ..)
  cases picked with
  | none => exact ⟨honly.trans hset, hnew, hright⟩
  | some x =>
      have hview : ({ s₁.setView v e with placed := Function.update s₁.placed v none } : Layouts F).views v = some e :=
        view_set e
      have hbind := bindView_handled hnew hright x a (replaces_binds hview rfl)
      exact ⟨(honly.trans hset).trans hbind.only, hbind.sound, hbind.right⟩

theorem viewDisposed_handled (h : Sound s) (v : ViewId) (clears : Bool) : Handled v s (s.viewDisposed v clears) := by
  have hunbound : Sound (s.unbindView v clears) := (h.clearView v clears).unlink v
  have honly : Only v s (s.unbindView v clears) := (clearView_only ..).trans (unlink_only ..)
  unfold viewDisposed
  generalize s.unbindView v clears = s₁ at hunbound honly
  have hviews : ∀ v' e', Function.update s₁.views v none v' = some e' → v' ≠ v ∧ s₁.views v' = some e' := by
    intro v' e' he'
    by_cases hv : v' = v
    · subst hv
      rw [Function.update_self] at he'
      cases he'
    · rw [Function.update_of_ne hv] at he'
      exact ⟨hv, he'⟩
  refine ⟨honly.trans ⟨rfl, fun v' hv => Function.update_of_ne hv .., fun v' hv => Function.update_of_ne hv ..⟩,
    ⟨fun v' e' x he' hx => hunbound.bound v' e' x (hviews v' e' he').2 hx, fun v' e' he' => ?_, fun v' hv' => ?_⟩,
    right_of_none (Function.update_self ..)⟩
  · obtain ⟨hv, he'⟩ := hviews v' e' he'
    dsimp only
    rw [Function.update_of_ne hv]
    exact hunbound.shown v' e' he'
  · dsimp only at hv' ⊢
    by_cases hv : v' = v
    · subst hv
      exact Function.update_self ..
    · rw [Function.update_of_ne hv] at hv' ⊢
      exact hunbound.gone v' hv'

/-! ## Commits and runs -/

theorem commit_right (h : Sound s) (hr : ∀ v, Right s v) (x : WlSurface) (geometry : Option (Int × Int)) (a : Offer)
    (hok : s.replaces (.commits x geometry a) = true) (v : ViewId) : Right (s.commit x geometry a) v := by
  have hset : Sound { s with geometry := Function.update s.geometry x geometry } := ⟨h.bound, h.shown, h.gone⟩
  -- A view of another toplevel, or one whose content stays where it is.
  have hkeeps : (∀ e, s.views v = some e → e.shows = true → e.root = some x →
      e.fit geometry = e.fit (s.geometry x)) → Right { s with geometry := Function.update s.geometry x geometry } v := by
    intro hfit f hf
    have hplaced : s.placed v = some f := hf
    cases he : s.views v with
    | none =>
        rw [h.gone v he] at hplaced
        cases hplaced
    | some e =>
        have hshows : e.shows = true := (h.shown v e he).mp (by rw [hplaced]; rfl)
        rw [← hr v f hplaced, viewFit_of_view he,
          viewFit_of_view (s := { s with geometry := Function.update s.geometry x geometry }) he]
        unfold window
        cases hroot : e.root with
        | none => rfl
        | some y =>
            simp only [Option.bind_some]
            by_cases hy : y = x
            · subst hy
              rw [Function.update_self]
              exact hfit e he hshows hroot
            · rw [Function.update_of_ne hy]
  unfold commit
  dsimp only
  cases hbound : s.boundIn x with
  | none => exact hkeeps fun e he _ hx => by rw [h.bound v e x he hx] at hbound; cases hbound
  | some w =>
      by_cases hvw : v = w
      · subst hvw
        by_cases hx : ∃ e, s.views v = some e ∧ e.root = some x
        · obtain ⟨e, he, hx⟩ := hx
          simp only [replaces, hbound, Option.all_some, he, Bool.or_eq_true, beq_iff_eq, Bool.not_eq_true',
            Bool.and_eq_true] at hok
          rcases hok with hsame | (hidle | haccepted) | ⟨hbefore, hafter⟩
          · exact (hkeeps fun _ _ _ _ => by rw [hsame]).submitView a
          · refine (hkeeps fun e' he' hshows _ => ?_).submitView a
            cases he.symm.trans he'
            rw [hidle] at hshows
            cases hshows
          · exact submitView_accepted hset he (by rw [hx]; rfl) haccepted
          · refine (hkeeps fun e' he' _ _ => ?_).submitView a
            cases he.symm.trans he'
            rw [FitView.fit_of_not_oversized hafter, FitView.fit_of_not_oversized hbefore]
        · exact (hkeeps fun e he _ hroot => absurd ⟨e, he, hroot⟩ hx).submitView a
      · refine (submitView_only w a _).right hvw (hkeeps fun e he _ hx => ?_)
        exact absurd (Option.some.inj ((h.bound v e x he hx).symm.trans hbound)) hvw

theorem Handled.all (hh : Handled v s s') (hr : ∀ v, Right s v) (v' : ViewId) : Right s' v' := by
  by_cases hv : v' = v
  · subst hv
    exact hh.right
  · exact hh.only.right hv (hr v')

theorem step_right (op : LayoutOp F) (hok : s.replaces op = true) (h : Sound s ∧ ∀ v, Right s v) :
    Sound (s.step op) ∧ ∀ v, Right (s.step op) v := by
  obtain ⟨hs, hr⟩ := h
  have hhandled : ∀ v (s' : Layouts F), Handled v s s' → Sound s' ∧ ∀ v', Right s' v' := fun v s' hh =>
    ⟨hh.sound, hh.all hr⟩
  cases op with
  | creates v clears size dpr requested picked a =>
      exact hhandled v _ (viewCreated_handled hs v clears size dpr requested picked a)
  | disposes v clears => exact hhandled v _ (viewDisposed_handled hs v clears)
  | binds v x a => exact hhandled v _ (bindView_handled hs (hr v) x a hok)
  | unbinds v clears => exact hhandled v _ (unbindView_handled hs (hr v) clears hok)
  | resizes v size a => exact hhandled v _ (viewResized_handled hs (hr v) size a hok)
  | requests v size a => exact hhandled v _ (viewRequestSize_handled hs (hr v) size a hok)
  | commits x geometry a =>
      refine ⟨?_, commit_right hs hr x geometry a hok⟩
      unfold Layouts.step commit
      dsimp only
      have hset : Sound { s with geometry := Function.update s.geometry x geometry } := ⟨hs.bound, hs.shown, hs.gone⟩
      split
      · exact hset
      · exact hset.submitView _ a
  | submits v a => exact hhandled v _ ⟨submitView_only .., hs.submitView v a, (hr v).submitView a⟩

/-- In every run in which what moves the content of a view that shows layers submits it again, and the shell accepts
it, input uses the fit the layers on screen were placed with. -/
theorem input_fits_screen (ops : List (LayoutOp F))
    (hok : Runs.Meets step (fun s op => s.replaces op = true) ({} : Layouts F) ops) :
    ∀ v f, (run ops).placed v = some f → (run ops).viewFit v = f ∧
      ∀ p, (run ops).clientPoint v p = f.toClient p := by
  have hall := hok.keeps (P := fun s => Sound s ∧ ∀ v, Right s v) (fun _ op hop h => step_right op hop h)
    ⟨sound_start, fun _ => right_of_none rfl⟩
  intro v f hf
  have hfit := hall.2 v f hf
  refine ⟨hfit, fun p => ?_⟩
  change ((run ops).viewFit v).toClient p = f.toClient p
  rw [show (run ops).viewFit v = f from hfit]

/-- A view shows a window larger than itself, or one that fits. -/
def windowRun (size window : Int × Int) : List (LayoutOp Rat) :=
  [.commits 10 (some window) ⟨true, true⟩,
    .creates 1 true (some size) (Rat.ofInt 1) none (some 10) ⟨true, true⟩]

/-- The view grows, asks its client for a size of its own and shrinks again. -/
def refitRun : List (LayoutOp Rat) :=
  windowRun (400, 400) (300, 300) ++ [.resizes 1 (800, 800) ⟨true, true⟩,
    .requests 1 (some (1600, 1200)) ⟨true, true⟩, .resizes 1 (400, 400) ⟨true, true⟩]

theorem input_fits_screen_refit : ∃ f, (run refitRun).placed 1 = some f ∧ (run refitRun).viewFit 1 = f := by
  obtain ⟨f, hf⟩ := Option.isSome_iff_exists.mp (show ((run refitRun).placed 1).isSome = true by decide +kernel)
  exact ⟨f, hf, (input_fits_screen refitRun (by decide +kernel) 1 f hf).1⟩

/-- A window larger than its view is scaled to fit. The view grows until the window fits, and its layers stay scaled
down. -/
theorem not_input_fits_screen :
    ¬∀ (ops : List (LayoutOp Rat)) (v : ViewId) f, (run ops).placed v = some f → (run ops).viewFit v = f := by
  intro h
  have hfit := h (windowRun (400, 400) (800, 600) ++ [.resizes 1 (800, 800) ⟨true, true⟩]) 1
    ⟨Rat.div (Rat.ofInt 1) (Rat.ofInt 2), (Rat.ofInt 0, Rat.ofInt 50)⟩ (by decide +kernel)
  revert hfit
  decide +kernel

end Layouts

end IhsWl
