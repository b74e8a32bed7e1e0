import IhsWl.Params.Theorems
import IhsWl.Params.Views
import IhsWl.Widget.Runs

/-!
# The server has of a view what the app set

The widget's creation params come through the codec as they were, and a call sets what they would have. So the server
has of each view what its controller sets and the size the app asks for, through whatever order it came.
-/

namespace IhsWl

/-! ## Sizes and bits -/

/-- Finite, with both sides positive or neither. -/
def Size.Good (s : Size Double) : Prop :=
  (s.width.isFinite ∧ s.height.isFinite) ∧ (s.width.pos ∧ s.height.pos ∨ s.width.isZero ∧ s.height.isZero)

instance : DecidablePred Size.Good := fun _ => inferInstanceAs (Decidable (_ ∧ (_ ∨ _)))

/-- The whole pixels of a size. -/
def Size.pixels (s : Size Double) : Option (Int × Int) := requestedSize s.width s.height

/-- Only bits the module knows. -/
structure Grants.Known (g : Grants) : Prop where
  capabilities : g.capabilities < 2 ^ 3
  windowState : g.windowState < 2 ^ 2

theorem pos_of_isZero {d : Double} (h : d.isZero) : d.pos = false := by
  simp only [Double.isZero, decide_eq_true_eq] at h
  simp [Double.pos, h]

theorem isZero_of_pos {d : Double} (h : d.pos) : d.isZero = false := by
  by_contra hzero
  rw [pos_of_isZero (by simpa using hzero)] at h
  cases h

theorem WaylandToplevelController.grants_known (c : WaylandToplevelController) : Grants.Known ⟨c.capabilityBits, c.stateBits⟩ := by
  constructor
  · unfold WaylandToplevelController.capabilityBits
    induction c.capabilities using Finset.induction_on with
    | empty => simp
    | insert x s hx ih =>
        rw [Finset.fold_insert hx]
        exact Nat.or_lt_two_pow (by cases x <;> decide) ih
  · unfold WaylandToplevelController.stateBits
    induction c.state using Finset.induction_on with
    | empty => simp
    | insert x s hx ih =>
        rw [Finset.fold_insert hx]
        exact Nat.or_lt_two_pow (by cases x <;> decide) ih

/-! ## Creation params -/

/-- The codec writes the length of each string. -/
structure ViewNames.Fits (n : ViewNames) : Prop where
  token : ∀ s, n.token = some s → s.utf8ByteSize < 4_294_967_296
  appId : ∀ s, n.appId = some s → s.utf8ByteSize < 4_294_967_296
  sandboxAppId : ∀ s, n.sandboxAppId = some s → s.utf8ByteSize < 4_294_967_296

/-- An empty string names nothing. -/
def named (s : Option String) : Option String := s.filter fun s => !s.isEmpty

@[simp] theorem toValue_writtenInt (i : Int64) : (writtenInt i).toValue = .int i := by
  unfold writtenInt
  split
  · rename_i h
    exact congrArg Value.int h
  · rfl

theorem fits_writtenInt (i : Int64) : (writtenInt i).Fits := by
  unfold writtenInt
  split <;> trivial

theorem encodable_creationParams {n : ViewNames} (h : n.Fits) (g : Grants) (requested : Option (Size Double)) :
    Encodable (creationParams n g requested) := by
  have hstring {s : Option String} (hs : ∀ t, s = some t → t.utf8ByteSize < 4_294_967_296) :
      WireValue.Fits (s.elim .null .string) := by
    cases s with
    | none => trivial
    | some s => exact hs s rfl
  have hdouble (d : Option Double) : WireValue.Fits (d.elim .null fun d => .float64 d.bits) := by
    cases d <;> trivial
  refine ⟨by simp [creationParams], ?_⟩
  simp only [creationParams, List.forall_mem_cons]
  exact ⟨⟨by decide, hstring h.token⟩, ⟨by decide, hstring h.appId⟩, ⟨by decide, hstring h.sandboxAppId⟩, ⟨by decide, trivial⟩,
    ⟨by decide, fits_writtenInt _⟩, ⟨by decide, fits_writtenInt _⟩, ⟨by decide, hdouble _⟩, ⟨by decide, hdouble _⟩, by simp⟩

namespace CreateParams

variable {map : ParamMap} {key : String}

theorem string_of {s : Option String} (h : map key = some (WireValue.toValue (s.elim .null .string))) :
    string map key = named s := by
  unfold string
  cases s with
  | none => rw [h]; rfl
  | some s =>
      rw [h]
      simp only [Option.elim, WireValue.toValue, named, Option.filter]
      by_cases hs : s.isEmpty = true <;> simp [hs]

theorem positive_of {d : Option Double} (h : map key = some (WireValue.toValue (d.elim .null fun d => .float64 d.bits))) :
    positive map key = d.filter fun d => d.isFinite && d.pos := by
  unfold positive
  cases d with
  | none => rw [h]; rfl
  | some d => rw [h]; rfl

theorem bits_of {k n : Nat} (hk : k ≤ 32) (h : map key = some (.int (.ofNat n))) : bits map key (2 ^ k - 1) = n % 2 ^ k := by
  unfold bits
  rw [h]
  have hlarge : n % 2 ^ 64 % 2 ^ 32 = n % 2 ^ 32 := Nat.mod_mod_of_dvd n (Nat.pow_dvd_pow 2 (by decide))
  have hsmall : n % 2 ^ 32 % 2 ^ k = n % 2 ^ k := Nat.mod_mod_of_dvd n (Nat.pow_dvd_pow 2 hk)
  have hbits : (Int64.ofNat n).toBitVec.toNat = n % 2 ^ 64 := by simp
  dsimp only
  rw [Nat.and_two_pow_sub_one_eq_mod, hbits, hlarge, hsmall]

/-- Creation params come through as the widget wrote them. -/
theorem decode_creationParams {n : ViewNames} (h : n.Fits) (g : Grants) (requested : Option (Size Double)) :
    decode (encodeMap (creationParams n g requested)) =
      { token := named n.token, appId := named n.appId, sandboxAppId := named n.sandboxAppId
        requested := requestedSize
          (((requested.map Size.width).filter fun d => d.isFinite && d.pos).getD .zero)
          (((requested.map Size.height).filter fun d => d.isFinite && d.pos).getD .zero)
        dpr := if n.dpr.isFinite && n.dpr.pos then some n.dpr else none
        grants := ⟨g.capabilities % 2 ^ 3, g.windowState % 2 ^ 2⟩ } := by
  obtain ⟨hlength, hfits⟩ := encodable_creationParams h g requested
  have hmap : decodeMap (encodeMap (creationParams n g requested)) = some (mapOf (toValues (creationParams n g requested))) := by
    have hall := decodeMap_written (n := 0) hlength hfits List.prefix_rfl
    simpa [Decode.items, encodeMap] using hall
  rw [decode, hmap, Option.getD_some]
  have hmapped : ∀ e ∈ toValues (creationParams n g requested), mapOf (toValues (creationParams n g requested)) e.1 = some e.2 := by
    simp [creationParams, toValues, mapOf, ParamMap.insert]
  generalize mapOf (toValues (creationParams n g requested)) = map at hmapped
  simp only [creationParams, toValues, List.map_cons, List.map_nil, List.forall_mem_cons, toValue_writtenInt] at hmapped
  obtain ⟨htoken, happ, hsandbox, hdpr, hcapabilities, hstate, hwidth, hheight, -⟩ := hmapped
  rw [string_of htoken, string_of happ, string_of hsandbox, positive_of (d := some n.dpr) hdpr, positive_of hwidth,
    positive_of hheight,
    show capabilityAll = 2 ^ 3 - 1 from rfl, show windowStateAll = 2 ^ 2 - 1 from rfl, bits_of (by decide) hcapabilities,
    bits_of (by decide) hstate]
  rfl

end CreateParams

/-! ## The server's view -/

/-- What the calls take, whatever they are told. -/
def ToModule.Valid : ToModule Double → Prop
  | .create _ grants requested => grants.Known ∧ ∀ s, requested = some s → s.Good
  | .capabilities _ bits => bits < 2 ^ 3
  | .windowState _ bits => bits < 2 ^ 2
  | .requestSize _ size => ∀ s, size = some s → s.Good
  | .close _ => True

/-- The server has the view as the module was told of it, under the names its widget gave. -/
structure ServerView.Has (n : ViewNames) (e : ServerView) (m : ModuleView Double) : Prop where
  token : e.params.token = named n.token
  appId : e.params.appId = named n.appId
  sandboxAppId : e.params.sandboxAppId = named n.sandboxAppId
  dpr : e.dpr = if n.dpr.isFinite && n.dpr.pos then n.dpr else .one
  grants : e.grants = m.grants
  requested : e.requested = m.requested.bind Size.pixels

variable {names : ViewId → ViewNames} {v : ViewId}

theorem pixels_of_isZero {s : Size Double} (h : s.width.isZero) : s.pixels = none := by
  simp [Size.pixels, requestedSize, pos_of_isZero h]

theorem requestedSize_filter {requested : Option (Size Double)} (h : ∀ s, requested = some s → s.Good) :
    requestedSize (((requested.map Size.width).filter fun d => d.isFinite && d.pos).getD .zero)
      (((requested.map Size.height).filter fun d => d.isFinite && d.pos).getD .zero) = requested.bind Size.pixels := by
  have hzero : requestedSize .zero .zero = none := by decide
  cases requested with
  | none => exact hzero
  | some s =>
      obtain ⟨⟨hwidth, hheight⟩, ⟨hw, hh⟩ | ⟨hw, hh⟩⟩ := h s rfl
      · simp [Option.filter, hwidth, hheight, hw, hh, Size.pixels]
      · rw [Option.bind_some, pixels_of_isZero hw]
        simp only [Option.map_some, Option.filter, pos_of_isZero hw, pos_of_isZero hh, Bool.and_false]
        exact hzero

theorem ihsWlViewSize_of_good {size : Option (Size Double)} (h : ∀ s, size = some s → s.Good) :
    ihsWlViewSize v (size.elim .zero Size.width) (size.elim .zero Size.height) = some (.requestSize v (size.bind Size.pixels)) := by
  cases size with
  | none => rfl
  | some s =>
      obtain ⟨⟨hwidth, hheight⟩, ⟨hw, hh⟩ | ⟨hw, hh⟩⟩ := h s rfl
      · simp [ihsWlViewSize, hwidth, hheight, hw, hh, isZero_of_pos hw, isZero_of_pos hh, Size.pixels]
      · simp [ihsWlViewSize, hwidth, hheight, hw, hh, Size.pixels]

theorem ihsWlViewCapabilities_of_lt {bits : Nat} (h : bits < 2 ^ 3) :
    ihsWlViewCapabilities v bits = some (.capabilities v bits) := by
  rw [ihsWlViewCapabilities, show capabilityAll = 2 ^ 3 - 1 from rfl, Nat.and_two_pow_sub_one_eq_mod, Nat.mod_eq_of_lt h,
    if_pos rfl]

theorem ihsWlViewState_of_lt {bits : Nat} (h : bits < 2 ^ 2) : ihsWlViewState v bits = some (.windowState v bits) := by
  rw [ihsWlViewState, show windowStateAll = 2 ^ 2 - 1 from rfl, Nat.and_two_pow_sub_one_eq_mod, Nat.mod_eq_of_lt h, if_pos rfl]

@[simp] theorem serverView_append (told : List (ToModule Double)) (m : ToModule Double) :
    serverView names (told ++ [m]) v =
      (m.sent names).elim (serverView names told v) (ServerView.handleCmd v (serverView names told v)) := by
  rw [serverView, List.filterMap_append, List.foldl_append]
  cases hm : m.sent names <;> simp [hm, serverView]

/-- A message of what is valid tells the server what it tells of the view. -/
theorem ServerView.has_hear (hnames : (names v).Fits) {view : Option ServerView} {mview : Option (ModuleView Double)} {m : ToModule Double}
    (hm : m.Valid) (h : Option.Rel (Has (names v)) view mview) :
    Option.Rel (Has (names v)) ((m.sent names).elim view (handleCmd v view)) (ModuleView.hear v mview m) := by
  cases m with
  | create u grants requested =>
      obtain ⟨hknown, hgood⟩ := hm
      simp only [ToModule.sent, Option.elim, handleCmd, ModuleView.hear]
      by_cases hu : u = v
      · subst hu
        rw [if_pos rfl, if_pos rfl, CreateParams.decode_creationParams hnames, requestedSize_filter hgood,
          Nat.mod_eq_of_lt hknown.capabilities, Nat.mod_eq_of_lt hknown.windowState]
        refine .some ⟨rfl, rfl, rfl, ?_, rfl, rfl⟩
        dsimp only
        split <;> rfl
      · rw [if_neg hu, if_neg hu]
        exact h
  | capabilities u bits =>
      simp only [ToModule.sent, ihsWlViewCapabilities_of_lt hm, Option.elim, handleCmd, ModuleView.hear]
      split
      · cases h with
        | none => exact .none
        | some he => exact .some ⟨he.token, he.appId, he.sandboxAppId, he.dpr, by simp [he.grants], he.requested⟩
      · exact h
  | windowState u bits =>
      simp only [ToModule.sent, ihsWlViewState_of_lt hm, Option.elim, handleCmd, ModuleView.hear]
      split
      · cases h with
        | none => exact .none
        | some he => exact .some ⟨he.token, he.appId, he.sandboxAppId, he.dpr, by simp [he.grants], he.requested⟩
      · exact h
  | requestSize u size =>
      have hsent : (ToModule.requestSize u size).sent names = some (.requestSize u (size.bind Size.pixels)) :=
        ihsWlViewSize_of_good hm
      simp only [hsent, Option.elim, handleCmd, ModuleView.hear]
      split
      · cases h with
        | none => exact .none
        | some he => exact .some ⟨he.token, he.appId, he.sandboxAppId, he.dpr, he.grants, rfl⟩
      · exact h
  | close u => exact h

/-- The server has a view as the module was told of it, as long as that was valid. -/
theorem serverView_has (hnames : (names v).Fits) {told : List (ToModule Double)} (hvalid : ∀ m ∈ told, m.Valid) :
    Option.Rel (ServerView.Has (names v)) (serverView names told v) (moduleView told v) := by
  induction told using List.reverseRecOn with
  | nil => exact .none
  | append_singleton told m ih =>
      rw [serverView_append, moduleView_append]
      exact ServerView.has_hear hnames (hvalid m (by simp)) (ih fun m' hm' => hvalid m' (List.mem_append_left _ hm'))

/-! ## Runs -/

namespace App

open Runs

variable {client : Nat → ViewId → Option ClientId} {a a' : App Double} {w : Nat} {s : WaylandToplevelViewState Double}

theorem grants_known (a : App Double) (c : Option Nat) : (a.grants c).Known := by
  cases c with
  | none => exact ⟨Nat.two_pow_pos 3, Nat.two_pow_pos 2⟩
  | some c => exact (a.controllers c).grants_known

/-- The sizes the app and Flutter give a view. -/
structure SizedView (s : WaylandToplevelViewState Double) : Prop where
  requested : ∀ r, s.widget.requestedSize = some r → r.Good
  layout : ∀ r, s.layoutSize = some r → r.Good

theorem SizedView.asked (h : SizedView s) (r : Size Double) (hr : s.askedSize = some r) : r.Good := by
  unfold WaylandToplevelViewState.askedSize at hr
  rcases Option.or_eq_some_iff.mp hr with hr | ⟨-, hr⟩
  · exact h.requested r hr
  · split at hr
    · cases hr
    · exact h.layout r hr

/-- The sizes are good, and what was told is valid. -/
structure Sized (a : App Double) : Prop where
  views : ∀ w s, a.views w = some s → SizedView s
  told : ∀ m ∈ a.told, m.Valid

theorem Sized.tell (h : a.Sized) {m : ToModule Double} (hm : m.Valid) : (a.tell m).Sized := by
  refine ⟨h.views, fun m' hm' => ?_⟩
  rcases List.mem_append.mp hm' with hm' | hm'
  · exact h.told m' hm'
  · rw [List.mem_singleton.mp hm']
    exact hm

theorem Sized.congr (h : a.Sized) (hviews : a'.views = a.views) (htold : a'.told = a.told) : a'.Sized := by
  refine ⟨?_, ?_⟩
  · rw [hviews]
    exact h.views
  · rw [htold]
    exact h.told

theorem Sized.modifyView (h : a.Sized) {f : WaylandToplevelViewState Double → WaylandToplevelViewState Double}
    (hf : ∀ s, a.views w = some s → SizedView (f s)) : (a.modifyView w f).Sized := by
  refine ⟨fun k t ht => ?_, h.told⟩
  simp only [App.modifyView, Function.update_apply] at ht
  split at ht
  · obtain ⟨s, hs, rfl⟩ := Option.map_eq_some_iff.mp ht
    exact hf s hs
  · exact h.views k t ht

theorem Sized.attach (h : a.Sized) {c : Option Nat} {viewId : Option ViewId} {b : Bool} : (a.attach client c viewId b).Sized :=
  h.congr attach_views attach_told

theorem Sized.sendController (h : a.Sized) {c : Option Nat} {v : ViewId} : (a.sendController c v).Sized := by
  have hknown := grants_known a c
  have hfirst : (a.tell (.capabilities v (a.grants c).capabilities)).Sized := h.tell hknown.capabilities
  exact hfirst.tell hknown.windowState

theorem Sized.sendRequestedSize (h : a.Sized) : (a.sendRequestedSize w).Sized := by
  unfold App.sendRequestedSize
  split
  · exact h
  · rename_i s hs
    split
    · exact h
    · exact h.tell (h.views w s hs).asked

/-- The sizes the app and Flutter give. -/
def GoodSizes : AppOp Double → Prop
  | .createState _ widget | .didUpdateWidget _ widget => ∀ r, widget.requestedSize = some r → r.Good
  | .onLayout _ size => size.Good
  | _ => True

theorem Sized.step (h : a.Sized) {op : AppOp Double} (hop : GoodSizes op) : (a.step client op).Sized := by
  cases op with
  | windowState c value =>
      simp only [App.step]
      split
      · exact h
      · have hset : (a.modifyController c fun c => { c with state := value }).Sized := h.congr rfl rfl
        split
        · exact hset
        · exact hset.tell (WaylandToplevelController.grants_known _).windowState
  | windowCapabilities c value =>
      simp only [App.step]
      split
      · exact h
      · have hset : (a.modifyController c fun c => { c with capabilities := value }).Sized := h.congr rfl rfl
        split
        · exact hset
        · exact hset.tell (WaylandToplevelController.grants_known _).capabilities
  | close c =>
      simp only [App.step]
      split
      · exact h
      · split
        · exact h.tell trivial
        · exact h
  | createState w widget =>
      simp only [App.step]
      split
      · exact h
      · refine ⟨fun k t ht => ?_, h.told⟩
        simp only [Function.update_apply] at ht
        split at ht
        · cases ht
          exact ⟨hop, fun r hr => by cases hr⟩
        · exact h.views k t ht
  | createView w =>
      simp only [App.step]
      split
      · exact h
      · rename_i s hmounted
        have hs := h.views w s (mounted_iff.mp hmounted).1
        split
        · exact h
        · have hset : (a.modifyView w fun s => { s with watchedId := some (a.nextId : ViewId), bound := false }).Sized :=
            h.modifyView fun t ht => ⟨(h.views w t ht).requested, (h.views w t ht).layout⟩
          have hwatching : ({ a.modifyView w fun s => { s with watchedId := some (a.nextId : ViewId), bound := false } with
            watched := Function.update a.watched a.nextId (some w), nextId := a.nextId + 1 } : App Double).Sized := hset.congr rfl rfl
          exact hwatching.tell ⟨grants_known a _, hs.asked⟩
  | created w =>
      simp only [App.step]
      split
      · exact h
      · split
        · rename_i v _ _
          have hset : (a.modifyView w fun s => { s with viewId := some v }).Sized :=
            h.modifyView fun t ht => ⟨(h.views w t ht).requested, (h.views w t ht).layout⟩
          exact hset.attach.sendController.sendRequestedSize
        · exact h
  | didUpdateWidget w widget =>
      simp only [App.step]
      split
      · exact h
      · rename_i s hmounted
        have hset : (a.modifyView w fun s => { s with widget }).Sized := h.modifyView fun t ht => ⟨hop, (h.views w t ht).layout⟩
        have hsend {b : App Double} (hb : b.Sized) (send : Prop) [Decidable send] :
            (if send then b.sendRequestedSize w else b).Sized := by
          split
          · exact hb.sendRequestedSize
          · exact hb
        simp only [App.didUpdateWidget]
        refine hsend ?_ _
        split
        · split
          · exact hset.attach.attach
          · exact hset.attach.attach.sendController
        · exact hset
  | onLayout w size =>
      simp only [App.step]
      split
      · exact h
      · have hset : (a.modifyView w fun s => { s with layoutSize := some size }).Sized :=
          h.modifyView fun t ht => ⟨(h.views w t ht).requested, fun r hr => by cases hr; exact hop⟩
        unfold App.onLayout
        split
        · exact hset.sendRequestedSize
        · exact hset
  | dispatch v event =>
      simp only [App.step]
      split
      · exact h
      · rename_i w _
        split
        · exact h
        · rename_i s _
          have hsame : (a.onViewEvent client w event s).Sized := by
            cases event with
            | request r =>
                simp only [App.onViewEvent]
                split
                · exact h
                · exact h.congr rfl rfl
            | event e =>
                have hset : (a.modifyView w fun s => { s with bound := e == .bound }).Sized :=
                  h.modifyView fun t ht => ⟨(h.views w t ht).requested, (h.views w t ht).layout⟩
                exact hset.congr setBound_views setBound_told
          exact hsame.congr rfl rfl
  | dispose w =>
      simp only [App.step]
      split
      · exact h
      · have hset : (a.modifyView w fun s => { s with mounted := false }).Sized :=
          h.modifyView fun t ht => ⟨(h.views w t ht).requested, (h.views w t ht).layout⟩
        rw [dispose_eq]
        exact hset.attach.congr rfl rfl

/-- Whatever order the app, Flutter and the shell do things in, the server has of each view Flutter has what its
controller sets and the whole pixels of the size the app asks for, under the names its widget gave. -/
theorem run_serves {names : ViewId → ViewNames} (hnames : ∀ v, (names v).Fits) {ops : List (AppOp Double)}
    (h : Meets (App.step client) Orderly {} ops) (hsizes : ∀ op ∈ ops, GoodSizes op) {v : ViewId}
    (hs : (run client ops).mounted w = some s) (hv : s.viewId = some v) :
    ∃ e, serverView names (run client ops).told v = some e ∧ e.grants = (run client ops).grants s.widget.controller ∧
      e.requested = s.askedSize.bind Size.pixels ∧ e.params.token = named (names v).token ∧
      e.params.appId = named (names v).appId ∧ e.params.sandboxAppId = named (names v).sandboxAppId ∧
      e.dpr = if (names v).dpr.isFinite && (names v).dpr.pos then (names v).dpr else .one := by
  obtain ⟨hviews, hm⟩ := mounted_iff.mp hs
  have hmodule := (run_synced h).told.told w s v hviews hm hv
  have hsized : (run client ops).Sized := by
    have hnew : ({} : App Double).Sized := ⟨(by intro w s hs; cases hs), (by intro m hm; cases hm)⟩
    exact (meets_of_forall hsizes).keeps (P := Sized) (fun _ _ hop hs => hs.step hop) hnew
  have hrel := serverView_has (hnames v) hsized.told
  rw [hmodule] at hrel
  cases hview : serverView names (run client ops).told v with
  | none =>
      rw [hview] at hrel
      cases hrel
  | some e =>
      rw [hview] at hrel
      cases hrel with
      | some he => exact ⟨e, rfl, he.grants, he.requested, he.token, he.appId, he.sandboxAppId, he.dpr⟩

/-- 800.5 x 600 -/
def halved : Size Double := ⟨⟨0x4089040000000000⟩, ⟨0x4082C00000000000⟩⟩

theorem run_serves_handover : ∃ e, serverView (fun _ => { appId := some "org.a", dpr := .one })
    (run (fun _ v => some (v.toNat + 7)) (handover halved)).told 1 = some e ∧ e.grants = ⟨4, 1⟩ ∧
      e.requested = some (801, 600) ∧ e.params.appId = some "org.a" := by
  have hnames : ViewNames.Fits { appId := some "org.a", dpr := .one } :=
    ⟨fun s hs => (by cases hs), fun s hs => (by cases hs; decide), fun s hs => (by cases hs)⟩
  have hgood : ∀ op ∈ handover halved, GoodSizes op := by
    have hsize : halved.Good := by decide
    simp [handover, GoodSizes, hsize]
  obtain ⟨e, hview, hgrants, hrequested, -, happ, -⟩ := run_serves (fun _ => hnames) (handover_orderly halved) hgood (w := 1)
    (s := { widget := ⟨some 0, some halved, true⟩, viewId := some 1, watchedId := some 1, bound := true }) rfl rfl
  exact ⟨e, hview, hgrants, hrequested.trans (by decide), happ.trans (by decide)⟩

end App

end IhsWl
