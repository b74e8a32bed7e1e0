import Mathlib.Data.Set.Insert
import IhsWl.Lib.Runs
import IhsWl.Seat.Lemmas.Attended
import IhsWl.Seat.Theorems.Focus
import IhsWl.Typing

/-!
# Keys reach the window they were typed in

The server follows Flutter's focus in whatever order the views hear of it, and the queue keeps keys and focus in step: a
key is handed to the view it was typed in, and none that was held in another view is left.
-/

namespace IhsWl

open Runs

/-! ## The queue -/

/-- What the server has of the keys: the view that has the focus, and the keycodes held. -/
abbrev Attention := Option ViewId × Set Nat

/-- What a command makes of it. -/
def InputCmd.turns (a : Attention) : InputCmd → Attention
  | .focus v focused =>
      if focused then if a.1 = some v then a else (some v, ∅)
      else if a.1 = some v then (none, ∅)
      else a
  | .key v evdev pressed =>
      if a.1 = some v then
        (a.1, if pressed then insert (evdev + xkbOffset) a.2 else a.2 \ {evdev + xkbOffset})
      else a
  | .viewDisposed v => if a.1 = some v then (none, a.2) else a

/-- A key comes while its view has the focus. -/
def InputCmd.Timely (a : Attention) : InputCmd → Prop
  | .key v _ _ => a.1 = some v
  | _ => True

/-- What the focus nodes of `vs` tell the server, where `next` has the focus. -/
def notices (next : Option ViewId) (vs : List ViewId) : List InputCmd :=
  vs.map fun v => .focus v (decide (next = some v))

section Notices

variable {a : Attention} {next : Option ViewId} {vs : List ViewId} {u : ViewId}

theorem notices_keep (h : a.1 = some u) : (notices (some u) vs).foldl InputCmd.turns a = a := by
  induction vs with
  | nil => rfl
  | cons v vs ih =>
      have hsame : (InputCmd.focus v (decide (some u = some v))).turns a = a := by
        by_cases huv : u = v <;> simp [InputCmd.turns, h, huv]
      rw [notices, List.map_cons, List.foldl_cons, hsame]
      exact ih

theorem notices_give (h : a.1 ≠ some u) (hu : u ∈ vs) : (notices (some u) vs).foldl InputCmd.turns a = (some u, ∅) := by
  induction vs generalizing a with
  | nil => simp at hu
  | cons v vs ih =>
      rw [notices, List.map_cons, List.foldl_cons]
      by_cases huv : v = u
      · have hgot : (InputCmd.focus v (decide (some u = some v))).turns a = (some u, ∅) := by simp [InputCmd.turns, huv, h]
        rw [hgot]
        exact notices_keep rfl
      · have hrest : u ∈ vs := (List.mem_cons.mp hu).resolve_left (Ne.symm huv)
        have hother : ((InputCmd.focus v (decide (some u = some v))).turns a).1 ≠ some u := by
          have hne : ¬u = v := Ne.symm huv
          by_cases hv : a.1 = some v <;> simp [InputCmd.turns, hne, hv, h]
        exact ih hother hrest

/-- Who has it after the notices was given it, or kept it untold. -/
theorem notices_from (h : ((notices next vs).foldl InputCmd.turns a).1 = some u) :
    u ∈ vs ∧ next = some u ∨ u ∉ vs ∧ a.1 = some u := by
  induction vs generalizing a with
  | nil => exact Or.inr ⟨by simp, h⟩
  | cons v vs ih =>
      rw [notices, List.map_cons, List.foldl_cons] at h
      rcases ih h with ⟨hmem, hnext⟩ | ⟨hrest, hu⟩
      · exact Or.inl ⟨List.mem_cons_of_mem _ hmem, hnext⟩
      · simp only [InputCmd.turns] at hu
        by_cases huv : u = v
        · exact Or.inl ⟨by simp [huv], by grind⟩
        · exact Or.inr ⟨by simp [huv, hrest], by grind⟩

theorem notices_timely (a : Attention) (next : Option ViewId) (vs : List ViewId) :
    Meets InputCmd.turns InputCmd.Timely a (notices next vs) := by
  refine meets_of_splits fun pre c post hsplit => ?_
  have hc : c ∈ notices next vs := by
    rw [hsplit]
    simp
  obtain ⟨v, -, rfl⟩ := List.mem_map.mp hc
  trivial

end Notices

/-! ## Typists -/

/-- What typing is for: the keys down in the view that has the focus, of those it was sent. -/
structure Typist where
  focus : Option ViewId := none
  ready : ViewId → Bool := fun _ => false
  down : Set Nat := ∅

/-- The code a key is sent by, if it can be. -/
def KeyEvent.code (evdevByHid : Nat → Option Nat) (e : KeyEvent) : Option Nat :=
  (evdevByHid e.usbHidUsage).filter (· ≤ keyMax)

def Typist.press (kind : KeyEventKind) (code : Nat) (y : Typist) : Typist :=
  match kind with
  | .down => { y with down := insert code y.down }
  | .up => { y with down := y.down \ {code} }
  | .repeated => y

def Typist.step (evdevByHid : Nat → Option Nat) (y : Typist) : TypingOp → Typist
  | .created v => { y with ready := fun u => if u = v then true else y.ready u }
  | .unmounts v => if y.focus = some v then { y with focus := none, down := ∅ } else y
  | .focuses next _ => if y.focus = next then y else { y with focus := next, down := ∅ }
  | .key e =>
      match y.focus, e.code evdevByHid with
      | some v, some code => if y.ready v then y.press e.kind code else y
      | _, _ => y
  | _ => y

namespace Typing

variable {κ : Type} {kb : Keyboard κ} {w : SeatWorld} {depth : Nat} {evdevByHid : Nat → Option Nat} {t : Typing κ}

theorem foldl_focusChanged (vs : List ViewId) (t : Typing κ) :
    vs.foldl (fun t v => t.focusChanged v (decide (t.hasFocus = some v))) t =
      { t with queue := t.queue ++ notices t.hasFocus (vs.filter fun v => t.life v = .created) } := by
  induction vs generalizing t with
  | nil => simp [notices]
  | cons v vs ih =>
      rw [List.foldl_cons, ih]
      by_cases hv : t.life v = .created <;> simp [focusChanged, post, notices, hv]

/-! ## The server -/

/-- What the server has of the keys now. -/
def attention (kb : Keyboard κ) (t : Typing κ) : Attention := (t.seat.state.focusedView, {code | code ∈ kb.pressedKeys t.keyboard})

/-- What it will have once it served the queue. -/
def coming (kb : Keyboard κ) (t : Typing κ) : Attention := t.queue.foldl InputCmd.turns (t.attention kb)

theorem plain_lawful : Keyboard.plain.Lawful := by
  intro k key pressed filter code
  cases pressed <;> by_cases hcode : code = key <;> simp [Keyboard.plain, hcode]

theorem mem_releaseKeys (hkb : kb.Lawful) (k : κ) (code : Nat) : code ∉ kb.pressedKeys (releaseKeys kb k) := by
  have hfold (keys : List Nat) (k : κ) : code ∈ kb.pressedKeys (keys.foldl (fun k key => kb.input k key false .intercept) k) ↔
      code ∈ kb.pressedKeys k ∧ code ∉ keys := by
    induction keys generalizing k with
    | nil => simp
    | cons key keys ih =>
        rw [List.foldl_cons, ih, hkb]
        by_cases hcode : code = key <;> simp [hcode]
  rw [releaseKeys, hfold]
  exact fun h => h.2 h.1

theorem refocus_attention (hkb : kb.Lawful) (hw : w.keyboard = true) (v : ViewId) (focused : Bool) (t : Typing κ) :
    (t.refocus kb w depth v focused).attention kb =
      (if focused then some v else if t.seat.state.focusedView = some v then none else t.seat.state.focusedView, ∅) := by
  have hnone : {code | code ∈ kb.pressedKeys (releaseKeys kb t.keyboard)} = (∅ : Set Nat) :=
    Set.eq_empty_of_forall_notMem fun code => mem_releaseKeys hkb t.keyboard code
  simp only [attention, refocus, hw, if_true, hnone, Seat.step_focusedView, Seat.attends]

theorem handleCmd_attention (hkb : kb.Lawful) (hw : w.keyboard = true) (depth : Nat) (c : InputCmd) (t : Typing κ) :
    (t.handleCmd kb w depth c).attention kb = c.turns (t.attention kb) := by
  have hfocus : (t.attention kb).1 = t.seat.state.focusedView := rfl
  cases c with
  | focus v focused =>
      rw [handleCmd, focusInput, InputCmd.turns, hfocus]
      cases focused with
      | true =>
          simp only [if_true]
          split
          · rfl
          · exact refocus_attention hkb hw v true t
      | false =>
          simp only [Bool.false_eq_true, if_false]
          split
          · rename_i hv
            rw [refocus_attention hkb hw, if_pos hv]
            rfl
          · rfl
  | key v evdev pressed =>
      rw [handleCmd, keyInput, InputCmd.turns, hfocus, hw]
      by_cases hv : t.seat.state.focusedView = some v
      · rw [if_neg (not_not.mpr hv), if_pos hv]
        refine Prod.ext rfl (Set.ext fun code => ?_)
        change code ∈ kb.pressedKeys (kb.input t.keyboard (evdev + xkbOffset) pressed .forward) ↔ _
        rw [hkb]
        cases pressed <;> by_cases hcode : code = evdev + xkbOffset <;> simp [attention, hcode]
      · rw [if_pos hv, if_neg hv]
  | viewDisposed v =>
      rw [handleCmd, InputCmd.turns, hfocus, attention, Seat.step_focusedView, Seat.attends]
      split <;> rfl

/-! ## Dart -/

/-- The op neither gives nor takes the focus. -/
def elsewhere : SeatOp → Bool
  | .event (.cmd (.focus ..)) | .event (.cmd (.viewDisposed _)) => false
  | _ => true

/-- An id is used once, a create is answered while its widget is mounted and a view disposed once it is not. The focus
goes to a view there is, and the views it goes from and to hear of it. -/
def Orderly (t : Typing κ) : TypingOp → Prop
  | .mounts v => t.life v = .unborn
  | .created v => t.life v = .watched
  | .unmounts v => (t.life v).mounted = true
  | .disposes v => t.life v = .gone
  | .focuses next notified => (∀ v ∈ next, (t.life v).mounted = true ∧ (t.hasFocus ≠ some v → v ∈ notified)) ∧
      ∀ v ∈ t.hasFocus, next ≠ some v → v ∈ notified
  | .seat op => elsewhere op = true
  | _ => True

instance (t : Typing κ) : (op : TypingOp) → Decidable (Orderly t op)
  | .mounts v => inferInstanceAs (Decidable (t.life v = .unborn))
  | .created v => inferInstanceAs (Decidable (t.life v = .watched))
  | .unmounts v => inferInstanceAs (Decidable ((t.life v).mounted = true))
  | .disposes v => inferInstanceAs (Decidable (t.life v = .gone))
  | .focuses next notified => inferInstanceAs (Decidable ((∀ v ∈ next, (t.life v).mounted = true ∧
      (t.hasFocus ≠ some v → v ∈ notified)) ∧ ∀ v ∈ t.hasFocus, next ≠ some v → v ∈ notified))
  | .seat op => inferInstanceAs (Decidable (elsewhere op = true))
  | .key _ | .serves => .isTrue trivial

/-- No parent is given to a toplevel a view shows. -/
def Places (t : Typing κ) : TypingOp → Prop
  | .seat op => Seat.Guarded (fun s e => keepsPlace s e = true) t.seat op
  | _ => True

instance (t : Typing κ) : (op : TypingOp) → Decidable (Places t op)
  | .seat op => inferInstanceAs (Decidable (Seat.Guarded (fun s e => keepsPlace s e = true) t.seat op))
  | .mounts _ | .created _ | .unmounts _ | .disposes _ | .focuses _ _ | .key _ | .serves => .isTrue trivial

/-- What the server will have follows Flutter's focus and what is typed there, and every key in the queue is for the view
that has the focus when it is served. -/
structure Follows (kb : Keyboard κ) (y : Typist) (t : Typing κ) : Prop where
  focus : y.focus = t.hasFocus
  ready : ∀ v, t.life v = .created → y.ready v = true
  unready : ∀ v, t.life v = .unborn ∨ t.life v = .watched → y.ready v = false
  mounted : ∀ v, t.hasFocus = some v → (t.life v).mounted = true
  has : ∀ v, t.hasFocus = some v → t.life v = .created → t.coming kb = (some v, (· + xkbOffset) '' y.down)
  idle : ∀ v, t.hasFocus = some v → t.life v ≠ .created → y.down = ∅
  given : ∀ v, (t.coming kb).1 = some v → t.hasFocus = some v ∧ t.life v = .created ∨ t.life v = .gone
  timely : Meets InputCmd.turns InputCmd.Timely (t.attention kb) t.queue

theorem coming_append {cs : List InputCmd} {t' : Typing κ} (hqueue : t'.queue = t.queue ++ cs)
    (hattention : t'.attention kb = t.attention kb) : t'.coming kb = cs.foldl InputCmd.turns (t.coming kb) := by
  rw [coming, hqueue, hattention, List.foldl_append]
  rfl

theorem timely_append {cs : List InputCmd} {t' : Typing κ} (hqueue : t'.queue = t.queue ++ cs)
    (hattention : t'.attention kb = t.attention kb) (h : Meets InputCmd.turns InputCmd.Timely (t.attention kb) t.queue)
    (hcs : Meets InputCmd.turns InputCmd.Timely (t.coming kb) cs) :
    Meets InputCmd.turns InputCmd.Timely (t'.attention kb) t'.queue := by
  rw [hqueue, hattention]
  exact h.append hcs

variable {y : Typist}

theorem Follows.mounts (h : Follows kb y t) {v : ViewId} (hv : t.life v = .unborn) :
    Follows kb y { t with life := fun u => if u = v then .watched else t.life u } := by
  obtain ⟨hfocus, hready, hunready, hmounted, hhas, hidle, hgiven, htimely⟩ := h
  have hnot : t.hasFocus ≠ some v := fun hv' => by simpa [hv, Life.mounted] using hmounted v hv'
  refine ⟨hfocus, fun u hu => ?_, fun u hu => ?_, fun u hu => ?_, fun u hu hc => ?_, fun u hu hc => ?_, fun u hu => ?_, htimely⟩
  · exact hready u (by grind)
  · by_cases huv : u = v
    · exact hunready u (Or.inl (huv ▸ hv))
    · exact hunready u (by simpa [huv] using hu)
  · have hne : u ≠ v := fun huv => hnot (huv ▸ hu)
    simpa [hne] using hmounted u hu
  · have hne : u ≠ v := fun huv => hnot (huv ▸ hu)
    exact hhas u hu (by simpa [hne] using hc)
  · have hne : u ≠ v := fun huv => hnot (huv ▸ hu)
    exact hidle u hu (by simpa [hne] using hc)
  · have hgot := hgiven u hu
    grind

theorem Follows.created (h : Follows kb y t) {v : ViewId} (hv : t.life v = .watched) :
    Follows kb (y.step evdevByHid (.created v)) (t.created v) := by
  obtain ⟨hfocus, hready, hunready, hmounted, hhas, hidle, hgiven, htimely⟩ := h
  have hother : (t.coming kb).1 ≠ some v := fun hgot => by grind
  have hlife (u : ViewId) : (t.created v).life u = if u = v then .created else t.life u := by
    unfold Typing.created
    dsimp only
    split <;> rfl
  have hsame : (t.created v).hasFocus = t.hasFocus ∧ (t.created v).attention kb = t.attention kb := by
    unfold Typing.created
    dsimp only
    split <;> exact ⟨rfl, rfl⟩
  have hqueue : (t.created v).queue = t.queue ++ if t.hasFocus = some v then [.focus v true] else [] := by
    unfold Typing.created
    dsimp only
    split <;> simp [post]
  have hcoming : (t.created v).coming kb = if t.hasFocus = some v then (some v, ∅) else t.coming kb := by
    rw [coming_append hqueue hsame.2]
    split
    · simp [InputCmd.turns, hother]
    · rfl
  refine ⟨hfocus.trans hsame.1.symm, fun u hu => ?_, fun u hu => ?_, fun u hu => ?_, fun u hu hc => ?_, fun u hu hc => ?_,
    fun u hu => ?_, timely_append hqueue hsame.2 htimely (by split <;> simp [Meets, InputCmd.Timely])⟩
  · rw [hlife] at hu
    simp only [Typist.step]
    grind
  · rw [hlife] at hu
    simp only [Typist.step]
    grind
  · rw [hsame.1] at hu
    rw [hlife]
    split
    · rfl
    · exact hmounted u hu
  · rw [hsame.1] at hu
    rw [hlife] at hc
    rw [hcoming]
    by_cases huv : u = v
    · have hdown : y.down = ∅ := hidle v (huv ▸ hu) (by simp [hv])
      rw [if_pos (huv ▸ hu), huv]
      simp [Typist.step, hdown]
    · rw [if_neg (fun hv' => huv (Option.some.inj (hu.symm.trans hv')))]
      exact hhas u hu (by simpa [huv] using hc)
  · rw [hsame.1] at hu
    rw [hlife] at hc
    exact hidle u hu (by grind)
  · rw [hcoming] at hu
    rw [hsame.1, hlife]
    grind

theorem Follows.unmounts (h : Follows kb y t) (v : ViewId) :
    Follows kb (y.step evdevByHid (.unmounts v)) (t.step kb w depth evdevByHid (.unmounts v)) := by
  obtain ⟨hfocus, hready, hunready, hmounted, hhas, hidle, hgiven, htimely⟩ := h
  have hcoming : (t.step kb w depth evdevByHid (.unmounts v)).coming kb = t.coming kb := rfl
  have hdown (u : ViewId) (hu : (if t.hasFocus = some v then none else t.hasFocus) = some u) :
      y.step evdevByHid (.unmounts v) = y ∧ t.hasFocus = some u ∧ u ≠ v := by
    simp only [Typist.step]
    grind
  refine ⟨?_, fun u hu => ?_, fun u hu => ?_, fun u hu => ?_, fun u hu hc => ?_, fun u hu hc => ?_, fun u hu => ?_, htimely⟩
  · simp only [Typist.step, Typing.step]
    grind
  · simp only [Typist.step, Typing.step] at hu ⊢
    grind
  · simp only [Typist.step, Typing.step] at hu ⊢
    grind
  · obtain ⟨-, hu, hne⟩ := hdown u hu
    simpa [Typing.step, hne] using hmounted u hu
  · obtain ⟨hy, hu, hne⟩ := hdown u hu
    rw [hcoming, hy]
    exact hhas u hu (by simpa [Typing.step, hne] using hc)
  · obtain ⟨hy, hu, hne⟩ := hdown u hu
    rw [hy]
    exact hidle u hu (by simpa [Typing.step, hne] using hc)
  · have hgot := hgiven u hu
    simp only [Typing.step]
    grind

theorem Follows.disposes (h : Follows kb y t) {v : ViewId} (hv : t.life v = .gone) : Follows kb y (t.post (.viewDisposed v)) := by
  obtain ⟨hfocus, hready, hunready, hmounted, hhas, hidle, hgiven, htimely⟩ := h
  have hcoming : (t.post (.viewDisposed v)).coming kb = [InputCmd.viewDisposed v].foldl InputCmd.turns (t.coming kb) :=
    coming_append rfl rfl
  rw [List.foldl_cons, List.foldl_nil] at hcoming
  refine ⟨hfocus, hready, hunready, hmounted, fun u hu hc => ?_, hidle, fun u hu => ?_,
    timely_append rfl rfl htimely ⟨trivial, trivial⟩⟩
  · have hne : u ≠ v := fun huv => by
      have hgone : Life.created = .gone := hc.symm.trans (huv ▸ hv)
      cases hgone
    rw [hcoming, hhas u hu hc]
    simp [InputCmd.turns, hne]
  · rw [hcoming] at hu
    refine hgiven u ?_
    simp only [InputCmd.turns] at hu
    grind

theorem Follows.focuses (h : Follows kb y t) {next : Option ViewId} {notified : List ViewId}
    (hop : Orderly t (.focuses next notified)) :
    Follows kb (y.step evdevByHid (.focuses next notified)) (t.step kb w depth evdevByHid (.focuses next notified)) := by
  obtain ⟨hfocus, hready, hunready, hmounted, hhas, hidle, hgiven, htimely⟩ := h
  obtain ⟨hnext, hlast⟩ := hop
  have hstep : t.step kb w depth evdevByHid (.focuses next notified) =
      { t with hasFocus := next, queue := t.queue ++ notices next (notified.filter fun v => t.life v = .created) } :=
    foldl_focusChanged notified _
  generalize t.step kb w depth evdevByHid (.focuses next notified) = t' at hstep ⊢
  have hqueue : t'.queue = t.queue ++ notices next (notified.filter fun v => t.life v = .created) := by rw [hstep]
  have hattention : t'.attention kb = t.attention kb := by rw [hstep]; rfl
  have hlife : t'.life = t.life := by rw [hstep]
  have hnow : t'.hasFocus = next := by rw [hstep]
  have hcoming := coming_append hqueue hattention
  have hy : (y.step evdevByHid (.focuses next notified)).ready = y.ready := by
    simp only [Typist.step]
    split <;> rfl
  refine ⟨?_, fun u hu => ?_, fun u hu => ?_, fun u hu => ?_, fun u hu hc => ?_, fun u hu hc => ?_, fun u hu => ?_,
    timely_append hqueue hattention htimely (notices_timely _ _ _)⟩
  · rw [hnow]
    simp only [Typist.step]
    grind
  · rw [hy]
    exact hready u (hlife ▸ hu)
  · rw [hy]
    exact hunready u (hlife ▸ hu)
  · rw [hlife]
    exact (hnext u (hnow ▸ hu)).1
  · rw [hnow] at hu
    rw [hlife] at hc
    rw [hcoming, hu]
    by_cases hsame : t.hasFocus = some u
    · rw [notices_keep (by rw [hhas u hsame hc]), hhas u hsame hc]
      simp [Typist.step, hfocus, hsame]
    · have hother : (t.coming kb).1 ≠ some u := fun hgot => by grind
      have htold : u ∈ notified.filter fun v => t.life v = .created := by
        simpa [hc] using (hnext u hu).2 hsame
      rw [notices_give hother htold]
      simp [Typist.step, hfocus, hsame]
  · rw [hnow] at hu
    rw [hlife] at hc
    simp only [Typist.step]
    split
    · exact hidle u (by rw [← hfocus]; grind) hc
    · rfl
  · rw [hcoming] at hu
    rw [hnow, hlife]
    rcases notices_from hu with ⟨htold, hgets⟩ | ⟨huntold, hkept⟩
    · exact Or.inl ⟨hgets, by simpa using (List.mem_filter.mp htold).2⟩
    · rcases hgiven u hkept with ⟨hhad, hc⟩ | hgone
      · refine Or.inl ⟨?_, hc⟩
        by_contra hleft
        exact huntold (by simpa [hc] using hlast u hhad hleft)
      · exact Or.inr hgone

/-- A key that is sent: the view that has the focus is created, and the key has a code. -/
structure Sends (evdevByHid : Nat → Option Nat) (t : Typing κ) (e : KeyEvent) (v : ViewId) (code : Nat) : Prop where
  focus : t.hasFocus = some v
  created : t.life v = .created
  code : e.code evdevByHid = some code
  once : e.kind ≠ .repeated

theorem key_sends {e : KeyEvent} {v : ViewId} {code : Nat} (h : Sends evdevByHid t e v code) :
    t.step kb w depth evdevByHid (.key e) =
      { t.post (.key v code (e.kind == .down)) with sent := t.sent ++ [(code, e.kind == .down)] } := by
  obtain ⟨hcode, hmax⟩ := Option.filter_eq_some_iff.mp h.code
  simp only [decide_eq_true_eq] at hmax
  simp only [Typing.step, onKey, h.focus, h.created, if_true, key, h.once, if_false, hcode, ihsWlKey]
  rw [if_neg (Nat.not_lt.mpr hmax)]

theorem key_rests {e : KeyEvent} (h : ∀ v code, ¬Sends evdevByHid t e v code) : t.step kb w depth evdevByHid (.key e) = t := by
  simp only [Typing.step, onKey]
  split
  · rfl
  · rename_i v hfocus
    split
    · rename_i hcreated
      unfold key
      split
      · rfl
      · rename_i honce
        split
        · rfl
        · rename_i code hcode
          unfold ihsWlKey
          split
          · rfl
          · rename_i hmax
            have hsent : e.code evdevByHid = some code := by
              simpa [KeyEvent.code, Option.filter_eq_some_iff, hcode] using Nat.not_lt.mp hmax
            exact absurd ⟨hfocus, hcreated, hsent, honce⟩ (h v code)
    · rfl

theorem Follows.key (h : Follows kb y t) (e : KeyEvent) :
    Follows kb (y.step evdevByHid (.key e)) (t.step kb w depth evdevByHid (.key e)) := by
  by_cases hsends : ∃ v code, Sends evdevByHid t e v code
  · obtain ⟨v, code, hsends⟩ := hsends
    have hkey := hsends
    obtain ⟨hhas', hcreated, hcode, honce⟩ := hsends
    obtain ⟨hfocus, hready, hunready, hmounted, hhas, hidle, hgiven, htimely⟩ := h
    have hstep : y.step evdevByHid (.key e) = y.press e.kind code := by
      simp [Typist.step, hfocus, hhas', hcode, hready v hcreated]
    have hpress : (y.press e.kind code).focus = y.focus ∧ (y.press e.kind code).ready = y.ready := by
      unfold Typist.press
      split <;> exact ⟨rfl, rfl⟩
    have hcoming := hhas v hhas' hcreated
    have hnext : (t.step kb w depth evdevByHid (.key e)).coming kb = (some v, (· + xkbOffset) '' (y.press e.kind code).down) := by
      have happend : (t.step kb w depth evdevByHid (.key e)).coming kb =
          [InputCmd.key v code (e.kind == .down)].foldl InputCmd.turns (t.coming kb) := by
        rw [key_sends hkey]
        exact coming_append rfl rfl
      rw [happend, List.foldl_cons, List.foldl_nil, hcoming]
      cases hkind : e.kind with
      | down => simp [InputCmd.turns, Typist.press, Set.image_insert_eq]
      | up =>
          have hinj : Function.Injective (· + xkbOffset) := fun a b hab => Nat.add_right_cancel hab
          simp [InputCmd.turns, Typist.press, Set.image_sdiff hinj]
      | repeated => exact absurd hkind honce
    rw [key_sends hkey] at hnext ⊢
    rw [hstep]
    refine ⟨hpress.1.trans hfocus, fun u hu => ?_, fun u hu => ?_, hmounted, fun u hu hc => ?_, fun u hu hc => ?_, fun u hu => ?_,
      timely_append rfl rfl htimely ⟨?_, trivial⟩⟩
    · rw [hpress.2]
      exact hready u hu
    · rw [hpress.2]
      exact hunready u hu
    · rw [hnext, Option.some.inj (hhas'.symm.trans hu)]
    · exact absurd (Option.some.inj (hhas'.symm.trans hu) ▸ hcreated) hc
    · rw [hnext] at hu
      cases hu
      exact Or.inl ⟨hhas', hcreated⟩
    · change (t.coming kb).1 = some v
      rw [hcoming]
  · have hnone : y.step evdevByHid (.key e) = y := by
      simp only [Typist.step]
      split
      · rename_i v code hfocus hcode
        split
        · rename_i hready
          -- It is ready and would be sent: so the key only repeats.
          have hhas := h.focus.symm.trans hfocus
          have hcreated : t.life v = .created := by
            have hmounted := h.mounted v hhas
            have hunready := h.unready v
            cases hlife : t.life v <;> simp_all [Life.mounted]
          have hrepeated : e.kind = .repeated := by
            by_contra honce
            exact hsends ⟨v, code, hhas, hcreated, hcode, honce⟩
          rw [hrepeated]
          rfl
        · rfl
      · rfl
    rw [key_rests fun v code hv => hsends ⟨v, code, hv⟩, hnone]
    exact h

theorem handleCmd_dart (kb : Keyboard κ) (w : SeatWorld) (depth : Nat) (c : InputCmd) (t : Typing κ) :
    (t.handleCmd kb w depth c).hasFocus = t.hasFocus ∧ (t.handleCmd kb w depth c).life = t.life ∧
      (t.handleCmd kb w depth c).queue = t.queue ∧ (t.handleCmd kb w depth c).sent = t.sent := by
  cases c with
  | focus v focused =>
      simp only [handleCmd, focusInput]
      split <;> split <;> exact ⟨rfl, rfl, rfl, rfl⟩
  | key v evdev pressed =>
      simp only [handleCmd, keyInput]
      split
      · exact ⟨rfl, rfl, rfl, rfl⟩
      · split <;> exact ⟨rfl, rfl, rfl, rfl⟩
  | viewDisposed v => exact ⟨rfl, rfl, rfl, rfl⟩

theorem serves_cons {c : InputCmd} {queue : List InputCmd} (h : t.queue = c :: queue) :
    t.step kb w depth evdevByHid .serves = ({ t with queue } : Typing κ).handleCmd kb w depth c := by
  rw [Typing.step, h]

theorem serves_nil (h : t.queue = []) : t.step kb w depth evdevByHid .serves = t := by
  rw [Typing.step, h]

theorem Follows.serves (hkb : kb.Lawful) (hw : w.keyboard = true) (h : Follows kb y t) :
    Follows kb y (t.step kb w depth evdevByHid .serves) := by
  cases hqueue : t.queue with
  | nil => rwa [serves_nil hqueue]
  | cons c queue =>
      rw [serves_cons hqueue]
      obtain ⟨hfocus, hready, hunready, hmounted, hhas, hidle, hgiven, htimely⟩ := h
      obtain ⟨hf, hl, hq, -⟩ := handleCmd_dart kb w depth c ({ t with queue } : Typing κ)
      have hattention := handleCmd_attention hkb hw depth c ({ t with queue } : Typing κ)
      generalize ({ t with queue } : Typing κ).handleCmd kb w depth c = t' at *
      have hcoming : t'.coming kb = t.coming kb := by
        rw [coming, coming, hq, hattention, hqueue]
        rfl
      rw [hqueue] at htimely
      refine ⟨hfocus.trans hf.symm, hl ▸ hready, hl ▸ hunready, hf ▸ hl ▸ hmounted, ?_, ?_, ?_, ?_⟩
      · rw [hcoming, hf, hl]
        exact hhas
      · rw [hf, hl]
        exact hidle
      · rw [hcoming, hf, hl]
        exact hgiven
      · rw [hattention, hq]
        exact htimely.2

theorem Follows.seat (h : Follows kb y t) {op : SeatOp} (hop : elsewhere op = true) :
    Follows kb y { t with seat := t.seat.step w depth op } := by
  have hstays : (t.seat.step w depth op).state.focusedView = t.seat.state.focusedView := by
    rw [Seat.step_focusedView]
    cases op with
    | event e =>
        cases e with
        | cmd cmd =>
            cases cmd with
            | focus v focused => cases hop
            | viewDisposed v => cases hop
            | _ => rfl
        | _ => rfl
    | _ => rfl
  have hattention : ({ t with seat := t.seat.step w depth op } : Typing κ).attention kb = t.attention kb := by
    simp only [attention, hstays]
  have hcoming : ({ t with seat := t.seat.step w depth op } : Typing κ).coming kb = t.coming kb := by
    simp only [coming, hattention]
  obtain ⟨hfocus, hready, hunready, hmounted, hhas, hidle, hgiven, htimely⟩ := h
  refine ⟨hfocus, hready, hunready, hmounted, fun v hv hc => ?_, hidle, fun v hv => ?_, ?_⟩
  · rw [hcoming]
    exact hhas v hv hc
  · exact hgiven v (hcoming ▸ hv)
  · rw [hattention]
    exact htimely

theorem Follows.step (hkb : kb.Lawful) (hw : w.keyboard = true) (h : Follows kb y t) {op : TypingOp} (hop : Orderly t op) :
    Follows kb (y.step evdevByHid op) (t.step kb w depth evdevByHid op) := by
  cases op with
  | mounts v => exact h.mounts hop
  | created v => exact h.created hop
  | unmounts v => exact h.unmounts v
  | disposes v => exact h.disposes hop
  | focuses next notified => exact h.focuses hop
  | key e => exact h.key e
  | serves => exact h.serves hkb hw
  | seat op => exact h.seat hop

theorem follows_start (k : κ) : Follows kb {} (start w depth k) := by
  refine ⟨rfl, fun v hv => ?_, fun v hv => rfl, fun v hv => ?_, fun v hv => ?_, fun v hv => ?_, fun v hv => ?_, trivial⟩
  all_goals cases hv

theorem Follows.run (hkb : kb.Lawful) (hw : w.keyboard = true) (h : Follows kb y t) {ops : List TypingOp}
    (hops : Meets (Typing.step kb w depth evdevByHid) Orderly t ops) :
    Follows kb (ops.foldl (Typist.step evdevByHid) y) (ops.foldl (Typing.step kb w depth evdevByHid) t) := by
  induction ops generalizing y t with
  | nil => exact h
  | cons op ops ih => exact ih (h.step hkb hw hops.1) hops.2

/-! ## Windows -/

/-- Where the keyboard is pointed at what the focused view shows. -/
def Aimed (w : SeatWorld) (t : Typing κ) : Prop := Placed t.seat.state ∧ Seat.Synced w t.seat

theorem Aimed.seat (h : t.Aimed w) {op : SeatOp} (hop : Seat.Guarded (fun s e => keepsPlace s e = true) t.seat op) :
    ({ t with seat := t.seat.step w depth op } : Typing κ).Aimed w :=
  ⟨h.1.acts (Seat.step_acts h.1.paired hop), h.2.step h.1 depth hop⟩

theorem Aimed.same (h : t.Aimed w) {t' : Typing κ} (hseat : t'.seat = t.seat) : t'.Aimed w := by
  rw [Aimed, hseat]
  exact h

theorem Aimed.handleCmd (h : t.Aimed w) (c : InputCmd) : (t.handleCmd kb w depth c).Aimed w := by
  cases c with
  | focus v focused =>
      have hrefocused (b : Bool) : (t.refocus kb w depth v b).Aimed w := by
        have hop : Seat.Guarded (fun s e => keepsPlace s e = true) t.seat (.event (.cmd (.focus v b))) := by
          simp [Seat.Guarded, keepsPlace]
        exact (h.seat hop).same rfl
      simp only [Typing.handleCmd, focusInput]
      split <;> split
      · exact h
      · exact hrefocused true
      · exact hrefocused false
      · exact h
  | key v evdev pressed =>
      simp only [Typing.handleCmd, keyInput]
      split
      · exact h
      · split
        · exact h
        · exact h.same rfl
  | viewDisposed v => exact h.seat rfl

theorem Aimed.step (h : t.Aimed w) {op : TypingOp} (hop : Places t op) : (t.step kb w depth evdevByHid op).Aimed w := by
  cases op with
  | created v =>
      refine h.same ?_
      simp only [Typing.step, Typing.created]
      split <;> rfl
  | focuses next notified => exact h.same (by simp only [Typing.step, foldl_focusChanged])
  | key e =>
      by_cases hsends : ∃ v code, Sends evdevByHid t e v code
      · obtain ⟨v, code, hsends⟩ := hsends
        exact h.same (by rw [key_sends hsends]; rfl)
      · rw [key_rests fun v code hv => hsends ⟨v, code, hv⟩]
        exact h
  | serves =>
      cases hqueue : t.queue with
      | nil => rwa [serves_nil hqueue]
      | cons c queue =>
          rw [serves_cons hqueue]
          have hrest : ({ t with queue } : Typing κ).Aimed w := h.same rfl
          exact hrest.handleCmd c
  | seat op => exact h.seat hop
  | mounts v => exact h.same rfl
  | unmounts v => exact h.same rfl
  | disposes v => exact h.same rfl

/-- The key a command is about. -/
def typing : InputCmd → Option (Nat × Bool)
  | .key _ evdev pressed => some (evdev + xkbOffset, pressed)
  | _ => none

/-- Every key queued was handed on or waits, each once and in order. -/
def Lossless (t : Typing κ) : Prop :=
  t.sent.map (fun key => (key.1 + xkbOffset, key.2)) = t.typed.map Prod.snd ++ t.queue.filterMap typing

theorem Lossless.posts (h : t.Lossless) (cs : List InputCmd) (hcs : ∀ c ∈ cs, typing c = none) {t' : Typing κ}
    (hqueue : t'.queue = t.queue ++ cs) (hsent : t'.sent = t.sent) (htyped : t'.typed = t.typed) : t'.Lossless := by
  have hnone : cs.filterMap typing = [] := List.filterMap_eq_nil_iff.mpr hcs
  rw [Lossless, hqueue, hsent, htyped, List.filterMap_append, hnone, List.append_nil]
  exact h

theorem Lossless.serves (hw : w.keyboard = true) (h : t.Lossless)
    (htimely : Meets InputCmd.turns InputCmd.Timely (t.attention kb) t.queue) :
    (t.step kb w depth evdevByHid .serves).Lossless := by
  cases hqueue : t.queue with
  | nil => rwa [serves_nil hqueue]
  | cons c queue =>
      rw [serves_cons hqueue]
      obtain ⟨-, -, hq, hs⟩ := handleCmd_dart kb w depth c ({ t with queue } : Typing κ)
      rw [Lossless, hq, hs]
      rw [Lossless, hqueue] at h
      rw [hqueue] at htimely
      cases c with
      | focus v focused =>
          have htyped : (({ t with queue } : Typing κ).handleCmd kb w depth (.focus v focused)).typed = t.typed := by
            simp only [handleCmd, focusInput]
            split <;> split <;> rfl
          rw [htyped]
          exact h
      | key v evdev pressed =>
          have hv : t.seat.state.focusedView = some v := htimely.1
          have htyped : (({ t with queue } : Typing κ).handleCmd kb w depth (.key v evdev pressed)).typed =
              t.typed ++ [(t.seat.focus, evdev + xkbOffset, pressed)] := by
            simp [handleCmd, keyInput, hv, hw]
          rw [htyped]
          simpa [typing] using h
      | viewDisposed v => exact h

theorem Lossless.step (hw : w.keyboard = true) (h : t.Lossless) (hf : Follows kb y t) (op : TypingOp) :
    (t.step kb w depth evdevByHid op).Lossless := by
  cases op with
  | created v =>
      simp only [Typing.step, Typing.created]
      split
      · exact h.posts [.focus v true] (by simp [typing]) rfl rfl rfl
      · exact h
  | focuses next notified =>
      simp only [Typing.step, foldl_focusChanged]
      refine h.posts _ (fun c hc => ?_) rfl rfl rfl
      obtain ⟨v, -, rfl⟩ := List.mem_map.mp hc
      rfl
  | key e =>
      by_cases hsends : ∃ v code, Sends evdevByHid t e v code
      · obtain ⟨v, code, hsends⟩ := hsends
        rw [key_sends hsends, Lossless]
        simp only [post, List.map_append, List.filterMap_append, ← List.append_assoc]
        rw [← h]
        rfl
      · rw [key_rests fun v code hv => hsends ⟨v, code, hv⟩]
        exact h
  | serves => exact h.serves hw hf.timely
  | disposes v => exact h.posts [.viewDisposed v] (by simp [typing]) rfl rfl rfl
  | mounts v => exact h
  | unmounts v => exact h
  | seat op => exact h

/-! ## Runs -/

/-- `KEY_A` and `KEY_B`. -/
def letters (usage : Nat) : Option Nat := if usage = 0x70004 then some 30 else if usage = 0x70005 then some 48 else none

/-- Two views show a window each. A key goes down in the first and stays down while the focus goes to the second, which
hears of it before the first does. -/
def switchRun : List TypingOp :=
  [.seat (.event (.newToplevel 10)), .seat (.event (.commit { main := { surface := 10 } })),
    .seat (.event (.cmd (.viewCreated { uid := 0, id := 1 }))), .seat (.event (.newToplevel 20)),
    .seat (.event (.commit { main := { surface := 20 } })), .seat (.event (.cmd (.viewCreated { uid := 1, id := 2 }))),
    .mounts 1, .focuses (some 1) [1], .created 1, .key ⟨.down, 0x70004⟩, .serves, .mounts 2, .created 2,
    .focuses (some 2) [2, 1], .serves, .key ⟨.down, 0x70005⟩, .serves, .serves]

/-- Where nothing waits, the keys held are those down in the view that has the focus. -/
theorem run_holds (hkb : kb.Lawful) (hw : w.keyboard = true) (k : κ) {ops : List TypingOp}
    (hops : Meets (step kb w depth evdevByHid) Orderly (start w depth k) ops)
    (hqueue : (run kb w depth evdevByHid k ops).queue = []) {v : ViewId}
    (hfocus : (run kb w depth evdevByHid k ops).hasFocus = some v)
    (hcreated : (run kb w depth evdevByHid k ops).life v = .created) (code : Nat) :
    code ∈ kb.pressedKeys (run kb w depth evdevByHid k ops).keyboard ↔
      ∃ evdev ∈ (ops.foldl (Typist.step evdevByHid) {}).down, evdev + xkbOffset = code := by
  have hfollows : Follows kb _ (run kb w depth evdevByHid k ops) := (follows_start k).run hkb hw hops
  have hhas := hfollows.has v hfocus hcreated
  rw [coming, hqueue, List.foldl_nil] at hhas
  have hheld := congrArg Prod.snd hhas
  exact Set.ext_iff.mp hheld code

/-- The queue is served to its end. -/
def servedRun : List TypingOp := switchRun ++ [.serves]

theorem run_holds_switch : Meets (step .plain .granting 1 letters) Orderly (start .granting 1 []) servedRun ∧
    (run .plain .granting 1 letters [] servedRun).keyboard = [56] ∧
    (56 ∈ Keyboard.plain.pressedKeys (run .plain .granting 1 letters [] servedRun).keyboard ↔
      ∃ evdev ∈ (servedRun.foldl (Typist.step letters) {}).down, evdev + xkbOffset = 56) := by
  have hops : Meets (step .plain .granting 1 letters) Orderly (start .granting 1 []) servedRun := by decide +kernel
  have hfocus : (run .plain .granting 1 letters [] servedRun).hasFocus = some 2 := by decide +kernel
  exact ⟨hops, by decide +kernel, run_holds plain_lawful rfl [] hops (by decide +kernel) hfocus (by decide +kernel) 56⟩

end Typing

end IhsWl
