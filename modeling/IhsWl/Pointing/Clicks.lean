import Mathlib.Algebra.BigOperators.Group.Finset.Piecewise
import Mathlib.Algebra.BigOperators.Group.List.Basic
import Mathlib.Algebra.BigOperators.Ring.Finset
import Mathlib.Algebra.Order.BigOperators.Group.Finset
import Mathlib.Data.Nat.Bitwise
import IhsWl.Lib.Runs
import IhsWl.Pointing.Mouse
import IhsWl.Pointing.Theorems

/-!
# No button is stuck

The server's pointer is told of every press and release once and in order, so a button is down there by as many presses
as devices hold it, through any order of devices, views and events that share the one struct.
-/

namespace IhsWl

open Runs

/-! ## Presses and releases -/

/-- By how many the presses of a button exceed its releases. -/
def tally (code : Nat) (cs : List (Nat × Bool)) : Int :=
  (cs.map fun c => if c.1 = code then (if c.2 then 1 else -1) else 0).sum

@[simp] theorem tally_append (code : Nat) (cs cs' : List (Nat × Bool)) :
    tally code (cs ++ cs') = tally code cs + tally code cs' := by
  simp [tally]

theorem tally_cons (code : Nat) (c : Nat × Bool) (cs : List (Nat × Bool)) :
    tally code (c :: cs) = (if c.1 = code then (if c.2 then 1 else -1) else 0) + tally code cs := by
  simp [tally]

/-- The press or release an event is. -/
def clickOf (e : ViewId × PointerEvent) : Option (Nat × Bool) :=
  if e.2.kind = .button then some (e.2.button, e.2.pressed != 0) else none

/-- Whether a mask has a bit, as a number. -/
def down (mask bit : Nat) : Int := if mask &&& bit ≠ 0 then 1 else 0

theorem and_two_pow_ne_zero (mask i : Nat) : mask &&& 2 ^ i ≠ 0 ↔ mask.testBit i = true := by
  rw [Nat.and_two_pow]
  cases mask.testBit i <;> simp

theorem tally_filter {l : List (Nat × Nat)} (hl : (l.map Prod.snd).Nodup) {b : Nat × Nat} (hb : b ∈ l) (p : Nat × Nat → Bool)
    (on : Nat × Nat → Bool) :
    tally b.2 ((l.filter p).map fun b => (b.2, on b)) = if p b then (if on b then 1 else -1) else 0 := by
  have hnone {l : List (Nat × Nat)} (hnot : b.2 ∉ l.map Prod.snd) : tally b.2 ((l.filter p).map fun b => (b.2, on b)) = 0 := by
    induction l with
    | nil => rfl
    | cons a l ih =>
        simp only [List.map_cons, List.mem_cons, not_or] at hnot
        by_cases hp : p a = true
        · rw [List.filter_cons_of_pos hp, List.map_cons, tally_cons, if_neg (Ne.symm hnot.1), zero_add]
          exact ih hnot.2
        · rw [List.filter_cons_of_neg hp]
          exact ih hnot.2
  induction l with
  | nil => simp at hb
  | cons a l ih =>
      simp only [List.map_cons, List.nodup_cons] at hl
      rcases List.mem_cons.mp hb with rfl | hmem
      · by_cases hp : p b = true
        · rw [List.filter_cons_of_pos hp, List.map_cons, tally_cons, if_pos rfl, if_pos hp, hnone hl.1, add_zero]
        · rw [List.filter_cons_of_neg hp, if_neg hp]
          exact hnone hl.1
      · have hne : a.2 ≠ b.2 := fun heq => hl.1 (heq ▸ List.mem_map.mpr ⟨b, hmem, rfl⟩)
        by_cases hp : p a = true
        · rw [List.filter_cons_of_pos hp, List.map_cons, tally_cons, if_neg hne, zero_add]
          exact ih hl.2 hmem
        · rw [List.filter_cons_of_neg hp]
          exact ih hl.2 hmem

/-- The changes between two masks take a button from the one to the other. -/
theorem tally_buttonChanges {b : Nat × Nat} (hb : b ∈ buttonCodes) (before after : Nat) :
    tally b.2 (buttonChanges before after) = down after b.1 - down before b.1 := by
  obtain ⟨i, hi⟩ : ∃ i, b.1 = 2 ^ i := by
    simp only [buttonCodes, List.mem_cons, List.not_mem_nil, or_false] at hb
    rcases hb with rfl | rfl | rfl | rfl | rfl
    exacts [⟨0, rfl⟩, ⟨1, rfl⟩, ⟨2, rfl⟩, ⟨3, rfl⟩, ⟨4, rfl⟩]
  rw [buttonChanges, tally_filter (by decide) hb (fun b => (before ^^^ after) &&& b.1 != 0) (fun b => after &&& b.1 != 0)]
  simp only [down, hi, bne_iff_ne, and_two_pow_ne_zero, Nat.testBit_xor]
  cases before.testBit i <;> cases after.testBit i <;> rfl

/-! ## What is sent -/

/-- What a mouse's event leaves down on its device. -/
def MouseEvent.after (event : MouseEvent) : Nat := if event.kind = .up ∨ event.kind = .cancel then 0 else event.buttons

namespace MouseInput

variable {shape : Nat → Nat} {i : MouseInput} {v : ViewId} {op : InputOp}

/-- Between events nothing scrolls: the struct has no distance left in it. -/
def Still (i : MouseInput) : Prop := i.pointer.axis = (.zero, .zero)

/-- Where the event is on screen is finite. -/
def Finite (i : MouseInput) (v : ViewId) (offset : Offset Double) : Prop :=
  (i.onScreen v offset).dx.isFinite = true ∧ (i.onScreen v offset).dy.isFinite = true

/-- An event that scrolls only if it is an axis event, and presses or releases a button there is. -/
structure Clean (ev : PointerEvent) : Prop where
  axis : ev.kind ≠ .axis → ev.axis = (.zero, .zero)
  button : ev.kind = .button → ev.button ∈ buttonCodes.map Prod.snd ∧ ev.pressed ≤ 1

theorem sendPointer_rest (shape : Nat → Nat) (v : ViewId) (kind : PointerKind) (offset : Offset Double) (timeUs : Nat)
    (i : MouseInput) : (i.sendPointer shape v kind offset timeUs).toWaylandInput = i.toWaylandInput ∧
    (i.sendPointer shape v kind offset timeUs).buttons = i.buttons ∧
    (i.sendPointer shape v kind offset timeUs).pointer =
      { i.pointer with kind, position := ((i.onScreen v offset).dx, (i.onScreen v offset).dy), timeUs } := by
  unfold sendPointer
  dsimp only
  split <;> exact ⟨rfl, rfl, rfl⟩

theorem sendPointer_sent (shape : Nat → Nat) (v : ViewId) (kind : PointerKind) (offset : Offset Double) (timeUs : Nat)
    (i : MouseInput) : (i.sendPointer shape v kind offset timeUs).sent = i.sent ∨
    (i.sendPointer shape v kind offset timeUs).sent = i.sent ++ [(v, (i.sendPointer shape v kind offset timeUs).pointer)] := by
  unfold sendPointer
  dsimp only
  split
  · exact Or.inr rfl
  · exact Or.inl rfl

theorem sendPointer_valid (hs : i.Still) {offset : Offset Double} (hf : i.Finite v offset) (kind : PointerKind) (timeUs : Nat) :
    (i.sendPointer shape v kind offset timeUs).sent = i.sent ++ [(v, (i.sendPointer shape v kind offset timeUs).pointer)] := by
  have hzero : Double.zero.isFinite = true := by decide
  unfold sendPointer
  dsimp only
  rw [if_pos]
  simp only [PointerEvent.valid, List.all_cons, List.all_nil, Bool.and_true, hf.1, hf.2, Bool.true_and]
  rw [hs, hzero]
  rfl

/-- What goes to the module is clean, and nothing is taken back. -/
structure Sends (i i' : MouseInput) : Prop where
  still : i.Still → i'.Still
  sent : ∃ new, i'.sent = i.sent ++ new ∧ (i.Still → ∀ e ∈ new, Clean e.2)

theorem Sends.refl (i : MouseInput) : Sends i i := ⟨id, [], by simp⟩

theorem Sends.trans {i' i'' : MouseInput} (h : Sends i i') (h' : Sends i' i'') : Sends i i'' := by
  obtain ⟨new, hnew, hclean⟩ := h.sent
  obtain ⟨new', hnew', hclean'⟩ := h'.sent
  refine ⟨h'.still ∘ h.still, new ++ new', by rw [hnew', hnew, List.append_assoc], fun hs e he => ?_⟩
  rcases List.mem_append.mp he with he | he
  · exact hclean hs e he
  · exact hclean' (h.still hs) e he

theorem sendPointer_sends {kind : PointerKind} {offset : Offset Double} {timeUs : Nat}
    (hclean : i.Still → Clean { i.pointer with kind, position := ((i.onScreen v offset).dx, (i.onScreen v offset).dy), timeUs }) :
    Sends i (i.sendPointer shape v kind offset timeUs) := by
  obtain ⟨-, -, hpointer⟩ := sendPointer_rest shape v kind offset timeUs i
  refine ⟨fun hs => ?_, ?_⟩
  · rw [Still, hpointer]
    exact hs
  · rcases sendPointer_sent shape v kind offset timeUs i with hsent | hsent
    · exact ⟨[], by simp [hsent]⟩
    · refine ⟨_, hsent, fun hs e he => ?_⟩
      obtain rfl := List.mem_singleton.mp he
      rw [hpointer]
      exact hclean hs

theorem Sends.hold {i' : MouseInput} (h : Sends i i') (buttons : Nat → Nat) : Sends i { i' with buttons } := ⟨h.still, h.sent⟩

theorem sendPointer_sends_still {kind : PointerKind} (hkind : kind ≠ .button) (offset : Offset Double) (timeUs : Nat) :
    Sends i (i.sendPointer shape v kind offset timeUs) :=
  sendPointer_sends fun hs => ⟨fun _ => hs, fun hbutton => absurd hbutton hkind⟩

theorem sendButton_sends {event : MouseEvent} {change : Nat × Bool} (hcode : change.1 ∈ buttonCodes.map Prod.snd) :
    Sends i (i.sendButton shape v event change) := by
  have hsends : Sends { i with pointer := { i.pointer with button := change.1, pressed := if change.2 then 1 else 0 } }
      (i.sendButton shape v event change) :=
    sendPointer_sends fun hs => ⟨fun _ => hs, fun _ => ⟨hcode, by dsimp only; split <;> decide⟩⟩
  exact ⟨hsends.still, hsends.sent⟩

theorem mem_buttonChanges {before after : Nat} {change : Nat × Bool} (h : change ∈ buttonChanges before after) :
    change.1 ∈ buttonCodes.map Prod.snd := by
  obtain ⟨b, hb, rfl⟩ := List.mem_map.mp h
  exact List.mem_map.mpr ⟨b, (List.mem_filter.mp hb).1, rfl⟩

theorem foldl_sendButton_sends {event : MouseEvent} {changes : List (Nat × Bool)}
    (hcodes : ∀ change ∈ changes, change.1 ∈ buttonCodes.map Prod.snd) (i : MouseInput) :
    Sends i (changes.foldl (sendButton shape v event) i) := by
  induction changes generalizing i with
  | nil => exact .refl i
  | cons change changes ih =>
      exact (sendButton_sends (hcodes change (by simp))).trans (ih (fun c hc => hcodes c (List.mem_cons_of_mem _ hc)) _)

theorem mouseEvent_sends (event : MouseEvent) : Sends i (i.mouseEvent shape v event) := by
  have hmoved : Sends i (if event.kind = .hover ∨ event.kind = .move then
      i.sendPointer shape v .motion event.localPosition event.timeUs else i) := by
    split
    · exact sendPointer_sends_still (by decide) _ _
    · exact .refl i
  exact (hmoved.trans (foldl_sendButton_sends (fun c hc => mem_buttonChanges hc) _)).hold _

theorem scroll_sends (event : ScrollEvent) : Sends i (i.scroll shape v event) := by
  unfold scroll
  dsimp only
  generalize hset : ({ i with pointer := { i.pointer with
    axisSource := if event.trackpad then 1 else 0, axis := (event.scrollDelta.dx, event.scrollDelta.dy) } } : MouseInput) = i₁
  have hsame : i₁.sent = i.sent := by rw [← hset]
  obtain ⟨-, -, hpointer⟩ := sendPointer_rest shape v .axis event.localPosition event.timeUs i₁
  refine ⟨fun _ => rfl, ?_⟩
  rcases sendPointer_sent shape v .axis event.localPosition event.timeUs i₁ with hsent | hsent
  · exact ⟨[], by simp [hsent, hsame]⟩
  · refine ⟨_, by rw [hsent, hsame], fun _ e he => ?_⟩
    obtain rfl := List.mem_singleton.mp he
    rw [hpointer]
    exact ⟨fun hkind => absurd rfl hkind, fun hkind => by cases hkind⟩

theorem step_sends (op : InputOp) : Sends i (i.step shape op) := by
  cases op with
  | setViewScale v scale => exact ⟨id, [], by simp [step], by simp⟩
  | mouse v event => exact mouseEvent_sends event
  | scroll v event => exact scroll_sends event
  | leave v offset timeUs =>
      have hsends : Sends i (i.sendPointer shape v .leave offset timeUs) := sendPointer_sends_still (by decide) _ _
      exact ⟨hsends.still, hsends.sent⟩

/-! ## What is pressed -/

/-- The presses and releases sent. -/
def clicks (i : MouseInput) : List (Nat × Bool) := i.sent.filterMap clickOf

theorem sendButton_clicks (shape : Nat → Nat) (hs : i.Still) {event : MouseEvent} (hf : i.Finite v event.localPosition)
    (change : Nat × Bool) :
    (i.sendButton shape v event change).clicks = i.clicks ++ [change] ∧
    (i.sendButton shape v event change).Still ∧ (i.sendButton shape v event change).Finite v event.localPosition := by
  unfold sendButton
  generalize hset : ({ i with pointer := { i.pointer with
    button := change.1, pressed := if change.2 then 1 else 0 } } : MouseInput) = i₁
  have hs₁ : i₁.Still := by
    rw [← hset]
    exact hs
  have hf₁ : i₁.Finite v event.localPosition := by
    rw [← hset]
    exact hf
  obtain ⟨hscales, -, hpointer⟩ := sendPointer_rest shape v .button event.localPosition event.timeUs i₁
  refine ⟨?_, ?_, ?_⟩
  · rw [clicks, sendPointer_valid hs₁ hf₁, hpointer, List.filterMap_append]
    obtain ⟨code, pressed⟩ := change
    rw [← hset]
    cases pressed <;> rfl
  · rw [Still, hpointer]
    exact hs₁
  · rw [Finite, hscales]
    exact hf₁

theorem foldl_sendButton_clicks {event : MouseEvent} (changes : List (Nat × Bool)) (hs : i.Still)
    (hf : i.Finite v event.localPosition) : (changes.foldl (sendButton shape v event) i).clicks = i.clicks ++ changes := by
  induction changes generalizing i with
  | nil => simp
  | cons change changes ih =>
      obtain ⟨hclicks, hs', hf'⟩ := sendButton_clicks shape hs hf change
      rw [List.foldl_cons, ih hs' hf', hclicks, List.append_assoc]
      rfl

theorem sendPointer_clicks {kind : PointerKind} (hkind : kind ≠ .button) (offset : Offset Double) (timeUs : Nat) (i : MouseInput) :
    (i.sendPointer shape v kind offset timeUs).clicks = i.clicks := by
  obtain ⟨-, -, hpointer⟩ := sendPointer_rest shape v kind offset timeUs i
  rcases sendPointer_sent shape v kind offset timeUs i with hsent | hsent
  · rw [clicks, hsent, clicks]
  · rw [clicks, hsent, hpointer, List.filterMap_append, clicks]
    simp [clickOf, hkind]

theorem foldl_sendButton_buttons {event : MouseEvent} (changes : List (Nat × Bool)) (i : MouseInput) :
    (changes.foldl (sendButton shape v event) i).buttons = i.buttons := by
  induction changes generalizing i with
  | nil => rfl
  | cons change changes ih =>
      rw [List.foldl_cons, ih]
      exact (sendPointer_rest shape v .button event.localPosition event.timeUs _).2.1

theorem mouseEvent_clicks (shape : Nat → Nat) (hs : i.Still) {event : MouseEvent} (hf : i.Finite v event.localPosition) :
    (i.mouseEvent shape v event).clicks = i.clicks ++ buttonChanges (i.buttons event.device) event.after ∧
    (i.mouseEvent shape v event).buttons = fun d => if d = event.device then event.after else i.buttons d := by
  obtain ⟨i₁, hmouse, hclicks, hbuttons, hs₁, hf₁⟩ : ∃ i₁ : MouseInput, i.mouseEvent shape v event =
      { (buttonChanges (i.buttons event.device) event.after).foldl (sendButton shape v event) i₁ with
        buttons := fun d => if d = event.device then event.after else
          ((buttonChanges (i.buttons event.device) event.after).foldl (sendButton shape v event) i₁).buttons d } ∧
      i₁.clicks = i.clicks ∧ i₁.buttons = i.buttons ∧ i₁.Still ∧ i₁.Finite v event.localPosition := by
    refine ⟨_, rfl, ?_⟩
    obtain ⟨hscales, hbuttons, hpointer⟩ := sendPointer_rest shape v .motion event.localPosition event.timeUs i
    split
    · refine ⟨sendPointer_clicks (by decide) _ _ i, hbuttons, ?_, ?_⟩
      · rw [Still, hpointer]
        exact hs
      · rw [Finite, hscales]
        exact hf
    · exact ⟨rfl, rfl, hs, hf⟩
  rw [hmouse]
  refine ⟨?_, ?_⟩
  · change clicks ((buttonChanges (i.buttons event.device) event.after).foldl (sendButton shape v event) i₁) = _
    rw [foldl_sendButton_clicks _ hs₁ hf₁, hclicks]
  · dsimp only
    rw [foldl_sendButton_buttons, hbuttons]

theorem scroll_clicks (event : ScrollEvent) : (i.scroll shape v event).clicks = i.clicks := by
  unfold scroll
  exact sendPointer_clicks (by decide) _ _ _

/-- A button was pressed as many times more than released as there are devices that hold it. -/
def Balanced (i : MouseInput) : Prop := ∀ ds : Finset Nat, (∀ d, d ∉ ds → i.buttons d = 0) → ∀ b ∈ buttonCodes,
  tally b.2 i.clicks = ds.sum fun d => down (i.buttons d) b.1

theorem Balanced.same {i' : MouseInput} (h : i.Balanced) (hclicks : i'.clicks = i.clicks) (hbuttons : i'.buttons = i.buttons) :
    i'.Balanced := by
  rw [Balanced, hclicks, hbuttons]
  exact h

theorem down_zero (bit : Nat) : down 0 bit = 0 := by simp [down]

theorem Balanced.mouseEvent (h : i.Balanced) (hs : i.Still) {event : MouseEvent} (hf : i.Finite v event.localPosition) :
    (i.mouseEvent shape v event).Balanced := by
  obtain ⟨hclicks, hbuttons⟩ := mouseEvent_clicks shape hs hf
  rw [Balanced, hclicks, hbuttons]
  intro ds hds b hb
  dsimp only at hds ⊢
  -- Before the event its device may have held what it does not hold any more.
  have hbefore : tally b.2 i.clicks = (insert event.device ds).sum fun d => down (i.buttons d) b.1 := by
    refine h _ (fun d hd => ?_) b hb
    have hout : d ≠ event.device ∧ d ∉ ds := by simpa using hd
    have hnone := hds d hout.2
    rwa [if_neg hout.1] at hnone
  have hafter : (ds.sum fun d => down (if d = event.device then event.after else i.buttons d) b.1) =
      (insert event.device ds).sum fun d => down (if d = event.device then event.after else i.buttons d) b.1 := by
    refine (Finset.sum_insert_of_eq_zero_if_notMem fun hout => ?_).symm
    have hnone := hds event.device hout
    rw [hnone, down_zero]
  rw [tally_append, hbefore, hafter, tally_buttonChanges hb,
    ← Finset.add_sum_erase _ _ (Finset.mem_insert_self event.device ds),
    ← Finset.add_sum_erase _ _ (Finset.mem_insert_self event.device ds), if_pos rfl]
  have hrest : (((insert event.device ds).erase event.device).sum fun d =>
      down (if d = event.device then event.after else i.buttons d) b.1) =
      ((insert event.device ds).erase event.device).sum fun d => down (i.buttons d) b.1 :=
    Finset.sum_congr rfl fun d hd => by rw [if_neg (Finset.ne_of_mem_erase hd)]
  rw [hrest]
  omega

/-- The position of a mouse's event is finite on screen. -/
def Shown (i : MouseInput) : InputOp → Prop
  | .mouse v event => i.Finite v event.localPosition
  | _ => True

theorem Balanced.step (h : i.Balanced) (hs : i.Still) {op : InputOp} (hop : i.Shown op) : (i.step shape op).Balanced := by
  cases op with
  | setViewScale v scale => exact h.same rfl rfl
  | mouse v event => exact h.mouseEvent hs hop
  | scroll v event =>
      refine h.same (scroll_clicks event) ?_
      exact (sendPointer_rest shape v .axis event.localPosition event.timeUs _).2.1
  | leave v offset timeUs =>
      exact h.same (sendPointer_clicks (by decide) offset timeUs i) (sendPointer_rest shape v .leave offset timeUs i).2.1

end MouseInput

/-! ## What the server is told -/

namespace Pointing

variable {π : Type} {d : PointerHandle π} {w : PointWorld}

theorem pointerInput_clicks (v : ViewId) (ev : PointerEvent) (t : Pointing π) :
    (t.pointerInput d w v ev).clicks.map Prod.snd = t.clicks.map Prod.snd ++ (clickOf (v, ev)).toList := by
  unfold pointerInput
  dsimp only
  split
  · rename_i hkind
    simp [frame, motion, clickOf, hkind]
  · rename_i hkind
    simp [frame, motion, clickOf, hkind]
  · rename_i hkind
    split <;> simp [frame, motion, clickOf, hkind]
  · rename_i hkind
    rw [frame, (settle_rest v _ _).2, button, (approach_rest v _ _).2.2]
    simp [clickOf, hkind]
  · rename_i hkind
    simp [frame, clickOf, hkind]

end Pointing

namespace Clicking

variable {π : Type} {shape : Nat → Nat} {d : PointerHandle π} {w : PointWorld} {depth : Nat} {t : Clicking π}

/-- The server's pointer hears of nothing but what the queue has, and what a mouse does is shown somewhere. -/
def Orderly (t : Clicking π) : ClickingOp π → Prop
  | .input op => t.input.Shown op
  | .server (.pointer ..) => False
  | _ => True

instance (t : Clicking π) : (op : ClickingOp π) → Decidable (Orderly t op)
  | .input (.mouse v event) => inferInstanceAs (Decidable
      ((t.input.onScreen v event.localPosition).dx.isFinite = true ∧ (t.input.onScreen v event.localPosition).dy.isFinite = true))
  | .server (.pointer ..) => .isFalse id
  | .input (.setViewScale ..) | .input (.scroll ..) | .input (.leave ..) | .serves | .server (.seat _) | .server (.turns _) =>
      .isTrue trivial

/-- What was sent is served or waits, each once and in order, and is clean. -/
structure Kept (t : Clicking π) : Prop where
  still : t.input.Still
  balanced : t.input.Balanced
  clean : ∀ e ∈ t.input.sent, MouseInput.Clean e.2
  order : t.input.clicks = t.server.clicks.map Prod.snd ++ t.queue.filterMap clickOf

theorem Kept.step (h : t.Kept) {op : ClickingOp π} (hop : Orderly t op) : (t.step shape d w depth op).Kept := by
  cases op with
  | input op =>
      have hsends : MouseInput.Sends t.input (t.input.step shape op) := MouseInput.step_sends op
      obtain ⟨new, hnew, hclean⟩ := hsends.sent
      refine ⟨hsends.still h.still, h.balanced.step h.still hop, fun e he => ?_, ?_⟩
      · rw [Clicking.step, hnew] at he
        rcases List.mem_append.mp he with he | he
        · exact h.clean e he
        · exact hclean h.still e he
      · have horder := h.order
        simp only [Clicking.step, MouseInput.clicks, hnew, List.filterMap_append, List.drop_left] at horder ⊢
        rw [horder, List.append_assoc]
  | serves =>
      unfold Clicking.step
      dsimp only
      cases hqueue : t.queue with
      | nil => exact h
      | cons e queue =>
          refine ⟨h.still, h.balanced, h.clean, ?_⟩
          have horder := h.order
          dsimp only
          rw [hqueue] at horder
          rw [Pointing.pointerInput_clicks, horder, List.append_assoc]
          cases hclick : clickOf e <;> simp [hclick]
  | server op =>
      cases op with
      | pointer v ev => exact hop.elim
      | seat op => exact ⟨h.still, h.balanced, h.clean, h.order⟩
      | turns pointer => exact ⟨h.still, h.balanced, h.clean, h.order⟩

theorem kept_run (p : π) {ops : List (ClickingOp π)}
    (hops : Meets (step shape d w depth) Orderly (run shape d w depth p []) ops) : (run shape d w depth p ops).Kept := by
  have hnone (e : ViewId × PointerEvent) (he : e ∈ (run shape d w depth p []).input.sent) : MouseInput.Clean e.2 := by cases he
  refine hops.keeps (fun t op hop h => h.step hop) ⟨rfl, fun ds _ b _ => ?_, hnone, rfl⟩
  exact (Finset.sum_eq_zero fun d _ => MouseInput.down_zero b.1).symm

/-- Where nothing waits, the server's pointer was told of as many presses more than releases of a button as there are
devices that hold it, and of each once and in order. -/
theorem run_tallies (p : π) {ops : List (ClickingOp π)}
    (hops : Meets (step shape d w depth) Orderly (run shape d w depth p []) ops) :
    (run shape d w depth p ops).input.clicks = (run shape d w depth p ops).server.clicks.map Prod.snd ++
      (run shape d w depth p ops).queue.filterMap clickOf ∧
    (∀ e ∈ (run shape d w depth p ops).input.sent, MouseInput.Clean e.2) ∧
    ((run shape d w depth p ops).queue = [] → ∀ ds : Finset Nat,
      (∀ k, k ∉ ds → (run shape d w depth p ops).input.buttons k = 0) → ∀ b ∈ buttonCodes,
      tally b.2 ((run shape d w depth p ops).server.clicks.map Prod.snd) =
        (ds.filter fun k => (run shape d w depth p ops).input.buttons k &&& b.1 ≠ 0).card) := by
  have h := kept_run p hops
  refine ⟨h.order, h.clean, fun hqueue ds hds b hb => ?_⟩
  have horder := h.order
  rw [hqueue, List.filterMap_nil, List.append_nil] at horder
  rw [← horder, h.balanced ds hds b hb]
  exact Finset.sum_boole _ _

/-- Two mice press a button in a view, and the first is released there. -/
def pairRun : List (ClickingOp ClickPointer) :=
  [.server (.seat (.event (.newToplevel 10))), .server (.seat (.event (.commit { main := { surface := 10 } }))),
    .server (.seat (.event (.cmd (.viewCreated { uid := 0, id := 1 })))), .input (.mouse 1 { kind := .hover, device := 7 }),
    .input (.mouse 1 { kind := .down, device := 7, buttons := 1 }), .serves,
    .input (.mouse 1 { kind := .down, device := 8, buttons := 3 }), .serves, .input (.mouse 1 { kind := .up, device := 7 }),
    .serves, .serves, .serves]

theorem run_tallies_pair : Meets (step (fun _ => 0) .click .flat 1) Orderly (run (fun _ => 0) .click .flat 1 {} []) pairRun ∧
    (run (fun _ => 0) .click .flat 1 {} pairRun).queue = [] ∧
    (run (fun _ => 0) .click .flat 1 {} pairRun).server.clicks.map Prod.snd =
      [(0x110, true), (0x110, true), (0x111, true), (0x110, false)] ∧
    ((run (fun _ => 0) .click .flat 1 {} pairRun).queue = [] → ∀ ds : Finset Nat,
      (∀ k, k ∉ ds → (run (fun _ => 0) .click .flat 1 {} pairRun).input.buttons k = 0) → ∀ b ∈ buttonCodes,
      tally b.2 ((run (fun _ => 0) .click .flat 1 {} pairRun).server.clicks.map Prod.snd) =
        (ds.filter fun k => (run (fun _ => 0) .click .flat 1 {} pairRun).input.buttons k &&& b.1 ≠ 0).card) := by
  have hops : Meets (step (fun _ => 0) .click .flat 1) Orderly (run (fun _ => 0) .click .flat 1 {} []) pairRun := by
    decide +kernel
  have hqueue : (run (fun _ => 0) .click .flat 1 {} pairRun).queue = [] := by decide +kernel
  have hclicks : (run (fun _ => 0) .click .flat 1 {} pairRun).server.clicks.map Prod.snd =
      [(0x110, true), (0x110, true), (0x111, true), (0x110, false)] := by decide +kernel
  have htallies := (run_tallies _ hops).2.2
  exact ⟨hops, hqueue, hclicks, htallies⟩

end Clicking

end IhsWl
