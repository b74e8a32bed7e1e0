import IhsWl.Buffers.Theorems
import Mathlib.Data.List.Induction

/-!
# Buffer ids are a map with a retire set

An entry is told apart by its id: it is its key's from the first call until the key is destroyed, and no other has it.
What is retired is read off the history of calls alone.
-/

namespace IhsWl

/-- The calls on `BufferIds`. -/
inductive IdsOp where
  | idFor (key : BufferKey) (view : ViewId)
  | destroyed (key : BufferKey)
  | forgetView (view : ViewId)
  deriving DecidableEq, Repr

namespace IdsOp

/-- An id is asked for under `key`, for whatever view. -/
def Names (key : BufferKey) (op : IdsOp) : Prop := ∃ view, op = .idFor key view

end IdsOp

namespace BufferIds

def step (ids : BufferIds) : IdsOp → BufferIds
  | .idFor key view => (ids.idFor key view).2
  | .destroyed key => (ids.destroyed key).2
  | .forgetView view => ids.forgetView view

theorem start_bounded : 0 < 4_294_967_296 := by decide

def run (ops : List IdsOp) : BufferIds := ops.foldl step { bounded := start_bounded }

/-- Whether the call hands out an id. -/
def hands (ids : BufferIds) : IdsOp → Bool
  | .idFor key _ => (ids.byBuffer key).isNone
  | _ => false

/-- How many ids the calls hand out. -/
def handedOut : BufferIds → List IdsOp → Nat
  | _, [] => 0
  | ids, op :: ops => (ids.hands op).toNat + handedOut (ids.step op) ops

/-- The id a call after `ops` gets. -/
def idAfter (ops : List IdsOp) (key : BufferKey) (view : ViewId) : Nat := ((run ops).idFor key view).1

/-- What the ids are for, of calls `ops`: a map that hands an id out once, and retires it where it was shown. -/
structure Refines (ops : List IdsOp) : Prop where
  nonzero : ∀ pre key view post, ops = pre ++ .idFor key view :: post → idAfter pre key view ≠ 0
  stable : ∀ pre key view mid view' post, ops = pre ++ .idFor key view :: mid ++ .idFor key view' :: post →
    .destroyed key ∉ mid → idAfter (pre ++ .idFor key view :: mid) key view' = idAfter pre key view
  unique : ∀ pre key view mid key' view' post, ops = pre ++ .idFor key view :: mid ++ .idFor key' view' :: post →
    idAfter (pre ++ .idFor key view :: mid) key' view' = idAfter pre key view → key' = key ∧ .destroyed key ∉ mid
  none : ∀ pre key post, ops = pre ++ .destroyed key :: post →
    (((run pre).destroyed key).1 = none ↔ ¬Runs.Since (IdsOp.Names key) (· = .destroyed key) pre)
  retired : ∀ pre key post e, ops = pre ++ .destroyed key :: post → ((run pre).destroyed key).1 = some e →
    (∀ pre' view post', pre = pre' ++ .idFor key view :: post' → .destroyed key ∉ post' → e.id = idAfter pre' key view) ∧
    e.views.Nodup ∧
    ∀ view, view ∈ e.views ↔
      Runs.Since (· = .idFor key view) (fun op => op = .destroyed key ∨ op = .forgetView view) pre

variable {ids : BufferIds} {key : BufferKey} {e : BufferEntry}

/-! ## Ids -/

/-- No more ids are handed out than there are: every entry's is one of those handed out, and its own. -/
structure Distinct (ids : BufferIds) : Prop where
  pos : ∀ {key e}, ids.byBuffer key = some e → e.id ≠ 0
  le : ∀ {key e}, ids.byBuffer key = some e → e.id ≤ ids.last
  inj : ∀ {key key' e e'}, ids.byBuffer key = some e → ids.byBuffer key' = some e' → e.id = e'.id → key = key'

@[simp] theorem byBuffer_forgetView (ids : BufferIds) (view : ViewId) (k : BufferKey) :
    (ids.forgetView view).byBuffer k =
      (ids.byBuffer k).map fun e => { e with views := e.views.filter (· ≠ view) } := rfl

theorem next_eq {last : Nat} (h : last + 1 < 4_294_967_296) : next last = last + 1 := by
  rw [next, Nat.mod_eq_of_lt h]
  omega

theorem last_idFor (ids : BufferIds) (key : BufferKey) (view : ViewId) (h : ids.last + 1 < 4_294_967_296) :
    (ids.idFor key view).2.last = ids.last + (ids.hands (.idFor key view)).toNat := by
  cases hk : ids.byBuffer key <;> simp [idFor, hands, hk, next_eq h]

theorem last_step (ids : BufferIds) (op : IdsOp) (h : ids.last + 1 < 4_294_967_296) :
    (ids.step op).last = ids.last + (ids.hands op).toNat := by
  cases op with
  | idFor key view => exact last_idFor ids key view h
  | destroyed key => rfl
  | forgetView view => rfl

/-- The entry of a key without one is the next. -/
theorem entryOf_next (h : ids.last + 1 < 4_294_967_296) (hk : ids.byBuffer key = none) :
    (ids.entryOf key).id = ids.last + 1 := by
  simp [entryOf, hk, next_eq h]

/-- An entry after a call is one from before it, under the same key, or new. -/
theorem entry_step {op : IdsOp} (h : (ids.step op).byBuffer key = some e) :
    (∃ e', ids.byBuffer key = some e' ∧ e'.id = e.id ∧ op ≠ .destroyed key) ∨
      ids.byBuffer key = none ∧ e.id = (ids.entryOf key).id ∧ ∃ view, op = .idFor key view := by
  cases op with
  | idFor k view =>
      simp only [step, byBuffer_idFor] at h
      split at h
      · rename_i hk
        cases h
        subst hk
        cases hk : ids.byBuffer key with
        | none => exact Or.inr ⟨rfl, rfl, view, rfl⟩
        | some e' => exact Or.inl ⟨e', rfl, by simp [entryOf_eq hk], by simp⟩
      · exact Or.inl ⟨e, h, rfl, by simp⟩
  | destroyed k =>
      simp only [step, byBuffer_destroyed] at h
      split at h
      · cases h
      · rename_i hne
        exact Or.inl ⟨e, h, rfl, by simpa using fun heq => hne heq.symm⟩
  | forgetView view =>
      simp only [step, byBuffer_forgetView, Option.map_eq_some_iff] at h
      obtain ⟨e', he', rfl⟩ := h
      exact Or.inl ⟨e', he', rfl, by simp⟩

/-- An entry stays, under its id, until its key is destroyed. -/
theorem step_entry {op : IdsOp} (h : ids.byBuffer key = some e) (hop : op ≠ .destroyed key) :
    ∃ e', (ids.step op).byBuffer key = some e' ∧ e'.id = e.id := by
  cases op with
  | idFor k view =>
      simp only [step, byBuffer_idFor]
      split
      · rename_i hk
        subst hk
        exact ⟨_, rfl, by simp [entryOf_eq h]⟩
      · exact ⟨e, h, rfl⟩
  | destroyed k =>
      simp only [step, byBuffer_destroyed]
      rw [if_neg fun heq => hop (by rw [heq])]
      exact ⟨e, h, rfl⟩
  | forgetView view =>
      refine ⟨{ e with views := e.views.filter (· ≠ view) }, ?_, rfl⟩
      simp only [step, byBuffer_forgetView, h, Option.map_some]

theorem Distinct.step (h : Distinct ids) (op : IdsOp) (hlast : ids.last + 1 < 4_294_967_296) :
    Distinct (ids.step op) := by
  have hgrows := last_step ids op hlast
  -- A new entry has an id above all others.
  have hnew {k : BufferKey} {e : BufferEntry} (hnone : ids.byBuffer k = none) (hid : e.id = (ids.entryOf k).id)
      (hop : ∃ view, op = .idFor k view) : e.id = ids.last + 1 ∧ (ids.step op).last = ids.last + 1 := by
    obtain ⟨view, rfl⟩ := hop
    rw [hid, entryOf_next hlast hnone, hgrows]
    simp [hands, hnone]
  constructor
  · intro k e he
    obtain ⟨e', he', hid, -⟩ | ⟨hnone, hid, hop⟩ := entry_step he
    · exact hid ▸ h.pos he'
    · rw [(hnew hnone hid hop).1]
      omega
  · intro k e he
    obtain ⟨e', he', hid, -⟩ | ⟨hnone, hid, hop⟩ := entry_step he
    · have hle := h.le he'
      omega
    · obtain ⟨hid, hlast⟩ := hnew hnone hid hop
      omega
  · intro k k' e e' he he' heq
    obtain ⟨a, ha, haid, -⟩ | ⟨hnone, hid, hop⟩ := entry_step he
    · obtain ⟨b, hb, hbid, -⟩ | ⟨hnone, hid, hop⟩ := entry_step he'
      · exact h.inj ha hb (by omega)
      · have hle := h.le ha
        have hid := (hnew hnone hid hop).1
        omega
    · obtain ⟨b, hb, hbid, -⟩ | ⟨-, -, hop'⟩ := entry_step he'
      · have hle := h.le hb
        have hid := (hnew hnone hid hop).1
        omega
      · obtain ⟨view, rfl⟩ := hop
        obtain ⟨view', heq⟩ := hop'
        cases heq
        rfl

/-! ## Runs -/

theorem run_concat (ops : List IdsOp) (op : IdsOp) : run (ops ++ [op]) = (run ops).step op := List.foldl_concat ..

theorem handedOut_append (ids : BufferIds) (ops ops' : List IdsOp) :
    handedOut ids (ops ++ ops') = handedOut ids ops + handedOut (ops.foldl step ids) ops' := by
  induction ops generalizing ids with
  | nil => simp [handedOut]
  | cons op ops ih => simp only [List.cons_append, handedOut, ih, List.foldl_cons, Nat.add_assoc]

/-- The last id is how many were handed out, and they are distinct. -/
theorem run_distinct (ops : List IdsOp) (h : handedOut {} ops < 4_294_967_295) :
    (run ops).last = handedOut {} ops ∧ Distinct (run ops) := by
  induction ops using List.reverseRecOn with
  | nil => exact ⟨rfl, by simp [run], by simp [run], by simp [run]⟩
  | append_singleton ops op ih =>
      have hadd : handedOut {} (ops ++ [op]) = handedOut {} ops + ((run ops).hands op).toNat := by
        rw [handedOut_append]
        rfl
      rw [hadd] at h ⊢
      obtain ⟨hlast, hdistinct⟩ := ih (by omega)
      have hroom : (run ops).last + 1 < 4_294_967_296 := by omega
      rw [run_concat, last_step _ _ hroom, hlast]
      exact ⟨rfl, hdistinct.step op hroom⟩

/-- Fewer were handed out at every earlier point. -/
theorem handedOut_left (pre post : List IdsOp) : handedOut {} pre ≤ handedOut {} (pre ++ post) := by
  rw [handedOut_append]
  omega

/-- While its key is not destroyed an entry keeps its id. -/
theorem run_entry (pre mid : List IdsOp) (h : (run pre).byBuffer key = some e) (hmid : .destroyed key ∉ mid) :
    ∃ e', (run (pre ++ mid)).byBuffer key = some e' ∧ e'.id = e.id := by
  induction mid using List.reverseRecOn with
  | nil => exact ⟨e, by simpa using h, rfl⟩
  | append_singleton mid op ih =>
      simp only [List.mem_append, List.mem_singleton, not_or] at hmid
      obtain ⟨e', he', hid⟩ := ih hmid.1
      rw [← List.append_assoc, run_concat]
      obtain ⟨e'', he'', hid'⟩ := step_entry he' (Ne.symm hmid.2)
      exact ⟨e'', he'', hid'.trans hid⟩

/-- An entry under an id handed out before was there, and its key not destroyed since. -/
theorem entry_run (pre mid : List IdsOp) (hfew : handedOut {} (pre ++ mid) < 4_294_967_295)
    (h : (run (pre ++ mid)).byBuffer key = some e) (hid : e.id ≤ (run pre).last) :
    .destroyed key ∉ mid ∧ ∃ e', (run pre).byBuffer key = some e' ∧ e'.id = e.id := by
  induction mid using List.reverseRecOn generalizing e with
  | nil => exact ⟨by simp, e, by simpa using h, rfl⟩
  | append_singleton mid op ih =>
      rw [← List.append_assoc, run_concat] at h
      rw [← List.append_assoc] at hfew
      have hfew' := Nat.lt_of_le_of_lt (handedOut_left (pre ++ mid) [op]) hfew
      have hlast := (run_distinct _ hfew').1
      have hlast' := (run_distinct pre (Nat.lt_of_le_of_lt (handedOut_left pre mid) hfew')).1
      have hle := handedOut_left pre mid
      obtain ⟨e', he', heq, hop⟩ | ⟨hnone, heq, -⟩ := entry_step h
      · obtain ⟨hmid, hthere⟩ := ih hfew' he' (by omega)
        exact ⟨by simp [hmid, Ne.symm hop], heq ▸ hthere⟩
      · rw [heq, entryOf_next (by omega) hnone] at hid
        omega

/-! ## The entry of a key -/

/-- The entry after a call is the one it got its id from. -/
theorem run_idFor (pre : List IdsOp) (key : BufferKey) (view : ViewId) :
    ∃ e, (run (pre ++ [.idFor key view])).byBuffer key = some e ∧ e.id = idAfter pre key view := by
  simp only [run_concat, step, byBuffer_idFor, if_true]
  exact ⟨_, rfl, rfl⟩

theorem idAfter_eq {pre : List IdsOp} (h : (run pre).byBuffer key = some e) (view : ViewId) :
    idAfter pre key view = e.id := by
  simp [idAfter, idFor, entryOf_eq h]

/-- A key has an entry while it was asked for and not destroyed since. -/
theorem run_entry_iff (ops : List IdsOp) (key : BufferKey) :
    ((run ops).byBuffer key).isSome ↔ Runs.Since (IdsOp.Names key) (· = .destroyed key) ops := by
  induction ops using List.reverseRecOn with
  | nil => simp [run]
  | append_singleton ops op ih =>
      rw [Runs.since_concat, run_concat, ← ih]
      cases op with
      | idFor k view =>
          simp only [step, byBuffer_idFor, IdsOp.Names, reduceCtorEq, not_false_eq_true, and_true, IdsOp.idFor.injEq]
          split
          · rename_i hk
            simp [hk]
          · rename_i hk
            simp [Ne.symm hk]
      | destroyed k =>
          simp only [step, byBuffer_destroyed, IdsOp.Names, reduceCtorEq, exists_false, false_or, IdsOp.destroyed.injEq]
          split
          · rename_i hk
            simp [hk]
          · rename_i hk
            simp [Ne.symm hk]
      | forgetView view => simp [step, IdsOp.Names]

/-- An entry's views are those asked for under its key, since it was made and they were last forgotten. -/
theorem run_views (ops : List IdsOp) (h : (run ops).byBuffer key = some e) :
    e.views.Nodup ∧ ∀ view, view ∈ e.views ↔
      Runs.Since (· = .idFor key view) (fun op => op = .destroyed key ∨ op = .forgetView view) ops := by
  induction ops using List.reverseRecOn generalizing e with
  | nil => simp [run] at h
  | append_singleton ops op ih =>
      simp only [Runs.since_concat]
      rw [run_concat] at h
      cases op with
      | idFor k view =>
          simp only [step, byBuffer_idFor] at h
          split at h
          · rename_i hk
            cases h
            subst hk
            -- What the entry held before, none if it is new.
            have hbefore : ((run ops).entryOf key).views.Nodup ∧ ∀ v, v ∈ ((run ops).entryOf key).views ↔
                Runs.Since (· = .idFor key v) (fun op => op = .destroyed key ∨ op = .forgetView v) ops := by
              cases hold : (run ops).byBuffer key with
              | none =>
                  have hnever := (run_entry_iff ops key).not.mp (by simp [hold])
                  refine ⟨by simp [entryOf, hold], fun v => ?_⟩
                  simp only [entryOf, hold, Option.getD_none, List.not_mem_nil, false_iff]
                  exact fun hsince => hnever (hsince.imp (fun _ heq => ⟨v, heq⟩) fun _ => Or.inl)
              | some e => exact entryOf_eq hold ▸ ih hold
            obtain ⟨hnodup, hviews⟩ := hbefore
            dsimp only
            split
            · rename_i hin
              refine ⟨hnodup, fun v => ?_⟩
              by_cases hv : v = view
              · subst hv
                simp [hin]
              · simp [hviews, Ne.symm hv]
            · rename_i hout
              refine ⟨?_, fun v => ?_⟩
              · rw [List.nodup_append]
                exact ⟨hnodup, by simp, by simpa using fun v hv (heq : v = view) => hout (heq ▸ hv)⟩
              · by_cases hv : v = view
                · simp [hv]
                · simp [hviews, hv, Ne.symm hv]
          · rename_i hk
            obtain ⟨hnodup, hviews⟩ := ih h
            simp [hnodup, hviews, Ne.symm hk]
      | destroyed k =>
          simp only [step, byBuffer_destroyed] at h
          split at h
          · cases h
          · rename_i hk
            obtain ⟨hnodup, hviews⟩ := ih h
            simp [hnodup, hviews, Ne.symm hk]
      | forgetView view =>
          simp only [step, byBuffer_forgetView, Option.map_eq_some_iff] at h
          obtain ⟨e', he', rfl⟩ := h
          obtain ⟨hnodup, hviews⟩ := ih he'
          refine ⟨hnodup.filter _, fun v => ?_⟩
          simp [hviews, @eq_comm _ v]

/-- With an id left for each call the ids are a map with a retire set. -/
theorem run_refines (ops : List IdsOp) (hfew : handedOut {} ops < 4_294_967_295) : Refines ops := by
  have hfew' {pre : List IdsOp} (post : List IdsOp) (hsplit : ops = pre ++ post) : handedOut {} pre < 4_294_967_295 :=
    Nat.lt_of_le_of_lt (hsplit ▸ handedOut_left pre post) hfew
  constructor
  · intro pre key view post hsplit
    have hdistinct := (run_distinct (pre ++ [.idFor key view]) (hfew' post (by simp [hsplit]))).2
    obtain ⟨e, he, hid⟩ := run_idFor pre key view
    exact hid ▸ hdistinct.pos he
  · intro pre key view mid view' post hsplit hmid
    obtain ⟨e, he, hid⟩ := run_idFor pre key view
    obtain ⟨e', he', hid'⟩ := run_entry _ mid he hmid
    rw [List.append_assoc, List.singleton_append] at he'
    rw [idAfter_eq he', hid', hid]
  · intro pre key view mid key' view' post hsplit heq
    obtain ⟨e, he, hid⟩ := run_idFor pre key view
    obtain ⟨e', he', hid'⟩ := run_idFor (pre ++ .idFor key view :: mid) key' view'
    have hfirst := (run_distinct (pre ++ [.idFor key view])
      (hfew' (mid ++ .idFor key' view' :: post) (by simp [hsplit]))).2
    -- The id of the second call was handed out when the first had been, so it is an entry from then.
    obtain ⟨hmid, e'', he'', hid''⟩ := entry_run (pre ++ [.idFor key view]) (mid ++ [.idFor key' view'])
      (hfew' post (by simp [hsplit])) (by simpa using he') (by rw [hid', heq, ← hid]; exact hfirst.le he)
    have hkey := hfirst.inj he'' he (by rw [hid'', hid', heq, hid])
    subst hkey
    exact ⟨rfl, fun hin => hmid (List.mem_append_left _ hin)⟩
  · intro pre key post hsplit
    rw [← run_entry_iff, Option.not_isSome_iff_eq_none]
    rfl
  · intro pre key post e hsplit he
    refine ⟨fun pre' view post' hsplit' hpost => ?_, run_views pre he⟩
    subst hsplit'
    obtain ⟨e', he', hid⟩ := run_idFor pre' key view
    obtain ⟨e'', he'', hid'⟩ := run_entry _ post' he' hpost
    rw [List.append_assoc, List.singleton_append] at he''
    have hsome : (run (pre' ++ .idFor key view :: post')).byBuffer key = some e := he
    cases hsome.symm.trans he''
    exact hid'.trans hid

/-- A buffer shown in two views, one of which goes, and another under an id of its own. -/
theorem run_refines_retired : Refines [.idFor (.client 1) 1, .idFor (.client 1) 2, .idFor (.client 2) 1,
    .forgetView 1, .destroyed (.client 1), .idFor (.client 1) 1] :=
  run_refines _ (by decide)

end BufferIds

end IhsWl
