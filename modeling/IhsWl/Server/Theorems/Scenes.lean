import IhsWl.Server.Lemmas.Windows

/-!
# Scenes

Where a toplevel is shown is decided twice: by the view it is bound to, and by the chain of its parents.
-/

namespace IhsWl

open State

variable {w : World} {s s' : State}

/-! ## One place -/

/-- No parent is given to a toplevel a view shows. -/
def keepsPlace (s : State) : Event → Bool
  | .setParent x (some _) => ((s.idOf x).bind s.shownIn).isNone
  | _ => true

/-- A shown toplevel keeps no parent when none is given to it. -/
theorem Rooted.act (h : Rooted s) (hsound : Sound s)
    (ha : Act w (fun s e => keepsPlace s e = true) s s') : Rooted s' := by
  -- A toplevel shown after the act had no parent before it.
  have hbefore : ∀ id te', s'.toplevel id = some te' → te'.view.isSome = true →
      (s.surfaces te'.surface).parent = none := by
    intro id te' hte hv
    rcases ha.entry hte with ⟨te, hte₀, hfrom⟩ | ⟨-, x, -, rfl⟩
    · rw [hfrom.surface]
      rcases hfrom.view hv with hv | hfree
      · exact h id te hte₀ hv
      · simp only [free, Bool.and_eq_true, Option.isNone_iff_eq_none] at hfree
        exact hfree.2
    · cases hv
  have hkept (hparents : ∀ y, (s'.surfaces y).parent = (s.surfaces y).parent ∨ (s'.surfaces y).parent = none) :
      Rooted s' := by
    intro id te' hte hv
    rcases hparents te'.surface with hsame | hnone
    · rw [hsame]; exact hbefore id te' hte hv
    · exact hnone
  cases ha with
  | same _ hl => exact hkept fun y => Or.inl (by rw [hl.surfaces])
  | unlinked v => exact hkept fun y => Or.inl (by rw [(letGo_desk s v _).surfaces])
  | made | named | popupMade | untracked | subsurfaceMade | surfaceGone =>
      exact hkept fun y => Or.inl (field_update Surface.parent (by rfl) y)
  | reset x hx =>
      refine hkept fun y => ?_
      simp only [resetToplevel]
      split
      · exact Or.inr rfl
      · exact Or.inl rfl
  | parentSet x parent hlive hparent hok =>
      intro id te' hte hv
      simp only [setParent]
      split
      · rename_i hxy
        cases parent with
        | none => rfl
        | some p =>
            have hid := hsound.mapped id te' hte (hsound.bound id te' hte hv)
            have hshown : s.toplevel id = some te' := hte
            rw [keepsPlace, ← hxy, hid, Option.bind_some, shownIn, hshown, Option.bind_some,
              Option.isNone_iff_eq_none] at hok
            rw [hok] at hv
            cases hv
      · exact hbefore id te' hte hv
  | _ => exact hkept fun _ => Or.inl rfl

theorem run_rooted (w : World) (depth : Nat) (es : List Event)
    (h : Runs.Meets (step w depth) (fun s e => keepsPlace s e = true) {} es) :
    Paired (run w depth es) ∧ Sound (run w depth es) ∧ Rooted (run w depth es) := by
  refine run_keeps (P := fun s => Sound s ∧ Rooted s) (fun _ h ha => ⟨h.1.act ha, h.2.act h.1 ha⟩)
    ⟨.empty, ?_⟩ h
  intro id te hte
  simp [State.toplevel] at hte

/-- While no client gives a parent to a toplevel that is shown, a toplevel is shown in one place. -/
theorem run_one_place (w : World) (depth : Nat) (es : List Event)
    (h : Runs.Meets (step w depth) (fun s e => keepsPlace s e = true) {} es) (v v' : ViewId) (hne : v ≠ v') (x : WlSurface)
    (hx : x ∈ (run w depth es).viewTrees v) : x ∉ (run w depth es).viewTrees v' := by
  obtain ⟨hp, hsound, hr⟩ := run_rooted w depth es h
  exact fun hx' => hne (tree_unique hsound hr hp hx hx')

/-- Two toplevels in views of their own, and a dialog of the first. -/
def twoViews : List Event :=
  [.newToplevel 10, .newToplevel 11, .newToplevel 12, .setParent 12 (some 10), .commit { main := { surface := 10 } },
    .commit { main := { surface := 11 } }, .commit { main := { surface := 12 } },
    .cmd (.viewCreated { uid := 0, id := 1 }), .cmd (.viewCreated { uid := 1, id := 2 })]

theorem run_one_place_twoViews : 12 ∉ (run World.granting 1 twoViews).viewTrees 2 :=
  run_one_place World.granting 1 twoViews (by decide +kernel) 1 2 (by decide) 12 (by decide +kernel)

/-- The second toplevel is given the first as its parent: both views show it. -/
theorem not_one_place : ¬∀ (w : World) (depth : Nat) (es : List Event) (v v' : ViewId), v ≠ v' →
    ∀ x, x ∈ (run w depth es).viewTrees v → x ∉ (run w depth es).viewTrees v' := by
  intro h
  exact h World.granting 1 (twoViews ++ [.setParent 11 (some 10)]) 1 2 (by decide) 11
    (by decide +kernel) (by decide +kernel)

/-! ## Routing and scenes -/

/-- A surface is routed to the view that shows the toplevel it is rooted at. -/
theorem boundViewOf_iff (hsound : Sound s) (hr : Rooted s) (hp : Paired s) {x : WlSurface} {v : ViewId} :
    s.boundViewOf x = some v ↔ s.viewRoot v = some (s.windowRoot x) := by
  constructor
  · intro h
    obtain ⟨te, hte, hview⟩ := Option.bind_eq_some_iff.mp h
    obtain ⟨id, hid, hte⟩ := Option.bind_eq_some_iff.mp hte
    have hshows : s.shows v = some id := (hp v id).mpr (by rw [shownIn, hte]; exact hview)
    change Option.map _ ((s.shows v).bind s.toplevel) = _
    rw [hshows, Option.bind_some, hte, Option.map_some, hsound.own _ id te hid hte]
  · intro h
    obtain ⟨id, te, hte, -, hview, hid, -⟩ := viewRoot_spec hsound hr hp h
    rw [boundViewOf, hid, Option.bind_some, hte, Option.bind_some, hview]

theorem mem_viewWindows (hsound : Sound s) {x : WlSurface} {v : ViewId} : x ∈ s.viewWindows v ↔
    ∃ root, s.viewRoot v = some root ∧ OnePass.Reached s.windowAbove s.age root (s.dialogs root) x := by
  unfold viewWindows
  cases hroot : s.viewRoot v with
  | none => simp
  | some root =>
      simp only [Option.some.injEq, exists_eq_left', hsound.windowsOver]
      exact OnePass.mem_pass (hsound.dialogs_sorted root)

/-- What is shown in a view is routed to it. -/
theorem boundViewOf_of_mem (hsound : Sound s) (hr : Rooted s) (hp : Paired s) {x : WlSurface} {v : ViewId}
    (hx : x ∈ s.viewWindows v) : s.boundViewOf x = some v := by
  rw [boundViewOf_iff hsound hr hp]
  obtain ⟨root, hroot, hx⟩ := exists_viewRoot hx
  rw [windowRoot_of_mem hsound hr hp hroot hx]
  exact hroot

theorem viewWindows_nodup (hsound : Sound s) (hr : Rooted s) (hp : Paired s) (v : ViewId) :
    (s.viewWindows v).Nodup := by
  unfold viewWindows
  cases hroot : s.viewRoot v with
  | none => simp
  | some root =>
      simp only [hsound.windowsOver]
      refine OnePass.nodup_pass (fun hmem => ?_) ((hsound.dialogs_sorted root).imp fun hlt he => ?_)
      · obtain ⟨-, te, -, hd, hsurface⟩ := mem_dialogs.mp hmem
        obtain ⟨-, -, -, -, -, -, hparent, -⟩ := viewRoot_spec hsound hr hp hroot
        simp [isDialog, hsurface, hparent] at hd
      · exact absurd hlt (he ▸ Nat.lt_irrefl _)

/-- A surface is in a tree of the toplevel it belongs to, or of one of its popups. -/
theorem mem_tree_rootOf (x : WlSurface) : x ∈ s.tree (s.rootOf x) := by
  unfold tree
  by_cases hx : x = s.rootOf x
  · rw [← hx]; exact List.mem_cons_self
  · refine List.mem_cons_of_mem _ (List.mem_filter.mpr ⟨?_, by simpa using hx⟩)
    cases hp : s.subParent x with
    | none => exact absurd (Climb.climb_top hp _).symm hx
    | some p => exact List.mem_map.mpr ⟨(x, p), mem_of_subParent hp, rfl⟩

theorem rootOf_mem_viewTrees {x : WlSurface} {v : ViewId} (h : s.toplevelOf x ∈ s.viewWindows v) :
    s.rootOf x ∈ s.viewTrees v := by
  rw [mem_viewTrees]
  unfold toplevelOf at h
  dsimp only at h
  split at h
  · split at h
    · rename_i p hp
      have hmem := List.mem_of_find?_eq_some hp
      have hsurface : p.surface = s.rootOf x := by simpa using List.find?_some hp
      exact Or.inr ⟨p, hmem, hsurface, h⟩
    · exact Or.inl h
  · exact Or.inl h

/-- What was taken from a tree is not there any more. -/
theorem takeTrees_taken {roots : List WlSurface} {root x : WlSurface} (hroot : root ∈ roots)
    (hx : x ∈ s.tree root) :
    ((s.takeTrees roots).2.contents x).barrier = none ∧ ((s.takeTrees roots).2.contents x).feedback = [] := by
  have hkept : ∀ (roots : List WlSurface) (taken : Taken × State),
      (taken.2.contents x).barrier = none ∧ (taken.2.contents x).feedback = [] →
      ((roots.foldl takeTree taken).2.contents x).barrier = none ∧
        ((roots.foldl takeTree taken).2.contents x).feedback = [] := by
    intro roots
    induction roots with
    | nil => exact fun _ h => h
    | cons r roots ih =>
        intro taken h
        apply ih
        simp only [takeTree, visitTree]
        split
        · exact ⟨rfl, rfl⟩
        · exact h
  have hall : ∀ (roots : List WlSurface) (taken : Taken × State), root ∈ roots → x ∈ taken.2.tree root →
      ((roots.foldl takeTree taken).2.contents x).barrier = none ∧
        ((roots.foldl takeTree taken).2.contents x).feedback = [] := by
    intro roots
    induction roots with
    | nil => exact fun _ h => absurd h List.not_mem_nil
    | cons r roots ih =>
        intro taken hmem htree
        rcases List.mem_cons.mp hmem with rfl | hmem
        · refine hkept roots (takeTree taken root) ?_
          simp only [takeTree, visitTree, if_pos htree, and_self]
        · exact ih _ hmem htree
  exact hall roots ({}, s) hroot hx

/-! ## When they agree -/

/-- `x` is a mapped toplevel, and so is all it is shown over. -/
def Standing (s : State) (x : WlSurface) : Prop :=
  ∀ y ∈ Climb.path s.windowAbove maxDepth x, ((s.idOf y).bind s.toplevel).any ToplevelEntry.mapped = true

/-- If the top of `x`'s chain of parents is shown, a parent with a parent of its own is older than the
dialog over it. -/
def Aged (s : State) (x : WlSurface) : Prop :=
  (∃ v, s.viewRoot v = some (Climb.climb s.windowAbove maxDepth x)) →
    ∀ y ∈ Climb.path s.windowAbove maxDepth x, ∀ p, s.windowAbove y = some p →
      (s.windowAbove p).isSome = true → s.age p < s.age y

/-- Routing and scenes agree on the toplevel `x`. -/
structure Routed (s : State) (x : WlSurface) : Prop where
  agrees : ∀ v, s.boundViewOf x = some v ↔ x ∈ s.viewWindows v
  once : ∀ v, x ∈ s.viewWindows v → (s.viewWindows v).count x = 1
  parentFirst : ∀ v p, x ∈ s.viewWindows v → s.windowAbove x = some p →
    ∃ l₁ l₂, s.viewWindows v = l₁ ++ x :: l₂ ∧ p ∈ l₁
  taken : ∀ v y, s.toplevelOf y = x → s.boundViewOf y = some v →
    ((s.takeTrees (s.viewTrees v)).2.contents y).barrier = none ∧
      ((s.takeTrees (s.viewTrees v)).2.contents y).feedback = []

/-- A toplevel on the way up is a dialog of the top. -/
theorem mem_dialogs_of_path (hsound : Sound s) {x y : WlSurface} (hstanding : Standing s x)
    (htop : s.windowAbove (Climb.climb s.windowAbove maxDepth x) = none)
    (hy : y ∈ Climb.path s.windowAbove maxDepth x) (hne : y ≠ Climb.climb s.windowAbove maxDepth x) :
    y ∈ s.dialogs (Climb.climb s.windowAbove maxDepth x) := by
  obtain ⟨te, hte, hm⟩ := (Option.any_eq_true _ _).mp (hstanding y hy)
  obtain ⟨id, hid, hte⟩ := Option.bind_eq_some_iff.mp hte
  have hsurface := hsound.own y id te hid hte
  have hclimb := Climb.climb_of_mem_path htop hy (Nat.le_refl _)
  refine mem_dialogs.mpr ⟨id, te, hte, ?_, hsurface⟩
  have hparent : (s.surfaces y).parent.isSome = true := by
    cases hpar : (s.surfaces y).parent with
    | some p => rfl
    | none =>
        have habove : s.windowAbove y = none := by
          rw [← hsurface, hsound.windowAbove hte hm, hsurface, hpar]
          rfl
        rw [Climb.climb_top habove] at hclimb
        exact absurd hclimb hne
  have hroot : s.windowRoot y = Climb.climb s.windowAbove maxDepth x := by
    rw [windowRoot, hsound.toplevelOf_window (hsurface ▸ hsound.windows id te hte), hclimb]
  simp only [isDialog, hsurface, hm, hparent, hroot, beq_self_eq_true, Bool.and_self]

/-- A toplevel routed to a view is one of its windows exactly when its chain of parents is aged: the one
pass of `view_windows` relies on it. -/
theorem routed_iff_aged (s : State) (hsound : Sound s) (hp : Paired s) (hr : Rooted s) (x : WlSurface)
    (hstanding : Standing s x) (hdepth : s.windowAbove (Climb.climb s.windowAbove maxDepth x) = none) :
    Routed s x ↔ Aged s x := by
  have hself : s.toplevelOf x = x := by
    obtain ⟨te, hte, -⟩ := (Option.any_eq_true _ _).mp (hstanding x (Climb.self_mem_path _ _ x))
    obtain ⟨id, hid, hte⟩ := Option.bind_eq_some_iff.mp hte
    exact hsound.toplevelOf_window (hsound.own x id te hid hte ▸ hsound.windows id te hte)
  have hroot : s.windowRoot x = Climb.climb s.windowAbove maxDepth x := by rw [windowRoot, hself]
  constructor
  · rintro h ⟨v, hv⟩
    have hmem := (h.agrees v).mp ((boundViewOf_iff hsound hr hp).mpr (hroot ▸ hv))
    obtain ⟨root, hroot', hreached⟩ := (mem_viewWindows hsound).mp hmem
    cases hroot'.symm.trans hv
    exact hreached.ordered hdepth maxDepth
  · intro haged
    have hagrees : ∀ v, s.boundViewOf x = some v ↔ x ∈ s.viewWindows v := by
      refine fun v => ⟨fun hv => ?_, boundViewOf_of_mem hsound hr hp⟩
      have hshown := (boundViewOf_iff hsound hr hp).mp hv
      rw [hroot] at hshown
      refine (mem_viewWindows hsound).mpr ⟨_, hshown, ?_⟩
      exact OnePass.reached_of_ordered hdepth rfl (fun y => mem_dialogs_of_path hsound hstanding hdepth)
        (haged ⟨v, hshown⟩)
    refine ⟨hagrees, fun v hx => ?_, fun v p hx hup => ?_, fun v y hy hv => ?_⟩
    · exact List.count_eq_one_of_mem (viewWindows_nodup hsound hr hp v) hx
    · obtain ⟨root, hshown, -⟩ := (mem_viewWindows hsound).mp hx
      have hne : x ≠ root := by
        rintro rfl
        rw [windowAbove_root hsound hr hp hshown] at hup
        cases hup
      rw [viewWindows_eq hshown, hsound.windowsOver] at hx ⊢
      obtain ⟨p', l₁, l₂, hup', hl, hmem⟩ := OnePass.parent_first hx hne
      cases hup.symm.trans hup'
      exact ⟨l₁, l₂, hl, hmem⟩
    · have hbound : s.boundViewOf x = some v := by
        rw [← hv, boundViewOf, boundViewOf, windowRoot, windowRoot, hself, hy]
      have hmem : s.toplevelOf y ∈ s.viewWindows v := hy ▸ (hagrees v).mp hbound
      exact takeTrees_taken (rootOf_mem_viewTrees hmem) (mem_tree_rootOf y)

/-- Three toplevels map, each given its parent before, and a view opens. -/
def nestedRun (parents : List (WlSurface × WlSurface)) : List Event :=
  [.newToplevel 10, .newToplevel 11, .newToplevel 12] ++ parents.map (fun p => .setParent p.1 (some p.2)) ++
    [.commit { main := { surface := 10 } }, .commit { main := { surface := 11 } },
      .commit { main := { surface := 12 } }, .cmd (.viewCreated { uid := 0, id := 1 })]

/-- A dialog of a dialog, each made after its parent. -/
theorem routed_nested : Routed (run World.granting 1 (nestedRun [(11, 10), (12, 11)])) 12 := by
  obtain ⟨hp, hsound, hr⟩ := run_rooted World.granting 1 (nestedRun [(11, 10), (12, 11)]) (by decide +kernel)
  have hstanding : Standing (run World.granting 1 (nestedRun [(11, 10), (12, 11)])) 12 := by
    unfold Standing
    decide +kernel
  refine (routed_iff_aged _ hsound hp hr 12 hstanding (by decide +kernel)).mpr fun _ => ?_
  decide +kernel

/-- The first toplevel made is a dialog of the second, that one of the third. A commit of the first is
routed to the view, and the view does not show it. -/
theorem not_routed : ¬∀ (s : State) (x : WlSurface), Sound s → Paired s → Rooted s → Standing s x →
    s.windowAbove (Climb.climb s.windowAbove maxDepth x) = none → Routed s x := by
  intro h
  obtain ⟨hp, hsound, hr⟩ := run_rooted World.granting 1 (nestedRun [(10, 11), (11, 12)]) (by decide +kernel)
  have hstanding : Standing (run World.granting 1 (nestedRun [(10, 11), (11, 12)])) 10 := by
    unfold Standing
    decide +kernel
  have hrouted := h _ 10 hsound hp hr hstanding (by decide +kernel)
  have hmem := (hrouted.agrees 1).mp (by decide +kernel)
  revert hmem
  decide +kernel

end IhsWl
