import AnchorLayout.Proofs.Layout.Storing
/-!
# What a move does

  A view that is put under another one leaves one list of children and comes last in another; its two
  parents are the new ones, and the anchors of its rules follow.  Nothing else moves.

  1. **Program** — `Session.setParent` with a parent, after any acts on a new session.
  2. **Specification** — `View.moved`: every view after the move, and so in it every place, every rule
     and everything else; `ConstraintStore.Changes`: a renaming finds an anchor to rename.
  3. **Steps** — `get?_moved` for the views, `mem_dirty_moved` for the marks, and `SameApart` for what
     a move does not touch.
  4. **The crux (`setParent_of_acts`)** — that the target is below the view is found out by climbing
     from the target, and only a forest lets the climb say what is below the view.
-/

namespace AnchorLayout

open Operation

/-! ## Specification -/

/-- **A renaming changes** some of the rules: it finds an anchor in a value to rename. -/
def ConstraintStore.Changes (rules : ConstraintStore) (rename : Anchor → Anchor) : Prop :=
  ∃ c ∈ rules.rules, ∃ a ∈ c.value.anchors, rename a ≠ a

/-- The place of a view after a child has gone from one list of children to the end of another. -/
def Hierarchy.moved (h : Hierarchy) (u child p target : ViewId) (old : Option ViewId) :
    Hierarchy where
  parent := if child = u then some p else h.parent
  structuralParent := if child = u then some target else h.structuralParent
  children :=
    if target = u then h.children.filter (· ≠ child) ++ [child]
    else if old = some u then h.children.filter (· ≠ child)
    else h.children
  container := h.container
  isChrome := h.isChrome

/-- The rules of a view after a child has left one place for another: the anchors of the child go
from what it was rendered under to its parent there, and then from its new parent to what it is
rendered under now. -/
def ConstraintStore.moved (rules : ConstraintStore) (u child p target : ViewId)
    (before : Hierarchy) : ConstraintStore :=
  if child = u then
    (rules.mapAnchors (Anchor.between before.structuralParent before.parent)).mapAnchors
      (Anchor.between (some p) (some target))
  else rules

/-- **Anchors follow** a child from one place to another: one of the two renamings changes the rules
that it finds. -/
def ConstraintStore.Follows (rules : ConstraintStore) (p target : ViewId) (before : Hierarchy) :
    Prop :=
  rules.Changes (Anchor.between before.structuralParent before.parent) ∨
    (rules.mapAnchors (Anchor.between before.structuralParent before.parent)).Changes
      (Anchor.between (some p) (some target))

/-- **A view after a move** of a child that was in the given place before. -/
def View.moved (view : View) (u child p target : ViewId) (before : Hierarchy) : View :=
  { view with
    hierarchy := view.hierarchy.moved u child p target before.structuralParent
    constraints := view.constraints.moved u child p target before }

/-! ## Anchors that are renamed -/

/-- A renaming leaves an anchor as it is if it has nowhere else to go, or the anchor is on another
view. -/
theorem Anchor.rename_eq_self_iff {u v : ViewId} {a : Anchor} :
    a.rename u v = a ↔ u = v ∨ a.view ≠ u := by
  constructor
  · intro h
    by_contra hne
    rw [not_or, not_not] at hne
    exact view_rename_ne hne.1 a (h.symm ▸ hne.2)
  · rintro (rfl | h)
    · exact rename_self u a
    · exact rename_of_ne h

/-- Between two views a renaming changes the rules that mention the first, unless they are one. -/
theorem ConstraintStore.changes_rename_iff {rules : ConstraintStore} {u v : ViewId} :
    rules.Changes (Anchor.rename u v) ↔ u ≠ v ∧ rules.mentions u = true := by
  simp only [Changes, mentions_iff, ne_eq, Anchor.rename_eq_self_iff, not_or, not_not]
  constructor
  · rintro ⟨c, hc, a, ha, hne, hview⟩
    exact ⟨hne, c, hc, a, ha, hview⟩
  · rintro ⟨hne, c, hc, a, ha, hview⟩
    exact ⟨c, hc, a, ha, hne, hview⟩

theorem ConstraintStore.not_changes_id (rules : ConstraintStore) : ¬ rules.Changes id :=
  fun ⟨_, _, _, _, hne⟩ => hne rfl

namespace Session

variable {s s' : Session} {u v p child target : ViewId}

/-! ## Apart from the views -/

/-- **The same apart from the views**: these are the same ones in the same order, whatever they have
become, and whatever is dirty. -/
structure SameApart (s s' : Session) : Prop where
  keys : s'.views.keys = s.views.keys
  rest : s' = { s with views := s'.views, dirty := s'.dirty }

theorem SameApart.refl (s : Session) : SameApart s s := ⟨rfl, rfl⟩

/-- Steps that touch nothing but views can be put together. -/
theorem SameApart.trans {s₁ s₂ s₃ : Session} (h : SameApart s₁ s₂) (h' : SameApart s₂ s₃) :
    SameApart s₁ s₃ := by
  refine ⟨h'.keys.trans h.keys, h'.rest.trans ?_⟩
  exact congrArg (fun s => { s with views := s₃.views, dirty := s₃.dirty }) h.rest

theorem sameApart_modifyView (s : Session) (v : ViewId) (f : View → View) :
    SameApart s (s.modifyView v f) := ⟨OrderedMap.keys_modify s.views v f, rfl⟩

theorem sameApart_markDirty (s : Session) (v : ViewId) : SameApart s (s.markDirty v) := ⟨rfl, rfl⟩

theorem sameApart_detach (s : Session) (child : ViewId) : SameApart s (s.detach child) := by
  unfold detach
  split
  · exact SameApart.refl s
  · exact (sameApart_modifyView _ _ _).trans
      ((sameApart_modifyView _ _ _).trans (sameApart_markDirty _ _))

theorem sameApart_attach (s : Session) (child target p : ViewId) :
    SameApart s (s.attach child target p) :=
  (sameApart_modifyView _ _ _).trans ((sameApart_markDirty _ _).trans (sameApart_modifyView _ _ _))

theorem sameApart_rebaseBetween (s : Session) (v : ViewId) (a b : Option ViewId) :
    SameApart s (s.rebaseBetween v a b) := by
  rcases rebaseBetween_cases s v a b with h | ⟨h, -⟩
  · rw [h]
    exact (sameApart_modifyView _ _ _).trans (sameApart_markDirty _ _)
  · rw [h]
    exact SameApart.refl s

/-- **A move touches views and marks**, and nothing else of the session. -/
theorem sameApart_moved (s : Session) (child target p : ViewId) (before : Hierarchy) :
    SameApart s (((s.detach child).attach child target p).settled child before (some p)
      (some target)) :=
  (sameApart_detach s child).trans ((sameApart_attach _ child target p).trans
    ((sameApart_rebaseBetween _ child _ _).trans (sameApart_rebaseBetween _ child _ _)))

/-! ## Views -/

/-- A view whose place is changed, among all views. -/
theorem get?_reshaped (s : Session) (v u : ViewId) (f : Hierarchy → Hierarchy) :
    (s.modifyView v fun view => view.updateHierarchy f).views.get? u =
      (s.views.get? u).map fun view => view.updateHierarchy fun h => if v = u then f h else h := by
  rw [get?_modifyView]
  split
  · rfl
  · exact Option.map_id'.symm

/-- Every view once the child has been taken out: the old parent has one child less. -/
theorem get?_detach (h : s.Climb child v) (u : ViewId) :
    (s.detach child).views.get? u = (s.views.get? u).map fun view => view.updateHierarchy fun h =>
      let h := if v = u then h.without child else h
      if child = u then h.unlinked else h := by
  rw [detach_of_climb h]
  show ((s.modifyView v _).modifyView child _).views.get? u = _
  rw [get?_reshaped, get?_reshaped, Option.map_map]
  rfl

/-- Every view once the child has been put under its new parent. -/
theorem get?_attach (s : Session) (child target p u : ViewId) :
    (s.attach child target p).views.get? u =
      (s.views.get? u).map fun view => view.updateHierarchy fun h =>
        let h := if target = u then h.holding child else h
        if child = u then h.linked p target else h := by
  show (((s.modifyView target _).markDirty target).modifyView child _).views.get? u = _
  rw [get?_reshaped]
  show ((s.modifyView target _).views.get? u).map _ = _
  rw [get?_reshaped, Option.map_map]
  rfl

/-- The place of a view, taken out of one list if it was the old parent, put at the end of another if
it is the target, and linked if it is the child: that is its place after the move, where nothing but
the old parent had the child in its list. -/
theorem moved_eq {h : Hierarchy} {old : Option ViewId} (p target : ViewId)
    (fresh : old ≠ some u → child ∉ h.children) :
    h.moved u child p target old =
      let h := if old = some u then h.without child else h
      let h := if target = u then h.holding child else h
      if child = u then h.linked p target else h := by
  by_cases hold : old = some u
  · by_cases ht : target = u <;> by_cases hc : child = u <;>
      simp [Hierarchy.moved, hold, ht, hc, Hierarchy.without, Hierarchy.holding, Hierarchy.linked]
  · have hkept : h.children.filter (· ≠ child) = h.children :=
      List.filter_eq_self.2 fun c hc => decide_eq_true fun heq => fresh hold (heq ▸ hc)
    rw [Hierarchy.moved, hkept]
    by_cases ht : target = u <;> by_cases hc : child = u <;>
      simp [hold, ht, hc, Hierarchy.holding, Hierarchy.linked]

/-- **Every view after a move.** -/
theorem Forest.get?_moved (f : s.Forest) {found : View} (hfound : s.views.get? child = some found)
    (p target u : ViewId) :
    (((s.detach child).attach child target p).settled child found.hierarchy (some p)
      (some target)).views.get? u =
        (s.views.get? u).map fun view => View.moved view u child p target found.hierarchy := by
  have hplace : s.structuralParent? child = found.hierarchy.structuralParent := by
    rw [structuralParent?, hfound]
    rfl
  -- only the old parent has the child in its list
  have hfresh {view : View} (hu : s.views.get? u = some view)
      (hne : found.hierarchy.structuralParent ≠ some u) : child ∉ view.hierarchy.children := by
    intro hc
    have hmem : child ∈ s.childrenOf u := by
      rw [childrenOf, hu]
      exact hc
    exact hne (hplace ▸ f.climb_of_mem hmem)
  have hattach : ((s.detach child).attach child target p).views.get? u =
      (s.views.get? u).map fun view => view.updateHierarchy fun h =>
        h.moved u child p target found.hierarchy.structuralParent := by
    have hmoved {view : View} (hu : s.views.get? u = some view) :=
      (moved_eq p target (hfresh hu)).symm
    rw [get?_attach]
    cases hold : s.structuralParent? child with
    | none =>
      rw [detach_of_none hold]
      refine Option.map_congr fun view hu => congrArg (fun h => { view with hierarchy := h }) ?_
      have hnone := hmoved hu
      rw [← hplace, hold] at hnone ⊢
      exact hnone
    | some old =>
      rw [get?_detach hold, Option.map_map]
      refine Option.map_congr fun view hu => congrArg (fun h => { view with hierarchy := h }) ?_
      have hsome := hmoved hu
      rw [← hplace, hold] at hsome ⊢
      -- the links that were cut are made anew
      refine Eq.trans ?_ hsome
      by_cases ht : target = u <;> by_cases hc : child = u <;> by_cases ho : old = u <;>
        simp [ViewOf.updateHierarchy, ht, hc, ho, Hierarchy.without, Hierarchy.holding,
          Hierarchy.linked, Hierarchy.unlinked]
  rw [get?_settled, hattach]
  by_cases hc : child = u
  · rw [if_pos hc, Option.map_map]
    simp only [View.moved, ConstraintStore.moved, if_pos hc]
    rfl
  · rw [if_neg hc]
    simp only [View.moved, ConstraintStore.moved, if_neg hc]
    rfl

/-! ## Marks -/

/-- The view is marked by a renaming that changes its rules. -/
theorem mem_dirty_rebaseBetween {view : View} (hv : s.views.get? v = some view)
    (source target : Option ViewId) : u ∈ (s.rebaseBetween v source target).dirty.toList ↔
      u ∈ s.dirty.toList ∨ (u = v ∧ view.constraints.Changes (Anchor.between source target)) := by
  have hunchanged (h : s.rebaseBetween v source target = s)
      (hnot : ¬ view.constraints.Changes (Anchor.between source target)) :
      u ∈ (s.rebaseBetween v source target).dirty.toList ↔ u ∈ s.dirty.toList ∨
        (u = v ∧ view.constraints.Changes (Anchor.between source target)) := by
    rw [h]
    exact ⟨Or.inl, fun hu => hu.resolve_right fun hchanges => hnot hchanges.2⟩
  cases source with
  | none => exact hunchanged rfl view.constraints.not_changes_id
  | some a =>
    cases target with
    | none => exact hunchanged rfl view.constraints.not_changes_id
    | some b =>
      have hiff : view.constraints.Changes (Anchor.between (some a) (some b)) ↔
          a ≠ b ∧ view.constraints.mentions a = true := ConstraintStore.changes_rename_iff
      by_cases hab : a = b
      · exact hunchanged (if_neg (not_not_intro hab)) fun h => (hiff.1 h).1 hab
      · have hrebase : s.rebaseBetween v (some a) (some b) = s.rebaseAnchors v a b := if_pos hab
        -- the program marks the view where its rules mention the first of two views that differ
        by_cases hm : view.constraints.mentions a = true
        · have hmarked : u ∈ (s.rebaseBetween v (some a) (some b)).dirty.toList ↔
              u = v ∨ u ∈ s.dirty.toList := by
            rw [hrebase, rebaseAnchors, hv]
            simp only [if_pos hm]
            exact ViewSet.mem_insert
          rw [hmarked, hiff, or_comm]
          exact or_congr_right ⟨fun h => ⟨h, hab, hm⟩, fun h => h.1⟩
        · refine hunchanged ?_ fun h => hm (hiff.1 h).2
          rw [hrebase, rebaseAnchors, hv]
          exact if_neg hm

/-- The old parent is marked, if there was one. -/
theorem mem_dirty_detach (s : Session) (child : ViewId) : u ∈ (s.detach child).dirty.toList ↔
    u ∈ s.dirty.toList ∨ s.structuralParent? child = some u := by
  cases h : s.structuralParent? child with
  | none => simp [detach_of_none h]
  | some old =>
    rw [detach_of_climb h]
    refine ViewSet.mem_insert.trans (or_comm.trans (or_congr_right ?_))
    rw [Option.some.injEq, eq_comm]

/-- **What is dirty after a move**: the list that the child has left, the one that it has come to,
and the child itself if its anchors had to follow. -/
theorem mem_dirty_moved {found : View} (hfound : s.views.get? child = some found)
    (p target : ViewId) :
    u ∈ (((s.detach child).attach child target p).settled child found.hierarchy (some p)
      (some target)).dirty.toList ↔
        u ∈ s.dirty.toList ∨ found.hierarchy.structuralParent = some u ∨ u = target ∨
          (u = child ∧ found.constraints.Follows p target found.hierarchy) := by
  have hplace : s.structuralParent? child = found.hierarchy.structuralParent := by
    rw [structuralParent?, hfound]
    rfl
  have hrules : (((s.detach child).attach child target p).views.get? child).map
      (fun view => view.constraints) = some found.constraints := by
    rw [get?_attach, Option.map_map]
    refine (map_get?_detach (fun _ _ => rfl) s child child).trans ?_
    rw [hfound]
    rfl
  obtain ⟨view, hview, hsame⟩ := Option.map_eq_some_iff.1 hrules
  have hrebased := get?_rebaseBetween ((s.detach child).attach child target p) child
    found.hierarchy.structuralParent found.hierarchy.parent child
  rw [if_pos rfl, hview, Option.map_some] at hrebased
  have hattach : u ∈ ((s.detach child).attach child target p).dirty.toList ↔
      u = target ∨ u ∈ (s.detach child).dirty.toList := ViewSet.mem_insert
  rw [settled, mem_dirty_rebaseBetween hrebased, mem_dirty_rebaseBetween hview, hattach,
    mem_dirty_detach, hplace, ConstraintStore.Follows, ← hsame]
  show _ ∨ (u = child ∧ ConstraintStore.Changes (view.constraints.mapAnchors _) _) ↔ _
  tauto

/-! ## Moves -/

/-- A view can be rendered under another one if that is neither itself nor below it. -/
theorem Forest.isAncestorOrSelf_eq_false_iff (f : s.Forest) :
    s.isAncestorOrSelf child target = false ↔ target ≠ child ∧ ¬ s.Under target child := by
  rw [← Bool.not_eq_true, isAncestorOrSelf_iff f.acyclic, ← not_or]
  refine not_congr ⟨fun h => ?_, ?_⟩
  · exact h.eq_or_under.imp_left Eq.symm
  · rintro (rfl | h)
    · exact below_refl s target
    · exact h.below

/-- Placement is read off the places of the child and the parent. -/
theorem placement?_eq_ok_iff_hierarchyOf : s.placement? child p = .ok target ↔
    ∃ home outer, s.hierarchyOf child = .ok home ∧ s.hierarchyOf p = .ok outer ∧
      outer.landing child home.isChrome p = target := by
  simp only [placement?_eq_ok_iff, hierarchyOf_eq_ok_iff, home?, Option.map_eq_some_iff]
  constructor
  · rintro ⟨_, _, ⟨home, hhome, rfl⟩, ⟨outer, houter, rfl⟩, ht⟩
    exact ⟨home, outer, hhome, houter, ht⟩
  · rintro ⟨home, outer, hhome, houter, ht⟩
    exact ⟨home.home, outer.home, ⟨home, hhome, rfl⟩, ⟨outer, houter, rfl⟩, ht⟩

/-- **What a move does**, after any acts on a new session.  It succeeds exactly when the view and its
new parent are registered and so is the place where it lands: in the container of the parent if there
is one, the view is not chrome and it is not that container itself, and under the parent otherwise;
and when this place is neither the view nor below it.  Then the place, the rules and the marks of
every view are what they have to be, and nothing else has changed. -/
theorem setParent_of_acts (options : Options) (issuer : Issuer) (acts : List Act)
    (few : 1 + (Session.new options issuer).creations acts < UInt32.size - 1) (child p : ViewId) :
    let s := (Session.new options issuer).afterActs acts
    ((∃ s', setParent child (some p) s = .ok () s') ↔
      ∃ home outer, s.hierarchyOf child = .ok home ∧ s.hierarchyOf p = .ok outer ∧
        s.contains (outer.landing child home.isChrome p) = true ∧
        outer.landing child home.isChrome p ≠ child ∧
        ¬ s.Under (outer.landing child home.isChrome p) child) ∧
    ∀ s', setParent child (some p) s = .ok () s' →
      ∃ found outer, s.views.get? child = some found ∧ s.hierarchyOf p = .ok outer ∧
        let target := outer.landing child found.hierarchy.isChrome p
        (∀ u, s'.views.get? u = (s.views.get? u).map fun view =>
          View.moved view u child p target found.hierarchy) ∧
        (∀ u, u ∈ s'.dirty.toList ↔ u ∈ s.dirty.toList ∨
          found.hierarchy.structuralParent = some u ∨ u = target ∨
            (u = child ∧ found.constraints.Follows p target found.hierarchy)) ∧
        s'.views.keys = s.views.keys ∧ s' = { s with views := s'.views, dirty := s'.dirty } := by
  intro s
  have f : s.Forest := (forest_new options issuer).afterActs (lasts_new options issuer few)
  refine ⟨⟨?_, ?_⟩, ?_⟩
  · rintro ⟨s', hok⟩
    obtain ⟨-, target, -, hplaced, hapart, hknown, -⟩ := setParent_some_eq_ok hok
    obtain ⟨home, outer, hhome, houter, rfl⟩ := placement?_eq_ok_iff_hierarchyOf.1 hplaced
    exact ⟨home, outer, hhome, houter, hknown, f.isAncestorOrSelf_eq_false_iff.1 hapart⟩
  · rintro ⟨home, outer, hhome, houter, hknown, hapart⟩
    have hplaced := placement?_eq_ok_iff_hierarchyOf.2 ⟨home, outer, hhome, houter, rfl⟩
    obtain ⟨s', hok, -⟩ :=
      setParent_of_placed hplaced hknown (f.isAncestorOrSelf_eq_false_iff.2 hapart)
    exact ⟨s', hok⟩
  · intro s' hok
    obtain ⟨found, target, hfound, hplaced, -, -, rfl⟩ := setParent_some_eq_ok hok
    obtain ⟨home, outer, hhome, houter, rfl⟩ := placement?_eq_ok_iff_hierarchyOf.1 hplaced
    obtain rfl : home = found.hierarchy := by
      rw [hierarchyOf_eq_ok_iff, place?, hfound] at hhome
      exact (Option.some.inj hhome).symm
    have hapart := sameApart_moved s child (outer.landing child found.hierarchy.isChrome p) p
      found.hierarchy
    exact ⟨found, outer, hfound, houter, f.get?_moved hfound p _,
      fun u => mem_dirty_moved hfound p _, hapart.keys, hapart.rest⟩

/-- A view with a container and a child in it, which has a rule on either of two views; the other
one has a container too. -/
def twoContainers : List Call :=
  [.request 1 (.createChild ⟨1⟩), .request 1 (.create "div"),
    .request 1 (.setContainer ⟨2⟩ (some ⟨3⟩)), .request 1 (.createChild ⟨2⟩),
    .request 1 (.createChild ⟨1⟩), .request 1 (.create "div"),
    .request 1 (.setContainer ⟨5⟩ (some ⟨6⟩)), .request 1 (.createChild ⟨5⟩),
    .request 1 (.set ⟨4⟩ .left (.value (.anchor ⟨⟨2⟩, .left⟩))),
    .request 1 (.set ⟨4⟩ .top (.value (.anchor ⟨⟨5⟩, .top⟩))), .request 1 .renderUpdates]

/-- The child goes from one container to the other: the two containers are dirty, and so is the
child, whose rule now names the new one. -/
theorem setParent_of_twoContainers :
    let s := (Session.new .default "").afterActs ((Session.new .default "").unfolded twoContainers)
    ∃ s', setParent ⟨4⟩ (some ⟨5⟩) s = .ok () s' ∧
      s'.place? ⟨3⟩ = some ⟨some ⟨2⟩, some ⟨2⟩, [], none, true⟩ ∧
      s'.place? ⟨6⟩ = some ⟨some ⟨5⟩, some ⟨5⟩, [⟨7⟩, ⟨4⟩], none, true⟩ ∧
      s'.place? ⟨4⟩ = some ⟨some ⟨5⟩, some ⟨6⟩, [], none, false⟩ ∧
      (s'.views.get? ⟨4⟩).map (fun view => view.constraints.text) =
        some "left=id2.left;top=id6.top" ∧
      ∀ u, u ∈ s'.dirty.toList ↔ u ∈ ([⟨3⟩, ⟨4⟩, ⟨6⟩] : List ViewId) := by
  intro s
  have few : 1 + (Session.new .default "").creations
      ((Session.new .default "").unfolded twoContainers) < UInt32.size - 1 := by decide +kernel
  have hchild : s.place? ⟨4⟩ = some ⟨some ⟨2⟩, some ⟨3⟩, [], none, false⟩ := by decide +kernel
  have hparent : s.place? ⟨5⟩ = some ⟨some ⟨1⟩, some ⟨1⟩, [⟨6⟩], some ⟨6⟩, false⟩ := by
    decide +kernel
  have hold : s.place? ⟨3⟩ = some ⟨some ⟨2⟩, some ⟨2⟩, [⟨4⟩], none, true⟩ := by decide +kernel
  have hnew : s.place? ⟨6⟩ = some ⟨some ⟨5⟩, some ⟨5⟩, [⟨7⟩], none, true⟩ := by decide +kernel
  have hclean : s.dirty.toList = [] := by decide +kernel
  have hrules : (s.views.get? ⟨4⟩).map (fun view => (view.constraints.mentions ⟨3⟩,
      (view.constraints.moved ⟨4⟩ ⟨4⟩ ⟨5⟩ ⟨6⟩ ⟨some ⟨2⟩, some ⟨3⟩, [], none, false⟩).text)) =
        some (true, "left=id2.left;top=id6.top") := by decide +kernel
  obtain ⟨-, hmoved⟩ := setParent_of_acts .default "" _ few ⟨4⟩ ⟨5⟩
  have hok : ((setParent ⟨4⟩ (some ⟨5⟩)).answer s).isOk = true := by decide +kernel
  obtain ⟨_, s', hmove⟩ := Operation.exists_ok_of_isOk hok
  obtain ⟨found, outer, hfound, houter, hviews, hdirty, -⟩ := hmoved s' hmove
  obtain rfl := Option.some.inj ((hierarchyOf_eq_ok_iff.1 houter).symm.trans hparent)
  have hfound' : s.views.get? ⟨4⟩ = some found := hfound
  have hbefore : found.hierarchy = ⟨some ⟨2⟩, some ⟨3⟩, [], none, false⟩ := by
    rw [place?, hfound'] at hchild
    exact Option.some.inj hchild
  -- what the general fact says of every view, at the three whose place changes
  have hplaces (u : ViewId) : s'.place? u = (s.place? u).map fun h =>
      h.moved u ⟨4⟩ ⟨5⟩ ⟨6⟩ (some ⟨3⟩) := by
    rw [place?, hviews, hbefore, place?, Option.map_map, Option.map_map]
    rfl
  have hmentions : found.constraints.mentions ⟨3⟩ = true := by
    rw [hfound'] at hrules
    exact congrArg Prod.fst (Option.some.inj hrules)
  refine ⟨s', hmove, ?_, ?_, ?_, ?_, fun u => ?_⟩
  · rw [hplaces, hold]
    rfl
  · rw [hplaces, hnew]
    rfl
  · rw [hplaces, hchild]
    rfl
  · rw [hviews, hbefore, hfound]
    rw [hfound'] at hrules
    exact congrArg some (congrArg Prod.snd (Option.some.inj hrules))
  · have hfollows : found.constraints.Follows ⟨5⟩ ⟨6⟩
        ⟨some ⟨2⟩, some ⟨3⟩, [], none, false⟩ :=
      Or.inl (ConstraintStore.changes_rename_iff.2 ⟨by decide, hmentions⟩)
    have hmarks := hdirty u
    rw [hclean, hbefore] at hmarks
    refine hmarks.trans ?_
    -- the marks are the two lists of children, the child, and nothing that was there before
    constructor
    · rintro (h | h | rfl | ⟨rfl, -⟩)
      · cases h
      · cases h
        exact List.mem_cons_self
      · decide
      · decide
    · intro h
      rcases List.mem_cons.1 h with rfl | h
      · exact Or.inr (Or.inl rfl)
      rcases List.mem_cons.1 h with rfl | h
      · exact Or.inr (Or.inr (Or.inr ⟨rfl, hfollows⟩))
      · exact Or.inr (Or.inr (Or.inl (List.mem_singleton.1 h)))

end Session

end AnchorLayout
