import AnchorLayout.Proofs.Hierarchy.Forest
/-!
# Moves

  1. **Program** — `Session.setParent`, which everything moves through.
  2. **Specification** — `setParent_cases`: a move ends in one of four ways, and for each of them it
     is said which session is left.  Nothing has happened, or the view has been taken out and its
     new place was not there, or it has been taken out for good, or it has been put in place.
  3. **The crux (`Forest.setParent`)** — the place is looked up before the view is taken out and
     the check for a cycle is made there; taking out only shortens lines, so what was not below
     the view is not below it afterwards either.
-/

namespace AnchorLayout

namespace Session

variable {s s' : Session} {u v p child target : ViewId} {parent : Option ViewId}

/-! ## One step at a time -/

@[simp] theorem contains_modifyView (s : Session) (v u : ViewId) (f : View → View) :
    (s.modifyView v f).contains u = s.contains u := by
  rw [contains, contains, OrderedMap.contains, OrderedMap.contains]
  have hget := get?_modifyView s v u f
  rw [hget]
  split
  · exact Option.isSome_map
  · rfl

/-- The checks before a move read the session and leave it: there is a place, and it is not below
the view. -/
theorem checkedPlacement_apply (s : Session) (child p : ViewId) :
    checkedPlacement child p s = match s.placement? child p with
      | .error e => .error e s
      | .ok t =>
        if s.isAncestorOrSelf child t then .error (.refused (.ownDescendant child p)) s
        else .ok t s := by
  cases h : s.placement? child p with
  | error e =>
    have hplace : (Operation.ofExcept (s.placement? child p)) s = .error e s :=
      Operation.ofExcept_of_error h s
    exact Operation.bind_of_error hplace _
  | ok t =>
    have hplace : (Operation.ofExcept (s.placement? child p)) s = .ok t s :=
      Operation.ofExcept_of_ok h s
    refine (Operation.bind_of_ok hplace _).trans ?_
    show (if s.isAncestorOrSelf child t then _ else _ : Operation ViewId) s =
      if s.isAncestorOrSelf child t then _ else _
    by_cases hbelow : s.isAncestorOrSelf child t = true
    · rw [if_pos hbelow, if_pos hbelow]
      rfl
    · rw [if_neg hbelow, if_neg hbelow]
      rfl

/-- The session after the links of a move have been made: the anchors of the view follow. -/
def settled (s : Session) (child : ViewId) (before : Hierarchy) (parent structural : Option ViewId) :
    Session :=
  (s.rebaseBetween child before.structuralParent before.parent).rebaseBetween child parent structural

/-- A view under nothing, and known to be. -/
def unlink (s : Session) (child : ViewId) : Session :=
  s.modifyView child fun view => view.updateHierarchy Hierarchy.unlinked

/-- **A move out of the tree** that succeeds, step by step: the links are cut, the parents
forgotten, the anchors rebased. -/
theorem setParent_none {found : View} (h : s.views.get? child = some found) :
    setParent child none s =
      .ok () (((s.detach child).unlink child).settled child found.hierarchy none none) := by
  have hview : view child s = .ok found s := by rw [view_apply, h]
  have hc : (s.detach child).contains child = true := by
    rw [contains_detach]
    exact contains_iff.2 ⟨found, h⟩
  have hupdate : update child (fun view => view.updateHierarchy Hierarchy.unlinked)
      (s.detach child) = .ok () ((s.detach child).unlink child) := by
    rw [update_apply, if_pos hc]
    rfl
  refine (Operation.bind_of_ok hview _).trans ?_
  exact Operation.bind_of_ok hupdate _

/-- **A move under a view** whose checks have passed.  What can still fail is the place that is not
registered, and then the view has been taken out already. -/
theorem setParent_some {found : View} (h : s.views.get? child = some found)
    (hplace : checkedPlacement child p s = .ok target s) :
    setParent child (some p) s =
      if s.contains target then
        .ok () (((s.detach child).attach child target p).settled child found.hierarchy (some p)
          (some target))
      else .error (.noView target) (s.detach child) := by
  have hview : view child s = .ok found s := by rw [view_apply, h]
  have hplaced : (some <$> checkedPlacement child p) s = .ok (some target) s :=
    Operation.map_of_ok hplace some
  have hput := update_apply target (fun view => view.updateHierarchy (·.holding child))
    (s.detach child)
  rw [contains_detach] at hput
  refine (Operation.bind_of_ok hview _).trans ?_
  refine (Operation.bind_of_ok hplaced _).trans ?_
  -- by now the child has been taken out, which loses no view, so the target is there if it was
  by_cases ht : s.contains target = true
  · rw [if_pos ht] at hput ⊢
    have hlink := update_apply child (fun view => view.updateHierarchy (·.linked p target))
      (((s.detach child).modifyView target fun view =>
        view.updateHierarchy (·.holding child)).markDirty target)
    have hc : (((s.detach child).modifyView target fun view =>
        view.updateHierarchy (·.holding child)).markDirty target).contains child = true := by
      show ((s.detach child).modifyView target _).contains child = true
      rw [contains_modifyView, contains_detach]
      exact contains_iff.2 ⟨found, h⟩
    rw [if_pos hc] at hlink
    refine (Operation.bind_of_ok hput _).trans ?_
    exact Operation.bind_of_ok hlink _
  · rw [if_neg ht] at hput ⊢
    exact Operation.bind_of_error hput _

/-- **What has happened when a move under a view succeeds.** -/
theorem setParent_some_eq_ok (moved : setParent child (some p) s = .ok () s') :
    ∃ found target, s.views.get? child = some found ∧ s.placement? child p = .ok target ∧
      s.isAncestorOrSelf child target = false ∧ s.contains target = true ∧
        s' = ((s.detach child).attach child target p).settled child found.hierarchy (some p)
          (some target) := by
  obtain ⟨found, s₀, hview, hrest⟩ := Operation.bind_eq_ok moved
  obtain ⟨rfl, hfound⟩ := view_eq_ok hview
  obtain ⟨structural, s₁, hplaced, -⟩ := Operation.bind_eq_ok hrest
  have hchecked := checkedPlacement_apply s₀ child p
  -- a check that fails ends the move
  have hrefused {e : Error} (he : checkedPlacement child p s₀ = .error e s₀) : False := by
    cases (Operation.map_of_error he some).symm.trans hplaced
  cases hplace : s₀.placement? child p with
  | error e =>
    rw [hplace] at hchecked
    exact (hrefused hchecked).elim
  | ok target =>
    rw [hplace] at hchecked
    cases hapart : s₀.isAncestorOrSelf child target with
    | true =>
      simp only [hapart, if_true] at hchecked
      exact (hrefused hchecked).elim
    | false =>
      simp only [hapart, Bool.false_eq_true, if_false] at hchecked
      rw [setParent_some hfound hchecked] at moved
      split at moved
      · next hknown =>
        cases moved
        exact ⟨found, target, hfound, rfl, hapart, hknown, rfl⟩
      · cases moved

/-- **How a move ends.** -/
theorem setParent_cases (s : Session) (child : ViewId) (parent : Option ViewId) :
    (setParent child parent).after s = s ∨
    (s.contains child = true ∧ (setParent child parent).after s = s.detach child) ∨
    (∃ before, s.contains child = true ∧ (setParent child parent).after s =
      ((s.detach child).unlink child).settled child before none none) ∨
    (∃ before p target, s.contains child = true ∧ s.contains target = true ∧
      s.isAncestorOrSelf child target = false ∧ (setParent child parent).after s =
        ((s.detach child).attach child target p).settled child before (some p) (some target)) := by
  have hview := view_apply child s
  cases hc : s.views.get? child with
  | none =>
    rw [hc] at hview
    exact Or.inl (Operation.after_of_error (Operation.bind_of_error hview _))
  | some found =>
    rw [hc] at hview
    have hcontains : s.contains child = true := contains_iff.2 ⟨found, hc⟩
    cases parent with
    | none =>
      exact Or.inr (Or.inr (Or.inl
        ⟨found.hierarchy, hcontains, Operation.after_of_ok (setParent_none hc)⟩))
    | some p =>
      have hchecked := checkedPlacement_apply s child p
      -- the checks come before the child is taken out
      have hrefused {e : Error} (he : checkedPlacement child p s = .error e s) :
          (setParent child (some p)).after s = s := by
        have hplaced : (some <$> checkedPlacement child p) s = .error e s :=
          Operation.map_of_error he some
        exact Operation.after_of_error
          ((Operation.bind_of_ok hview _).trans (Operation.bind_of_error hplaced _))
      cases hplace : s.placement? child p with
      | error e =>
        rw [hplace] at hchecked
        exact Or.inl (hrefused hchecked)
      | ok target =>
        rw [hplace] at hchecked
        by_cases hbelow : s.isAncestorOrSelf child target = true
        · simp only [if_pos hbelow] at hchecked
          exact Or.inl (hrefused hchecked)
        · simp only [if_neg hbelow] at hchecked
          have hmoved := setParent_some hc hchecked
          -- the one failure that comes too late: the child has been taken out, and has nowhere to
          -- go
          by_cases ht : s.contains target = true
          · rw [if_pos ht] at hmoved
            refine Or.inr (Or.inr (Or.inr ⟨found.hierarchy, p, target, hcontains, ht, ?_, ?_⟩))
            · exact eq_false_of_ne_true hbelow
            · exact Operation.after_of_ok hmoved
          · rw [if_neg ht] at hmoved
            exact Or.inr (Or.inl ⟨hcontains, Operation.after_of_error hmoved⟩)

/-! ## Moves keep the forest -/

/-- The anchors that follow a move are not part of the tree. -/
theorem treeEq_settled (s : Session) (child : ViewId) (before : Hierarchy)
    (parent structural : Option ViewId) : TreeEq s (s.settled child before parent structural) :=
  (treeEq_rebaseBetween _ _ _ _).trans (treeEq_rebaseBetween _ _ _ _)

/-- A view that has been taken out is under nothing. -/
theorem structuralParent?_detach_self (s : Session) (child : ViewId) :
    (s.detach child).structuralParent? child = none := by
  cases h : (s.detach child).structuralParent? child with
  | none => rfl
  | some p => exact absurd rfl (climb_detach.1 h).1

/-- Unlinking changes nothing where a view is already under nothing. -/
theorem Forest.treeEq_unlink (f : s.Forest) (h : s.structuralParent? child = none) :
    TreeEq s (s.unlink child) := by
  refine treeEq_modifyView s child ?_
  intro view hview
  have hplace : s.place? child = some view.hierarchy := by rw [place?, hview]; rfl
  show view.hierarchy.unlinked.links = view.hierarchy.links
  generalize view.hierarchy = place at hplace
  have hstructural : place.structuralParent = none := by
    rw [structuralParent?_eq, hplace] at h
    exact h
  have hparent : place.parent = none := by
    have hiff := f.parent_iff hplace
    rw [hstructural] at hiff
    exact Option.not_isSome_iff_eq_none.1 fun hsome => absurd (hiff.1 hsome) (by simp)
  cases place
  cases hstructural
  cases hparent
  rfl

/-- Out of one list and into another one: the two halves of a move leave a forest, because the check
has found the place not to be below the view. -/
theorem Forest.moved (f : s.Forest) (hc : s.contains child = true)
    (ht : s.contains target = true) (apart : s.isAncestorOrSelf child target = false) (p : ViewId) :
    ((s.detach child).attach child target p).Forest := by
  refine (f.detach child).attach (structuralParent?_detach_self s child) ?_ ?_ ?_
  · rw [contains_detach]
    exact hc
  · rw [contains_detach]
    exact ht
  · -- the check was made before the view was taken out, when lines were longer if anything
    intro hbelow
    have hline := (isAncestorOrSelf_iff f.acyclic).2 (below_of_below_detach hbelow)
    rw [hline] at apart
    exact absurd apart (by simp)

/-- **A move leaves a forest**, however it ends. -/
theorem Forest.setParent (f : s.Forest) (child : ViewId) (parent : Option ViewId) :
    ((setParent child parent).after s).Forest := by
  rcases setParent_cases s child parent with
    h | ⟨-, h⟩ | ⟨before, -, h⟩ | ⟨before, p, t, hc, ht, apart, h⟩
  · rw [h]
    exact f
  · rw [h]
    exact f.detach child
  · rw [h]
    have hunlinked := (f.detach child).treeEq_unlink (structuralParent?_detach_self s child)
    exact (hunlinked.trans (treeEq_settled _ _ _ _ _)).forest (f.detach child)
  · rw [h]
    exact (treeEq_settled _ _ _ _ _).forest (f.moved hc ht apart p)

end Session

end AnchorLayout
