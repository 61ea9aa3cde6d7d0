import AnchorLayout.Proofs.Hierarchy.Container
/-!
# Changing a container

  A change of container takes the old link away, puts the new container in place, and then moves the
  children of the view one after the other.  Nothing is undone on failure, so none of the moves may
  fail.

  1. **Program** — `Session.setContainer` with its loop over the children.
  2. **Specification** — `Hierarchy.recontained`, the home of every view afterwards.
  3. **The loop (`Fillable.step`, `Fillable.run`)** — the children that wait to be moved are below the
     view, and the place they are moved to is not below any of them; a move of one child changes
     neither.
  4. **The change (`setContainer_cases`)** — it is refused before anything has happened, or every home
     is what it should be.
-/

namespace AnchorLayout

open Operation

/-- The home of a child once a change of container has come to it. -/
def Hierarchy.filled (h : Hierarchy) (child p target : ViewId) : Hierarchy :=
  if child ≠ target ∧ h.isChrome = false then h.linked p target else h

namespace Session

variable {s s' : Session} {u v p m target : ViewId} {home outer : Hierarchy}
  {moved rest : List ViewId} {container : Option ViewId}

theorem kept_trans {s₁ s₂ s₃ : Session} (h : Kept s₁ s₂) (h' : Kept s₂ s₃) : Kept s₁ s₃ :=
  keepsForest.trans h h'

/-- Where the homes are the same, so is the step up. -/
theorem climb_congr (h : s'.home? u = s.home? u) : s'.Climb u v ↔ s.Climb u v := by
  rw [climb_iff_home, climb_iff_home, h]

/-- Where the tree is the same, so is what is above a view. -/
theorem TreeEq.isAncestorOrSelf_eq (same : TreeEq s s') (f : s.Forest) (u v : ViewId) :
    s'.isAncestorOrSelf u v = s.isAncestorOrSelf u v := by
  rw [Bool.eq_iff_iff, isAncestorOrSelf_iff (same.forest f).acyclic, same.below_iff,
    isAncestorOrSelf_iff f.acyclic]

/-! ## The loop -/

/-- **Some children can be moved** to where the children of a view land now. -/
structure Fillable (s : Session) (p target : ViewId) (moved : List ViewId) : Prop where
  forest : s.Forest
  lands : ∃ outer, s.home? p = some outer ∧
    (outer.container = none ∧ target = p ∨ outer.container = some target ∧ s.Climb target p)
  /-- They are all still under the view, or under what was its container. -/
  holder : ∃ h, (h = p ∨ s.Climb h p) ∧ ∀ m ∈ moved, m ≠ target → s.Climb m h
  distinct : moved.Nodup

/-- A child that waits is below the view. -/
theorem Fillable.under (fill : s.Fillable p target moved) (hm : m ∈ moved) (hne : m ≠ target) :
    s.Under m p := by
  obtain ⟨h, hh, hwaiting⟩ := fill.holder
  have hclimb := hwaiting m hm hne
  rcases hh with rfl | hh
  · exact under_iff_climb.2 ⟨_, hclimb, below_refl s _⟩
  · exact under_iff_climb.2 ⟨h, hclimb, hh.below⟩

/-- The place it is moved to is not below it. -/
theorem Fillable.apart (fill : s.Fillable p target moved) (hm : m ∈ moved) (hne : m ≠ target) :
    s.isAncestorOrSelf m target = false := by
  have hunder := fill.under hm hne
  have hcycle : ¬ s.Below p m := fun hbelow =>
    fill.forest.acyclic m (Relation.TransGen.trans_left hunder hbelow)
  obtain ⟨outer, -, ⟨-, rfl⟩ | ⟨-, hclimb⟩⟩ := fill.lands
  · rw [← Bool.not_eq_true, isAncestorOrSelf_iff fill.forest.acyclic]
    exact hcycle
  · rw [← Bool.not_eq_true, isAncestorOrSelf_iff fill.forest.acyclic]
    intro hbelow
    rcases below_iff_eq_or_climb.1 hbelow with heq | ⟨q, hq, hqm⟩
    · exact hne heq.symm
    · exact hcycle (climb_unique hq hclimb ▸ hqm)

/-- The others can still be moved once one has been. -/
theorem Fillable.others (fill : s.Fillable p target (m :: rest)) (hne : m ≠ target)
    (kept : Kept s s') (homes : ∀ u, m ≠ u → s'.home? u = s.home? u) :
    s'.Fillable p target rest := by
  obtain ⟨hnew, hrest⟩ := List.nodup_cons.1 fill.distinct
  have hmp : m ≠ p := by
    rintro rfl
    exact fill.forest.acyclic m (fill.under List.mem_cons_self hne)
  refine ⟨kept.forest fill.forest, ?_, ?_, hrest⟩
  · obtain ⟨outer, houter, hlands⟩ := fill.lands
    refine ⟨outer, (homes p hmp).trans houter, hlands.imp_right ?_⟩
    rintro ⟨hc, hclimb⟩
    exact ⟨hc, (climb_congr (homes target hne)).2 hclimb⟩
  · obtain ⟨h, hh, hwaiting⟩ := fill.holder
    have hmh : m ≠ h := by
      rintro rfl
      have hself := hwaiting m List.mem_cons_self hne
      exact fill.forest.acyclic m (under_iff_climb.2 ⟨m, hself, below_refl s m⟩)
    refine ⟨h, hh.imp_right (climb_congr (homes h hmh)).2, ?_⟩
    intro m' hm' hne'
    have hmm' : m ≠ m' := by
      rintro rfl
      exact hnew hm'
    exact (climb_congr (homes m' hmm')).2 (hwaiting m' (List.mem_cons_of_mem _ hm') hne')

/-- A child that stays where it is leaves the others movable. -/
theorem Fillable.skip (fill : s.Fillable p target (m :: rest)) : s.Fillable p target rest := by
  obtain ⟨h, hh, hwaiting⟩ := fill.holder
  exact ⟨fill.forest, fill.lands, ⟨h, hh, fun m' hm' => hwaiting m' (List.mem_cons_of_mem _ hm')⟩,
    (List.nodup_cons.1 fill.distinct).2⟩

/-- The place is there, and a child that is not chrome belongs in it. -/
theorem Fillable.placed (fill : s.Fillable p target moved) (hm : s.home? m = some home)
    (plain : home.isChrome = false) (hne : m ≠ target) :
    s.placement? m p = .ok target ∧ s.contains target = true := by
  obtain ⟨outer, houter, ⟨hnone, rfl⟩ | ⟨hsome, hclimb⟩⟩ := fill.lands
  · refine ⟨placement?_eq_ok_iff.2 ⟨home, outer, hm, houter, ?_⟩, contains_of_home houter⟩
    rw [Hierarchy.landing, hnone]
  · refine ⟨placement?_eq_ok_iff.2 ⟨home, outer, hm, houter, ?_⟩, contains_of_climb hclimb⟩
    rw [Hierarchy.landing, hsome]
    exact if_pos ⟨plain, Ne.symm hne⟩

/-- A child that stays where it is has the home that it should have. -/
theorem home?_of_filled (hfilled : ∀ home, s.home? m = some home → home.filled m p target = home)
    (u : ViewId) :
    s.home? u = if m = u then (s.home? u).map (·.filled m p target) else s.home? u := by
  split
  · next hu =>
    subst hu
    cases hhome : s.home? m with
    | none => rfl
    | some home => exact congrArg some (hfilled home hhome).symm
  · rfl

/-- **One child** is moved, or stays because it is the container or chrome. -/
theorem Fillable.step (fill : s.Fillable p target (m :: rest)) :
    ∃ s', moveIntoPlace p target m s = .ok () s' ∧ s'.Fillable p target rest ∧ Kept s s' ∧
      ∀ u, s'.home? u = if m = u then (s.home? u).map (·.filled m p target) else s.home? u := by
  by_cases hne : m = target
  · refine ⟨s, ?_, fill.skip, keepsForest.refl s, home?_of_filled fun home _ => ?_⟩
    · rw [moveIntoPlace, if_neg (not_not_intro hne)]
      rfl
    · rw [Hierarchy.filled, if_neg fun hboth => hboth.1 hne]
  · have hcontains : s.contains m = true := by
      obtain ⟨h, -, hwaiting⟩ := fill.holder
      exact contains_of_climb (hwaiting m List.mem_cons_self hne)
    obtain ⟨found, hfound⟩ := contains_iff.1 hcontains
    have hhome := home?_of_get? hfound
    have hmove : moveIntoPlace p target m s =
        (unless found.hierarchy.isChrome do setParent m (some p)) s := by
      rw [moveIntoPlace, if_pos hne]
      exact bind_of_ok (view_of_get? hfound) _
    -- chrome is looked at and left where it is
    cases hchrome : found.hierarchy.isChrome with
    | true =>
      refine ⟨s, ?_, fill.skip, keepsForest.refl s, home?_of_filled fun home hhome' => ?_⟩
      · rw [hmove, hchrome]
        rfl
      · obtain rfl := Option.some.inj (hhome'.symm.trans hhome)
        refine if_neg ?_
        rintro ⟨-, hplain⟩
        cases hchrome.symm.trans hplain
    | false =>
      have hplain : found.hierarchy.home.isChrome = false := hchrome
      -- anything else belongs in the place, and a move there has nothing to fail for
      obtain ⟨hplaced, hknown⟩ := fill.placed hhome hplain hne
      obtain ⟨s', hs', hrelinked⟩ :=
        setParent_of_placed hplaced hknown (fill.apart List.mem_cons_self hne)
      refine ⟨s', ?_, fill.others hne hrelinked.kept fun u hu => hrelinked.home?_of_ne hu,
        hrelinked.kept, fun u => ?_⟩
      · rw [hmove, hchrome]
        exact hs'
      · rw [hrelinked.homes]
        split
        · next hu =>
          subst hu
          rw [hhome]
          exact congrArg some (if_pos ⟨hne, hplain⟩).symm
        · rfl

/-- **The whole loop.** -/
theorem Fillable.run (fill : s.Fillable p target moved) :
    ∃ s', moved.forM (moveIntoPlace p target) s = .ok () s' ∧ Kept s s' ∧
      ∀ u, s'.home? u = if u ∈ moved then (s.home? u).map (·.filled u p target) else s.home? u := by
  induction moved generalizing s with
  | nil => exact ⟨s, rfl, keepsForest.refl s, fun u => (if_neg List.not_mem_nil).symm⟩
  | cons m rest ih =>
    obtain ⟨s₁, hs₁, hrest, hkept, hhomes⟩ := fill.step
    obtain ⟨s', hs', hkept', hhomes'⟩ := ih hrest
    refine ⟨s', (bind_of_ok hs₁ _).trans hs', kept_trans hkept hkept', fun u => ?_⟩
    have hnew := (List.nodup_cons.1 fill.distinct).1
    rw [hhomes', hhomes]
    by_cases hu : m = u
    · subst hu
      rw [if_neg hnew, if_pos rfl, if_pos List.mem_cons_self]
    · rw [if_neg hu]
      by_cases hmem : u ∈ rest
      · rw [if_pos hmem, if_pos (List.mem_cons_of_mem _ hmem)]
      · rw [if_neg hmem, if_neg]
        intro hmem'
        rcases List.mem_cons.1 hmem' with heq | hmem'
        · exact hu heq.symm
        · exact hmem hmem'

/-! ## The children that are moved -/

/-- The children of a view by its own account: those listed where its children are rendered that
give it as their parent. -/
theorem visualChildren?_eq {place : Hierarchy} (hp : s.place? p = some place)
    (holder : s.contains (place.container.getD p) = true) :
    s.visualChildren? p = .ok ((s.childrenOf (place.container.getD p)).filter fun child =>
      ((s.views.get? child).bind fun view => view.hierarchy.parent) == some p) := by
  obtain ⟨view, hview, rfl⟩ := Option.map_eq_some_iff.1 hp
  rw [visualChildren?, view?, hview]
  cases hc : view.hierarchy.container with
  | none => simp [bind, Except.bind, pure, Except.pure, hc, childrenOf, hview]
  | some c =>
    rw [hc] at holder
    obtain ⟨inner, hinner⟩ := contains_iff.1 holder
    rw [Option.getD_some] at hinner
    simp [bind, Except.bind, pure, Except.pure, hc, childrenOf, view?, hinner]

/-- **What is moved** are the views with this parent that are rendered where the container has been
so far. -/
theorem Housed.visualChildren? (h : s.Housed) (f : s.Forest) (hp : s.home? p = some outer) :
    ∃ moved, s.visualChildren? p = .ok moved ∧ moved.Nodup ∧
      ∀ u, u ∈ moved ↔ ∃ home, s.home? u = some home ∧ home.parent = some p ∧
        home.structuralParent = some (outer.container.getD p) := by
  obtain ⟨place, hplace, rfl⟩ := Option.map_eq_some_iff.1 hp
  have hholder : s.contains (place.container.getD p) = true := by
    cases hc : place.container with
    | none => exact contains_of_home hp
    | some c =>
      obtain ⟨inner, hinner, -⟩ := h.house hp hc
      exact contains_of_home hinner
  refine ⟨_, visualChildren?_eq hplace hholder, (f.nodup_children _).filter _, fun u => ?_⟩
  have hparent : ((s.views.get? u).bind fun view => view.hierarchy.parent) =
      (s.home? u).bind Hierarchy.parent := by
    rw [home?, place?]
    cases s.views.get? u <;> rfl
  rw [List.mem_filter, f.mem_children_iff hholder, climb_iff_home, hparent]
  constructor
  · rintro ⟨⟨home, hhome, hstructural⟩, hvisual⟩
    rw [hhome] at hvisual
    exact ⟨home, hhome, beq_iff_eq.1 hvisual, hstructural⟩
  · rintro ⟨home, hhome, hvisual, hstructural⟩
    rw [hhome]
    exact ⟨⟨home, rfl, hstructural⟩, beq_iff_eq.2 hvisual⟩

/-! ## The change -/

end Session

/-- The home of a view after a change of container. -/
def Hierarchy.recontained (h : Hierarchy) (u p : ViewId) (container : Option ViewId)
    (moved : List ViewId) : Hierarchy :=
  let h := if u = p then { h with container } else h
  let h := if container = some u then { h.linked p p with isChrome := true } else h
  if u ∈ moved then h.filled u p (container.getD p) else h

namespace Session

variable {s s' : Session} {u v p q c m target : ViewId} {home outer : Hierarchy}
  {moved : List ViewId} {container : Option ViewId}

/-- Containers have changed for the view and for nobody else, whatever has been moved. -/
theorem recontained_container (home : Hierarchy) (u p : ViewId) (container : Option ViewId)
    (moved : List ViewId) :
    (home.recontained u p container moved).container =
      if u = p then container else home.container := by
  have hfilled (h : Hierarchy) (t : ViewId) : (h.filled u p t).container = h.container := by
    rw [Hierarchy.filled]
    split <;> rfl
  have hinside (h : Hierarchy) :
      (if container = some u then { h.linked p p with isChrome := true } else h).container =
        h.container := by
    split <;> rfl
  have hlast (h : Hierarchy) (t : ViewId) :
      (if u ∈ moved then h.filled u p t else h).container = h.container := by
    split
    · exact hfilled h t
    · rfl
  rw [Hierarchy.recontained, hlast, hinside]
  split <;> rfl

/-- A view is the new container, or a child that has been moved, or where it was. -/
theorem recontained_cases (home : Hierarchy) (u p : ViewId) (container : Option ViewId)
    (moved : List ViewId) {now : Hierarchy} (is : home.recontained u p container moved = now) :
    (container = some u ∧ now.isChrome = true ∧ now.parent = some p ∧
        now.structuralParent = some p) ∨
      (container ≠ some u ∧ u ∈ moved ∧ home.isChrome = false ∧ now.isChrome = false ∧
        now.parent = some p ∧ now.structuralParent = some (container.getD p)) ∨
      (container ≠ some u ∧ (u ∈ moved → home.isChrome = true ∨ u = p) ∧
        now.isChrome = home.isChrome ∧ now.parent = home.parent ∧
        now.structuralParent = home.structuralParent) := by
  obtain ⟨first, hfirst, hchrome, hparent, hstructural⟩ : ∃ first : Hierarchy,
      (if u = p then { home with container } else home) = first ∧
        first.isChrome = home.isChrome ∧ first.parent = home.parent ∧
        first.structuralParent = home.structuralParent := by
    refine ⟨_, rfl, ?_, ?_, ?_⟩ <;> split <;> rfl
  simp only [Hierarchy.recontained, hfirst] at is
  by_cases hc : container = some u
  · -- the container itself is not moved into itself
    have hfilled (h : Hierarchy) : h.filled u p (container.getD p) = h := by
      rw [hc, Hierarchy.filled, Option.getD_some]
      exact if_neg fun hboth => hboth.1 rfl
    simp only [if_pos hc, hfilled, ite_self] at is
    subst is
    exact Or.inl ⟨hc, rfl, rfl, rfl⟩
  · simp only [if_neg hc] at is
    refine Or.inr ?_
    by_cases hmoves : u ∈ moved ∧ u ≠ container.getD p ∧ first.isChrome = false
    · rw [if_pos hmoves.1, Hierarchy.filled, if_pos hmoves.2] at is
      subst is
      exact Or.inl ⟨hc, hmoves.1, hchrome ▸ hmoves.2.2, hmoves.2.2, rfl, rfl⟩
    · have hstays : now = first := by
        rw [← is]
        split
        · next hm => exact if_neg fun hboth => hmoves ⟨hm, hboth⟩
        · rfl
      subst hstays
      refine Or.inr ⟨hc, fun hm => ?_, hchrome, hparent, hstructural⟩
      by_cases hplain : home.isChrome = true
      · exact Or.inl hplain
      · refine Or.inr (Classical.byContradiction fun hup => hmoves ⟨hm, ?_, ?_⟩)
        · rintro rfl
          cases container with
          | none => exact hup rfl
          | some c => exact hc rfl
        · rw [hchrome]
          exact eq_false_of_ne_true hplain

/-- **A view put into another as its container**, before the children are moved. -/
theorem installContainer_apply (f : s.Forest) (hp : s.home? p = some outer)
    (free : outer.container = none) (hc : s.contains c = true) (hne : c ≠ p)
    (apart : s.isAncestorOrSelf c p = false) :
    ∃ s', installContainer p c s = .ok () s' ∧ Kept s s' ∧
      ∀ u, s'.home? u = (s.home? u).map (·.recontained u p (some c) []) := by
  -- the view is made chrome, then it is moved, then it is the container
  obtain ⟨inner, hinner⟩ := contains_iff_home.1 hc
  have htree := treeEq_rechromed s c true
  have hmarked := rehomed_rechromed hinner true
  have hplaced : (s.rechromed c true).placement? c p = .ok p := by
    refine placement?_eq_ok_iff.2 ⟨{ inner with isChrome := true }, outer, ?_, ?_, ?_⟩
    · rw [hmarked.homes, if_pos rfl]
    · rw [hmarked.homes, if_neg hne, hp]
    · rw [Hierarchy.landing, free]
  obtain ⟨linked, hlinked, hrelinked⟩ := setParent_of_placed hplaced
    ((htree.contains p).trans (contains_of_home hp)) ((htree.isAncestorOrSelf_eq f c p).trans apart)
  let installed := linked.modifyView p fun view => view.updateHierarchy fun h =>
    { h with container := some c }
  have hinstall : update p (fun view => view.updateHierarchy fun h => { h with container := some c })
      linked = .ok () installed := by
    have hcontains : linked.contains p = true := by
      rw [contains_eq_home, hrelinked.homes, if_neg hne, hmarked.homes, if_neg hne, hp]
      rfl
    rw [update_apply, if_pos hcontains]
  have htree' : TreeEq linked installed := treeEq_modifyView linked p fun _ _ => rfl
  refine ⟨installed, ?_, ?_, fun u => ?_⟩
  · refine (bind_of_ok (update_rechromed hc true) _).trans ((bind_of_ok hlinked _).trans ?_)
    exact hinstall
  · exact kept_trans (kept_trans htree.kept hrelinked.kept) htree'.kept
  · have hinstalled : installed.home? u =
        if p = u then (linked.home? u).map fun h => { h with container := some c }
        else linked.home? u := home?_reshaped linked p u fun _ => rfl
    rw [hinstalled, hrelinked.homes, hmarked.homes]
    by_cases hcu : c = u
    · subst hcu
      rw [hinner]
      simp [Hierarchy.recontained, Ne.symm hne, hne, Hierarchy.linked]
    · cases s.home? u with
      | none => simp [hcu]
      | some h =>
        by_cases hpu : p = u
        · subst hpu
          simp [Hierarchy.recontained, hne]
        · simp [Hierarchy.recontained, hcu, hpu, Ne.symm hpu]

/-- What a change of container leaves: a new home for every view, by what was moved. -/
structure Recontained (s s' : Session) (p : ViewId) (container : Option ViewId)
    (moved : List ViewId) : Prop where
  kept : Kept s s'
  homes : ∀ u, s'.home? u = (s.home? u).map (·.recontained u p container moved)

namespace Recontained

/-- Every home afterwards comes from the one before. -/
theorem exists_before (r : s.Recontained s' p container moved) {now : Hierarchy}
    (h : s'.home? u = some now) :
    ∃ before, s.home? u = some before ∧ before.recontained u p container moved = now := by
  rw [r.homes] at h
  exact Option.map_eq_some_iff.1 h

/-- Every home of before has one that comes from it. -/
theorem home?_of_before (r : s.Recontained s' p container moved) (h : s.home? u = some home) :
    s'.home? u = some (home.recontained u p container moved) := by
  rw [r.homes, h]
  rfl

theorem contains_eq (r : s.Recontained s' p container moved) (u : ViewId) :
    s'.contains u = s.contains u := by
  rw [contains_eq_home, contains_eq_home, r.homes, Option.isSome_map]

/-- A parent has been asked for before, unless it is the view. -/
theorem parent_cases (r : s.Recontained s' p container moved) {now : Hierarchy}
    (h : s'.home? u = some now) (hparent : now.parent = some q) :
    p = q ∨ ∃ before, s.home? u = some before ∧ before.parent = some q := by
  obtain ⟨before, hbefore, hnow⟩ := r.exists_before h
  rcases recontained_cases before u p container moved hnow with
    ⟨-, -, hnew, -⟩ | ⟨-, -, -, -, hnew, -⟩ | ⟨-, -, -, hold, -⟩
  · exact Or.inl (Option.some.inj (hnew.symm.trans hparent))
  · exact Or.inl (Option.some.inj (hnew.symm.trans hparent))
  · exact Or.inr ⟨before, hbefore, hold.symm.trans hparent⟩

/-- The container hangs under its view. -/
theorem climb_container (r : s.Recontained s' p (some c) moved) (hc : s.contains c = true) :
    s'.Climb c p := by
  obtain ⟨inner, hinner⟩ := contains_iff_home.1 hc
  refine climb_of_home (r.home?_of_before hinner) ?_
  rcases recontained_cases inner c p (some c) moved rfl with
    ⟨-, -, -, hstructural⟩ | ⟨hnot, -⟩ | ⟨hnot, -⟩
  · exact hstructural
  · exact absurd rfl hnot
  · exact absurd rfl hnot

/-- Before the children are moved, every view but the container hangs where it did. -/
theorem climb_of_old (r : s.Recontained s' p container []) (hu : container ≠ some u)
    (hclimb : s.Climb u v) : s'.Climb u v := by
  obtain ⟨home, hhome, hv⟩ := climb_iff_home.1 hclimb
  refine climb_of_home (r.home?_of_before hhome) ?_
  rcases recontained_cases home u p container [] rfl with
    ⟨hnew, -⟩ | ⟨-, hmoved, -⟩ | ⟨-, -, -, -, hstructural⟩
  · exact absurd hnew hu
  · exact absurd hmoved List.not_mem_nil
  · exact hstructural.trans hv

/-- Before the children are moved, all of them can be. -/
theorem fillable (r : s.Recontained s' p container []) (f : s.Forest)
    (hp : s.home? p = some outer) (known : ∀ c, container = some c → s.contains c = true)
    {holder : ViewId} (held : holder = p ∨ s.Climb holder p)
    (waiting : ∀ m ∈ moved, s.Climb m holder) (distinct : moved.Nodup) :
    s'.Fillable p (container.getD p) moved where
  forest := r.kept.forest f
  lands := by
    refine ⟨_, r.home?_of_before hp, ?_⟩
    rw [recontained_container, if_pos rfl]
    cases container with
    | none => exact Or.inl ⟨rfl, rfl⟩
    | some c => exact Or.inr ⟨rfl, r.climb_container (known c rfl)⟩
  holder := by
    refine ⟨holder, held.imp_right fun hclimb => ?_, fun m hm hne => ?_⟩
    · by_cases hnew : container = some holder
      · subst hnew
        exact r.climb_container (known holder rfl)
      · exact r.climb_of_old hnew hclimb
    · refine r.climb_of_old ?_ (waiting m hm)
      rintro rfl
      exact hne rfl
  distinct := distinct

end Recontained

/-- The loop at the end of a change of container, where nothing has been moved yet. -/
theorem Recontained.fill {s₁ : Session} (r : s.Recontained s₁ p container [])
    (fill : s₁.Fillable p (container.getD p) moved) (old : Option ViewId) :
    ∃ s', fillContainer p (container.getD p) moved old s₁ = .ok () s' ∧
      s.Recontained s' p container moved := by
  obtain ⟨filled, hfilled, hkept, hhomes⟩ := fill.run
  have hmarks : ∃ s', fillContainer p (container.getD p) moved old s₁ = .ok () s' ∧
      TreeEq filled s' ∧ s'.views = filled.views := by
    cases old with
    | none =>
      exact ⟨filled.markDirty p, bind_of_ok hfilled _, treeEq_markDirty _ _, rfl⟩
    | some c =>
      exact ⟨(filled.markDirty c).markDirty p, bind_of_ok hfilled _,
        (treeEq_markDirty _ _).trans (treeEq_markDirty _ _), rfl⟩
  obtain ⟨s', hs', htree, hviews⟩ := hmarks
  refine ⟨s', hs', kept_trans r.kept (kept_trans hkept htree.kept), fun u => ?_⟩
  have hsame : s'.home? u = filled.home? u := by rw [home?, home?, place?, place?, hviews]
  rw [hsame, hhomes, r.homes]
  by_cases hu : u ∈ moved
  · rw [if_pos hu, Option.map_map]
    refine congrFun (congrArg Option.map (funext fun h => ?_)) _
    simp [Hierarchy.recontained, hu]
  · rw [if_neg hu]
    refine congrFun (congrArg Option.map (funext fun h => ?_)) _
    simp [Hierarchy.recontained, hu]

/-- A session in which a view has lost its container. -/
def emptied (s : Session) (p : ViewId) : Session :=
  s.modifyView p fun view => view.updateHierarchy fun h => { h with container := none }

/-- The link to the container is not part of the rendered tree. -/
theorem treeEq_emptied (s : Session) (p : ViewId) : TreeEq s (s.emptied p) :=
  treeEq_modifyView s p fun _ _ => rfl

/-- A view that loses its container, before its children are moved. -/
theorem recontained_emptied (s : Session) (p : ViewId) :
    s.Recontained (s.emptied p) p none [] := by
  refine ⟨(treeEq_emptied s p).kept, fun u => ?_⟩
  have hemptied : (s.emptied p).home? u =
      if p = u then (s.home? u).map fun h => { h with container := none } else s.home? u :=
    home?_reshaped s p u fun _ => rfl
  rw [hemptied]
  cases s.home? u with
  | none => simp
  | some home => by_cases hu : p = u <;> simp [hu, Hierarchy.recontained, eq_comm (a := u)]

/-- A view that has lost its container and got another one. -/
theorem Recontained.install {s₁ s₂ : Session} (r : s.Recontained s₁ p none [])
    (kept : Kept s₁ s₂)
    (homes : ∀ u, s₂.home? u = (s₁.home? u).map (·.recontained u p (some c) [])) :
    s.Recontained s₂ p (some c) [] := by
  refine ⟨kept_trans r.kept kept, fun u => ?_⟩
  rw [homes, r.homes]
  cases s.home? u with
  | none => simp
  | some home => by_cases hu : u = p <;> simp [hu, Hierarchy.recontained]

/-- What holds the children of a view is the view or hangs under it. -/
theorem Housed.climb_holder (h : s.Housed) (hp : s.home? p = some outer) :
    outer.container.getD p = p ∨ s.Climb (outer.container.getD p) p := by
  cases hc : outer.container with
  | none => exact Or.inl rfl
  | some c =>
    obtain ⟨inner, hinner, -, -, hstructural⟩ := h.house hp hc
    exact Or.inr (climb_of_home hinner hstructural)

/-- **A change of container that nothing speaks against** succeeds. -/
theorem changeContainer_apply (h : s.Housed) (f : s.Forest) (hp : s.home? p = some outer)
    (free : ∀ c, container = some c →
      s.contains c = true ∧ c ≠ p ∧ s.isAncestorOrSelf c p = false) :
    ∃ moved s', s.visualChildren? p = .ok moved ∧ changeContainer p container s = .ok () s' ∧
      s.Recontained s' p container moved := by
  obtain ⟨moved, hmoved, hdistinct, hmem⟩ := h.visualChildren? f hp
  obtain ⟨found, hfound⟩ := contains_iff.1 (contains_of_home hp)
  have hemptied := recontained_emptied s p
  have hempty : update p (fun view => view.updateHierarchy fun h => { h with container := none })
      s = .ok () (s.emptied p) := by
    rw [update_apply, if_pos (contains_of_home hp)]
    rfl
  have hstart : changeContainer p container s =
      container.elim (fillContainer p p moved found.hierarchy.container) (fun c => do
        installContainer p c
        fillContainer p c moved found.hierarchy.container) (s.emptied p) := by
    refine (bind_of_ok (ofExcept_of_ok hmoved s) _).trans ?_
    refine (bind_of_ok (view_of_get? hfound) _).trans ((bind_of_ok hempty _).trans ?_)
    cases container <;> rfl
  -- what is to be moved hangs where the children of the view have been rendered so far
  have hwaiting : ∀ m ∈ moved, s.Climb m (outer.container.getD p) := by
    intro m hm
    obtain ⟨home, hhome, -, hstructural⟩ := (hmem m).1 hm
    exact climb_of_home hhome hstructural
  cases container with
  | none =>
    have hfill := hemptied.fillable f hp (fun c hc => (free c hc).1) (h.climb_holder hp) hwaiting
      hdistinct
    obtain ⟨s', hs', hr⟩ := hemptied.fill hfill found.hierarchy.container
    exact ⟨moved, s', hmoved, hstart.trans hs', hr⟩
  | some c =>
    obtain ⟨hc, hne, hapart⟩ := free c rfl
    -- the old container has been let go by now, which nothing in the tree has noticed
    have htree := treeEq_emptied s p
    have happart := (htree.isAncestorOrSelf_eq f c p).trans hapart
    have hplain : (outer.recontained p p none []).container = none := by
      rw [recontained_container, if_pos rfl]
    obtain ⟨installed, hinstalled, hkept, hhomes⟩ :=
      installContainer_apply (htree.forest f) (hemptied.home?_of_before hp) hplain
        ((hemptied.contains_eq c).trans hc) hne happart
    have hnew := hemptied.install hkept hhomes
    have hfill := hnew.fillable f hp (fun c hc => (free c hc).1) (h.climb_holder hp) hwaiting
      hdistinct
    obtain ⟨s', hs', hr⟩ := hnew.fill hfill found.hierarchy.container
    exact ⟨moved, s', hmoved, hstart.trans ((bind_of_ok hinstalled _).trans hs'), hr⟩

/-- **How a change of container ends**: nothing has happened, or every view is where it belongs. -/
theorem setContainer_cases (h : s.Housed) (f : s.Forest) (p : ViewId) (container : Option ViewId) :
    (∃ e, setContainer p container s = .error e s) ∨
      ∃ outer moved s', s.home? p = some outer ∧
        (∀ c, container = some c → s.contains c = true) ∧ s.visualChildren? p = .ok moved ∧
        setContainer p container s = .ok () s' ∧
        s.Recontained s' p container moved := by
  rw [setContainer_eq]
  rcases view_cases p s with ⟨e, he⟩ | ⟨found, hp, hview⟩
  · exact Or.inl ⟨e, bind_of_error he _⟩
  · have houter := home?_of_get? hp
    rw [bind_of_ok hview]
    cases container with
    | none =>
      have hfree : ∀ c, (none : Option ViewId) = some c →
          s.contains c = true ∧ c ≠ p ∧ s.isAncestorOrSelf c p = false := by
        rintro c ⟨⟩
      obtain ⟨moved, s', hmoved, hs', hr⟩ := changeContainer_apply h f houter hfree
      refine Or.inr ⟨_, moved, s', houter, ?_, hmoved, hs', hr⟩
      rintro c ⟨⟩
    | some c =>
      rcases view_cases c s with ⟨e, he⟩ | ⟨inner, hc, hviewc⟩
      · exact Or.inl ⟨e, bind_of_error he _⟩
      · have hcontains : s.contains c = true := contains_iff.2 ⟨inner, hc⟩
        -- the checks of the program are what the change needs
        by_cases hspeaks : c = p ∨ s.isAncestorOrSelf c p = true
        · refine Or.inl ⟨.refused (.ownAncestor c p), (bind_of_ok hviewc _).trans ?_⟩
          show (if c = p ∨ s.isAncestorOrSelf c p = true then _ else _ : Operation Unit) s = _
          rw [if_pos hspeaks]
          rfl
        · obtain ⟨hne, hbelow⟩ := not_or.1 hspeaks
          have hfree : ∀ c', some c = some c' →
              s.contains c' = true ∧ c' ≠ p ∧ s.isAncestorOrSelf c' p = false := by
            rintro c' ⟨⟩
            exact ⟨hcontains, hne, eq_false_of_ne_true hbelow⟩
          obtain ⟨moved, s', hmoved, hs', hr⟩ := changeContainer_apply h f houter hfree
          refine Or.inr ⟨_, moved, s', houter, ?_, hmoved, (bind_of_ok hviewc _).trans ?_, hr⟩
          · rintro c' ⟨⟩
            exact hcontains
          · show (if c = p ∨ s.isAncestorOrSelf c p = true then _ else _ : Operation Unit) s = _
            rw [if_neg hspeaks]
            exact hs'

end Session

end AnchorLayout
