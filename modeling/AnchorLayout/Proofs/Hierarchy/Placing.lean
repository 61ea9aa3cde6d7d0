import AnchorLayout.Proofs.Hierarchy.Filling
/-!
# How operations on the hierarchy end

  Where everything is housed, these operations do one of two things: they are refused before
  anything has happened, or they go through.

  1. **Program** — `Session.setChrome`, `createChild`, `dock`.
  2. **Specification** — `setChrome_cases`, `createChild_cases`, `dock_cases`: which sessions they
     leave, and when they fail.
  3. **The crux (`Housed.not_below_landing`)** — a view is below its parent wherever it is rendered,
     so none of the places that it can be moved to under this parent is below the view.
-/

namespace AnchorLayout

open Operation

namespace Session

variable {s s' : Session} {u v p t child : ViewId} {home outer : Hierarchy}

/-! ## Below the parent -/

/-- A view is below the parent that it was given, wherever it is rendered. -/
theorem Housed.under_parent (h : s.Housed) (hv : s.home? v = some home)
    (hparent : home.parent = some p) (hp : s.home? p = some outer) : s.Under v p := by
  have hclimb := climb_of_home hv (h.placed hv hparent hp)
  rw [Hierarchy.landing] at hclimb
  cases hc : outer.container with
  | none =>
    rw [hc] at hclimb
    exact under_iff_climb.2 ⟨p, hclimb, below_refl s p⟩
  | some c =>
    obtain ⟨inner, hinner, -, -, hstructural⟩ := h.house hp hc
    simp only [hc] at hclimb
    split at hclimb
    · exact under_iff_climb.2 ⟨c, hclimb, (climb_of_home hinner hstructural).below⟩
    · exact under_iff_climb.2 ⟨p, hclimb, below_refl s p⟩

/-- **No place under the parent is below the view.** -/
theorem Housed.not_below_landing (h : s.Housed) (f : s.Forest) (hunder : s.Under v p)
    (hp : s.home? p = some outer) (isChrome : Bool) :
    ¬ s.Below (outer.landing v isChrome p) v := by
  have hcycle : ¬ s.Below p v := fun hbelow =>
    f.acyclic v (Relation.TransGen.trans_left hunder hbelow)
  rw [Hierarchy.landing]
  cases hc : outer.container with
  | none => exact hcycle
  | some c =>
    obtain ⟨inner, hinner, -, -, hstructural⟩ := h.house hp hc
    simp only
    split
    · next hinside =>
      intro hbelow
      rcases below_iff_eq_or_climb.1 hbelow with heq | ⟨q, hq, hqv⟩
      · exact hinside.2 heq
      · exact hcycle (climb_unique hq (climb_of_home hinner hstructural) ▸ hqv)
    · exact hcycle

/-! ## Chrome -/

/-- A change of kind that is one: the view is put under its parent again, if it has one. -/
theorem setChrome_apply {found : View} (hv : s.views.get? v = some found) (isChrome : Bool) :
    setChrome v isChrome s =
      if found.hierarchy.isChrome = isChrome then .ok () s
      else match found.hierarchy.parent with
        | some p => setParent v (some p) (s.rechromed v isChrome)
        | none => .ok () (s.rechromed v isChrome) := by
  refine (bind_of_ok (view_of_get? hv) _).trans ?_
  show (if found.hierarchy.isChrome ≠ isChrome then _ else _ : Operation Unit) s = _
  by_cases hsame : found.hierarchy.isChrome = isChrome
  · rw [if_neg (not_not_intro hsame), if_pos hsame]
    rfl
  · rw [if_pos hsame, if_neg hsame]
    refine (bind_of_ok (update_rechromed (contains_iff.2 ⟨found, hv⟩) isChrome) _).trans ?_
    cases found.hierarchy.parent <;> rfl

/-- A view that has changed its kind finds its new place under its parent. -/
theorem setParent_rechromed (h : s.Housed) (f : s.Forest) (hv : s.home? v = some home)
    (hparent : home.parent = some p) (hp : s.home? p = some outer) (isChrome : Bool) :
    ∃ s', setParent v (some p) (s.rechromed v isChrome) = .ok () s' ∧
      (s.rechromed v isChrome).Relinked s' v p (outer.landing v isChrome p) := by
  have htree := treeEq_rechromed s v isChrome
  have hrehomed := rehomed_rechromed hv isChrome
  have hunder : s.Under v p := h.under_parent hv hparent hp
  have hne : v ≠ p := by
    rintro rfl
    exact f.acyclic v hunder
  refine setParent_of_placed
    (placement?_eq_ok_iff.2 ⟨{ home with isChrome }, outer, ?_, ?_, rfl⟩) ?_ ?_
  · rw [hrehomed.homes, if_pos rfl]
  · rw [hrehomed.homes, if_neg hne, hp]
  · rw [htree.contains]
    exact h.contains_landing hp v isChrome
  · rw [htree.isAncestorOrSelf_eq f, ← Bool.not_eq_true, isAncestorOrSelf_iff f.acyclic]
    exact h.not_below_landing f hunder hp isChrome

/-- There is no place under a view that is gone. -/
theorem setParent_of_gone (gone : s.contains p = false) (child : ViewId) :
    ∃ e, setParent child (some p) s = .error e s := by
  have hnowhere (t : ViewId) (ht : s.placement? child p = .ok t) : False := by
    obtain ⟨-, outer, -, houter, -⟩ := placement?_eq_ok_iff.1 ht
    exact absurd (gone.symm.trans (contains_of_home houter)) Bool.false_ne_true
  rcases setParent_some_cases fun t ht => (hnowhere t ht).elim with he | ⟨t, -, -, ht, -⟩
  · exact he
  · exact (hnowhere t ht).elim

/-- **How a change of kind ends**: nothing has happened, or the view is of the other kind and where
it belongs now.  It fails afterwards only where its parent is gone. -/
theorem setChrome_cases (h : s.Housed) (f : s.Forest) (v : ViewId) (isChrome : Bool) :
    (∃ e, setChrome v isChrome s = .error e s) ∨ setChrome v isChrome s = .ok () s ∨
      ∃ before now s', s.Rehomed s' v before now ∧ Kept s s' ∧ now.isChrome = isChrome ∧
        now.parent = before.parent ∧
        (∀ p outer, now.parent = some p → s.home? p = some outer →
          now.structuralParent = some (outer.landing v now.isChrome p)) ∧
        (setChrome v isChrome s = .ok () s' ∨
          ∃ e p, setChrome v isChrome s = .error e s' ∧ before.parent = some p ∧
            s.contains p = false) := by
  rcases view_cases v s with ⟨e, he⟩ | ⟨found, hv, -⟩
  · exact Or.inl ⟨e, bind_of_error he _⟩
  · have hhome := home?_of_get? hv
    have hrehomed := rehomed_rechromed hhome isChrome
    have hkept := (treeEq_rechromed s v isChrome).kept
    rw [setChrome_apply hv]
    by_cases hsame : found.hierarchy.isChrome = isChrome
    · exact Or.inr (Or.inl (if_pos hsame))
    · simp only [if_neg hsame]
      refine Or.inr (Or.inr ?_)
      cases hparent : found.hierarchy.parent with
      | none =>
        refine ⟨_, _, _, hrehomed, hkept, rfl, rfl, fun p outer hp => ?_, Or.inl rfl⟩
        have hnone : none = some p := hparent.symm.trans hp
        cases hnone
      | some p =>
        cases hp : s.home? p with
        | none =>
          -- the parent has been swept away, so the view changes its kind and the move behind it
          -- fails
          have hgone : s.contains p = false := by
            rw [contains_eq_home, hp]
            rfl
          have hstill : (s.rechromed v isChrome).contains p = false := by
            rw [hrehomed.contains_eq]
            exact hgone
          obtain ⟨e, he⟩ := setParent_of_gone hstill v
          refine ⟨_, _, _, hrehomed, hkept, rfl, rfl, fun q outer hq hq' => ?_,
            Or.inr ⟨e, p, he, hparent, hgone⟩⟩
          obtain rfl : p = q := Option.some.inj (hparent.symm.trans hq)
          rw [hp] at hq'
          cases hq'
        | some outer =>
          obtain ⟨s', hs', hrelinked⟩ := setParent_rechromed h f hhome hparent hp isChrome
          have hmoved : s.Rehomed s' v found.hierarchy.home
              ({ found.hierarchy.home with isChrome }.linked p (outer.landing v isChrome p)) := by
            refine ⟨hhome, fun u => ?_, rfl, hrelinked.kept.nextId.trans hkept.nextId⟩
            rw [hrelinked.homes, hrehomed.homes]
            split <;> rfl
          refine ⟨_, _, s', hmoved, kept_trans hkept hrelinked.kept, rfl, hparent.symm,
            fun q outer' hq hq' => ?_, Or.inl hs'⟩
          obtain rfl : p = q := Option.some.inj hq
          obtain rfl : outer = outer' := Option.some.inj (hp.symm.trans hq')
          rfl

/-! ## A new child -/

/-- Nothing that is there is below the view that comes next. -/
theorem Forest.not_below_nextId (f : s.Forest) (ht : s.contains t = true) (tag : String) :
    (s.register tag).isAncestorOrSelf s.nextId t = false := by
  have hclimb : (s.register tag).Climb = s.Climb :=
    funext fun _ => funext fun _ => propext (f.climb_register tag)
  have hacyclic : (s.register tag).Acyclic := by
    intro v hv
    rw [Under, hclimb] at hv
    exact f.acyclic v hv
  rw [← Bool.not_eq_true, isAncestorOrSelf_iff hacyclic, Below, hclimb]
  intro hbelow
  rcases Relation.ReflTransGen.cases_tail hbelow with heq | ⟨w, -, hw⟩
  · rw [← heq] at ht
    exact ViewId.lt_irrefl _ (f.lt_nextId ht)
  · exact ViewId.lt_irrefl _ (f.parent_lt_nextId hw)

/-- **How the registration of a child ends**: nothing has happened, or the child is in its place. -/
theorem createChild_cases (h : s.Housed) (f : s.Forest) (p : ViewId) :
    (∃ e, createChild p s = .error e s) ∨ ∃ s', createChild p s = .ok s.nextId s' := by
  rcases view_cases p s with ⟨e, he⟩ | ⟨found, hp, hview⟩
  · exact Or.inl ⟨e, bind_of_error he _⟩
  · have houter := home?_of_get? hp
    have hne : s.nextId ≠ p := by
      intro heq
      exact ViewId.lt_irrefl _ (heq ▸ f.lt_nextId (contains_of_home houter))
    have hlanding := h.contains_landing houter s.nextId false
    have hplaced : (s.register "div").placement? s.nextId p =
        .ok (found.hierarchy.home.landing s.nextId false p) := by
      refine placement?_eq_ok_iff.2 ⟨Hierarchy.detached, found.hierarchy.home, ?_, ?_, rfl⟩
      · rw [home?_register, if_pos rfl]
      · rw [home?_register, if_neg hne, houter]
    have hknown :
        (s.register "div").contains (found.hierarchy.home.landing s.nextId false p) = true :=
      (contains_register s "div" _).2 (Or.inr hlanding)
    obtain ⟨s', hs', -⟩ := setParent_of_placed hplaced hknown (f.not_below_nextId hlanding "div")
    have hcreate : create "div" s = .ok s.nextId (s.register "div") := rfl
    refine Or.inr ⟨s', (bind_of_ok hview _).trans ((bind_of_ok hcreate _).trans ?_)⟩
    exact bind_of_ok hs' _

/-! ## Docking -/

/-- Rules stored on a view that is there. -/
theorem storeThrough_run (prepared : List (Attribute × List Constraint))
    (hv : s.contains v = true) :
    ∃ s', (prepared.forM fun p => do store v p.1 ((← get).throughContainer v p.2)) s = .ok () s' ∧
      TreeEq s s' ∧ ∀ u, s'.home? u = s.home? u := by
  induction prepared generalizing s with
  | nil => exact ⟨s, rfl, TreeEq.refl s, fun _ => rfl⟩
  | cons part rest ih =>
    obtain ⟨attr, batch⟩ := part
    let stored := (s.modifyView v fun view => view.updateConstraints fun store =>
      (store.assign attr (s.throughContainer v batch)).1).markDirty v
    have hstore : (do store v attr ((← get).throughContainer v batch)) s = .ok () stored := by
      show store v attr (s.throughContainer v batch) s = _
      have hupdate := update_apply v (fun view => view.updateConstraints fun store =>
        (store.assign attr (s.throughContainer v batch)).1) s
      rw [if_pos hv] at hupdate
      exact bind_of_ok hupdate _
    have htree : TreeEq s stored := treeEq_edit s v fun _ => rfl
    have hhomes (u : ViewId) : stored.home? u = s.home? u :=
      congrArg (Option.map Hierarchy.home) (place?_edit s v u fun _ => rfl)
    obtain ⟨s', hs', htree', hhomes'⟩ := ih ((htree.contains v).trans hv)
    exact ⟨s', (bind_of_ok hstore _).trans hs', htree.trans htree',
      fun u => (hhomes' u).trans (hhomes u)⟩

/-- The parent that a docked view gets, if there is one. -/
def dockedUnder? (s : Session) (target : DockTarget) : Option ViewId :=
  if target.dock.besides then (s.home? target.view).bind Hierarchy.parent else some target.view

/-- The parent of a docked view is found without a change of the session, or it is not found. -/
theorem dockParent_cases (s : Session) (v : ViewId) (target : DockTarget) :
    (∃ e, dockParent v target s = .error e s) ∨
      ∃ parent, dockParent v target s = .ok parent s ∧ s.dockedUnder? target = some parent := by
  rcases view_cases target.view s with ⟨e, he⟩ | ⟨found, hv, hview⟩
  · exact Or.inl ⟨e, bind_of_error he _⟩
  · have hparent : (s.home? target.view).bind Hierarchy.parent = found.hierarchy.parent := by
      rw [home?_of_get? hv]
      rfl
    rw [dockParent, bind_of_ok hview, dockedUnder?, hparent]
    cases target.dock.besides with
    | false => exact Or.inr ⟨target.view, rfl, rfl⟩
    | true =>
      cases found.hierarchy.parent with
      | none => exact Or.inl ⟨_, rfl⟩
      | some parent => exact Or.inr ⟨parent, rfl, rfl⟩

/-- A view moved to where it is docked, and its rules stored. -/
def settleDocked (v parent : ViewId) (prepared : List (Attribute × List Constraint)) :
    Operation Unit := do
  setParent v (some parent)
  prepared.forM fun p => do store v p.1 ((← get).throughContainer v p.2)

/-- **Docking**, by its checks in their order: not to itself, not into what is below it, and rules
that can be worked out. -/
theorem dock_apply {target : DockTarget} {parent : ViewId} (hv : s.contains v = true)
    (hparent : dockParent v target s = .ok parent s) :
    dock v target s =
      if v = target.view ∨ s.isAncestorOrSelf v parent = true then
        .error (.refused (.ownSubtree v)) s
      else match dockRules? target s.currentAnimation with
        | .ok prepared => settleDocked v parent prepared s
        | .error e => .error e s := by
  obtain ⟨found, hfound⟩ := contains_iff.1 hv
  refine (bind_of_ok (view_of_get? hfound) _).trans ((bind_of_ok hparent _).trans ?_)
  show (if v = target.view ∨ s.isAncestorOrSelf v parent = true then _ else _ :
    Operation Unit) s = _
  by_cases hown : v = target.view ∨ s.isAncestorOrSelf v parent = true
  · rw [if_pos hown, if_pos hown]
    rfl
  · rw [if_neg hown, if_neg hown]
    cases hrules : dockRules? target s.currentAnimation with
    | error e => exact bind_of_error (ofExcept_of_error hrules s) _
    | ok prepared => exact bind_of_ok (ofExcept_of_ok hrules s) _

/-- **How docking ends**: nothing has happened, or the view has moved and its rules are stored. -/
theorem dock_cases (h : s.Housed) (v : ViewId) (target : DockTarget) :
    (∃ e, dock v target s = .error e s) ∨
      ∃ parent moved s', s.dockedUnder? target = some parent ∧
        setParent v (some parent) s = .ok () moved ∧
        dock v target s = .ok () s' ∧ TreeEq moved s' ∧ ∀ u, s'.home? u = moved.home? u := by
  rcases view_cases v s with ⟨e, he⟩ | ⟨found, hfound, hview⟩
  · exact Or.inl ⟨e, bind_of_error he _⟩
  · have hv : s.contains v = true := contains_iff.2 ⟨found, hfound⟩
    rcases dockParent_cases s v target with ⟨e, he⟩ | ⟨parent, hparent, hunder⟩
    · exact Or.inl ⟨e, (bind_of_ok hview _).trans (bind_of_error he _)⟩
    · rw [dock_apply hv hparent]
      split
      · exact Or.inl ⟨_, rfl⟩
      · cases dockRules? target s.currentAnimation with
        | error e => exact Or.inl ⟨e, rfl⟩
        | ok prepared =>
          rcases setParent_some_cases fun t ht => h.contains_placement ht with
            ⟨e, he⟩ | ⟨t, moved, hmoved, hplaced, hrelinked⟩
          · exact Or.inl ⟨e, bind_of_error he _⟩
          · obtain ⟨home, outer, hhome, -, -⟩ := placement?_eq_ok_iff.1 hplaced
            have hthere : moved.contains v = true := by
              rw [(hrelinked.rehomed hhome).contains_eq]
              exact hv
            obtain ⟨s', hs', htree, hhomes⟩ := storeThrough_run prepared hthere
            exact Or.inr
              ⟨parent, moved, s', hunder, hmoved, (bind_of_ok hmoved _).trans hs', htree, hhomes⟩

end Session

end AnchorLayout
