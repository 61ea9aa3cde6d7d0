import AnchorLayout.Proofs.Layout.Storing
/-!
# The rules of every view

  A view begins without rules, and whatever happens to them afterwards is an edit: an assignment, a
  clearing, a release, or a renaming of anchors.  So what is known of the rules after any edits is
  known of the rules of every view of every session.

  1. **Program** — every list of acts on a new session.
  2. **Specification** — `Session.Edited`: the rules of every view are what some edits leave.
  3. **Moves (`constraints?_setParent`)** — a move renames anchors, and does nothing else to rules.
  4. **The crux (`edited_of_acts`)** — nothing but edits touches rules.
-/

namespace AnchorLayout

open Operation

namespace Session

variable {s s' : Session} {u v child : ViewId} {store : ConstraintStore}

/-- The rules of a view. -/
def constraints? (s : Session) (v : ViewId) : Option ConstraintStore :=
  (s.views.get? v).map fun view => view.constraints

/-- Changes of a view in other fields leave its rules alone; the three facts below are cases of this
one. -/
theorem constraints?_modifyView (s : Session) (v u : ViewId) {f : View → View}
    (constraints : ∀ view, (f view).constraints = view.constraints) :
    (s.modifyView v f).constraints? u = s.constraints? u :=
  map_get?_modifyView constraints s v u

theorem constraints?_replace (s : Session) (v u : ViewId) (f : Hierarchy → Hierarchy) :
    (s.modifyView v fun view => view.updateHierarchy f).constraints? u = s.constraints? u :=
  constraints?_modifyView s v u fun _ => rfl

theorem constraints?_markDirty (s : Session) (v u : ViewId) :
    (s.markDirty v).constraints? u = s.constraints? u := rfl

/-- An edit, seen at the rules. -/
theorem constraints?_constrain (s : Session) (v u : ViewId)
    (F : ConstraintStore → ConstraintStore) : (s.constrain v F).constraints? u =
      if v = u then (s.constraints? u).map F else s.constraints? u := by
  rw [constraints?, get?_constrain]
  split
  · rw [Option.map_map, constraints?, Option.map_map]
    rfl
  · rfl

/-! ## Moves -/

theorem constraints?_detach (s : Session) (child u : ViewId) :
    (s.detach child).constraints? u = s.constraints? u :=
  map_get?_detach (fun _ _ => rfl) s child u

/-- The anchors of the view that has moved are renamed, twice; for every other view the renaming is
none. -/
theorem constraints?_settled (s : Session) (child : ViewId) (before : Hierarchy)
    (parent structural : Option ViewId) (u : ViewId) :
    ∃ f : Anchor → Anchor, (s.settled child before parent structural).constraints? u =
      (s.constraints? u).map fun store => store.mapAnchors f := by
  rw [constraints?, get?_settled]
  split
  · refine ⟨Anchor.between parent structural ∘
      Anchor.between before.structuralParent before.parent, ?_⟩
    rw [Option.map_map, constraints?, Option.map_map]
    refine congrFun (congrArg Option.map (funext fun view => ?_)) _
    exact ConstraintStore.mapAnchors_mapAnchors _ _ view.constraints
  · refine ⟨id, ?_⟩
    rw [funext ConstraintStore.mapAnchors_id, Option.map_id']
    rfl

/-- **A move** renames the anchors of rules, and does nothing else to them. -/
theorem constraints?_setParent (s : Session) (child : ViewId) (parent : Option ViewId)
    (u : ViewId) : ∃ f : Anchor → Anchor, ((setParent child parent).after s).constraints? u =
      (s.constraints? u).map fun store => store.mapAnchors f := by
  have hsame : (s.constraints? u).map (fun store => store.mapAnchors id) = s.constraints? u := by
    rw [funext ConstraintStore.mapAnchors_id, Option.map_id']
  rcases setParent_cases s child parent with h | ⟨-, h⟩ | ⟨before, -, h⟩ |
    ⟨before, p, target, -, -, -, h⟩
  · rw [h]
    exact ⟨id, hsame.symm⟩
  · rw [h, constraints?_detach]
    exact ⟨id, hsame.symm⟩
  · obtain ⟨f, hf⟩ := constraints?_settled ((s.detach child).unlink child) child before none none u
    refine ⟨f, ?_⟩
    rw [h, hf, unlink, constraints?_replace, constraints?_detach]
  · obtain ⟨f, hf⟩ := constraints?_settled ((s.detach child).attach child target p) child before
      (some p) (some target) u
    refine ⟨f, ?_⟩
    rw [h, hf, attach, constraints?_replace, constraints?_markDirty, constraints?_replace,
      constraints?_detach]

/-! ## Every list of acts -/

/-- **The rules of every view** are what some edits leave. -/
def Edited (s : Session) : Prop :=
  ∀ v store, s.constraints? v = some store → ∃ edits, store = ConstraintStore.afterEdits edits

/-- Edits of rules that are what some edits leave. -/
theorem exists_edits (e : StoreEdit) (h : ∃ edits, store = ConstraintStore.afterEdits edits) :
    ∃ edits, store.edit e = ConstraintStore.afterEdits edits := by
  obtain ⟨edits, rfl⟩ := h
  refine ⟨edits ++ [e], ?_⟩
  rw [ConstraintStore.afterEdits, ConstraintStore.afterEdits, List.foldl_append]
  rfl

/-- A new session has a view without rules. -/
theorem edited_new (options : Options) (issuer : Issuer) : (Session.new options issuer).Edited := by
  intro v store h
  rw [Session.new, constraints?_markDirty, constraints?, register, OrderedMap.get?_insert] at h
  split at h
  · cases h
    exact ⟨[], rfl⟩
  · cases h

/-- **Each step is an edit, or none.** A view that is registered begins without rules, and one that
is swept away has none any more. -/
theorem ruleInvariant_edited : RuleInvariant Edited where
  sub := by
    intro s s' h sub v store hstore
    obtain ⟨view, hview, hrules⟩ := Option.map_eq_some_iff.1 hstore
    exact h v store (Option.map_eq_some_iff.2 ⟨view, sub v view hview, hrules⟩)
  register := by
    intro s tag h v store hstore
    rw [constraints?, register, OrderedMap.get?_insert] at hstore
    split at hstore
    · cases hstore
      exact ⟨[], rfl⟩
    · exact h v store hstore
  touch := fun v _ h _ constraints u store hstore =>
    h u store ((constraints?_modifyView _ v u constraints).symm.trans hstore)
  reshape := fun v _ h _ u store hstore =>
    h u store ((constraints?_replace _ v u _).symm.trans hstore)
  move := by
    intro s child parent h u store hstore
    -- a move renames anchors, which is one more edit
    obtain ⟨f, hf⟩ := constraints?_setParent s child parent u
    obtain ⟨before, hbefore, rfl⟩ := Option.map_eq_some_iff.1 (hf.symm.trans hstore)
    exact exists_edits (.rename f) (h u before hbefore)
  edit := by
    intro s v e h _ u store hstore
    rw [constraints?_constrain] at hstore
    split at hstore
    · obtain ⟨before, hbefore, rfl⟩ := Option.map_eq_some_iff.1 hstore
      exact exists_edits e (h u before hbefore)
    · exact h u store hstore

/-- **The rules of every view**, after any acts on a new session, are what some edits leave. -/
theorem edited_of_acts (options : Options) (issuer : Issuer) (acts : List Act) :
    ((Session.new options issuer).afterActs acts).Edited :=
  ruleInvariant_edited.afterActs (edited_new options issuer) acts

/-- So they are orderly. -/
theorem Edited.orderly (h : s.Edited) (found : s.constraints? v = some store) : store.Orderly := by
  obtain ⟨edits, rfl⟩ := h v store found
  exact (ConstraintStore.holds_afterEdits edits).1

end Session

end AnchorLayout
