import AnchorLayout.Proofs.Hierarchy.Placing
import AnchorLayout.Proofs.Layout.WellFormed
/-!
# Docking by hand

  A dock prepares all of its rules before the view moves, and takes their anchors through the
  container of the new place when they are stored.  Moving the view first and then assigning every
  attribute of the dock comes to the same.

  1. **Program** — `Session.dock`, and `Session.assignAll`, a list of assignments.
  2. **Specification** — `SameBasis s s'`: what the rules of an assignment are made from has not
     changed, which is the animation in force and the views that there are.
  3. **One assignment (`set_apply`)** — what is checked and stored where the anchors are known.
  4. **The crux (`assignAll_apply`)** — neither the move nor an assignment changes the basis of those
     that follow, so it makes no difference when the rules are prepared.
-/

namespace AnchorLayout

open Operation

namespace Session

variable {s s' : Session} {v : ViewId} {target : DockTarget} {parent : ViewId}

/-! ## The basis of an assignment -/

/-- The animations in force and the views that there are have not changed. -/
structure SameBasis (s s' : Session) : Prop where
  animations : s'.animations = s.animations
  contains : ∀ u, s'.contains u = s.contains u

/-- The changes that leave the basis of assignments alone. -/
def keepsBasis : Change where
  Allows := SameBasis
  refl := fun _ => ⟨rfl, fun _ => rfl⟩
  trans := fun h h' =>
    ⟨h'.animations.trans h.animations, fun u => (h'.contains u).trans (h.contains u)⟩

/-- Moves and edits change neither. -/
theorem framing_keepsBasis : keepsBasis.Framing where
  mark := fun _ _ => ⟨rfl, fun _ => rfl⟩
  write := fun s v f => ⟨rfl, fun u => contains_modifyView s v u f⟩

/-- The animation that rules are stored with is the same. -/
theorem SameBasis.currentAnimation (h : SameBasis s s') :
    s'.currentAnimation = s.currentAnimation := congrArg List.head? h.animations

/-- An anchor that was known is known. -/
theorem SameBasis.knowsAnchors (h : SameBasis s s') {e : Expr} (known : s.KnowsAnchors e) :
    s'.KnowsAnchors e := fun a ha => (h.contains a.view).trans (known a ha)

/-! ## One assignment -/

/-- Rules can always be stored on a view that is there. -/
theorem store_run (hv : s.contains v = true) (attr : Attribute) (batch : List Constraint) :
    ∃ s', store v attr batch s = .ok () s' ∧ SameBasis s s' := by
  have hstore : store v attr batch s = .ok () _ :=
    bind_of_ok ((update_apply v _ s).trans (if_pos hv)) _
  have hbasis : SameBasis s ((store v attr batch).after s) :=
    framing_keepsBasis.placing.store v attr batch s
  rw [after_of_ok hstore] at hbasis
  exact ⟨_, hstore, hbasis⟩

/-- Parts that all have rules are stored as rules. -/
theorem forM_storePart_some (v : ViewId) (prepared : List (Attribute × List Constraint)) :
    (prepared.map fun p => (p.1, some p.2)).forM (storePart v) = storeAll v prepared := by
  induction prepared with
  | nil => rfl
  | cons p rest ih => exact congrArg (store v p.1 p.2 >>= fun _ => ·) ih

/-- **An assignment of a value** whose anchors are known stores what the value expands to, through
the container. -/
theorem set_apply {attr : Attribute} {e : Expr} {batch : List Constraint}
    (hv : s.contains v = true) (known : s.KnowsAnchors e)
    (expands : (ConstraintInput.value e).expand attr s.currentAnimation = .ok batch) :
    set v attr (.value e) s = store v attr (s.throughContainer v batch) s := by
  obtain ⟨found, hfound⟩ := contains_iff.1 hv
  have hprepared : s.prepare? v attr (.value e) = .ok (s.throughContainer v batch) := by
    refine prepare?_eq_ok_iff.2 ⟨batch, expands, fun c hc => ?_, rfl⟩
    rw [ConstraintInput.eq_of_expand_value expands] at hc
    rw [List.mem_singleton.1 hc]
    exact known
  refine (bind_of_ok (view_of_get? hfound) _).trans ?_
  exact bind_of_ok (ofExcept_of_ok hprepared s) _

/-! ## All assignments -/

/-- Some attributes assigned, one after the other. -/
def assignAll (v : ViewId) (assignments : List (Attribute × Expr)) : Operation Unit :=
  assignments.forM fun p => set v p.1 (.value p.2)

/-- The rules of some assignments. -/
def rulesOf? (assignments : List (Attribute × Expr)) (animation : Option Animation) :
    Except Error (List (Attribute × List Constraint)) :=
  assignments.mapM fun (attr, e) => do
    return (attr, ← (ConstraintInput.value e).expand attr animation)

/-- The rule of an assignment. -/
def ruleOf (animation : Option Animation) (p : Attribute × Expr) : Constraint :=
  ⟨p.1, .equal, p.2, none, animation⟩

/-- **What is prepared** for some assignments: one rule for each, if its attribute may be given. -/
theorem rulesOf?_eq_ok {assignments : List (Attribute × Expr)} {animation : Option Animation}
    {prepared : List (Attribute × List Constraint)}
    (h : rulesOf? assignments animation = .ok prepared) :
    prepared = assignments.map (fun p => (p.1, [ruleOf animation p])) ∧
      ∀ p ∈ assignments, p.1.isSettable = true := by
  have hall := mapM_eq_ok_iff.1 h
  clear h
  induction hall with
  | nil => exact ⟨rfl, List.forall_mem_nil _⟩
  | cons hpart _ ih =>
    obtain ⟨batch, hbatch, hpair⟩ := except_bind_eq_ok.1 hpart
    cases hpair
    obtain ⟨rfl, hsettable⟩ := ih
    rw [ConstraintInput.eq_of_expand_value hbatch]
    exact ⟨rfl, List.forall_mem_cons.2 ⟨(ConstraintInput.made_of_expand hbatch).1, hsettable⟩⟩

/-- **Assignments** do what storing their rules does, which may have been prepared before. -/
theorem assignAll_apply {assignments : List (Attribute × Expr)} {animation : Option Animation}
    {prepared : List (Attribute × List Constraint)}
    (rules : rulesOf? assignments animation = .ok prepared) (hv : s.contains v = true)
    (current : s.currentAnimation = animation) (known : ∀ p ∈ assignments, s.KnowsAnchors p.2) :
    assignAll v assignments s =
      (prepared.forM fun p => do store v p.1 ((← get).throughContainer v p.2)) s := by
  have hall := mapM_eq_ok_iff.1 rules
  clear rules
  induction hall generalizing s with
  | nil => rfl
  | @cons p part rest parts hpart _ ih =>
    obtain ⟨attr, e⟩ := p
    obtain ⟨batch, hbatch, hpair⟩ := except_bind_eq_ok.1 hpart
    cases hpair
    rw [← current] at hbatch
    have hset := set_apply hv (known _ List.mem_cons_self) hbatch
    obtain ⟨s₁, hstore, hbasis⟩ := store_run hv attr (s.throughContainer v batch)
    have hrest := ih ((hbasis.contains v).trans hv) (hbasis.currentAnimation.trans current)
      fun q hq => hbasis.knowsAnchors (known q (List.mem_cons_of_mem _ hq))
    have hstored : (do store v attr ((← get).throughContainer v batch)) s = .ok () s₁ := hstore
    have hfirst : assignAll v ((attr, e) :: rest) s = assignAll v rest s₁ :=
      bind_of_ok (hset.trans hstore) _
    rw [hfirst, hrest]
    exact (bind_of_ok hstored fun _ =>
      parts.forM fun p => do store v p.1 ((← get).throughContainer v p.2)).symm

/-! ## Docks -/

/-- An anchor on the reference is known, as the reference is. -/
theorem knowsAnchors_anchor (hview : s.contains target.view = true) (attr : Attribute) :
    s.KnowsAnchors (target.anchor attr) := by
  intro a ha
  rwa [List.mem_singleton.1 ha]

/-- **The anchors of a dock** are on the reference, or are those of its modifier. -/
theorem knowsAnchors_of_mem_expand (hview : s.contains target.view = true)
    (modifier : ∀ op e, target.modifier = some (op, e) → s.KnowsAnchors e)
    {p : Attribute × Expr} (hp : p ∈ target.expand) : s.KnowsAnchors p.2 := by
  have hanchor := knowsAnchors_anchor hview
  -- the modifier stands behind an anchor on the reference
  have hoffset (attr : Attribute) (invert : Bool) : s.KnowsAnchors (target.offset attr invert) := by
    unfold DockTarget.offset
    split
    · exact hanchor attr
    · next op e hmodifier =>
      intro a ha
      rcases List.mem_append.1 ha with ha | ha
      · exact hanchor attr a ha
      · exact modifier op e hmodifier a ha
  have hsibling (edge source first second : Attribute) (invert : Bool)
      (hp : p ∈ target.sibling edge source invert first second) : s.KnowsAnchors p.2 := by
    rcases List.mem_cons.1 hp with rfl | hp
    · exact hoffset source invert
    · rcases List.mem_cons.1 hp with rfl | hp
      · exact hanchor first
      · rw [List.mem_singleton.1 hp]
        exact hanchor second
  unfold DockTarget.expand at hp
  split at hp
  · exact hsibling _ _ _ _ _ hp
  · exact hsibling _ _ _ _ _ hp
  · exact hsibling _ _ _ _ _ hp
  · exact hsibling _ _ _ _ _ hp
  · obtain ⟨attr, -, rfl⟩ := List.mem_map.1 hp
    exact hoffset attr _

/-- **What has happened when a dock succeeds**: the reference is there and gives a parent, the rules
could be prepared, the view has moved, and they have been stored. -/
theorem dock_eq_ok (docked : dock v target s = .ok () s') :
    s.contains v = true ∧ s.contains target.view = true ∧
      ∃ parent prepared moved, s.dockedUnder? target = some parent ∧
        rulesOf? target.expand s.currentAnimation = .ok prepared ∧
        setParent v (some parent) s = .ok () moved ∧
        (prepared.forM fun p => do store v p.1 ((← get).throughContainer v p.2)) moved =
          .ok () s' := by
  obtain ⟨found, s₀, hview, -⟩ := bind_eq_ok docked
  have hfound := (view_eq_ok hview).2
  have hv : s.contains v = true := contains_iff.2 ⟨found, hfound⟩
  rcases dockParent_cases s v target with ⟨e, he⟩ | ⟨parent, hparent, hunder⟩
  · have hfail : dock v target s = .error e s :=
      (bind_of_ok (view_of_get? hfound) _).trans (bind_of_error he _)
    rw [hfail] at docked
    cases docked
  · have hreference : s.contains target.view = true := by
      obtain ⟨reference, s₁, hview, -⟩ := bind_eq_ok hparent
      exact contains_iff.2 ⟨reference, (view_eq_ok hview).2⟩
    rw [dock_apply hv hparent] at docked
    split at docked
    · cases docked
    · split at docked
      · next prepared hprepared =>
        obtain ⟨_, moved, hmoved, hstored⟩ := bind_eq_ok docked
        exact ⟨hv, hreference, parent, prepared, moved, hunder, hprepared, hmoved, hstored⟩
      · cases docked

/-- **Docking is a move and a list of assignments**: where a dock succeeds, and the views of its
modifier are registered, the move under the parent of the dock and the assignments of the dock after
it succeed one by one, and leave the same session. -/
theorem dock_by_hand (v : ViewId) (target : DockTarget) (s s' : Session)
    (registered : ∀ op e, target.modifier = some (op, e) →
      ∀ a ∈ e.anchors, s.contains a.view = true)
    (docked : dock v target s = .ok () s') :
    ∃ parent, s.dockedUnder? target = some parent ∧
      (do
        setParent v (some parent)
        target.expand.forM fun p => set v p.1 (.value p.2)) s = .ok () s' := by
  obtain ⟨hv, hreference, parent, prepared, moved, hunder, hprepared, hmoved, hstored⟩ :=
    dock_eq_ok docked
  have hbasis : SameBasis s ((setParent v (some parent)).after s) :=
    framing_keepsBasis.setParent v (some parent) s
  rw [after_of_ok hmoved] at hbasis
  have hassigned := assignAll_apply hprepared ((hbasis.contains v).trans hv)
    hbasis.currentAnimation fun p hp =>
      hbasis.knowsAnchors (knowsAnchors_of_mem_expand hreference registered hp)
  exact ⟨parent, hunder, (bind_of_ok hmoved _).trans (hassigned.trans hstored)⟩

/-- A view with a container, and another one that has rules already, under an animation. -/
def someRooms : List Call :=
  [.request 1 (.createChild ⟨1⟩), .request 1 (.create "div"),
    .request 1 (.setContainer ⟨2⟩ (some ⟨3⟩)), .request 1 (.createChild ⟨1⟩),
    .request 1 (.createChild ⟨4⟩), .request 1 (.set ⟨5⟩ .left (.value (.anchor ⟨⟨4⟩, .left⟩))),
    .request 1 (.set ⟨5⟩ .width (.value (.num (.ofNat 20)))),
    .act (.enter ⟨some (.ofNat 1), none, none, none, none, none⟩)]

/-- At the corner of the view with a container, away from it by the width of another one. -/
def someDock : DockTarget := ⟨⟨2⟩, .topLeft, some (.add, .anchor ⟨⟨4⟩, .width⟩)⟩

/-- The dock renames its own anchors for the container of the view, and so do the assignments by
hand. -/
theorem dock_by_hand_of_someDock :
    let s := (Session.new .default "").afterCalls someRooms
    (∀ op e, someDock.modifier = some (op, e) → ∀ a ∈ e.anchors, s.contains a.view = true) ∧
      ∃ s', dock ⟨5⟩ someDock s = .ok () s' ∧
        (do
          setParent ⟨5⟩ (some ⟨2⟩)
          someDock.expand.forM fun p => set ⟨5⟩ p.1 (.value p.2)) s = .ok () s' := by
  intro s
  have registered : ∀ op e, someDock.modifier = some (op, e) →
      ∀ a ∈ e.anchors, s.contains a.view = true := by
    intro op e h
    cases h
    decide +kernel
  have hok : ((dock ⟨5⟩ someDock).answer s).isOk = true := by decide +kernel
  obtain ⟨_, s', hdock⟩ := Operation.exists_ok_of_isOk hok
  obtain ⟨parent, hparent, hmanual⟩ := dock_by_hand ⟨5⟩ someDock s s' registered hdock
  cases hparent
  exact ⟨registered, s', hdock, hmanual⟩

end Session

end AnchorLayout
