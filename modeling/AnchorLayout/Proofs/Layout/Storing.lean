import AnchorLayout.Proofs.Constraint.Edits
import AnchorLayout.Proofs.Constraint.Renaming
import AnchorLayout.Proofs.Layout.Docking
/-!
# Stored rules

  Whatever a request does to the rules of a view comes down to a few edits: a batch is assigned that
  has gone through the container of the view, an attribute is cleared, or all rules are released.
  Moves rename anchors, and nothing else touches rules.

  1. **Program** — the requests that assign, and docks.
  2. **Specification** — `Session.Passes s v e`: the edit is one that a request makes of the view;
     `Change.Storing`: the kinds of change that hold those, and the steps that leave rules alone.
  3. **Parts (`Storing.storeParts`)** — none of the parts that are stored together moves the view,
     so they may all have been prepared at the beginning.
  4. **The crux (`RuleInvariant.afterActs`)** — what is to hold of the rules and places of all
     views, after any acts, is proved move by move and edit by edit.
-/

namespace AnchorLayout

open Operation

namespace Session

variable {s s' : Session} {u v : ViewId} {attr : Attribute} {input : ConstraintInput}
  {batch : List Constraint} {part : Attribute × Option (List Constraint)}
  {F : ConstraintStore → ConstraintStore}

/-! ## Through the container -/

/-- What happens to the anchors of rules that are assigned to a view. -/
def through (s : Session) (v : ViewId) : Anchor → Anchor :=
  ((s.place? v).map fun h => Anchor.between h.parent h.structuralParent).getD id

/-- The renaming for a view that is there: from its parent to what it is rendered under. -/
theorem through_of_get? {view : View} (h : s.views.get? v = some view) :
    s.through v = Anchor.between view.hierarchy.parent view.hierarchy.structuralParent := by
  rw [through, place?, h]
  rfl

/-- **Going through the container** renames anchors in every rule of the batch, and nothing
else. -/
theorem throughContainer_eq (s : Session) (v : ViewId) (batch : List Constraint) :
    s.throughContainer v batch = batch.map fun c => c.mapAnchors (s.through v) := by
  have hid := Constraint.map_mapAnchors_id batch
  cases hv : s.views.get? v with
  | none =>
    rw [through, place?, throughContainer, hv]
    exact hid.symm
  | some view =>
    rw [through_of_get? hv]
    simp only [throughContainer, hv]
    cases view.hierarchy.parent with
    | none => exact hid.symm
    | some parent =>
      cases view.hierarchy.structuralParent with
      | none => exact hid.symm
      | some structural =>
        by_cases heq : parent = structural
        · subst heq
          rw [Anchor.between_self, hid]
          exact if_neg (not_not_intro rfl)
        · exact if_pos heq

/-! ## Edited rules -/

/-- The rules of a view edited, and the view marked. -/
def constrain (s : Session) (v : ViewId) (f : ConstraintStore → ConstraintStore) : Session :=
  (s.modifyView v fun view => view.updateConstraints f).markDirty v

/-- **What an edit does**, view by view. -/
theorem get?_constrain (s : Session) (v u : ViewId) (f : ConstraintStore → ConstraintStore) :
    (s.constrain v f).views.get? u =
      if v = u then (s.views.get? u).map fun view => view.updateConstraints f
      else s.views.get? u := get?_modifyView s v u _

/-- **Anchors of a view renamed**: its rules are edited, or the renaming would change none of them. -/
theorem rebaseBetween_cases (s : Session) (v : ViewId) (source target : Option ViewId) :
    s.rebaseBetween v source target =
        s.constrain v (fun store => store.mapAnchors (Anchor.between source target)) ∨
      s.rebaseBetween v source target = s ∧ ∀ view, s.views.get? v = some view →
        view.constraints.mapAnchors (Anchor.between source target) = view.constraints := by
  have hid (h : Anchor.between source target = id) : ∀ view, s.views.get? v = some view →
      view.constraints.mapAnchors (Anchor.between source target) = view.constraints :=
    fun view _ => h ▸ ConstraintStore.mapAnchors_id view.constraints
  cases source with
  | none => exact Or.inr ⟨rfl, hid rfl⟩
  | some a =>
    cases target with
    | none => exact Or.inr ⟨rfl, hid rfl⟩
    | some b =>
      by_cases hab : a = b
      · subst hab
        exact Or.inr ⟨if_neg (not_not_intro rfl), hid (Anchor.between_self _)⟩
      · have hmoved : s.rebaseBetween v (some a) (some b) = s.rebaseAnchors v a b := if_pos hab
        rw [hmoved, rebaseAnchors]
        cases hv : s.views.get? v with
        | none => exact Or.inr ⟨rfl, nofun⟩
        | some view =>
          -- the program skips rules that do not mention the first view, which a renaming would
          -- leave alone
          by_cases hm : view.constraints.mentions a = true
          · exact Or.inl (if_pos hm)
          · refine Or.inr ⟨if_neg hm, fun found hfound => ?_⟩
            cases hfound
            have hfree := ConstraintStore.mentions_eq_false_iff.1 (Bool.not_eq_true _ ▸ hm)
            exact ConstraintStore.mapAnchors_of_fixed fun c hc an han =>
              Anchor.rename_of_ne (hfree c hc an han)

/-- A renaming is an edit of one view, also where the program has seen that there is nothing to
rename. -/
theorem get?_rebaseBetween (s : Session) (v : ViewId) (source target : Option ViewId) (u : ViewId) :
    (s.rebaseBetween v source target).views.get? u =
      if v = u then (s.views.get? u).map fun view => view.updateConstraints fun store =>
        store.mapAnchors (Anchor.between source target)
      else s.views.get? u := by
  rcases rebaseBetween_cases s v source target with h | ⟨h, hkept⟩
  · rw [h, get?_constrain]
  · rw [h]
    split
    · next hu =>
      subst hu
      cases hv : s.views.get? v with
      | none => rfl
      | some view =>
        have hview : view.updateConstraints
            (fun store => store.mapAnchors (Anchor.between source target)) = view := by
          rw [ViewOf.updateConstraints, hkept view hv]
        exact congrArg some hview.symm
    · rfl

theorem place?_constrain (s : Session) (x u : ViewId) :
    (s.constrain x F).place? u = s.place? u := place?_edit s x u fun _ => rfl

theorem contains_constrain (s : Session) (x u : ViewId) :
    (s.constrain x F).contains u = s.contains u := by
  rw [contains_eq, contains_eq, place?_constrain]

/-- An edit of rules leaves the place of every view as it is. -/
theorem through_constrain (s : Session) (x u : ViewId) :
    (s.constrain x F).through u = s.through u := by
  rw [through, through, place?_constrain]

/-- The two steps of an edit, a change and a mark; on a view that is not there they do nothing. -/
theorem after_update_mark (s : Session) (v : ViewId) (f : ConstraintStore → ConstraintStore) :
    (do update v fun view => view.updateConstraints f; modify fun s => s.markDirty v :
      Operation Unit).after s = if s.contains v then s.constrain v f else s := by
  have hupdate := update_apply v (fun view => view.updateConstraints f) s
  rw [after_bind, hupdate]
  by_cases hc : s.contains v = true
  · simp only [hc, if_true]
    rfl
  · simp only [hc, Bool.false_eq_true, if_false]

/-- The last of the two renamings of a move is from the new parent to the new container. -/
theorem get?_settled (s : Session) (child : ViewId) (before : Hierarchy)
    (parent structural : Option ViewId) (u : ViewId) :
    (s.settled child before parent structural).views.get? u =
      if child = u then (s.views.get? u).map fun view => view.updateConstraints fun store =>
        (store.mapAnchors (Anchor.between before.structuralParent before.parent)).mapAnchors
          (Anchor.between parent structural)
      else s.views.get? u := by
  rw [settled, get?_rebaseBetween, get?_rebaseBetween]
  split
  · rw [Option.map_map]
    rfl
  · rfl

/-! ## What requests store -/

/-- **An edit that a request makes of the rules of a view**: what it assigns has gone through the
container.  Renaming is left to moves. -/
def Passes (s : Session) (v : ViewId) : StoreEdit → Prop
  | .assign a => ∃ rules, a.batch = s.throughContainer v rules
  | .clear _ | .release => True
  | .rename _ => False

/-- **A part that may be stored**: it clears its attribute, or has rules for it that have gone
through the container. -/
def Storable (s : Session) (v : ViewId) (part : Attribute × Option (List Constraint)) : Prop :=
  ∀ batch, part.2 = some batch → part.1.isSettable = true ∧
    ∃ rules, batch = s.throughContainer v rules ∧ ∀ c ∈ rules, c.target = part.1

theorem storable_none (attr : Attribute) : s.Storable v (attr, none) := nofun

/-- Rules that go through the container here may be stored here. -/
theorem storable_some {rules : List Constraint} (settable : attr.isSettable = true)
    (on_target : ∀ c ∈ rules, c.target = attr) :
    s.Storable v (attr, some (s.throughContainer v rules)) := by
  rintro _ ⟨⟩
  exact ⟨settable, rules, rfl, on_target⟩

/-- What has been prepared for a view may be stored on it. -/
theorem storable_of_prepare? (h : s.prepare? v attr input = .ok batch) :
    s.Storable v (attr, some batch) := by
  obtain ⟨rules, hexpand, -, rfl⟩ := prepare?_eq_ok_iff.1 h
  exact storable_some (ConstraintInput.made_of_expand hexpand).1 fun c hc =>
    ConstraintInput.target_of_expand hexpand hc

/-- So may a part, whether it has rules or clears. -/
theorem storable_of_preparePart? {p : Attribute × ConstraintInput}
    (h : s.preparePart? v p = .ok part) : s.Storable v part := by
  unfold preparePart? at h
  split at h
  · cases h
    exact storable_none _
  · obtain ⟨rules, hrules, hpair⟩ := except_bind_eq_ok.1 h
    cases hpair
    exact storable_of_prepare? hrules

/-- Where the place of the view is the same, the same parts may be stored. -/
theorem Storable.congr (h : s.Storable v part) (same : s'.through v = s.through v) :
    s'.Storable v part := by
  intro batch hbatch
  obtain ⟨settable, rules, rfl, on_target⟩ := h batch hbatch
  refine ⟨settable, rules, ?_, on_target⟩
  rw [throughContainer_eq, throughContainer_eq, same]

/-- **A part is one edit**, of a view that is there. -/
theorem Storable.exists_edit (h : s.Storable v part) : ∃ e, s.Passes v e ∧
    (storePart v part).after s =
      if s.contains v then s.constrain v (fun store => store.edit e) else s := by
  obtain ⟨attr, prepared⟩ := part
  cases prepared with
  | none => exact ⟨.clear attr, trivial, after_update_mark s v _⟩
  | some batch =>
    obtain ⟨settable, rules, rfl, on_target⟩ := h batch rfl
    have hbatch : ∀ c ∈ s.throughContainer v rules, c.target = attr := by
      rw [throughContainer_eq]
      exact List.forall_mem_map.2 on_target
    exact ⟨.assign ⟨attr, _, settable, hbatch⟩, ⟨rules, rfl⟩, after_update_mark s v _⟩

/-- Storing does not move a view, so the parts behind it may be stored as well. -/
theorem through_storePart (h : s.Storable v part) :
    ((storePart v part).after s).through u = s.through u := by
  obtain ⟨e, -, hafter⟩ := h.exists_edit
  rw [hafter]
  split
  · exact through_constrain s v u
  · rfl

end Session

/-- **A storing kind of change** allows these edits, and the steps that leave rules alone. -/
structure Change.Storing (change : Change) : Prop
    extends Change.Quiet change, Change.Moving change where
  suspended : ∀ c, Only change (Session.suspend c)
  edit : ∀ (s : Session) v e, s.Passes v e →
    change.Allows s (s.constrain v fun store => store.edit e)

namespace Change.Storing

open Session

variable {change : Change} (h : change.Storing) {s : Session} {v : ViewId}
  {part : Attribute × Option (List Constraint)}
include h

/-- **One part** that may be stored is one edit, or nothing where the view is not there. -/
theorem storePart (ready : s.Storable v part) :
    change.Allows s ((Session.storePart v part).after s) := by
  obtain ⟨e, hpasses, hafter⟩ := ready.exists_edit
  rw [hafter]
  split
  · exact h.edit s v e hpasses
  · exact change.refl s

/-- **Parts are stored** one after the other. -/
theorem storeParts (parts : List (Attribute × Option (List Constraint)))
    (ready : ∀ part ∈ parts, s.Storable v part) :
    change.Allows s ((parts.forM (Session.storePart v)).after s) := by
  induction parts generalizing s with
  | nil => exact change.refl s
  | cons part rest ih =>
    obtain ⟨hpart, hrest⟩ := List.forall_mem_cons.1 ready
    have hfirst := h.storePart hpart
    have hlater : ∀ q ∈ rest, ((Session.storePart v part).after s).Storable v q := fun q hq =>
      (hrest q hq).congr (through_storePart hpart)
    show change.Allows s
      ((Session.storePart v part >>= fun _ => rest.forM (Session.storePart v)).after s)
    rw [after_bind]
    cases hstored : Session.storePart v part s with
    | ok _ s' =>
      rw [after_of_ok hstored] at hfirst hlater
      exact change.trans hfirst (ih hlater)
    | error e s' =>
      rw [after_of_error hstored] at hfirst
      exact hfirst

/-! ## Requests -/

/-- The requests below are made of these steps: each prepares its parts and then stores them. -/
theorem clear (v : ViewId) (attr : Attribute) : Only change (Session.clear v attr) :=
  fun _ => h.storePart (storable_none attr)

theorem release (v : ViewId) : Only change (Session.release v) :=
  only_update_mark v fun s => h.edit s v .release trivial

theorem set (v : ViewId) (attr : Attribute) (input : ConstraintInput) :
    Only change (Session.set v attr input) := by
  intro s
  refine allows_view s fun _ => ?_
  split
  · exact h.clear v attr s
  · exact allows_prepared s fun batch hprepared => h.storePart (storable_of_prepare? hprepared)

theorem setComposite (v : ViewId) (composite : Composite) (inputs : List ConstraintInput) :
    Only change (Session.setComposite v composite inputs) := by
  intro s
  unfold Session.setComposite
  split
  · exact change.refl s
  · refine allows_view s fun _ => allows_prepared s fun prepared hprepared => ?_
    refine h.storeParts prepared fun part hpart => ?_
    obtain ⟨input, -, hinput⟩ := exists_of_mem_mapM hprepared hpart
    exact storable_of_preparePart? hinput

theorem fit (v : ViewId) (f : Fit) : Only change (Session.fit v f) := by
  intro s
  refine allows_view s fun _ => allows_prepared s fun prepared hprepared => ?_
  rw [← forM_storePart_some]
  refine h.storeParts _ (List.forall_mem_map.2 fun p hp => ?_)
  obtain ⟨assignment, -, hassignment⟩ := exists_of_mem_mapM hprepared hp
  obtain ⟨rules, hrules, hpair⟩ := except_bind_eq_ok.1 hassignment
  cases hpair
  exact storable_of_prepare? hrules

/-- **Rules stored through the container** as it is when they are stored. -/
theorem storeThrough (v : ViewId) (prepared : List (Attribute × List Constraint))
    (ready : ∀ p ∈ prepared, p.1.isSettable = true ∧ ∀ c ∈ p.2, c.target = p.1) :
    Only change (prepared.forM fun p => do
      Session.store v p.1 ((← get).throughContainer v p.2)) := by
  induction prepared with
  | nil => exact Only.pure _
  | cons p rest ih =>
    obtain ⟨⟨hsettable, htarget⟩, hrest⟩ := List.forall_mem_cons.1 ready
    have hfirst : Only change (do Session.store v p.1 ((← get).throughContainer v p.2)) := by
      intro s
      have hpart := h.storePart (storable_some (s := s) (v := v) hsettable htarget)
      rw [after_bind]
      exact hpart
    exact hfirst.bind fun _ => ih hrest

/-- A dock moves the view first, and its rules go through the container of the new place. -/
theorem dock (v : ViewId) (target : DockTarget) : Only change (Session.dock v target) :=
  h.toMoving.dock v target fun _ prepared rules => h.storeThrough v prepared <| by
    obtain ⟨rfl, hsettable⟩ := rulesOf?_eq_ok rules
    exact List.forall_mem_map.2 fun p hp => ⟨hsettable p hp, List.forall_mem_singleton.2 rfl⟩

theorem assigning : change.Assigning := ⟨h.clear, h.release, h.set, h.setComposite, h.fit⟩

end Change.Storing

/-! ## Invariants -/

namespace Session

/-- **One act**, where the edits of rules are known to be changes of the kind, and so are the
requests that write styles. -/
theorem outcome_of_storing {change : Change} (h : change.Storing) (s : Session) (a : Act)
    (styling : ∀ request : Request, a = .request request → request.styles = true →
      change.Allows s (s.afterAct a)) : Outcome change s a := by
  refine outcome_of_handling (handling_of_quiet h.toQuiet s) a ?_ styling ?_ ?_
  · rintro c rfl
    exact (h.suspended c).map _ s
  · rintro request rfl assigns
    exact allows_of_assigns h.assigning s assigns
  · rintro request rfl places
    exact allows_of_moves h.toMoving h.dock s places

/-- **An invariant of rules and places**, by the steps that sessions are made of. -/
structure RuleInvariant (I : Session → Prop) : Prop where
  /-- It is about views one by one, and about nothing else. -/
  sub : ∀ {s s' : Session}, I s →
    (∀ v view, s'.views.get? v = some view → s.views.get? v = some view) → I s'
  register : ∀ {s : Session} tag, I s → I (s.register tag)
  /-- It is not about what else a view has. -/
  touch : ∀ {s : Session} v {f : View → View}, I s →
    (∀ view, (f view).hierarchy = view.hierarchy) →
      (∀ view, (f view).constraints = view.constraints) → I (s.modifyView v f)
  reshape : ∀ {s : Session} v {f : Hierarchy → Hierarchy}, I s →
    (∀ place, (f place).links = place.links) → I (s.modifyView v fun view => view.updateHierarchy f)
  move : ∀ {s : Session} child parent, I s → I ((setParent child parent).after s)
  edit : ∀ {s : Session} v e, I s → s.Passes v e → I (s.constrain v fun store => store.edit e)

/-- The changes that keep an invariant. -/
def keeping (I : Session → Prop) : Change where
  Allows := fun s s' => I s → I s'
  refl := fun _ h => h
  trans := fun h h' hs => h' (h hs)

namespace RuleInvariant

variable {I : Session → Prop} (h : RuleInvariant I) {s : Session}
include h

/-- An invariant of views does not see anything else. -/
theorem of_views {s s' : Session} (holds : I s) (same : s'.views = s.views) : I s' :=
  h.sub holds fun _ _ hv => same ▸ hv

/-- An invariant that survives the steps of the structure survives each storing request. -/
theorem storing : (keeping I).Storing where
  mark := fun _ _ holds => h.of_views holds rfl
  touch := fun _ v _ place constraints _ holds =>
    h.of_views (h.touch v holds place constraints) rfl
  background := fun same holds => h.of_views holds same.views
  reshape := fun _ v _ links holds => h.reshape v holds links
  move := fun child parent _ holds => h.move child parent holds
  suspended := fun c s holds => h.of_views holds (sameViews_suspend c s).views
  edit := fun _ v e passes holds => h.edit v e holds passes

theorem styling : (keeping I).Styling where
  restyle := by
    intro s v F holds
    have htouched : I (s.modifyView v fun view => view.updateStyle F) :=
      h.touch v holds (fun _ => rfl) fun _ => rfl
    exact h.of_views htouched rfl

theorem renders : (keeping I).Renders where
  clean := fun _ holds => h.of_views holds rfl
  settle := fun _ v holds => h.touch v holds (fun _ => rfl) fun _ => rfl

/-- **One act** keeps the invariant. -/
theorem afterAct (holds : I s) (a : Act) : I (s.afterAct a) := by
  have styled : ∀ request : Request, a = .request request → request.styles = true →
      (keeping I).Allows s (s.afterAct a) := by
    rintro request rfl styles
    exact allows_of_styles h.styling s styles
  cases (outcome_of_storing h.storing s a styled).aftermath h.renders with
  | allowed allowed => exact allowed holds
  | created tag left =>
    rw [left]
    exact h.register tag holds
  | adopted parent left =>
    rw [left]
    -- the move behind the registration may fail, and the invariant is kept either way
    exact h.move s.nextId (some parent) (h.register "div" holds)
  | swept _ left =>
    rw [left]
    refine h.sub holds fun v view hv => ?_
    rw [swept, get?_forgetAll] at hv
    split at hv
    · cases hv
    · exact hv

/-- **All acts** keep the invariant. -/
theorem afterActs (holds : I s) (acts : List Act) : I (s.afterActs acts) := by
  induction acts generalizing s with
  | nil => exact holds
  | cons a rest ih => exact ih (h.afterAct holds a)

end RuleInvariant

end Session

end AnchorLayout
