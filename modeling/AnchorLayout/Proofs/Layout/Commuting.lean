import AnchorLayout.Proofs.Layout.Written
/-!
# Constraining and placing commute

  An assignment renames the anchors of its rules for the place of the view.  A move takes that back
  for all rules of the view, and renames them for the new place.  So it makes no difference whether a
  view is constrained and then placed, or the other way round, unless the rules have named what the
  view was rendered under by themselves.

  1. **Program** — `Session.set`, and the requests that place views (`Request.relocates`).
  2. **Specification** — `Session.Carries`: an operation that succeeds also does so when a part has
     been written before it, and leaves what is left when the part is written after it.
  3. **One move (`carries_setParent`)** — the part names nothing that would be renamed back by the
     move, or the view is already where it is moved to.
  4. **The crux (`Bound.setParent`)** — a loop of moves under one parent may come to a view again, but
     then the view is there.
-/

namespace AnchorLayout

open Operation

namespace Session

variable {s s' : Session} {u v x p q child target : ViewId} {parent : Option ViewId}
  {part : Attribute × Option (List Constraint)}

/-! ## Carrying a part through an operation -/

/-- **An operation carries a part**: where it succeeds, it does so too once the part has been written,
with the same answer, and the part is written in what it leaves. -/
def Carries {α : Type} (s : Session) (x : ViewId) (part : Attribute × Option (List Constraint))
    (operation : Operation α) : Prop :=
  ∀ a s', operation s = .ok a s' → operation (s.written x part) = .ok a (s'.written x part)

section

variable {α β : Type}

/-- An operation that does nothing carries everything. -/
theorem carries_pure (a : α) : s.Carries x part (pure a) := by
  rintro _ _ ⟨⟩
  rfl

/-- One that fails has nothing to carry. -/
theorem carries_throw (e : Error) : s.Carries x part (throw e : Operation α) := by
  rintro _ _ ⟨⟩

/-- **One step after another.** -/
theorem Carries.bind {operation : Operation α} {next : α → Operation β}
    (first : s.Carries x part operation)
    (second : ∀ a s', operation s = .ok a s' → s'.Carries x part (next a)) :
    s.Carries x part (operation >>= next) := by
  intro b s' h
  obtain ⟨a, s₁, hfirst, hsecond⟩ := bind_eq_ok h
  exact (bind_of_ok (first a s₁ hfirst) next).trans (second a s₁ hfirst b s' hsecond)

/-- What is read of a view is not its rules. -/
theorem carries_view {next : View → Operation α} (v : ViewId)
    (blind : ∀ view rules, next { view with constraints := rules } = next view)
    (carries : ∀ view, s.Carries x part (next view)) :
    s.Carries x part (view v >>= next) := by
  intro a s' h
  obtain ⟨found, s₁, hview, hnext⟩ := bind_eq_ok h
  obtain ⟨rfl, hfound⟩ := view_eq_ok hview
  obtain ⟨rules, hrules⟩ := get?_written s₁ x part hfound
  refine (bind_of_ok (view_of_get? hrules) next).trans ?_
  rw [blind]
  exact carries found a s' hnext

/-- The session may be looked at if what follows does not depend on the rules of the view. -/
theorem carries_get {next : Session → Operation α} (same : next (s.written x part) = next s)
    (carries : s.Carries x part (next s)) : s.Carries x part (get >>= next) := by
  intro a s' h
  show next (s.written x part) (s.written x part) = .ok a (s'.written x part)
  rw [same]
  exact carries a s' h

/-- What is read of the session is there as well once the part has been written. -/
theorem carries_read {check : Session → Except Error α} {next : α → Operation β}
    (same : ∀ a, check s = .ok a → check (s.written x part) = .ok a)
    (carries : ∀ a, s.Carries x part (next a)) :
    s.Carries x part (do next (← Operation.ofExcept (check (← get)))) := by
  intro b s' h
  obtain ⟨a, hcheck, hnext⟩ := prepared_eq_ok h
  exact (bind_of_ok (ofExcept_of_ok (same a hcheck) _) next).trans (carries a b s' hnext)

end

/-- A mark is carried, since marks may be set in either order. -/
theorem carries_mark (v : ViewId) :
    s.Carries x part (modify fun s => s.markDirty v : Operation PUnit) := by
  rintro _ _ ⟨⟩
  exact congrArg (EStateM.Result.ok PUnit.unit) (markDirty_constrain s x v)

/-- The place of a view changed, in something other than its parents. -/
theorem carries_update (v : ViewId) {f : Hierarchy → Hierarchy}
    (parents : ∀ h, ((f h).parent, (f h).structuralParent) = (h.parent, h.structuralParent)) :
    s.Carries x part (update v fun view => view.updateHierarchy f) := by
  intro _ s' h
  rw [update_apply] at h ⊢
  split at h
  · next hv =>
    cases h
    have hv' : (s.written x part).contains v = true := (contains_constrain s x v).trans hv
    rw [if_pos hv', written_eq (parents?_modifyView s v x parents),
      written, modifyView_constrain]
  · cases h

/-- Such a change leaves the parents of every view alone. -/
theorem parents?_update {v : ViewId} {f : Hierarchy → Hierarchy}
    (parents : ∀ h, ((f h).parent, (f h).structuralParent) = (h.parent, h.structuralParent))
    (updated : update v (fun view => view.updateHierarchy f) s = .ok () s') (u : ViewId) :
    s'.parents? u = s.parents? u := by
  rw [update_apply] at updated
  split at updated
  · cases updated
    exact parents?_modifyView s v u parents
  · cases updated

/-- A loop whose steps carry the part, and keep what that relies on. -/
theorem carries_forM {ι : Type} (relies : Session → Prop) {body : ι → Operation PUnit}
    (carries : ∀ i s, relies s → s.Carries x part (body i))
    (keeps : ∀ i s s', relies s → body i s = .ok () s' → relies s') (items : List ι)
    (h : relies s) : s.Carries x part (items.forM body) := by
  induction items generalizing s with
  | nil => exact carries_pure _
  | cons i rest ih =>
    show s.Carries x part (body i >>= fun _ => rest.forM body)
    exact (carries i s h).bind fun _ s' hs' => ih (keeps i s s' h hs')

/-! ## Moves -/

/-- **Nothing of the part names what the view is rendered under**, where that is not its parent. -/
def Unnamed (s : Session) (x : ViewId) (part : Attribute × Option (List Constraint)) : Prop :=
  ∀ parents, s.parents? x = some parents → parents.1 = parents.2 ∨
    ∀ batch, part.2 = some batch → ∀ c ∈ batch, ∀ a ∈ c.value.anchors, parents.2 ≠ some a.view

/-- **The view is where a move under this parent would take it.** -/
def Arrived (s : Session) (x p : ViewId) : Prop :=
  ∃ target, s.placement? x p = .ok target ∧ s.parents? x = some (some p, some target)

/-- It is about the place of the view, and nothing else of the session. -/
theorem Unnamed.congr (h : s.Unnamed x part) (same : s'.parents? x = s.parents? x) :
    s'.Unnamed x part := fun parents hparents => h parents (same ▸ hparents)

/-- After a move the view that has moved has new parents, and every other view the old ones. -/
theorem parents?_moved (s : Session) (child target p : ViewId) (before : Hierarchy)
    (parent structural : Option ViewId) (u : ViewId) :
    (((s.detach child).attach child target p).settled child before parent structural).parents? u =
      if child = u then (s.parents? u).map fun _ => (some p, some target) else s.parents? u := by
  rw [parents?_eq_home, parents?_eq_home, home?_moved]
  split
  · rw [Option.map_map, Option.map_map]
    rfl
  · rfl

/-- The same for a move out of the tree. -/
theorem parents?_unlinked (s : Session) (child : ViewId) (before : Hierarchy)
    (parent structural : Option ViewId) (u : ViewId) :
    (((s.detach child).unlink child).settled child before parent structural).parents? u =
      if child = u then (s.parents? u).map fun _ => (none, none) else s.parents? u := by
  rw [parents?_eq_home, parents?_eq_home, home?_unlinked]
  split
  · rw [Option.map_map, Option.map_map]
    rfl
  · rfl

/-- Parents, read off the view. -/
theorem parents?_of_get? {found : View} (h : s.views.get? v = some found) :
    s.parents? v = some (found.hierarchy.parent, found.hierarchy.structuralParent) := by
  rw [parents?, place?, h]
  rfl

/-- **What the part becomes on a move of the view**: the view is not the one that moves, or nothing
names what it is rendered under, or it is there already. -/
def Movable (s : Session) (x : ViewId) (part : Attribute × Option (List Constraint))
    (child : ViewId) (parent : Option ViewId) : Prop :=
  child = x → s.Unnamed x part ∨ ∃ p, parent = some p ∧ s.Arrived x p

/-- What becomes of the anchors of the part. -/
theorem Movable.again (movable : s.Movable x part child parent) {before : Hierarchy}
    (hold : s.parents? child = some (before.parent, before.structuralParent))
    {parents : Option ViewId × Option ViewId}
    (lands : ∀ p, parent = some p →
      ∃ target, s.placement? child p = .ok target ∧ parents = (some p, some target)) :
    child = x → ∀ batch, part.2 = some batch → ∀ c ∈ batch, ∀ a ∈ c.value.anchors,
      Anchor.between parents.1 parents.2 (Anchor.between before.structuralParent before.parent
        (Anchor.between before.parent before.structuralParent a)) =
          Anchor.between parents.1 parents.2 a := by
  rintro rfl batch hbatch c hc a ha
  rcases movable rfl with hunnamed | ⟨p, hp, target, hplaced, hthere⟩
  · have hfree := (hunnamed _ hold).imp_right fun hfree => hfree batch hbatch c hc a ha
    rw [Anchor.between_between hfree]
  · obtain ⟨landing, hlanding, rfl⟩ := lands p hp
    cases hplaced.symm.trans hlanding
    have hsame := Option.some.inj (hold.symm.trans hthere)
    obtain ⟨hparent, hstructural⟩ := Prod.mk.inj hsame
    rw [hparent, hstructural]
    exact Anchor.between_again _ _ a

/-- **A view that moves** takes the part along. -/
theorem settled_written {m : Session} {before : Hierarchy} (parents : Option ViewId × Option ViewId)
    (hold : s.parents? child = some (before.parent, before.structuralParent))
    (again : child = x → ∀ batch, part.2 = some batch → ∀ c ∈ batch, ∀ a ∈ c.value.anchors,
      Anchor.between parents.1 parents.2 (Anchor.between before.structuralParent before.parent
        (Anchor.between before.parent before.structuralParent a)) =
          Anchor.between parents.1 parents.2 a)
    (moved : ∀ u, (m.settled child before parents.1 parents.2).parents? u =
      if child = u then (s.parents? u).map fun _ => parents else s.parents? u) :
    (m.constrain x (ConstraintStore.write part (s.through x))).settled child before
        parents.1 parents.2 =
      (m.settled child before parents.1 parents.2).written x part := by
  by_cases hx : child = x
  · subst hx
    have hnew : (m.settled child before parents.1 parents.2).parents? child = some parents := by
      rw [moved, if_pos rfl, hold]
      rfl
    rw [written, through_of_parents hold, through_of_parents hnew]
    exact settled_constrain m child before parents.1 parents.2 (again rfl)
  · rw [settled_constrain_of_ne m hx]
    exact (written_eq (by rw [moved, if_neg hx])).symm

/-- **A move carries the part.** -/
theorem carries_setParent (movable : s.Movable x part child parent) :
    s.Carries x part (setParent child parent) := by
  intro _ s' h
  cases parent with
  | none =>
    obtain ⟨found, s₀, hview, -⟩ := bind_eq_ok h
    obtain ⟨rfl, hfound⟩ := view_eq_ok hview
    obtain ⟨rules, hrules⟩ := get?_written s₀ x part hfound
    rw [setParent_none hfound] at h
    cases h
    rw [setParent_none hrules, written, detach_constrain, unlink_constrain]
    have hold := parents?_of_get? hfound
    have hlands : ∀ q, none = some q → ∃ landing, s₀.placement? child q = .ok landing ∧
        ((none, none) : Option ViewId × Option ViewId) = (some q, some landing) := by
      intro q hq
      cases hq
    exact congrArg (EStateM.Result.ok ()) (settled_written (none, none) hold
      (movable.again hold hlands) (parents?_unlinked s₀ child found.hierarchy none none))
  | some p =>
    obtain ⟨found, target, hfound, hplaced, hapart, hknown, rfl⟩ := setParent_some_eq_ok h
    obtain ⟨rules, hrules⟩ := get?_written s x part hfound
    -- the checks of the move read homes, which the part has left alone
    have hchecked : checkedPlacement child p (s.written x part) = .ok target (s.written x part) := by
      have happart' : (s.written x part).isAncestorOrSelf child target = false :=
        (isAncestorOrSelf_constrain s x child target).trans hapart
      rw [checkedPlacement_apply, written, placement?_constrain hplaced]
      exact if_neg (Bool.eq_false_iff.1 happart')
    have hknown' : (s.written x part).contains target = true :=
      (contains_constrain s x target).trans hknown
    rw [setParent_some hrules hchecked, if_pos hknown', written, detach_constrain, attach_constrain]
    have hlands : ∀ q, some p = some q → ∃ landing, s.placement? child q = .ok landing ∧
        (some p, some target) = (some q, some landing) := by
      rintro _ ⟨⟩
      exact ⟨target, hplaced, rfl⟩
    have hold := parents?_of_get? hfound
    exact congrArg (EStateM.Result.ok ()) (settled_written (some p, some target) hold
      (movable.again hold hlands)
      (parents?_moved s child target p found.hierarchy (some p) (some target)))

/-! ## Loops of moves -/

/-- A move under a view changes no container and no kind. -/
theorem placement?_setParent (moved : setParent child (some p) s = .ok () s')
    (h : s.placement? u q = .ok target) : s'.placement? u q = .ok target := by
  obtain ⟨found, landing, -, -, -, -, rfl⟩ := setParent_some_eq_ok moved
  obtain ⟨home, outer, hhome, houter, hlanding⟩ := placement?_eq_ok_iff.1 h
  have hmoved {v : ViewId} {h : Hierarchy} (hv : s.home? v = some h) : ∃ now,
      (((s.detach child).attach child landing p).settled child found.hierarchy (some p)
        (some landing)).home? v = some now ∧ now.isChrome = h.isChrome ∧
          now.container = h.container := by
    rw [home?_moved, hv]
    split
    · exact ⟨_, rfl, rfl, rfl⟩
    · exact ⟨h, rfl, rfl, rfl⟩
  obtain ⟨home', hhome', hchrome, -⟩ := hmoved hhome
  obtain ⟨outer', houter', -, hcontainer⟩ := hmoved houter
  refine placement?_eq_ok_iff.2 ⟨home', outer', hhome', houter', ?_⟩
  rw [hchrome, landing_congr hcontainer]
  exact hlanding

/-- A move of another view leaves the parents of this one alone. -/
theorem parents?_setParent (moved : setParent child (some p) s = .ok () s') (hne : child ≠ x) :
    s'.parents? x = s.parents? x := by
  obtain ⟨found, landing, -, -, -, -, rfl⟩ := setParent_some_eq_ok moved
  rw [parents?_moved, if_neg hne]

/-- **The view can be moved under this parent**, once and again. -/
def Bound (s : Session) (x : ViewId) (part : Attribute × Option (List Constraint)) (p : ViewId) :
    Prop := s.Unnamed x part ∨ s.Arrived x p

/-- What can be moved again and again can be moved once. -/
theorem Bound.movable (h : s.Bound x part p) (child : ViewId) :
    s.Movable x part child (some p) := fun _ => h.imp_right fun harrived => ⟨p, rfl, harrived⟩

/-- One move under the parent leaves the view ready for the next one. -/
theorem Bound.setParent (h : s.Bound x part p) (moved : setParent child (some p) s = .ok () s') :
    s'.Bound x part p := by
  by_cases hx : child = x
  · subst hx
    obtain ⟨found, target, hfound, hplaced, -, -, hleft⟩ := setParent_some_eq_ok moved
    refine Or.inr ⟨target, placement?_setParent moved hplaced, ?_⟩
    rw [hleft, parents?_moved, if_pos rfl, parents?_of_get? hfound]
    rfl
  · have hsame := parents?_setParent moved hx
    refine h.imp (fun hunnamed => hunnamed.congr hsame) ?_
    rintro ⟨target, hplaced, hthere⟩
    exact ⟨target, placement?_setParent moved hplaced, hsame.trans hthere⟩

/-- **Many moves under one parent carry the part**, although the view may be among them several
times. -/
theorem carries_addChildren (h : s.Bound x part p) (children : List ViewId) :
    s.Carries x part (addChildren p children) :=
  carries_forM (fun s => s.Bound x part p)
    (fun child _ h => carries_setParent (h.movable child)) (fun _ _ _ h moved => h.setParent moved)
    children h

/-- **A change of kind carries the part.** -/
theorem carries_setChrome (h : s.Unnamed x part) (v : ViewId) (isChrome : Bool) :
    s.Carries x part (setChrome v isChrome) := by
  refine carries_view v (fun _ _ => rfl) fun found => ?_
  show s.Carries x part (if found.hierarchy.isChrome ≠ isChrome then _ else _)
  split
  · refine (carries_update v (f := fun h => { h with isChrome }) fun _ => rfl).bind fun _ s' hs' => ?_
    have hunnamed : s'.Unnamed x part :=
      h.congr (parents?_update (f := fun h => { h with isChrome }) (fun _ => rfl) hs' x)
    split
    · exact carries_setParent fun _ => Or.inl hunnamed
    · exact carries_pure _
  · exact carries_pure _

/-! ## Containers -/

/-- A child that a change of container moves, or leaves where it is because it is chrome. -/
theorem carries_moveIntoPlace (h : x ≠ target → s.Bound x part v) (child : ViewId) :
    s.Carries x part (moveIntoPlace v target child) := by
  unfold moveIntoPlace
  split
  · next hne =>
    refine carries_view child (fun _ _ => rfl) fun found => ?_
    split
    · exact carries_pure _
    · exact carries_setParent fun hx => (h (hx ▸ hne)).movable child hx
  · exact carries_pure _

/-- The view stays ready for the other children that are still to be moved. -/
theorem bound_moveIntoPlace (h : s.Bound x part v)
    (moved : moveIntoPlace v target child s = .ok () s') : s'.Bound x part v := by
  unfold moveIntoPlace at moved
  split at moved
  · obtain ⟨found, s₁, hview, hrest⟩ := bind_eq_ok moved
    obtain ⟨rfl, -⟩ := view_eq_ok hview
    split at hrest
    · cases hrest
      exact h
    · exact h.setParent hrest
  · cases moved
    exact h

/-- The whole loop carries the part. -/
theorem carries_fillContainer (h : x ≠ target → s.Bound x part v) (moved : List ViewId)
    (old : Option ViewId) : s.Carries x part (fillContainer v target moved old) := by
  refine Carries.bind (carries_forM (fun s => x ≠ target → s.Bound x part v)
    (fun child _ h => carries_moveIntoPlace h child)
    (fun _ _ _ h hmoved hne => bound_moveIntoPlace (h hne) hmoved) moved h) fun _ s₁ _ => ?_
  cases old with
  | none => exact carries_mark v
  | some c => exact (carries_mark c).bind fun _ _ _ => carries_mark v

/-- Putting the container in is a move and a change of kind. -/
theorem carries_installContainer (h : s.Unnamed x part) (v c : ViewId) :
    s.Carries x part (installContainer v c) := by
  refine (carries_update c (f := fun h => { h with isChrome := true }) fun _ => rfl).bind
    fun _ s₁ hs₁ => ?_
  have hunnamed : s₁.Unnamed x part :=
    h.congr (parents?_update (f := fun h => { h with isChrome := true }) (fun _ => rfl) hs₁ x)
  exact (carries_setParent fun _ => Or.inl hunnamed).bind fun _ _ _ =>
    carries_update v (f := fun h => { h with container := some c }) fun _ => rfl

/-- A view that is not the container stays where it is. -/
theorem parents?_installContainer {c : ViewId} (installed : installContainer v c s = .ok () s')
    (hne : c ≠ x) : s'.parents? x = s.parents? x := by
  obtain ⟨_, s₁, hchrome, hrest⟩ := bind_eq_ok installed
  obtain ⟨_, s₂, hmoved, hlast⟩ := bind_eq_ok hrest
  calc s'.parents? x = s₂.parents? x :=
        parents?_update (f := fun h => { h with container := some c }) (fun _ => rfl) hlast x
    _ = s₁.parents? x := parents?_setParent hmoved hne
    _ = s.parents? x :=
        parents?_update (f := fun h => { h with isChrome := true }) (fun _ => rfl) hchrome x

/-- **The change behind the checks**: the old container is let go, the new one put in, and the
children are moved. -/
theorem carries_changeContainer (h : s.Unnamed x part) (v : ViewId) (container : Option ViewId) :
    s.Carries x part (changeContainer v container) := by
  refine carries_read (fun _ => visualChildren?_constrain) fun moved => ?_
  refine carries_view v (fun _ _ => rfl) fun found => ?_
  refine (carries_update v (f := fun h => { h with container := none }) fun _ => rfl).bind
    fun _ s₁ hs₁ => ?_
  have hunnamed : s₁.Unnamed x part :=
    h.congr (parents?_update (f := fun h => { h with container := none }) (fun _ => rfl) hs₁ x)
  cases container with
  | none => exact carries_fillContainer (fun _ => Or.inl hunnamed) moved _
  | some c =>
    refine (carries_installContainer hunnamed v c).bind fun _ s₂ hs₂ => ?_
    -- the new container is not moved again, and any other view is where it was
    exact carries_fillContainer (fun hne => Or.inl (hunnamed.congr
      (parents?_installContainer hs₂ (Ne.symm hne)))) moved _

/-- **A change of container carries the part.** -/
theorem carries_setContainer (h : s.Unnamed x part) (v : ViewId) (container : Option ViewId) :
    s.Carries x part (setContainer v container) := by
  rw [setContainer_eq]
  refine carries_view v (fun _ _ => rfl) fun _ => ?_
  cases container with
  | none => exact carries_changeContainer h v none
  | some c =>
    refine carries_view c (fun _ _ => rfl) fun _ => ?_
    have hline : (s.written x part).isAncestorOrSelf c v = s.isAncestorOrSelf c v :=
      isAncestorOrSelf_constrain s x c v
    refine carries_get (by simp only [hline]) ?_
    split
    · exact carries_throw _
    · exact carries_changeContainer h v (some c)

/-! ## Requests that place -/

end Session

/-- The requests that place views. -/
def Request.relocates : Request → Bool
  | .setParent .. | .addChildren .. | .setChrome .. | .setContainer .. => true
  | _ => false

namespace Session

variable {s s' : Session} {x : ViewId} {part : Attribute × Option (List Constraint)}

/-- These requests send nothing to handlers, so how deep a handler may call does not matter. -/
theorem perform_of_relocates {request : Request} (relocates : request.relocates = true)
    (depth : Nat) (s : Session) : perform depth request s = perform 0 request s := by
  refine perform_of_noStage ?_ depth
  cases request with
  | dispatch | dispatchWire | resume => exact absurd relocates Bool.false_ne_true
  | _ => rfl

/-- **Every request that places views carries the part.** -/
theorem carries_perform (h : s.Unnamed x part) {request : Request}
    (relocates : request.relocates = true) (depth : Nat) :
    s.Carries x part (perform depth request) := by
  have done {operation : Operation Unit} (carries : s.Carries x part operation) :
      s.Carries x part (do operation; return Answer.done) :=
    carries.bind fun _ _ _ => carries_pure _
  have hzero : s.Carries x part (perform 0 request) := by
    cases request with
    | setParent v parent => exact done (carries_setParent fun _ => Or.inl h)
    | addChildren p children => exact done (carries_addChildren (Or.inl h) children)
    | setChrome v isChrome => exact done (carries_setChrome h v isChrome)
    | setContainer v container => exact done (carries_setContainer h v container)
    | _ => exact absurd relocates Bool.false_ne_true
  intro a s' ha
  rw [perform_of_relocates relocates] at ha ⊢
  exact hzero a s' ha

/-- A request that places views changes nothing that the rules of an assignment are made from. -/
theorem sameBasis_perform {request : Request} (relocates : request.relocates = true) {depth : Nat}
    {answer : Answer} (placed : perform depth request s = .ok answer s') : SameBasis s s' := by
  have places : request.places = true := by
    cases request with
    | setParent | addChildren | setChrome | setContainer => rfl
    | _ => exact absurd relocates Bool.false_ne_true
  have hbasis : SameBasis s ((perform 0 request).after s) :=
    allows_of_places framing_keepsBasis.placing s places
  rw [perform_of_relocates relocates] at placed
  rwa [after_of_ok placed] at hbasis

/-- What the values of an input do not mention, its part does not mention: an expansion takes
anchors from the values alone. -/
theorem unnamed_of_values {attr : Attribute} {input : ConstraintInput}
    (hpart : s.part? attr input = .ok part)
    (unnamed : ∀ view p, s.views.get? x = some view → view.hierarchy.structuralParent = some p →
      view.hierarchy.parent ≠ some p → ∀ e ∈ input.values, e.mentions p = false) :
    s.Unnamed x part := by
  have hvalues : ∀ batch, part.2 = some batch → ∀ c ∈ batch, c.value ∈ input.values := by
    -- an input that does not clear is expanded, and an expansion has the values of its input
    have hexpanded (hrest : (do
        let batch ← input.expand attr s.currentAnimation
        s.checkAnchors batch
        return (attr, some batch) : Except Error (Attribute × Option (List Constraint))) =
          .ok part) : ∀ batch, part.2 = some batch → ∀ c ∈ batch, c.value ∈ input.values := by
      intro batch hbatch c hc
      obtain ⟨rules, hrules, hchecked⟩ := except_bind_eq_ok.1 hrest
      obtain ⟨_, -, hpair⟩ := except_bind_eq_ok.1 hchecked
      cases hpair
      cases hbatch
      exact (ConstraintInput.stems_of_expand hrules hc).value
    cases input with
    | clear =>
      cases hpart
      exact nofun
    | _ => exact hexpanded hpart
  rintro ⟨parent, structural⟩ hparents
  obtain ⟨place, hplace, hpair⟩ := Option.map_eq_some_iff.1 hparents
  obtain ⟨view, hview, rfl⟩ := Option.map_eq_some_iff.1 hplace
  cases hpair
  by_cases hsame : view.hierarchy.parent = view.hierarchy.structuralParent
  · exact Or.inl hsame
  · refine Or.inr fun batch hbatch c hc a ha hnamed => ?_
    have hfree := unnamed view a.view hview hnamed (hnamed ▸ hsame) c.value
      (hvalues batch hbatch c hc)
    exact Bool.eq_false_iff.1 hfree (Term.mentions_iff.2 ⟨a, ha, rfl⟩)

/-- **Constraining and placing commute**: a request that places views and succeeds also does so after
an assignment to a view, and either order gives the same answers and leaves the same session, unless
a value of the assignment names what the view is rendered under and that is not its parent. -/
theorem set_commutes (s s' : Session) (x : ViewId) (attr : Attribute) (input : ConstraintInput)
    (depth : Nat) (request : Request) (relocates : request.relocates = true) (answer : Answer)
    (unnamed : ∀ view p, s.views.get? x = some view → view.hierarchy.structuralParent = some p →
      view.hierarchy.parent ≠ some p → ∀ e ∈ input.values, e.mentions p = false)
    (placed : perform depth request s = .ok answer s') :
    (set x attr input).answer s' = (set x attr input).answer s ∧
      perform depth request ((set x attr input).after s) =
        .ok answer ((set x attr input).after s') := by
  have hbasis : SameBasis s s' := sameBasis_perform relocates placed
  -- an assignment that fails leaves both sessions as they were
  have hfails {e : Error} (h : set x attr input s = .error e s)
      (h' : set x attr input s' = .error e s') :
      (set x attr input).answer s' = (set x attr input).answer s ∧
        perform depth request ((set x attr input).after s) =
          .ok answer ((set x attr input).after s') := by
    rw [Operation.answer, Operation.answer, h, h', after_of_error h, after_of_error h']
    exact ⟨rfl, placed⟩
  by_cases hx : s.contains x = true
  · have hset := set_eq hx attr input
    have hset' := set_eq ((hbasis.contains x).trans hx) attr input
    rw [hbasis.part?_eq] at hset'
    cases hpart : s.part? attr input with
    | error e =>
      rw [hpart] at hset hset'
      exact hfails hset hset'
    | ok part =>
      rw [hpart] at hset hset'
      rw [Operation.answer, Operation.answer, hset, hset', after_of_ok hset, after_of_ok hset']
      exact ⟨rfl, carries_perform (unnamed_of_values hpart unnamed) relocates depth answer s' placed⟩
  · have hgone {t : Session} (ht : ¬ t.contains x = true) :
        set x attr input t = .error (.noView x) t := by
      have hview := view_apply x t
      rw [Option.not_isSome_iff_eq_none.1 ht] at hview
      exact bind_of_error hview _
    exact hfails (hgone hx) (hgone (by rwa [hbasis.contains x]))

/-- A view in a container, and a rule on its parent. -/
def someLodger : List Call :=
  [.request 1 (.createChild ⟨1⟩), .request 1 (.create "div"), .request 1 (.createChild ⟨2⟩),
    .request 1 (.setContainer ⟨2⟩ (some ⟨3⟩))]

/-- The view is in the container that is taken away, and its rule names its parent, not the
container. -/
theorem set_commutes_of_someLodger :
    ∃ s', perform 1 (.setContainer ⟨2⟩ none) ((Session.new .default "").afterCalls someLodger) =
        .ok .done s' ∧
      perform 1 (.setContainer ⟨2⟩ none) ((set ⟨4⟩ .left (.value (.anchor ⟨⟨2⟩, .left⟩))).after
        ((Session.new .default "").afterCalls someLodger)) =
          .ok .done ((set ⟨4⟩ .left (.value (.anchor ⟨⟨2⟩, .left⟩))).after s') := by
  have lodged : (((Session.new .default "").afterCalls someLodger).views.get? ⟨4⟩).map
      (fun view => view.hierarchy.structuralParent) = some (some ⟨3⟩) := by decide +kernel
  have unnamed : ∀ view p, ((Session.new .default "").afterCalls someLodger).views.get? ⟨4⟩ =
      some view → view.hierarchy.structuralParent = some p → view.hierarchy.parent ≠ some p →
        ∀ e ∈ (ConstraintInput.value (.anchor ⟨⟨2⟩, .left⟩)).values, e.mentions p = false := by
    intro view p hview hp _ e he
    rw [hview, Option.map_some, hp] at lodged
    cases lodged
    rw [List.mem_singleton.1 he]
    rfl
  have hok : ((perform 1 (.setContainer ⟨2⟩ none)).answer
      ((Session.new .default "").afterCalls someLodger)).isOk = true := by decide +kernel
  obtain ⟨answer, s', hplaced⟩ := Operation.exists_ok_of_isOk hok
  obtain ⟨-, hcommutes⟩ := set_commutes _ s' ⟨4⟩ .left (.value (.anchor ⟨⟨2⟩, .left⟩)) 1
    (.setContainer ⟨2⟩ none) rfl answer unnamed hplaced
  obtain ⟨_, _, -, hanswer⟩ := bind_eq_ok hplaced
  cases hanswer
  exact ⟨s', hplaced, hcommutes⟩

end Session

end AnchorLayout
