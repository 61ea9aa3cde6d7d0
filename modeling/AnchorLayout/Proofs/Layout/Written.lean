import AnchorLayout.Proofs.Layout.Routed
import Mathlib.Data.List.Sort
/-!
# What an assignment writes

  An assignment writes a part to a view: the rules of its input, or nothing where it clears, with the
  anchors renamed from the parent of the view to what the view is rendered under.

  1. **Program** — `Session.set`, and the steps of a move.
  2. **Specification** — `Session.written`, the session with a part written to a view; `part?`, the
     part of an assignment, which depends on nothing that a move changes.
  3. **Steps in either order** — rules are edited in one field of a view and places in another one, so
     an edit of rules may come before every step of a move or after it.
  4. **The crux (`settled_constrain`)** — renamed for the old place, renamed back and renamed for the
     new place is renamed for the new place; and an assignment does not look at anchors.
-/

namespace AnchorLayout

open Operation

namespace ViewSet

/-- **Sets are equal** when they have the same members. -/
theorem ext_mem {s t : ViewSet} (h : ∀ v, v ∈ s.toList ↔ v ∈ t.toList) : s = t :=
  haveI : Std.Irrefl (α := ViewId) (· < ·) := ⟨ViewId.lt_irrefl⟩
  haveI : Std.Antisymm (α := ViewId) (· < ·) :=
    ⟨fun _ _ h h' => absurd (ViewId.lt_trans h h') (ViewId.lt_irrefl _)⟩
  ext (s.ascending.eq_of_mem_iff t.ascending h)

/-- The order in which views are marked does not matter. -/
theorem insert_comm (s : ViewSet) (u v : ViewId) :
    (s.insert u).insert v = (s.insert v).insert u := by
  refine ext_mem fun w => ?_
  rw [mem_insert, mem_insert, mem_insert, mem_insert]
  exact or_left_comm

/-- Nor does it matter whether a view is marked twice. -/
theorem insert_insert_self (s : ViewSet) (v : ViewId) : (s.insert v).insert v = s.insert v := by
  refine ext_mem fun w => ?_
  rw [mem_insert, mem_insert, ← or_assoc, or_self]

end ViewSet

/-! ## Parts -/

namespace ConstraintStore

variable {part : Attribute × Option (List Constraint)} {f g : Anchor → Anchor}

/-- The store with a part written to it, the anchors of its rules renamed. -/
def write (part : Attribute × Option (List Constraint)) (f : Anchor → Anchor)
    (s : ConstraintStore) : ConstraintStore :=
  match part.2 with
  | some batch => (s.assign part.1 (batch.map fun c => c.mapAnchors f)).1
  | none => s.clear part.1

/-- **A part that is written and then renamed**, with what was there before. -/
theorem write_mapAnchors (s : ConstraintStore) (part : Attribute × Option (List Constraint))
    (f g : Anchor → Anchor) :
    (s.write part f).mapAnchors g = (s.mapAnchors g).write part (g ∘ f) := by
  obtain ⟨attr, _ | batch⟩ := part
  · exact clear_mapAnchors s attr g
  · show ((s.assign attr _).1).mapAnchors g = ((s.mapAnchors g).assign attr _).1
    rw [assign_mapAnchors, List.map_map]
    have hrules : (Constraint.mapAnchors g ∘ Constraint.mapAnchors f) =
        Constraint.mapAnchors (g ∘ f) := funext fun c => Constraint.mapAnchors_mapAnchors f g c
    exact congrArg (fun rename => ((s.mapAnchors g).assign attr (batch.map rename)).1) hrules

/-- Only what is done to the anchors of the part matters. -/
theorem write_congr (s : ConstraintStore)
    (h : ∀ batch, part.2 = some batch → ∀ c ∈ batch, ∀ a ∈ c.value.anchors, f a = g a) :
    s.write part f = s.write part g := by
  obtain ⟨attr, _ | batch⟩ := part
  · rfl
  · refine congrArg (fun rules => (s.assign attr rules).1) (List.map_congr_left fun c hc => ?_)
    exact Constraint.mapAnchors_congr (h batch rfl c hc)

end ConstraintStore

namespace Session

variable {s s' : Session} {u v x p q child target : ViewId} {F G : ConstraintStore → ConstraintStore}
  {part : Attribute × Option (List Constraint)}

/-! ## Steps in either order -/

/-- Two steps may be taken in either order if they are about different views or about different
fields. -/
theorem modifyView_comm (s : Session) {f g : View → View}
    (h : u ≠ v ∨ ∀ view, g (f view) = f (g view)) :
    (s.modifyView u f).modifyView v g = (s.modifyView v g).modifyView u f :=
  congrArg (fun views => { s with views }) (OrderedMap.modify_comm s.views h)

/-- Marks are a set, so they may be set in either order. -/
theorem markDirty_comm (s : Session) (u v : ViewId) :
    (s.markDirty u).markDirty v = (s.markDirty v).markDirty u :=
  congrArg (fun dirty => { s with dirty }) (s.dirty.insert_comm u v)

theorem markDirty_self (s : Session) (v : ViewId) : (s.markDirty v).markDirty v = s.markDirty v :=
  congrArg (fun dirty => { s with dirty }) (s.dirty.insert_insert_self v)

/-- Two edits of the rules of a view are one edit. -/
theorem constrain_constrain (s : Session) (x : ViewId) (F G : ConstraintStore → ConstraintStore) :
    (s.constrain x F).constrain x G = s.constrain x (G ∘ F) := by
  have hviews : (s.modifyView x fun view => view.updateConstraints F).modifyView x
      (fun view => view.updateConstraints G) =
        s.modifyView x fun view => view.updateConstraints (G ∘ F) :=
    congrArg (fun views => { s with views }) (OrderedMap.modify_modify s.views x _ _)
  show (((s.modifyView x _).modifyView x _).markDirty x).markDirty x = (s.modifyView x _).markDirty x
  rw [markDirty_self, hviews]

/-- Only what is done to the rules that are there matters. -/
theorem constrain_congr
    (h : ∀ view, s.views.get? x = some view → F view.constraints = G view.constraints) :
    s.constrain x F = s.constrain x G := by
  have hviews : s.views.modify x (fun view => view.updateConstraints F) =
      s.views.modify x fun view => view.updateConstraints G := by
    refine OrderedMap.ext_get? (by simp only [OrderedMap.keys_modify]) fun u => ?_
    rw [OrderedMap.get?_modify, OrderedMap.get?_modify]
    split
    · next hu =>
      subst hu
      cases hview : s.views.get? x with
      | none => rfl
      | some view =>
        exact congrArg (fun rules => some { view with constraints := rules }) (h view hview)
    · rfl
  exact congrArg (fun views => ({ s with views } : Session).markDirty x) hviews

/-- A change of place and an edit of rules do not see each other. -/
theorem modifyView_constrain (s : Session) (x v : ViewId) (f : Hierarchy → Hierarchy) :
    (s.constrain x F).modifyView v (fun view => view.updateHierarchy f) =
      (s.modifyView v fun view => view.updateHierarchy f).constrain x F := by
  have hcomm : (s.modifyView x fun view => view.updateConstraints F).modifyView v
      (fun view => view.updateHierarchy f) = (s.modifyView v fun view =>
        view.updateHierarchy f).modifyView x fun view => view.updateConstraints F :=
    modifyView_comm s (Or.inr fun _ => rfl)
  exact congrArg (fun s => s.markDirty x) hcomm

/-- An edit marks its view, and another mark may come before or after it. -/
theorem markDirty_constrain (s : Session) (x v : ViewId) :
    (s.constrain x F).markDirty v = (s.markDirty v).constrain x F := markDirty_comm _ x v

/-- **An edit of rules leaves every home alone**, and so do the facts below, which are read off
homes. -/
theorem home?_constrain (s : Session) (x u : ViewId) :
    (s.constrain x F).home? u = s.home? u := by
  rw [home?, home?, place?_constrain]

theorem structuralParent?_constrain (s : Session) (x u : ViewId) :
    (s.constrain x F).structuralParent? u = s.structuralParent? u := by
  rw [structuralParent?_eq, structuralParent?_eq, place?_constrain]

theorem isAncestorOrSelf_constrain (s : Session) (x u v : ViewId) :
    (s.constrain x F).isAncestorOrSelf u v = s.isAncestorOrSelf u v := by
  have hline (fuel : Nat) (v : ViewId) :
      (s.constrain x F).lineageFrom fuel v = s.lineageFrom fuel v := by
    induction fuel generalizing v with
    | zero => rfl
    | succ fuel ih =>
      rw [lineageFrom, lineageFrom, structuralParent?_constrain]
      cases s.structuralParent? v with
      | none => rfl
      | some parent => exact congrArg (v :: ·) (ih parent)
  have hsize : (s.constrain x F).views.size = s.views.size := OrderedMap.size_modify _ _ _
  rw [isAncestorOrSelf, isAncestorOrSelf, lineage, lineage, hsize, hline]

/-- A place that was found before an edit is found after it. -/
theorem placement?_constrain (h : s.placement? child p = .ok target) :
    (s.constrain x F).placement? child p = .ok target := by
  rw [placement?_eq_ok_iff] at h ⊢
  simpa only [home?_constrain] using h

/-- The children that a change of container moves are the same after an edit. -/
theorem visualChildren?_constrain {moved : List ViewId} (h : s.visualChildren? p = .ok moved) :
    (s.constrain x F).visualChildren? p = .ok moved := by
  have hplace : ∃ place, s.place? p = some place ∧
      s.contains (place.container.getD p) = true := by
    obtain ⟨view, hview, hrest⟩ := except_bind_eq_ok.1 h
    rw [view?_eq_ok_iff] at hview
    refine ⟨view.hierarchy, by rw [place?, hview]; rfl, ?_⟩
    cases hc : view.hierarchy.container with
    | none => exact contains_iff.2 ⟨view, hview⟩
    | some c =>
      rw [hc] at hrest
      obtain ⟨holder, hholder, -⟩ := except_bind_eq_ok.1 hrest
      exact contains_iff.2 ⟨holder, view?_eq_ok_iff.1 hholder⟩
  obtain ⟨place, hplace, hholder⟩ := hplace
  have hplace' : (s.constrain x F).place? p = some place := (place?_constrain s x p).trans hplace
  have hholder' := (contains_constrain (F := F) s x (place.container.getD p)).trans hholder
  have hparent (s : Session) (child : ViewId) : ((s.views.get? child).bind fun view =>
      view.hierarchy.parent) = (s.place? child).bind Hierarchy.parent := by
    rw [place?]
    cases s.views.get? child <;> rfl
  rw [← h, visualChildren?_eq hplace hholder, visualChildren?_eq hplace' hholder', childrenOf_eq,
    childrenOf_eq, place?_constrain]
  simp only [hparent, place?_constrain]

/-! ## Moves of constrained views -/

/-- The steps of a move, one by one, with an edit of rules before or after them. -/
theorem detach_constrain (s : Session) (x child : ViewId) :
    (s.constrain x F).detach child = (s.detach child).constrain x F := by
  cases h : s.structuralParent? child with
  | none =>
    have h' := (structuralParent?_constrain (F := F) s x child).trans h
    rw [detach_of_none h, detach_of_none h']
  | some old =>
    have h' : (s.constrain x F).Climb child old := (structuralParent?_constrain s x child).trans h
    rw [detach_of_climb h, detach_of_climb h', modifyView_constrain, modifyView_constrain,
      markDirty_constrain]

theorem unlink_constrain (s : Session) (x child : ViewId) :
    (s.constrain x F).unlink child = (s.unlink child).constrain x F := modifyView_constrain s x child _

theorem attach_constrain (s : Session) (x child target p : ViewId) :
    (s.constrain x F).attach child target p = (s.attach child target p).constrain x F := by
  rw [attach, attach, modifyView_constrain, markDirty_constrain, modifyView_constrain]

/-- **Anchors of one view renamed, and the rules of another one edited.** -/
theorem rebaseBetween_constrain_of_ne (s : Session) (h : child ≠ x) (a b : Option ViewId) :
    (s.constrain x F).rebaseBetween child a b = (s.rebaseBetween child a b).constrain x F := by
  have hget : (s.constrain x F).views.get? child = s.views.get? child := by
    rw [get?_constrain, if_neg (Ne.symm h)]
  cases a with
  | none => rfl
  | some a =>
    cases b with
    | none => rfl
    | some b =>
      show (if a ≠ b then (s.constrain x F).rebaseAnchors child a b else s.constrain x F) =
        (if a ≠ b then s.rebaseAnchors child a b else s).constrain x F
      split
      · rw [rebaseAnchors, rebaseAnchors, hget]
        cases s.views.get? child with
        | none => rfl
        | some view =>
          simp only
          split
          · have hcomm : (s.constrain x F).modifyView child (fun view =>
                view.updateConstraints fun store => store.mapAnchors (Anchor.rename a b)) =
                  (s.modifyView child fun view => view.updateConstraints fun store =>
                    store.mapAnchors (Anchor.rename a b)).constrain x F :=
              congrArg (fun s => s.markDirty x) (modifyView_comm s (Or.inl (Ne.symm h)))
            rw [hcomm, markDirty_constrain]
          · rfl
      · rfl

/-- Anchors renamed behind an edit are renamed in what it leaves. -/
theorem rebaseBetween_constrain (s : Session) (x : ViewId) (a b : Option ViewId) :
    (s.constrain x F).rebaseBetween x a b =
      s.constrain x ((fun store => store.mapAnchors (Anchor.between a b)) ∘ F) := by
  rcases rebaseBetween_cases (s.constrain x F) x a b with h | ⟨h, hkept⟩
  · rw [h, constrain_constrain]
  · rw [h]
    refine constrain_congr fun view hview => ?_
    refine (hkept (view.updateConstraints F) ?_).symm
    rw [get?_constrain, if_pos rfl, hview]
    rfl

/-- An edit behind a renaming edits what the renaming leaves. -/
theorem constrain_rebaseBetween (s : Session) (x : ViewId) (a b : Option ViewId) :
    (s.rebaseBetween x a b).constrain x F =
      s.constrain x (F ∘ fun store => store.mapAnchors (Anchor.between a b)) := by
  rcases rebaseBetween_cases s x a b with h | ⟨h, hkept⟩
  · rw [h, constrain_constrain]
  · rw [h]
    exact constrain_congr fun view hview => congrArg F (hkept view hview).symm

/-- The anchors of one view follow its move, and the rules of another one are edited: neither sees
the other. -/
theorem settled_constrain_of_ne (s : Session) (h : child ≠ x) (before : Hierarchy)
    (parent structural : Option ViewId) :
    (s.constrain x F).settled child before parent structural =
      (s.settled child before parent structural).constrain x F := by
  rw [settled, settled, rebaseBetween_constrain_of_ne s h, rebaseBetween_constrain_of_ne _ h]

/-- **A part written before a move**, renamed for the old place, is the part written after the move
and renamed for the new place, if that is what becomes of its anchors. -/
theorem settled_constrain (s : Session) (x : ViewId) (before : Hierarchy)
    (parent structural : Option ViewId)
    (again : ∀ batch, part.2 = some batch → ∀ c ∈ batch, ∀ a ∈ c.value.anchors,
      Anchor.between parent structural (Anchor.between before.structuralParent before.parent
        (Anchor.between before.parent before.structuralParent a)) =
          Anchor.between parent structural a) :
    (s.constrain x (ConstraintStore.write part
        (Anchor.between before.parent before.structuralParent))).settled x before parent structural =
      (s.settled x before parent structural).constrain x
        (ConstraintStore.write part (Anchor.between parent structural)) := by
  rw [settled, settled, rebaseBetween_constrain, rebaseBetween_constrain, constrain_rebaseBetween,
    constrain_rebaseBetween]
  refine constrain_congr fun view _ => ?_
  simp only [Function.comp_apply, ConstraintStore.write_mapAnchors]
  exact ConstraintStore.write_congr _ again

/-! ## Writing -/

/-- The parent of a view, and what it is rendered under. -/
def parents? (s : Session) (v : ViewId) : Option (Option ViewId × Option ViewId) :=
  (s.place? v).map fun h => (h.parent, h.structuralParent)

/-- Both parents are part of the home. -/
theorem parents?_eq_home (s : Session) (v : ViewId) :
    s.parents? v = (s.home? v).map fun h => (h.parent, h.structuralParent) := by
  rw [parents?, home?, Option.map_map]
  rfl

theorem through_eq (s : Session) (v : ViewId) :
    s.through v = ((s.parents? v).map fun p => Anchor.between p.1 p.2).getD id := by
  rw [through, parents?, Option.map_map]
  rfl

/-- The renaming that rules go through when they are stored is told by the two parents. -/
theorem through_of_parents {parents : Option ViewId × Option ViewId}
    (h : s.parents? v = some parents) : s.through v = Anchor.between parents.1 parents.2 := by
  rw [through_eq, h]
  rfl

/-- A change of place that leaves both parents alone. -/
theorem parents?_modifyView (s : Session) (v u : ViewId) {f : Hierarchy → Hierarchy}
    (parents : ∀ h, ((f h).parent, (f h).structuralParent) = (h.parent, h.structuralParent)) :
    (s.modifyView v fun view => view.updateHierarchy f).parents? u = s.parents? u := by
  rw [parents?, place?_modifyView]
  split
  · rw [Option.map_map, parents?]
    exact congrFun (congrArg Option.map (funext parents)) _
  · rfl

/-- **The session with a part written to a view**, renamed for the place of the view. -/
def written (s : Session) (x : ViewId) (part : Attribute × Option (List Constraint)) : Session :=
  s.constrain x (ConstraintStore.write part (s.through x))

/-- Nothing but the rules of a view is written. -/
theorem get?_written (s : Session) (x : ViewId) (part : Attribute × Option (List Constraint))
    {found : View} (h : s.views.get? v = some found) :
    ∃ rules, (s.written x part).views.get? v = some { found with constraints := rules } := by
  rw [written, get?_constrain, h]
  split
  · exact ⟨_, rfl⟩
  · exact ⟨found.constraints, rfl⟩

/-- Where the view is rendered in the same place, the same is written. -/
theorem written_eq (h : s'.parents? x = s.parents? x) :
    s'.written x part = s'.constrain x (ConstraintStore.write part (s.through x)) := by
  rw [written, through_eq, through_eq, h]

/-- What an assignment writes: its rules before they are renamed, or nothing where it clears. -/
def part? (s : Session) (attr : Attribute) (input : ConstraintInput) :
    Except Error (Attribute × Option (List Constraint)) :=
  match input with
  | .clear => .ok (attr, none)
  | input => do
    let batch ← input.expand attr s.currentAnimation
    s.checkAnchors batch
    return (attr, some batch)

/-- What is written depends on the animation in force and the views that there are. -/
theorem SameBasis.part?_eq (h : SameBasis s s') (attr : Attribute) (input : ConstraintInput) :
    s'.part? attr input = s.part? attr input := by
  have hview (u : ViewId) : (s'.view? u >>= fun _ => (pure () : Except Error Unit)) =
      s.view? u >>= fun _ => pure () := by
    rw [view?, view?]
    by_cases hu : s.contains u = true
    · obtain ⟨found, hfound⟩ := contains_iff.1 hu
      obtain ⟨found', hfound'⟩ := contains_iff.1 ((h.contains u).trans hu)
      rw [hfound, hfound']
      rfl
    · have hu' : ¬ s'.contains u = true := by rwa [h.contains u]
      have hgone : s.views.get? u = none := Option.not_isSome_iff_eq_none.1 hu
      have hgone' : s'.views.get? u = none := Option.not_isSome_iff_eq_none.1 hu'
      rw [hgone, hgone']
  have hcheck (batch : List Constraint) : s'.checkAnchors batch = s.checkAnchors batch :=
    congrArg (List.forM _) (funext fun a => hview a.view)
  cases input <;> simp only [part?, h.currentAnimation, hcheck]

/-- **An assignment** fails before it changes anything, or writes its part. -/
theorem set_eq (hv : s.contains v = true) (attr : Attribute) (input : ConstraintInput) :
    set v attr input s = match s.part? attr input with
      | .ok part => .ok () (s.written v part)
      | .error e => .error e s := by
  obtain ⟨found, hfound⟩ := contains_iff.1 hv
  have hwrite (part : Attribute × Option (List Constraint)) :
      (do update v fun view => view.updateConstraints (ConstraintStore.write part (s.through v))
          modify fun s => s.markDirty v : Operation Unit) s = .ok () (s.written v part) :=
    bind_of_ok ((update_apply v _ s).trans (if_pos hv)) _
  refine (bind_of_ok (view_of_get? hfound) _).trans ?_
  have hstored (input : ConstraintInput) : (do
      store v attr (← Operation.ofExcept ((← get).prepare? v attr input)) : Operation Unit) s =
        match (do
          let batch ← input.expand attr s.currentAnimation
          s.checkAnchors batch
          return (attr, some batch) : Except Error (Attribute × Option (List Constraint))) with
        | .ok part => .ok () (s.written v part)
        | .error e => .error e s := by
    show (Operation.ofExcept (s.prepare? v attr input) >>= store v attr) s = _
    rw [prepare?]
    cases input.expand attr s.currentAnimation with
    | error e => rfl
    | ok batch =>
      show (Operation.ofExcept (s.checkAnchors batch >>= fun _ => _) >>= store v attr) s =
        match (s.checkAnchors batch >>= fun _ => _ : Except Error _) with
        | .ok part => .ok () (s.written v part)
        | .error e => .error e s
      cases s.checkAnchors batch with
      | error e => rfl
      | ok _ =>
        show store v attr (s.throughContainer v batch) s = _
        rw [throughContainer_eq]
        exact hwrite (attr, some batch)
  cases input with
  | clear => exact hwrite (attr, none)
  | _ => exact hstored _

end Session

end AnchorLayout
