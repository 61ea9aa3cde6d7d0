import AnchorLayout.Proofs.Hierarchy.Line
import AnchorLayout.Proofs.Operation
import AnchorLayout.Session.Hierarchy
/-!
# Places

  Everything about the rendered tree is in the places of the views.  This file says what each step
  of an operation does to them, and which steps leave the tree as it is.

  1. **Specification** — `Session.place?`, the place of a view; `TreeEq`, that every link, the root
     and the next identifier are as they were.
  2. **Steps** — `place?_modifyView` and `place?_register`; the other steps of the program are
     built from these.
-/

namespace AnchorLayout

namespace Session

variable {s s' : Session} {u v p : ViewId}

/-- The place of a view. -/
def place? (s : Session) (v : ViewId) : Option Hierarchy :=
  (s.views.get? v).map fun view => view.hierarchy

/-! ## What is read off a place -/

/-- The tree of a session is a map from views to places; here and below each question about the tree
is put to that map, so that one lemma for each step of the program answers them all. -/
theorem contains_eq (s : Session) (v : ViewId) : s.contains v = (s.place? v).isSome := by
  rw [place?, Option.isSome_map]
  rfl

/-- The link upwards that rendering uses. -/
theorem structuralParent?_eq (s : Session) (v : ViewId) :
    s.structuralParent? v = (s.place? v).bind Hierarchy.structuralParent := by
  rw [structuralParent?, place?]
  cases s.views.get? v <;> rfl

/-- The links downwards; a view that is not registered has none. -/
theorem childrenOf_eq (s : Session) (v : ViewId) :
    s.childrenOf v = ((s.place? v).map Hierarchy.children).getD [] := by
  rw [childrenOf, place?]
  cases s.views.get? v <;> rfl

/-- A registered view has a place, and only such a view has one. -/
theorem contains_iff_place : s.contains v = true ↔ ∃ place, s.place? v = some place := by
  rw [contains_eq]
  exact Option.isSome_iff_exists

/-- One step up the rendered tree, read off the place of the lower view. -/
theorem climb_iff_place :
    s.Climb v p ↔ ∃ place, s.place? v = some place ∧ place.structuralParent = some p := by
  rw [Climb, structuralParent?_eq]
  exact Option.bind_eq_some_iff

/-- What is not registered has no children, so the laws of a forest need no case for it. -/
theorem childrenOf_of_not_contains (h : ¬ s.contains v = true) : s.childrenOf v = [] := by
  have hnone : s.place? v = none := by
    cases hp : s.place? v with
    | none => rfl
    | some place => exact absurd (contains_iff_place.2 ⟨place, hp⟩) h
  rw [childrenOf_eq, hnone]
  rfl

/-! ## The same tree -/

end Session

/-- What a place says about the rendered tree; the container and the kind of the view are not in
it. -/
def Hierarchy.links (h : Hierarchy) : Option ViewId × Option ViewId × List ViewId :=
  (h.parent, h.structuralParent, h.children)

namespace Session

variable {s s' : Session} {u v p : ViewId}

/-- The links of a view. -/
def links? (s : Session) (v : ViewId) : Option (Option ViewId × Option ViewId × List ViewId) :=
  (s.place? v).map Hierarchy.links

/-- The same three questions need only the links of a place.  They are what two sessions with the
same tree agree on. -/
theorem contains_eq_links (s : Session) (v : ViewId) : s.contains v = (s.links? v).isSome := by
  rw [links?, Option.isSome_map]
  exact contains_eq s v

theorem structuralParent?_eq_links (s : Session) (v : ViewId) :
    s.structuralParent? v = (s.links? v).bind fun links => links.2.1 := by
  rw [structuralParent?_eq, links?]
  cases s.place? v <;> rfl

theorem childrenOf_eq_links (s : Session) (v : ViewId) :
    s.childrenOf v = ((s.links? v).map fun links => links.2.2).getD [] := by
  rw [childrenOf_eq, links?]
  cases s.place? v <;> rfl

/-- **The same tree**: the links, the root and the next identifier have not changed. -/
structure TreeEq (s s' : Session) : Prop where
  links : ∀ v, s'.links? v = s.links? v
  root : s'.root = s.root
  nextId : s'.nextId = s.nextId

theorem TreeEq.refl (s : Session) : TreeEq s s := ⟨fun _ => rfl, rfl, rfl⟩

/-- A request is several steps, each of which leaves the tree as it is. -/
theorem TreeEq.trans {s₁ s₂ s₃ : Session} (h : TreeEq s₁ s₂) (h' : TreeEq s₂ s₃) : TreeEq s₁ s₃ :=
  ⟨fun v => (h'.links v).trans (h.links v), h'.root.trans h.root, h'.nextId.trans h.nextId⟩

/-- A session with the same views and another background has the same tree. -/
theorem TreeEq.of_views (views : s'.views = s.views) (root : s'.root = s.root)
    (nextId : s'.nextId = s.nextId) : TreeEq s s' :=
  ⟨fun v => by rw [links?, links?, place?, place?, views], root, nextId⟩

/-- **Whatever is asked about the tree** has the same answer in two sessions with the same tree. -/
theorem TreeEq.contains (h : TreeEq s s') (v : ViewId) : s'.contains v = s.contains v := by
  rw [contains_eq_links, contains_eq_links, h.links]

theorem TreeEq.structuralParent? (h : TreeEq s s') (v : ViewId) :
    s'.structuralParent? v = s.structuralParent? v := by
  rw [structuralParent?_eq_links, structuralParent?_eq_links, h.links]

theorem TreeEq.climb_iff (h : TreeEq s s') : s'.Climb v p ↔ s.Climb v p := by
  rw [Climb, Climb, h.structuralParent?]

/-- As functions, so that whole paths can be rewritten at once. -/
theorem TreeEq.climb_eq (h : TreeEq s s') : s'.Climb = s.Climb :=
  funext fun _ => funext fun _ => propext h.climb_iff

theorem TreeEq.below_iff (h : TreeEq s s') : s'.Below v p ↔ s.Below v p := by
  rw [Below, Below, h.climb_eq]

theorem TreeEq.childrenOf (h : TreeEq s s') (v : ViewId) : s'.childrenOf v = s.childrenOf v := by
  rw [childrenOf_eq_links, childrenOf_eq_links, h.links]

/-- The changes that leave the tree as it is. -/
def sameTree : Change := ⟨TreeEq, TreeEq.refl, TreeEq.trans⟩

/-! ## Steps -/

/-- The one look-up that the others come from: a view changed is the only one that changes. -/
@[simp] theorem get?_modifyView (s : Session) (v u : ViewId) (f : View → View) :
    (s.modifyView v f).views.get? u =
      if v = u then (s.views.get? u).map f else s.views.get? u :=
  OrderedMap.get?_modify s.views v u f

/-- What is read off every view stays where it is not what changes. -/
theorem map_get?_modifyView {α : Type} {read : View → α} {f : View → View}
    (same : ∀ view, read (f view) = read view) (s : Session) (v u : ViewId) :
    ((s.modifyView v f).views.get? u).map read = (s.views.get? u).map read := by
  rw [get?_modifyView]
  split
  · rw [Option.map_map]
    exact congrFun (congrArg Option.map (funext same)) _
  · rfl

/-- Taking a view out changes nothing but places. -/
theorem map_get?_detach {α : Type} {read : View → α}
    (same : ∀ f view, read (ViewOf.updateHierarchy view f) = read view) (s : Session)
    (child u : ViewId) : ((s.detach child).views.get? u).map read = (s.views.get? u).map read := by
  unfold Session.detach
  split
  · rfl
  · exact (map_get?_modifyView (same _) _ _ u).trans (map_get?_modifyView (same _) s _ u)

/-- A change of one place, seen in the map of all places. -/
theorem place?_modifyView (s : Session) (v u : ViewId) (f : Hierarchy → Hierarchy) :
    (s.modifyView v fun view => view.updateHierarchy f).place? u =
      if v = u then (s.place? u).map f else s.place? u := by
  rw [place?, get?_modifyView]
  split
  · rw [Option.map_map, place?, Option.map_map]
    rfl
  · rfl

/-- A mark is not part of the tree. -/
@[simp] theorem place?_markDirty (s : Session) (v u : ViewId) :
    (s.markDirty v).place? u = s.place? u := rfl

/-- **A new view** has a place under nothing, and no other place changes. -/
theorem place?_register (s : Session) (tag : String) (u : ViewId) :
    (s.register tag).place? u =
      if s.nextId = u then some Hierarchy.detached else s.place? u := by
  show ((s.views.insert s.nextId (ViewOf.new tag)).get? u).map _ = _
  rw [OrderedMap.get?_insert]
  split <;> rfl

/-- A view changed in something other than its links. -/
theorem treeEq_modifyView (s : Session) (v : ViewId) {f : View → View}
    (h : ∀ view, s.views.get? v = some view → (f view).hierarchy.links = view.hierarchy.links) :
    TreeEq s (s.modifyView v f) := by
  refine ⟨fun u => ?_, rfl, rfl⟩
  rw [links?, links?, place?, place?, get?_modifyView]
  split
  · next hu =>
    subst hu
    cases hget : s.views.get? v with
    | none => rfl
    | some view => exact congrArg some (h view hget)
  · rfl

theorem treeEq_markDirty (s : Session) (v : ViewId) : TreeEq s (s.markDirty v) :=
  TreeEq.of_views rfl rfl rfl

/-- A view changed in something other than its place, and marked. -/
theorem treeEq_edit (s : Session) (v : ViewId) {f : View → View}
    (h : ∀ view, (f view).hierarchy = view.hierarchy) : TreeEq s ((s.modifyView v f).markDirty v) :=
  (treeEq_modifyView s v fun view _ => congrArg Hierarchy.links (h view)).trans
    (treeEq_markDirty _ v)

/-- Anchors are renamed in the rules of a view, which are not part of the tree either. -/
theorem treeEq_rebaseAnchors (s : Session) (v source target : ViewId) :
    TreeEq s (s.rebaseAnchors v source target) := by
  unfold rebaseAnchors
  split
  · exact TreeEq.refl s
  · split
    · exact treeEq_edit s v fun _ => rfl
    · exact TreeEq.refl s

/-- The same where one of the two parents is missing and nothing is renamed. -/
theorem treeEq_rebaseBetween (s : Session) (v : ViewId) (source target : Option ViewId) :
    TreeEq s (s.rebaseBetween v source target) := by
  unfold rebaseBetween
  split
  · split
    · exact treeEq_rebaseAnchors s v _ _
    · exact TreeEq.refl s
  · exact TreeEq.refl s

end Session

end AnchorLayout
