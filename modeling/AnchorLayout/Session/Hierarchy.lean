import AnchorLayout.Session.Basic
/-!
# The hierarchy of a session

  Every view has the parent it was given and the parent it is rendered under; they differ below a
  view with a container, whose children are rendered inside the container.

  Program        `Session.setParent`, `setChrome`, `setContainer`.
  Specification  `Session.placement?`: where a child of a view lands.
  Crux           everything moves through `setParent`, which looks for a cycle before it changes
                 anything; anchors on a parent with a container always name the container.
-/

namespace AnchorLayout

namespace Session

/-! ## Looking -/

/-- The children of a view as they were added, looking through its container. -/
def visualChildren? (s : Session) (v : ViewId) : Except Error (List ViewId) := do
  let view ← s.view? v
  let holder ← match view.hierarchy.container with
    | some c => s.view? c
    | none => pure view
  return holder.hierarchy.children.filter fun child =>
    ((s.views.get? child).bind fun c => c.hierarchy.parent) == some v

/-- **Placement**: a child of a view with a container lands in the container, unless it is chrome or
the container itself. -/
def placement? (s : Session) (child parent : ViewId) : Except Error ViewId := do
  let isChrome := (← s.view? child).hierarchy.isChrome
  match (← s.view? parent).hierarchy.container with
  | some c => return if !isChrome && c ≠ child then c else parent
  | none => return parent

/-! ## Moving -/

/-- A view taken out of the rendered tree. -/
def detach (s : Session) (child : ViewId) : Session :=
  match s.structuralParent? child with
  | none => s
  | some old =>
    ((s.modifyView old fun view => view.updateHierarchy fun h =>
        { h with children := h.children.filter (· ≠ child) }).modifyView child
      fun view => view.updateHierarchy fun h =>
        { h with parent := none, structuralParent := none }).markDirty old

/-- Anchors of a view on one view moved to another; the view is dirty if there were any. -/
def rebaseAnchors (s : Session) (v source target : ViewId) : Session :=
  match s.views.get? v with
  | none => s
  | some view =>
    if view.constraints.mentions source then
      (s.modifyView v fun view => view.updateConstraints fun store =>
        store.mapAnchors (Anchor.rename source target)).markDirty v
    else s

/-- The same, where both views are known and differ. -/
def rebaseBetween (s : Session) (v : ViewId) (source target : Option ViewId) : Session :=
  match source, target with
  | some source, some target => if source ≠ target then s.rebaseAnchors v source target else s
  | _, _ => s

/-- The place of a child of a view, which must not be below the child. -/
def checkedPlacement (child parent : ViewId) : Operation ViewId := do
  let target ← Operation.ofExcept ((← get).placement? child parent)
  if (← get).isAncestorOrSelf child target then throw (.refused (.ownDescendant child parent))
  return target

/-- **Moving** a view under a parent, or out of the tree. -/
def setParent (child : ViewId) (parent : Option ViewId) : Operation Unit := do
  let before := (← view child).hierarchy
  -- a cycle is found before anything has moved
  let structural ← match parent with
    | some p => some <$> checkedPlacement child p
    | none => pure none
  modify fun s => s.detach child
  if let some target := structural then
    update target fun view => view.updateHierarchy fun h =>
      { h with children := h.children ++ [child] }
    modify fun s => s.markDirty target
  update child fun view => view.updateHierarchy fun h =>
    { h with parent := parent, structuralParent := structural }
  -- anchors first leave the old container, and then enter the new one
  modify fun s => s.rebaseBetween child before.structuralParent before.parent
  modify fun s => s.rebaseBetween child parent structural

/-- A new view under a parent. -/
def createChild (parent : ViewId) : Operation ViewId := do
  let _ ← view parent
  let id ← create "div"
  setParent id (some parent)
  return id

/-- Several views under a parent, one after the other up to the first failure. -/
def addChildren (parent : ViewId) (children : List ViewId) : Operation Unit :=
  children.forM fun child => setParent child (some parent)

/-- **Chrome** stays with its parent when there is a container. -/
def setChrome (v : ViewId) (isChrome : Bool) : Operation Unit := do
  let before := (← view v).hierarchy
  if before.isChrome ≠ isChrome then
    update v fun view => view.updateHierarchy fun h => { h with isChrome := isChrome }
    if let some parent := before.parent then setParent v (some parent)

/-- One of the children that a change of container moves; the container and chrome stay. -/
def moveIntoPlace (v target child : ViewId) : Operation Unit := do
  if child ≠ target then
    unless (← view child).hierarchy.isChrome do setParent child (some v)

/-- A view made the container of another. -/
def installContainer (v c : ViewId) : Operation Unit := do
  update c fun view => view.updateHierarchy fun h => { h with isChrome := true }
  setParent c (some v)
  update v fun view => view.updateHierarchy fun h => { h with container := some c }

/-- **The container** of a view set or removed, and its children moved into it or back. -/
def setContainer (v : ViewId) (container : Option ViewId) : Operation Unit := do
  let _ ← view v
  if let some c := container then
    let _ ← view c
    if c = v ∨ (← get).isAncestorOrSelf c v then throw (.refused (.ownAncestor c v))
  -- what is to be moved is found while the old container is still in place
  let moved ← Operation.ofExcept ((← get).visualChildren? v)
  let old := (← view v).hierarchy.container
  update v fun view => view.updateHierarchy fun h => { h with container := none }
  if let some c := container then installContainer v c
  moved.forM (moveIntoPlace v (container.getD v))
  if let some c := old then modify fun s => s.markDirty c
  modify fun s => s.markDirty v

end Session

end AnchorLayout
