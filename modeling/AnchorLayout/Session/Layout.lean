import AnchorLayout.Session.Hierarchy
/-!
# Layout

  Constraining views, docking them, and sizing them to their content.

  Program        `Session.set`, `setComposite`, `dock`, `fit`.
  Specification  `Session.prepare?`: the rules that an assignment would store, or why it is refused.
  Crux           everything is prepared before anything is stored.
-/

namespace AnchorLayout

namespace Session

/-! ## Preparing -/

/-- The anchors of a rule on the parent that was asked for, moved to the parent that is rendered
around the view. -/
def throughContainer (s : Session) (v : ViewId) (batch : List Constraint) : List Constraint :=
  match s.views.get? v with
  | none => batch
  | some view =>
    match view.hierarchy.parent, view.hierarchy.structuralParent with
    | some parent, some structural =>
      if parent ≠ structural then batch.map fun c => c.mapAnchors (Anchor.rename parent structural)
      else batch
    | _, _ => batch

/-- All views that the values of some rules refer to are registered. -/
def checkAnchors (s : Session) (batch : List Constraint) : Except Error Unit :=
  (batch.flatMap fun c => c.value.anchors).forM fun a => do
    let _ ← s.view? a.view

/-- **The rules** that an assignment would store. -/
def prepare? (s : Session) (v : ViewId) (attr : Attribute) (input : ConstraintInput) :
    Except Error (List Constraint) := do
  let batch ← input.expand attr s.currentAnimation
  s.checkAnchors batch
  return s.throughContainer v batch

/-- Prepared rules stored. -/
def store (v : ViewId) (attr : Attribute) (batch : List Constraint) : Operation Unit := do
  update v fun view => view.updateConstraints fun store => (store.assign attr batch).1
  modify fun s => s.markDirty v

/-- Every prepared assignment stored, in order. -/
def storeAll (v : ViewId) (prepared : List (Attribute × List Constraint)) : Operation Unit :=
  prepared.forM fun p => store v p.1 p.2

/-! ## Single attributes -/

/-- The rules of an attribute removed. -/
def clear (v : ViewId) (attr : Attribute) : Operation Unit := do
  update v fun view => view.updateConstraints fun store => store.clear attr
  modify fun s => s.markDirty v

/-- All rules of a view removed. -/
def release (v : ViewId) : Operation Unit := do
  update v fun view => view.updateConstraints fun _ => ∅
  modify fun s => s.markDirty v

/-- **Assignment** to one attribute. -/
def set (v : ViewId) (attr : Attribute) (input : ConstraintInput) : Operation Unit := do
  let _ ← view v
  match input with
  | .clear => clear v attr
  | input => store v attr (← Operation.ofExcept ((← get).prepare? v attr input))

/-! ## Several attributes -/

/-- What an assignment to one part of a composite would store; nothing when it clears the part. -/
def preparePart? (s : Session) (v : ViewId) (part : Attribute × ConstraintInput) :
    Except Error (Attribute × Option (List Constraint)) :=
  match part.2 with
  | .clear => .ok (part.1, none)
  | input => do return (part.1, some (← s.prepare? v part.1 input))

/-- A prepared part stored, or cleared. -/
def storePart (v : ViewId) (part : Attribute × Option (List Constraint)) : Operation Unit :=
  match part.2 with
  | some batch => store v part.1 batch
  | none => clear v part.1

/-- **Assignment** to every part of a composite, one value for each. -/
def setComposite (v : ViewId) (composite : Composite) (inputs : List ConstraintInput) :
    Operation Unit := do
  if inputs.length ≠ composite.attributes.length then
    throw (.unsupported composite.name (.list (ConstraintInput.outlines inputs)))
  let _ ← view v
  let s ← get
  let prepared ← Operation.ofExcept ((composite.attributes.zip inputs).mapM (s.preparePart? v))
  prepared.forM (storePart v)

/-- Assignment to an attribute or a composite by name; a composite takes a list. -/
def setNamed (v : ViewId) (name : String) (input : ConstraintInput) : Operation Unit := do
  match Target.ofName? name with
  | none => throw (.unknownAttribute name)
  | some (.single attr) => set v attr input
  | some (.composite composite) =>
    match input with
    | .many items => setComposite v composite items
    | input => throw (.unsupported composite.name input.outline)

/-! ## Docking -/

/-- The parent of a docked view: the reference, or the parent of the reference. -/
def dockParent (v : ViewId) (target : DockTarget) : Operation ViewId := do
  let reference ← view target.view
  if target.dock.besides then
    match reference.hierarchy.parent with
    | some parent => return parent
    | none => throw (.refused (.noPlaceBeside v target.view))
  else return target.view

/-- The rules of a dock. -/
def dockRules? (target : DockTarget) (animation : Option Animation) :
    Except Error (List (Attribute × List Constraint)) :=
  target.expand.mapM fun (attr, e) => do
    return (attr, ← (ConstraintInput.value e).expand attr animation)

/-- **Docking**: the view is moved to its place, and then constrained. -/
def dock (v : ViewId) (target : DockTarget) : Operation Unit := do
  let _ ← view v
  let parent ← dockParent v target
  if v = target.view ∨ (← get).isAncestorOrSelf v parent then throw (.refused (.ownSubtree v))
  let prepared ← Operation.ofExcept (dockRules? target (← get).currentAnimation)
  setParent v (some parent)
  -- the container, if any, is the one of the new place
  prepared.forM fun (attr, batch) => do store v attr ((← get).throughContainer v batch)

/-- Docking by keyword. -/
def dockNamed (v reference : ViewId) (keyword : String) : Operation Unit := do
  match Dock.ofKeyword? keyword with
  | some d => dock v ⟨reference, d, none⟩
  | none => throw (.unknownDock keyword)

/-! ## Sizing to content -/

/-- The size that the content of a view needs, and extra space. -/
def fitExpr (v : ViewId) (attr : Attribute) (extra : Number) : Expr :=
  .binary .add (.anchor ⟨v, attr⟩) (.num extra)

/-- The assignments that a fit stands for. -/
def fitAssignments (v : ViewId) : Fit → List (Attribute × Expr)
  | .width extra => [(.width, fitExpr v .fitWidth extra)]
  | .height extra => [(.height, fitExpr v .fitHeight extra)]
  | .both extra => [(.width, fitExpr v .fitWidth extra), (.height, fitExpr v .fitHeight extra)]

/-- **Fitting** a view to its content. -/
def fit (v : ViewId) (f : Fit) : Operation Unit := do
  let _ ← view v
  let s ← get
  let prepared ← Operation.ofExcept ((fitAssignments v f).mapM fun (attr, e) => do
    return (attr, ← s.prepare? v attr (.value e)))
  storeAll v prepared

end Session

end AnchorLayout
