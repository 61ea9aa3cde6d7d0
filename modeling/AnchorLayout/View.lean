import AnchorLayout.Constraint.Store
import AnchorLayout.Event.Binding
import AnchorLayout.Style.Sheet
/-!
# Views

  A view is a record of independent concerns: its place in the hierarchy, its constraints, its
  properties and styles, and its event bindings.  What needs several views belongs to the session.
-/

namespace AnchorLayout

/-- The place of a view. -/
structure Hierarchy where
  /-- The parent that was asked for. -/
  parent : Option ViewId
  /-- The parent in the rendered tree; under a container, the container. -/
  structuralParent : Option ViewId
  /-- The rendered children, in order. -/
  children : List ViewId
  /-- The view that holds the children of this one. -/
  container : Option ViewId
  /-- Chrome stays a direct child even when there is a container. -/
  isChrome : Bool
deriving DecidableEq

/-- Nowhere. -/
def Hierarchy.detached : Hierarchy := ⟨none, none, [], none, false⟩

/-- A view with handlers of type `η`. -/
structure ViewOf (η : Type) where
  tag : String
  hierarchy : Hierarchy
  constraints : ConstraintStore
  properties : OrderedMap String Json
  style : StyleSheet
  bindings : Bindings η

namespace ViewOf

variable {η θ : Type}

/-- A view with a tag and nothing else. -/
def new (tag : String) : ViewOf η := ⟨tag, .detached, ∅, ∅, ∅, ∅⟩

instance : Inhabited (ViewOf η) := ⟨new ""⟩

/-- The view with a changed place. -/
def updateHierarchy (v : ViewOf η) (f : Hierarchy → Hierarchy) : ViewOf η :=
  { v with hierarchy := f v.hierarchy }

/-- The view with changed constraints. -/
def updateConstraints (v : ViewOf η) (f : ConstraintStore → ConstraintStore) : ViewOf η :=
  { v with constraints := f v.constraints }

/-- The view with changed styles. -/
def updateStyle (v : ViewOf η) (f : StyleSheet → StyleSheet) : ViewOf η :=
  { v with style := f v.style }

/-- The view with changed bindings. -/
def updateBindings (v : ViewOf η) (f : Bindings η → Bindings η) : ViewOf η :=
  { v with bindings := f v.bindings }

/-- The view with a property; `null` removes it. -/
def setProperty (v : ViewOf η) (name : String) (value : Json) : ViewOf η :=
  { v with
    properties := if value.isNull then v.properties.erase name else v.properties.insert name value }

/-- Every handler replaced. -/
def mapHandlers (v : ViewOf η) (f : η → θ) : ViewOf θ :=
  ⟨v.tag, v.hierarchy, v.constraints, v.properties, v.style, v.bindings.map f⟩

end ViewOf

end AnchorLayout
