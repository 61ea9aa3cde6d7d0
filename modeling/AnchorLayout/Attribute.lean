/-!
# Attributes of a view

  The ten geometric attributes, their axes, the shorthands for several of them, and the names they
  go by.

  Program        `Attribute.ofName?`, `Target.ofName?`.
  Specification  `Axis.priority` (which equalities outlive others), `Composite.attributes`.
  Crux           every attribute answers to two spellings, and a handful of other names lead to the
                 same ones.
-/

namespace AnchorLayout

/-- A geometric attribute of a view. -/
inductive Attribute where
  | left
  | right
  | top
  | bottom
  | width
  | height
  | centerX
  | centerY
  /-- The width the children need; the client computes it. -/
  | fitWidth
  /-- The height the children need; the client computes it. -/
  | fitHeight
deriving DecidableEq, Inhabited

/-- The direction an attribute measures in. -/
inductive Axis where
  | horizontal
  | vertical
deriving DecidableEq

/-- The side of a view an attribute lies on. -/
inductive Edge where
  | leading
  | trailing
  | neutral
deriving DecidableEq

namespace Attribute

/-- All of them, in the order of declaration. -/
def all : List Attribute :=
  [left, right, top, bottom, width, height, centerX, centerY, fitWidth, fitHeight]

/-- The name on the wire. -/
def wireName : Attribute → String
  | left => "left"
  | right => "right"
  | top => "top"
  | bottom => "bottom"
  | width => "width"
  | height => "height"
  | centerX => "centerX"
  | centerY => "centerY"
  | fitWidth => "fitWidth"
  | fitHeight => "fitHeight"

/-- The name with words apart. -/
def snakeName : Attribute → String
  | centerX => "center_x"
  | centerY => "center_y"
  | fitWidth => "fit_width"
  | fitHeight => "fit_height"
  | attr => attr.wireName

/-- The name in outlines. -/
def outlineName : Attribute → String
  | left => "Left"
  | right => "Right"
  | top => "Top"
  | bottom => "Bottom"
  | width => "Width"
  | height => "Height"
  | centerX => "CenterX"
  | centerY => "CenterY"
  | fitWidth => "FitWidth"
  | fitHeight => "FitHeight"

/-- The direction it measures in. -/
def axis : Attribute → Axis
  | left | right | width | centerX | fitWidth => .horizontal
  | top | bottom | height | centerY | fitHeight => .vertical

/-- The side of the view it lies on. -/
def edge : Attribute → Edge
  | left | top => .leading
  | right | bottom => .trailing
  | _ => .neutral

/-- **Settable**: all but the two that the client computes. -/
def isSettable : Attribute → Bool
  | fitWidth | fitHeight => false
  | _ => true

theorem mem_all (attr : Attribute) : attr ∈ all := by cases attr <;> decide

end Attribute

/-- The attributes of an axis that may be given, the one that outlives the others first. -/
def Axis.priority : Axis → List Attribute
  | .horizontal => [.width, .left, .centerX, .right]
  | .vertical => [.height, .top, .centerY, .bottom]

theorem Axis.mem_priority_iff {axis : Axis} {attr : Attribute} :
    attr ∈ axis.priority ↔ attr.axis = axis ∧ attr.isSettable = true := by
  cases axis <;> cases attr <;> decide

/-- A name for several attributes that are set together. -/
inductive Composite where
  | center
  | position
  | size
  | frame
deriving DecidableEq

namespace Composite

/-- All of them. -/
def all : List Composite := [center, position, size, frame]

/-- The attributes it stands for, in the order in which they are set. -/
def attributes : Composite → List Attribute
  | center => [.centerX, .centerY]
  | position => [.left, .top]
  | size => [.width, .height]
  | frame => [.left, .top, .width, .height]

/-- Its name. -/
def name : Composite → String
  | center => "center"
  | position => "position"
  | size => "size"
  | frame => "frame"

end Composite

/-- What a name stands for. -/
inductive Target where
  | single (attr : Attribute)
  | composite (composite : Composite)
deriving DecidableEq

/-- **The attribute of a name**: its wire name, its name with words apart, or `x` or `y`. -/
def Attribute.ofName? (name : String) : Option Attribute :=
  if name = "x" then some .left
  else if name = "y" then some .top
  else Attribute.all.find? fun attr =>
    attr.wireName == name || attr.snakeName == name

/-- **The target of a name**: an attribute, or a composite by its name or as `box`. -/
def Target.ofName? (name : String) : Option Target :=
  match Attribute.ofName? name with
  | some attr => some (.single attr)
  | none =>
    if name = "box" then some (.composite .frame)
    else (Composite.all.find? fun composite => composite.name == name).map .composite

end AnchorLayout
