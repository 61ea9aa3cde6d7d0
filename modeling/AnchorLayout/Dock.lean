import AnchorLayout.Expr.Basic
/-!
# Docks

  A keyword that places a view relative to a parent or a sibling.

  Program        `DockTarget.expand`: the assignments that a dock stands for.
  Specification  `Dock.parentAttributes` (the attributes shared with a parent),
                 `Dock.besides` (whether the view ends up next to the reference or inside it).
  Crux           an offset points away from the reference edge, so that it is inverted on trailing
                 edges.
-/

namespace AnchorLayout

/-- A dock keyword. -/
inductive Dock where
  | top
  | left
  | bottom
  | right
  | topLeft
  | topRight
  | bottomLeft
  | bottomRight
  | center
  | topCenter
  | bottomCenter
  | leftCenter
  | rightCenter
  | sides
  | topAndBottom
  | all
  | above
  | below
  | leftOf
  | rightOf
deriving DecidableEq

namespace Dock

/-- All docks with their keywords. -/
def keywords : List (String × Dock) :=
  [("top", top), ("left", left), ("bottom", bottom), ("right", right), ("top_left", topLeft),
    ("top_right", topRight), ("bottom_left", bottomLeft), ("bottom_right", bottomRight),
    ("center", center), ("top_center", topCenter), ("bottom_center", bottomCenter),
    ("left_center", leftCenter), ("right_center", rightCenter), ("sides", sides),
    ("top_and_bottom", topAndBottom), ("all", all), ("above", above), ("below", below),
    ("left_of", leftOf), ("right_of", rightOf)]

/-- The dock of a keyword. -/
def ofKeyword? (keyword : String) : Option Dock :=
  (keywords.find? fun entry => entry.1 == keyword).map Prod.snd

/-- **Beside**: the view goes next to the reference, under the same parent. -/
def besides : Dock → Bool
  | above | below | leftOf | rightOf => true
  | _ => false

/-- The attributes that a view inside the reference shares with it. -/
def parentAttributes : Dock → List Attribute
  | top => [.top, .left, .right]
  | left => [.left, .top, .bottom]
  | bottom => [.bottom, .left, .right]
  | right => [.right, .top, .bottom]
  | topLeft => [.top, .left]
  | topRight => [.top, .right]
  | bottomLeft => [.bottom, .left]
  | bottomRight => [.bottom, .right]
  | center => [.centerX, .centerY]
  | topCenter => [.top, .centerX]
  | bottomCenter => [.bottom, .centerX]
  | leftCenter => [.left, .centerY]
  | rightCenter => [.right, .centerY]
  | sides => [.left, .right]
  | topAndBottom => [.top, .bottom]
  | all => [.top, .left, .right, .bottom]
  | above | below | leftOf | rightOf => []

end Dock

/-- A dock at a reference view, with an offset or without. -/
structure DockTarget where
  view : ViewId
  dock : Dock
  modifier : Option (BinaryOp × Expr)

namespace DockTarget

/-- The anchor on an attribute of the reference. -/
def anchor (t : DockTarget) (attr : Attribute) : Expr := .anchor ⟨t.view, attr⟩

/-- An anchor with the offset; on a trailing edge the offset is inverted. -/
def offset (t : DockTarget) (attr : Attribute) (invert : Bool) : Expr :=
  match t.modifier with
  | none => t.anchor attr
  | some (op, e) => .binary (if invert then op.inverted else op) (t.anchor attr) e

/-- One edge at an edge of the reference, and two attributes equal to those of the reference. -/
def sibling (t : DockTarget) (target source : Attribute) (invert : Bool)
    (first second : Attribute) : List (Attribute × Expr) :=
  [(target, t.offset source invert), (first, t.anchor first), (second, t.anchor second)]

/-- **The assignments** that the dock stands for, in order. -/
def expand (t : DockTarget) : List (Attribute × Expr) :=
  match t.dock with
  | .above => t.sibling .bottom .top true .centerX .width
  | .below => t.sibling .top .bottom false .centerX .width
  | .leftOf => t.sibling .right .left true .centerY .height
  | .rightOf => t.sibling .left .right false .centerY .height
  | dock => dock.parentAttributes.map fun attr => (attr, t.offset attr (attr.edge == .trailing))

end DockTarget

end AnchorLayout
