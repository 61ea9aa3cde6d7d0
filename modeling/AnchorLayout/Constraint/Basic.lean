import AnchorLayout.Animation
import AnchorLayout.Condition
import AnchorLayout.Expr.Linear
/-!
# Constraints

  One rule for one attribute of a view: a comparison with an expression, under a guard or not, with
  a timing or without.

  Program        `Constraint.text` (the clause), `Constraint.record?` (the positional record).
  Specification  `Constraint.same` (equality of values), `Record` (the fields of a linear rule).
  Crux           a record exists exactly when the value is linear; every other shape is carried by
                 the clause alone.
-/

namespace AnchorLayout

/-- A rule for one attribute. -/
structure Constraint where
  target : Attribute
  comparison : Comparison
  value : Expr
  condition : Option Condition
  animation : Option Animation

/-- The fields of a linear rule: target, comparison, source anchor, multiplier, modifier, guard and
timing. -/
structure Record where
  target : String
  comparison : Option Comparison
  source : Option Anchor
  multiplier : Option Number
  modifier : Option Number
  guard : Option String
  animation : Animation

namespace Record

/-- A record with a target and nothing else. -/
def ofTarget (target : String) : Record := ⟨target, none, none, none, none, none, ∅⟩

/-- **The JSON form**: only what is defined, each field under its own key. -/
def json (r : Record) : Json :=
  .objectOf <|
    [("a0", some (.string r.target)), ("a1", r.comparison.map fun c => .string c.symbol),
      ("a2", r.source.map fun a => .string a.view.text),
      ("a3", r.source.map fun a => .string a.attr.wireName),
      ("a4", r.multiplier.map .ofNumber), ("a5", r.modifier.map .ofNumber),
      ("a6", r.guard.map .string)] ++ r.animation.recordMembers

end Record

namespace Constraint

/-- **The clause**: guard, target, comparison, value and timing; an empty timing is not written. -/
def text (c : Constraint) : String :=
  (c.condition.map fun g => g.text ++ "?").getD "" ++ c.target.wireName ++ c.comparison.symbol ++
    Expr.text c.value ++
    (c.animation.map fun a => if a.text = "" then "" else ":" ++ a.text).getD ""

/-- Equality of values. -/
def same (c d : Constraint) : Bool :=
  c.target == d.target && c.comparison == d.comparison && Expr.same c.value d.value &&
    sameOption Condition.same c.condition d.condition &&
    sameOption Animation.same c.animation d.animation

/-- The text of the guard. -/
def guardText (c : Constraint) : Option String := c.condition.map Condition.text

/-- The rule with the anchors of its value replaced; those of its guard stay. -/
def mapAnchors (f : Anchor → Anchor) (c : Constraint) : Constraint :=
  { c with value := c.value.mapAnchors f }

/-- **The positional record**, when the value is linear. -/
def record? (c : Constraint) : Option Record :=
  (Term.linear? c.value).map fun form => {
    target := c.target.wireName
    comparison := some c.comparison
    source := form.source
    multiplier := form.multiplier
    modifier := form.modifier
    guard := c.guardText
    animation := c.animation.getD ∅ }

end Constraint

/-- The clauses of a list of rules. -/
def clausesText (rules : List Constraint) : String := ";".intercalate (rules.map Constraint.text)

end AnchorLayout
