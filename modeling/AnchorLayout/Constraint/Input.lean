import AnchorLayout.Constraint.Basic
import AnchorLayout.Error
/-!
# Constraint inputs

  What can be assigned to an attribute: nothing, a value, a guarded value, bounds, or a list of
  these.

  Program        `ConstraintInput.expand`: the rules that an input stands for.
  Specification  `Expr.isSound`, which every value has to satisfy, and `Attribute.isSettable`.
  Crux           every part is checked before any rule is handed out, and lists do not nest.
-/

namespace AnchorLayout

/-- Bounds on one side. -/
structure Bounds where
  comparison : Comparison
  values : List Expr
  condition : Option Condition

/-- What can be assigned to an attribute. -/
inductive ConstraintInput where
  /-- Remove the rules of the attribute. -/
  | clear
  | value (value : Expr)
  | guarded (condition : Condition) (value : Expr)
  | bounds (bounds : Bounds)
  | many (items : List ConstraintInput)

namespace Bounds

/-- The bounds as clauses on a named target. -/
def clausesText (target : String) (b : Bounds) : String :=
  ";".intercalate (b.values.map fun v => target ++ b.comparison.symbol ++ Expr.text v)

/-- The outline of bounds. -/
def outline (b : Bounds) : Outline :=
  .record "Bounds" [("comparison", .leaf b.comparison.outlineName),
    ("values", .list (Expr.outlines b.values)),
    ("condition", .option (b.condition.map Condition.outline))]

end Bounds

namespace ConstraintInput

mutual

/-- The outline of an input. -/
def outline : ConstraintInput → Outline
  | clear => .leaf "Clear"
  | value e => .tuple "Value" [Expr.outline e]
  | guarded condition e =>
    .tuple "Guarded" [.record "Guarded"
      [("condition", condition.outline), ("value", Expr.outline e)]]
  | bounds b => .tuple "Bounds" [b.outline]
  | many items => .tuple "Many" [.list (outlines items)]

/-- The outlines of several inputs. -/
def outlines : List ConstraintInput → List Outline
  | [] => []
  | input :: rest => outline input :: outlines rest

end

/-- One rule, if its value is sound. -/
def rule (target : Attribute) (comparison : Comparison) (condition : Option Condition)
    (animation : Option Animation) (value : Expr) : Except Error Constraint :=
  if Expr.isSound value then .ok ⟨target, comparison, value, condition, animation⟩
  else .error (.unsupported target.snakeName (Expr.outline value))

/-- The rules of an input that is not a list. -/
def expandItem (target : Attribute) (animation : Option Animation) :
    ConstraintInput → Except Error (List Constraint)
  | clear => .error (.unsupported target.snakeName (.leaf (quoted "None in a list")))
  | value e => do return [← rule target .equal none animation e]
  | guarded condition e => do return [← rule target .equal (some condition) animation e]
  | bounds b =>
    if b.values = [] then .error (.unsupported target.snakeName b.outline)
    else b.values.mapM (rule target b.comparison b.condition animation)
  | many items => .error (.unsupported target.snakeName (.list (outlines items)))

/-- **Expansion** into rules for a target, all under one timing. -/
def expand (target : Attribute) (animation : Option Animation) (input : ConstraintInput) :
    Except Error (List Constraint) :=
  if target.isSettable then
    match input with
    | many items => do return (← items.mapM (expandItem target animation)).flatten
    | input => expandItem target animation input
  else .error (.unsupported target.snakeName input.outline)

end ConstraintInput

end AnchorLayout
