import AnchorLayout.Expr.Basic
/-!
# Conditions

  A guard that the client evaluates: the orientation of the viewport or of a view, a comparison of
  two expressions, or several of them at once.

  Program        `Condition.and`, `Condition.text`.
  Specification  `Condition.parts` (what a conjunction says), `Condition.same` (equality of values).
  Crux           the text of a condition is also the key under which guarded equalities are stored.
-/

namespace AnchorLayout

/-- The relation between a target and its value, in the order in which clauses are written. -/
inductive Comparison where
  | equal
  | less
  | greater
deriving DecidableEq

/-- A guard. -/
inductive Condition where
  /-- The view, or the viewport, is taller than it is wide. -/
  | portrait (view : Option ViewId)
  | landscape (view : Option ViewId)
  | compare (lhs : Expr) (comparison : Comparison) (rhs : Expr)
  /-- Every part holds. -/
  | all (parts : List Condition)

namespace Comparison

/-- The sign of a comparison. -/
def symbol : Comparison → String
  | equal => "="
  | less => "<"
  | greater => ">"

/-- The comparison of a sign. -/
def ofSymbol? : Char → Option Comparison
  | '=' => some equal
  | '<' => some less
  | '>' => some greater
  | _ => none

/-- The name of a comparison in outlines. -/
def outlineName : Comparison → String
  | equal => "Eq"
  | less => "Lt"
  | greater => "Gt"

end Comparison

namespace Condition

/-- The parts of a conjunction; anything else is its only part. -/
def parts : Condition → List Condition
  | all parts => parts
  | condition => [condition]

/-- **Both conditions**, as one list of parts. -/
def and (first second : Condition) : Condition := all (first.parts ++ second.parts)

/-- The word of an orientation, with its view in parentheses. -/
def orientationText (word : String) : Option ViewId → String
  | none => word
  | some view => word ++ "(" ++ view.text ++ ")"

mutual

/-- **Wire text**, which is also the key of a guard. -/
def text : Condition → String
  | portrait view => orientationText "portrait" view
  | landscape view => orientationText "landscape" view
  | compare lhs comparison rhs => Expr.text lhs ++ comparison.symbol ++ Expr.text rhs
  | all parts => "&".intercalate (texts parts)

/-- The wire texts of several conditions. -/
def texts : List Condition → List String
  | [] => []
  | condition :: rest => text condition :: texts rest

end

mutual

/-- **Equality of values**: the same shape, with numbers compared as numbers. -/
def same : Condition → Condition → Bool
  | portrait v, portrait w => v == w
  | landscape v, landscape w => v == w
  | compare lhs c rhs, compare lhs' c' rhs' => Expr.same lhs lhs' && c == c' && Expr.same rhs rhs'
  | all parts, all parts' => sameAll parts parts'
  | _, _ => false

/-- Equality of several values, one by one. -/
def sameAll : List Condition → List Condition → Bool
  | [], [] => true
  | c :: rest, c' :: rest' => same c c' && sameAll rest rest'
  | _, _ => false

end

/-- **Induction** over conditions, with the hypothesis for every part of a conjunction. -/
theorem induction {motive : Condition → Prop} (portrait : ∀ view, motive (portrait view))
    (landscape : ∀ view, motive (landscape view))
    (compare : ∀ lhs comparison rhs, motive (compare lhs comparison rhs))
    (all : ∀ parts, (∀ part ∈ parts, motive part) → motive (all parts))
    (condition : Condition) : motive condition :=
  @Condition.rec motive (fun parts => ∀ part ∈ parts, motive part)
    portrait landscape compare all (fun _ h => absurd h List.not_mem_nil)
    (fun head tail ihHead ihTail part h => by
      rcases List.mem_cons.1 h with rfl | h
      · exact ihHead
      · exact ihTail part h)
    condition

mutual

/-- The outline of a condition. -/
def outline : Condition → Outline
  | portrait view => .tuple "Portrait" [.option (view.map ViewId.outline)]
  | landscape view => .tuple "Landscape" [.option (view.map ViewId.outline)]
  | compare lhs comparison rhs =>
    .record "Compare" [("lhs", Expr.outline lhs), ("comparison", .leaf comparison.outlineName),
      ("rhs", Expr.outline rhs)]
  | all parts => .tuple "All" [.list (outlines parts)]

/-- The outlines of several conditions. -/
def outlines : List Condition → List Outline
  | [] => []
  | condition :: rest => outline condition :: outlines rest

end

end Condition

end AnchorLayout
