import AnchorLayout.Attribute
import AnchorLayout.Number.Text
import AnchorLayout.Text.Quoted
import AnchorLayout.ViewId
/-!
# Expressions

  The value side of a constraint: numbers, the gap, anchors on other views, sums, products and
  `min`/`max`.

  Program        `Term.mapAnchors`, `Term.inverted`, `Expr.text`.
  Specification  `Term.anchors` (what an expression refers to), `Expr.same` (equality of values),
                 `Expr.IsSound` (what the client can evaluate).
  Crux           the leaves are a parameter, so that an expression over doubles and its reading over
                 the rationals are terms of one type.
-/

namespace AnchorLayout

/-- One attribute of one view, as an operand. -/
structure Anchor where
  view : ViewId
  attr : Attribute
deriving DecidableEq

/-- A binary operation. -/
inductive BinaryOp where
  | add
  | sub
  | mul
  | div
deriving DecidableEq

/-- A function of any number of arguments. -/
inductive Func where
  | min
  | max
deriving DecidableEq

/-- An expression whose numbers are of type `ν`. -/
inductive Term (ν : Type) where
  | num (value : ν)
  /-- The spacing that the client substitutes for each container. -/
  | gap
  | anchor (anchor : Anchor)
  | binary (op : BinaryOp) (lhs rhs : Term ν)
  | call (func : Func) (args : List (Term ν))

/-- An expression over doubles. -/
abbrev Expr := Term Number

/-! ## Operators and anchors -/

/-- The sign of an operation. -/
def BinaryOp.symbol : BinaryOp → String
  | add => "+"
  | sub => "-"
  | mul => "*"
  | div => "/"

/-- The opposite of addition and subtraction; the others have none. -/
def BinaryOp.inverted : BinaryOp → BinaryOp
  | add => sub
  | sub => add
  | op => op

/-- The name of a function. -/
def Func.name : Func → String
  | min => "min"
  | max => "max"

namespace Anchor

/-- The anchor on the wire: `id3.left`. -/
def text (a : Anchor) : String := a.view.text ++ "." ++ a.attr.wireName

/-- An anchor on one view moved to another. -/
def rename (source target : ViewId) (a : Anchor) : Anchor :=
  if a.view = source then { a with view := target } else a

end Anchor

namespace Term

variable {ν : Type}

/-- Whether the term is a sum, difference, product or quotient. -/
def isComposite : Term ν → Bool
  | binary .. => true
  | _ => false

/-- An outermost `+` becomes `-` and the reverse; anything else stays. -/
def inverted : Term ν → Term ν
  | binary op lhs rhs => binary op.inverted lhs rhs
  | term => term

mutual

/-- **The anchors** from left to right. -/
def anchors : Term ν → List Anchor
  | num _ => []
  | gap => []
  | anchor a => [a]
  | binary _ lhs rhs => lhs.anchors ++ rhs.anchors
  | call _ args => anchorsOfAll args

/-- The anchors of several terms. -/
def anchorsOfAll : List (Term ν) → List Anchor
  | [] => []
  | term :: rest => term.anchors ++ anchorsOfAll rest

end

mutual

/-- Every anchor replaced. -/
def mapAnchors (f : Anchor → Anchor) : Term ν → Term ν
  | num value => num value
  | gap => gap
  | anchor a => anchor (f a)
  | binary op lhs rhs => binary op (lhs.mapAnchors f) (rhs.mapAnchors f)
  | call func args => call func (mapAnchorsOfAll f args)

/-- Every anchor of several terms replaced. -/
def mapAnchorsOfAll (f : Anchor → Anchor) : List (Term ν) → List (Term ν)
  | [] => []
  | term :: rest => term.mapAnchors f :: mapAnchorsOfAll f rest

end

/-- The first anchor from the left. -/
def firstAnchor? (term : Term ν) : Option Anchor := term.anchors.head?

/-- Whether an anchor lies on a view. -/
def mentions (view : ViewId) (term : Term ν) : Bool := term.anchors.any fun a => a.view == view

/-- **Induction** over terms, with the hypothesis for every argument of a call. -/
theorem induction {motive : Term ν → Prop} (num : ∀ value, motive (num value)) (gap : motive gap)
    (anchor : ∀ a, motive (anchor a))
    (binary : ∀ op lhs rhs, motive lhs → motive rhs → motive (binary op lhs rhs))
    (call : ∀ func args, (∀ arg ∈ args, motive arg) → motive (call func args))
    (term : Term ν) : motive term :=
  @Term.rec ν motive (fun args => ∀ arg ∈ args, motive arg)
    num gap anchor binary call (fun _ h => absurd h List.not_mem_nil)
    (fun head tail ihHead ihTail arg h => by
      rcases List.mem_cons.1 h with rfl | h
      · exact ihHead
      · exact ihTail arg h)
    term

mutual

theorem anchors_mapAnchors (f : Anchor → Anchor) :
    ∀ term : Term ν, (term.mapAnchors f).anchors = term.anchors.map f
  | num _ => rfl
  | gap => rfl
  | anchor _ => rfl
  | binary _ lhs rhs => by
    simp [mapAnchors, anchors, anchors_mapAnchors f lhs, anchors_mapAnchors f rhs]
  | call _ args => by simp [mapAnchors, anchors, anchorsOfAll_mapAnchorsOfAll f args]

theorem anchorsOfAll_mapAnchorsOfAll (f : Anchor → Anchor) :
    ∀ args : List (Term ν), anchorsOfAll (mapAnchorsOfAll f args) = (anchorsOfAll args).map f
  | [] => rfl
  | term :: rest => by
    simp [mapAnchorsOfAll, anchorsOfAll, anchors_mapAnchors f term,
      anchorsOfAll_mapAnchorsOfAll f rest]

end

theorem mapAnchorsOfAll_eq_map (f : Anchor → Anchor) (args : List (Term ν)) :
    mapAnchorsOfAll f args = args.map (mapAnchors f) := by
  induction args with
  | nil => rfl
  | cons arg rest ih => rw [mapAnchorsOfAll, ih, List.map_cons]

theorem mem_anchorsOfAll {a : Anchor} {args : List (Term ν)} :
    a ∈ anchorsOfAll args ↔ ∃ arg ∈ args, a ∈ arg.anchors := by
  induction args with
  | nil => simp [anchorsOfAll]
  | cons arg rest ih => simp [anchorsOfAll, ih]

end Term

/-! ## Expressions over doubles -/

/-- A text, in parentheses when asked. -/
def parenthesized (inParentheses : Bool) (text : String) : String :=
  if inParentheses then "(" ++ text ++ ")" else text

namespace Expr

mutual

/-- **Wire text**: operands of an operation that are operations themselves stand in parentheses. -/
def text : Expr → String
  | .num value => value.text
  | .gap => "gap"
  | .anchor a => a.text
  | .binary op lhs rhs =>
    parenthesized lhs.isComposite (text lhs) ++ op.symbol ++
      parenthesized rhs.isComposite (text rhs)
  | .call func args => func.name ++ "(" ++ ",".intercalate (texts args) ++ ")"

/-- The wire texts of several expressions. -/
def texts : List Expr → List String
  | [] => []
  | e :: rest => text e :: texts rest

end

mutual

/-- **Equality of values**: the same shape, with numbers compared as numbers, so that the two zeros
agree and `nan` differs from itself. -/
def same : Expr → Expr → Bool
  | .num x, .num y => x.same y
  | .gap, .gap => true
  | .anchor a, .anchor b => a == b
  | .binary op lhs rhs, .binary op' lhs' rhs' => op == op' && same lhs lhs' && same rhs rhs'
  | .call func args, .call func' args' => func == func' && sameAll args args'
  | _, _ => false

/-- Equality of several values, one by one. -/
def sameAll : List Expr → List Expr → Bool
  | [], [] => true
  | e :: rest, e' :: rest' => same e e' && sameAll rest rest'
  | _, _ => false

end

mutual

/-- **Sound**: every number is finite and no call is without arguments. -/
def isSound : Expr → Bool
  | .num value => value.isFinite
  | .gap => true
  | .anchor _ => true
  | .binary _ lhs rhs => isSound lhs && isSound rhs
  | .call _ args => !args.isEmpty && areSound args

/-- Whether all of several expressions are sound. -/
def areSound : List Expr → Bool
  | [] => true
  | e :: rest => isSound e && areSound rest

end

theorem areSound_iff {args : List Expr} :
    areSound args = true ↔ ∀ arg ∈ args, isSound arg = true := by
  induction args with
  | nil => simp [areSound]
  | cons arg rest ih => simp [areSound, ih]

/-- The expression as an equality clause on a named target. -/
def clauseText (target : String) (e : Expr) : String := target ++ "=" ++ text e

end Expr

/-! ## Outlines -/

namespace ViewId

/-- The outline of an identifier. -/
def outline (v : ViewId) : Outline := .tuple "ViewId" [.leaf (toString v.number.toNat)]

end ViewId

/-- The outline of an anchor. -/
def Anchor.outline (a : Anchor) : Outline :=
  .record "AnchorRef" [("view", a.view.outline), ("attribute", .leaf a.attr.outlineName)]

/-- The name of an operation in outlines. -/
def BinaryOp.outlineName : BinaryOp → String
  | add => "Add"
  | sub => "Sub"
  | mul => "Mul"
  | div => "Div"

/-- The name of a function in outlines. -/
def Func.outlineName : Func → String
  | min => "Min"
  | max => "Max"

namespace Expr

mutual

/-- The outline of an expression. -/
def outline : Expr → Outline
  | .num value => .tuple "Num" [.leaf value.inspect]
  | .gap => .leaf "Gap"
  | .anchor a => .tuple "Anchor" [a.outline]
  | .binary op lhs rhs =>
    .record "Binary" [("op", .leaf op.outlineName), ("lhs", outline lhs), ("rhs", outline rhs)]
  | .call func args =>
    .record "Call" [("func", .leaf func.outlineName), ("args", .list (outlines args))]

/-- The outlines of several expressions. -/
def outlines : List Expr → List Outline
  | [] => []
  | e :: rest => outline e :: outlines rest

end

end Expr

end AnchorLayout
