import AnchorLayout.Expr.Basic
/-!
# Linear expressions

  An expression such as `id1.width * 0.5 + 8` is a linear function of one anchor, and can be sent
  as that anchor with a multiplier and a modifier.

  Program        `Term.linear?`.
  Specification  `LinearForm`: source, multiplier and modifier, each of them optional.
  Crux           an operation is absorbed only on the left spine, and a factor only before any
                 offset: then folding the operations in order is folding the function.
-/

namespace AnchorLayout

/-- The arithmetic that folding needs. -/
class LinearArithmetic (ν : Type) where
  zero : ν
  one : ν
  add : ν → ν → ν
  neg : ν → ν
  mul : ν → ν → ν
  div : ν → ν → ν
  isZero : ν → Bool

instance : LinearArithmetic Number where
  zero := Number.zero
  one := Number.ofNat 1
  add := Number.add
  neg := Number.neg
  mul := Number.mul
  div := Number.div
  isZero := Number.isZero

/-- `source · multiplier + modifier`; a missing multiplier is one and a missing modifier zero. -/
structure LinearForm (ν : Type) where
  source : Option Anchor
  multiplier : Option ν
  modifier : Option ν

section

variable {ν : Type} [LinearArithmetic ν]

namespace LinearForm

/-- The form with an offset added. -/
def shift (form : LinearForm ν) (c : ν) : LinearForm ν :=
  { form with
    modifier := some (LinearArithmetic.add (form.modifier.getD LinearArithmetic.zero) c) }

/-- The form with a factor, which is only possible for an anchor without an offset. -/
def scale? (form : LinearForm ν) (c : ν) : Option (LinearForm ν) :=
  if form.modifier.isNone ∧ form.source.isSome then
    some { form with
      multiplier := some (LinearArithmetic.mul (form.multiplier.getD LinearArithmetic.one) c) }
  else none

/-- The form after an operation with a number on the right. -/
def operate? (form : LinearForm ν) (op : BinaryOp) (c : ν) : Option (LinearForm ν) :=
  match op with
  | .add => some (form.shift c)
  | .sub => some (form.shift (LinearArithmetic.neg c))
  | .mul => form.scale? c
  | .div =>
    if LinearArithmetic.isZero c then none
    else form.scale? (LinearArithmetic.div LinearArithmetic.one c)

end LinearForm

/-- **The linear form** of a number or an anchor with numbers applied to it from the right. -/
def Term.linear? : Term ν → Option (LinearForm ν)
  | .num c => some ⟨none, none, some c⟩
  | .anchor a => some ⟨some a, none, none⟩
  | .binary op lhs (.num c) => lhs.linear?.bind fun form => form.operate? op c
  | _ => none

end

end AnchorLayout
