import AnchorLayout.Number.Basic
/-!
# Decimal numerals

  Reading a decimal numeral to the nearest double, and the numeral of fewest digits that reads
  back as a given one.

  Program        `Number.ofDecimal` (any digits, any exponent), `Magnitude.shortest`.
  Specification  `Magnitude.Reads`: a decimal is read back as the magnitude.
  Crux           every candidate is tried with the reader itself before it is accepted, and the
                 exact expansion stands behind the seventeen tries.
-/

namespace AnchorLayout

/-- `digits · 10 ^ exponent`. -/
structure Decimal where
  digits : Nat
  exponent : Int
deriving DecidableEq

namespace Decimal

/-- The same decimal without zeros at the end of its digits; zero gets the exponent zero. -/
def trimZeros (fuel : Nat) (d : Decimal) : Decimal :=
  match fuel with
  | 0 => d
  | fuel + 1 =>
    if d.digits % 10 = 0 then trimZeros fuel ⟨d.digits / 10, d.exponent + 1⟩ else d

/-- Zeros at the end of the digits go into the exponent; zero itself is `0 · 10 ^ 0`. -/
def normal (d : Decimal) : Decimal :=
  if d.digits = 0 then ⟨0, 0⟩ else d.trimZeros (d.digits.log2 + 1)

/-- Numerator and denominator of the decimal, its exponent first brought into the range in which
it can matter: from `10^400` on every double has overflowed, and so far below `10^-400` every one
is zero. -/
def ratio (d : Decimal) : Nat × Nat :=
  let exponent := max (min d.exponent 400) (-(d.digits.log2 + 401 : Int))
  if exponent < 0 then (d.digits, Nat.pow 10 exponent.natAbs)
  else (d.digits * Nat.pow 10 exponent.natAbs, 1)

/-- The digits as text. -/
def digitText (d : Decimal) : List Char := (Nat.toDigits 10 d.digits)

/-- The exponent of the leading digit: `1` has `0`, `0.01` has `-2`. -/
def leadingExponent (d : Decimal) : Int := d.exponent + d.digitText.length - 1

end Decimal

/-! ## Reading -/

/-- The nearest double to a decimal, with the given sign. -/
def Number.ofDecimal (negative : Bool) (d : Decimal) : Number :=
  ofRatio negative d.ratio.1 d.ratio.2

/-- **Read back**: the decimal is nearer to this magnitude than to any other. -/
def Magnitude.Reads (x : Magnitude) (d : Decimal) : Prop :=
  Magnitude.round? (d.ratio.1 * unitsPerOne) d.ratio.2 = some x

instance (x : Magnitude) (d : Decimal) : Decidable (x.Reads d) :=
  inferInstanceAs (Decidable (_ = some x))

theorem Number.ofDecimal_of_reads {x : Magnitude} {d : Decimal} (h : x.Reads d) (negative : Bool) :
    Number.ofDecimal negative d = .finite negative x :=
  Number.ofUnits_of_round? h negative

/-! ## The shortest numeral -/

/-- Which neighbour is written when both are as near and both read back. -/
inductive TieRule where
  | up
  | even
deriving DecidableEq

namespace Magnitude

/-- The exact decimal expansion: `2 ^ (-n)` is `5 ^ n · 10 ^ (-n)`. -/
def exactDecimal (x : Magnitude) : Decimal := 
  ⟨x.units * Nat.pow 5 unitExponent, -(unitExponent : Int)⟩

/-- The number of digits before the point (negative for zeros after it): `x` is at least
`10 ^ (pointPlace x - 1)` and below `10 ^ pointPlace x`. -/
def pointPlace (x : Magnitude) : Int :=
  (Nat.toDigits 10 (x.units * Nat.pow 10 400 / unitsPerOne)).length - 400

/-- The magnitude as a multiple of `10 ^ exponent`, as numerator and denominator. -/
def onGrid (x : Magnitude) (exponent : Int) : Nat × Nat :=
  if exponent < 0 then (x.units * Nat.pow 10 exponent.natAbs, unitsPerOne)
  else (x.units, unitsPerOne * Nat.pow 10 exponent.natAbs)

/-- Whether the grid point below is the better numeral: it is nearer, or as near and even. -/
def prefersBelow (tie : TieRule) (num den : Nat) : Bool :=
  2 * (num % den) < den || (2 * (num % den) == den && tie == .even && num / den % 2 == 0)

/-- The one of the two neighbours of `num / den` on the grid of `10 ^ exponent` that reads back as
`x`, the preferred one when both do. -/
def neighbour? (tie : TieRule) (x : Magnitude) (exponent : Int) (num den : Nat) : Option Decimal :=
  let below : Decimal := ⟨num / den, exponent⟩
  let above : Decimal := ⟨num / den + 1, exponent⟩
  -- either neighbour may be the only one that reads back
  if x.Reads below ∧ (prefersBelow tie num den = true ∨ ¬ x.Reads above) then some below
  else if x.Reads above then some above
  else none

/-- A numeral of `count` digits that reads back as `x`, if there is one. -/
def withDigits? (tie : TieRule) (x : Magnitude) (count : Nat) : Option Decimal :=
  x.neighbour? tie (x.pointPlace - count) (x.onGrid (x.pointPlace - count)).1
    (x.onGrid (x.pointPlace - count)).2

/-- **Shortest numeral**: of the decimals that read back as `x`, one with the fewest digits, and of
those the nearest. -/
def shortest (tie : TieRule) (x : Magnitude) : Decimal :=
  (((List.range' 1 17).findSome? (x.withDigits? tie)).getD x.exactDecimal).normal

theorem reads_of_neighbour? {tie : TieRule} {x : Magnitude} {exponent : Int} {num den : Nat}
    {d : Decimal} (h : x.neighbour? tie exponent num den = some d) : x.Reads d := by
  unfold neighbour? at h
  simp only at h
  split at h
  · next hb => cases h; exact hb.1
  · split at h
    · next ha => cases h; exact ha
    · cases h

end Magnitude

end AnchorLayout
