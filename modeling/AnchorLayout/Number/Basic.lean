/-!
# Numbers

  Lengths, factors and times are IEEE 754 doubles.  They are modelled exactly: a finite number is
  a sign and a whole count of units of `2^-1074`, the spacing of the smallest doubles, so that
  arithmetic is integer arithmetic followed by one rounding.

  Program        `Magnitude.round?` (nearest, a half to even), `Number.add`, `mul`, `div`.
  Specification  `Representable`: which counts a double can hold.
  Crux           `representable_round`: rounding to 53 bits lands on a representable count, so a
                 magnitude carries its own proof and no operation has to check for junk.
-/

namespace AnchorLayout

/-! ## Powers of two -/

/-- `2 ^ n`. -/
def twoPow (n : Nat) : Nat := Nat.pow 2 n

theorem twoPow_pos (n : Nat) : 0 < twoPow n := Nat.two_pow_pos n

theorem twoPow_add (m n : Nat) : twoPow (m + n) = twoPow m * twoPow n := Nat.pow_add 2 m n

theorem twoPow_le {m n : Nat} (h : m ≤ n) : twoPow m ≤ twoPow n :=
  Nat.pow_le_pow_right (by decide) h

/-- A number has one bit more than its logarithm. -/
theorem lt_twoPow_log2 (n : Nat) : n < twoPow (n.log2 + 1) := Nat.lt_log2_self

/-! ## Magnitudes -/

/-- The smallest doubles are `2 ^ (-unitExponent)` apart. -/
def unitExponent : Nat := 1074

/-- The number of units in one. -/
def unitsPerOne : Nat := twoPow unitExponent

/-- Every double is below `2 ^ limitExponent` units, which is `2^1024`. -/
def limitExponent : Nat := 2098

/-- The number of units in the first power of two past the largest double. -/
def unitLimit : Nat := twoPow limitExponent

theorem unitsPerOne_pos : 0 < unitsPerOne := twoPow_pos unitExponent

theorem unitLimit_pos : 0 < unitLimit := twoPow_pos limitExponent

/-- **Representable counts**: at most 53 significant bits, and below `2^1024` in value. -/
def Representable (units : Nat) : Prop :=
  (∃ mantissa exponent, mantissa < twoPow 53 ∧ units = mantissa * twoPow exponent) ∧
    units < unitLimit

/-- The absolute value of a finite number, counted in units of `2^-1074`. -/
structure Magnitude where
  /-- How many units of `2^-1074`. -/
  units : Nat
  /-- A double can hold that many. -/
  representable : Representable units
deriving DecidableEq

theorem Magnitude.ext {a b : Magnitude} (h : a.units = b.units) : a = b := by
  cases a; cases b; cases h; rfl

/-- `num / den` to the nearest whole number, a half going to the even neighbour. -/
def roundHalfEven (num den : Nat) : Nat :=
  let quotient := num / den
  let rest := num % den
  if 2 * rest < den ∨ (2 * rest = den ∧ quotient % 2 = 0) then quotient else quotient + 1

/-- How many low bits of a count of `n` units are lost when 53 significant bits are kept. -/
def lostBits (n : Nat) : Nat := n.log2 - 52

/-- Rounding goes up by one at most. -/
theorem roundHalfEven_le (num den : Nat) : roundHalfEven num den ≤ num / den + 1 := by
  unfold roundHalfEven
  simp only
  split <;> omega

/-- What is left of the quotient when the low bits are gone fits into 53 bits. -/
theorem div_mul_lostBits_lt (num den : Nat) :
    num / (den * twoPow (lostBits (num / den))) < twoPow 53 := by
  rw [← Nat.div_div_eq_div_mul]
  refine Nat.div_lt_of_lt_mul ?_
  rw [← twoPow_add]
  refine Nat.lt_of_lt_of_le (lt_twoPow_log2 _) (twoPow_le ?_)
  unfold lostBits
  omega

/-- A mantissa of at most `2^53`, shifted, has 53 significant bits: `2^53` itself has one. -/
theorem representable_shift {mantissa shift : Nat} (small : mantissa ≤ twoPow 53)
    (bounded : mantissa * twoPow shift < unitLimit) :
    Representable (mantissa * twoPow shift) := by
  refine ⟨?_, bounded⟩
  by_cases h : mantissa = twoPow 53
  · exact ⟨1, 53 + shift, by decide, by rw [h, Nat.one_mul, twoPow_add]⟩
  · exact ⟨mantissa, shift, by omega, rfl⟩

/-- `num / den` rounded to the nearest count that has 53 significant bits. -/
def roundedUnits (num den : Nat) : Nat :=
  roundHalfEven num (den * twoPow (lostBits (num / den))) * twoPow (lostBits (num / den))

/-- **A rounded count is representable**, so it is a magnitude if it is in range. -/
theorem representable_round {num den : Nat} (bounded : roundedUnits num den < unitLimit) :
    Representable (roundedUnits num den) :=
  representable_shift
    (Nat.le_trans (roundHalfEven_le _ _) (div_mul_lostBits_lt num den)) bounded

/-- **Rounding** `num / den` units to the nearest magnitude, a half going to the even mantissa;
`none` when that is past the largest one. -/
def Magnitude.round? (num den : Nat) : Option Magnitude :=
  if bounded : roundedUnits num den < unitLimit then
    some ⟨roundedUnits num den, representable_round bounded⟩
  else none

/-- No units at all. -/
def Magnitude.zero : Magnitude := ⟨0, ⟨0, 0, by decide, by decide⟩, unitLimit_pos⟩

/-! ## Signed numbers -/

/-- A double: finite with either sign (zero too has one), infinite, or no number at all. -/
inductive Number where
  | finite (negative : Bool) (magnitude : Magnitude)
  | infinite (negative : Bool)
  | nan
deriving DecidableEq

namespace Number

/-- `num / den` units with the given sign, rounded; past the largest double, an infinity. -/
def ofUnits (negative : Bool) (num den : Nat) : Number :=
  (Magnitude.round? num den).elim (infinite negative) (finite negative)

/-- A quotient that has a magnitude is that magnitude with its sign. -/
theorem ofUnits_of_round? {num den : Nat} {x : Magnitude} (h : Magnitude.round? num den = some x)
    (negative : Bool) : ofUnits negative num den = finite negative x := by
  rw [ofUnits, h]
  rfl

/-- `num / den`, rounded. -/
def ofRatio (negative : Bool) (num den : Nat) : Number :=
  ofUnits negative (num * unitsPerOne) den

/-- The nearest double to a natural number. -/
def ofNat (n : Nat) : Number := ofRatio false n 1

/-- The nearest double to a whole number; zero comes out positive. -/
def ofInt (n : Int) : Number := ofRatio (n < 0) n.natAbs 1

/-- The positive zero. -/
def zero : Number := finite false Magnitude.zero

/-- Neither infinite nor `nan`. -/
def isFinite : Number → Bool
  | finite .. => true
  | _ => false

/-- The count of units of `2^-1074`, with its sign. -/
def signedUnits (negative : Bool) (magnitude : Magnitude) : Int :=
  if negative then -(magnitude.units : Int) else magnitude.units

/-! ## Comparison -/

/-- **Equality of values**: the two zeros are equal, and `nan` equals nothing, itself included. -/
def same : Number → Number → Bool
  | finite s a, finite t b => a.units == b.units && (s == t || a.units == 0)
  | infinite s, infinite t => s == t
  | _, _ => false

/-- Not below zero; the negative zero passes, `nan` does not. -/
def isAtLeastZero : Number → Bool
  | finite negative a => !negative || a.units == 0
  | infinite negative => !negative
  | nan => false

/-- A zero of either sign. -/
def isZero : Number → Bool
  | finite _ a => a.units == 0
  | _ => false

/-! ## Arithmetic -/

/-- The same number with the other sign. -/
def neg : Number → Number
  | finite negative a => finite (!negative) a
  | infinite negative => infinite (!negative)
  | nan => nan

/-- The exact sum, rounded once.  A zero sum is negative only when both terms are. -/
def add : Number → Number → Number
  | nan, _ => nan
  | _, nan => nan
  | infinite s, infinite t => if s == t then infinite s else nan
  | infinite s, finite .. => infinite s
  | finite .., infinite t => infinite t
  | finite s a, finite t b =>
    let total := signedUnits s a + signedUnits t b
    if total = 0 then finite (s && t) Magnitude.zero
    else ofUnits (total < 0) total.natAbs 1

/-- The exact product, rounded once. -/
def mul : Number → Number → Number
  | nan, _ => nan
  | _, nan => nan
  | infinite s, infinite t => infinite (s != t)
  | infinite s, finite t b => if b.units = 0 then nan else infinite (s != t)
  | finite s a, infinite t => if a.units = 0 then nan else infinite (s != t)
  | finite s a, finite t b => ofUnits (s != t) (a.units * b.units) unitsPerOne

/-- The exact quotient, rounded once; a non-zero number over zero is infinite. -/
def div : Number → Number → Number
  | nan, _ => nan
  | _, nan => nan
  | infinite _, infinite _ => nan
  | infinite s, finite t _ => infinite (s != t)
  | finite s _, infinite t => finite (s != t) Magnitude.zero
  | finite s a, finite t b =>
    if b.units = 0 then (if a.units = 0 then nan else infinite (s != t))
    else ofRatio (s != t) a.units b.units

/-! ## Whole numbers -/

/-- **Whole and short**: no fraction, and below `10^15` in absolute value.  Such a number is
written as an integer. -/
def whole? : Number → Option Int
  | finite negative a =>
    if a.units % unitsPerOne = 0 ∧ a.units < 1000000000000000 * unitsPerOne then
      let n : Int := (a.units / unitsPerOne : Nat)
      some (if negative then -n else n)
    else none
  | _ => none

end Number

end AnchorLayout
