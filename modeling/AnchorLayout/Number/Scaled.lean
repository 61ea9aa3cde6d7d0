import AnchorLayout.Number.Reader
/-!
# Scaled words

  The quick way from a numeral to a double: its digits fill one word of 64 bits, those without room
  only count as places, and the word is scaled by a power of ten.  Every step rounds, so the result
  may be a few units in the last place away from the nearest double.

  Program        `Number.ofScaledDigits`.
  Specification  `fillWord`: the longest run of digits whose value stays below `2^64`.
  Crux           a power of ten with a double of its own is one step; a smaller one is divided by
                 in steps of `10^308`, so that the loop ends on the places that are left.
-/

namespace AnchorLayout

/-! ## Filling a word -/

/-- A word with digits behind its own as long as they fit, and the digits that found no room. -/
def fillWord (word : Nat) : List Char → Nat × List Char
  | [] => (word, [])
  | c :: rest =>
    let next := 10 * word + (c.toNat - '0'.toNat)
    if next < UInt64.size then fillWord next rest else (word, c :: rest)

/-! ## Scaling -/

namespace Number

/-- The greatest power of ten that a double can come near to is `10 ^ greatestPlaces`. -/
def greatestPlaces : Nat := 308

/-- The nearest double to `10 ^ places`. -/
def powerOfTen (places : Nat) : Number := ofNat (Nat.pow 10 places)

/-- A number above or equal to zero times a power of ten. -/
def raised (x : Number) (places : Nat) : Number :=
  if places ≤ greatestPlaces then x.mul (powerOfTen places)
  else if x.isZero then x
  else infinite false

/-- A number over a power of ten, divided by at most `10 ^ greatestPlaces` at a time. -/
def lowered (x : Number) (places : Nat) : Number :=
  if places ≤ greatestPlaces then x.div (powerOfTen places)
  else if x.isZero then x
  else lowered (x.div (powerOfTen greatestPlaces)) (places - greatestPlaces)
termination_by places
decreasing_by simp only [greatestPlaces] at *; omega

/-- `word · 10 ^ exponent`, each step rounded. -/
def ofScaledWord (word : Nat) (exponent : Int) : Number :=
  if 0 ≤ exponent then (ofNat word).raised exponent.natAbs
  else (ofNat word).lowered exponent.natAbs

/-- **Quick reading**: the number written by the digits before and after the point and an
exponent. -/
def ofScaledDigits (negative : Bool) (whole fraction : List Char) (exponent : Int) : Number :=
  let (word, above) := fillWord 0 whole
  -- a digit after the point may still fit where a greater one before the point did not
  let (word, dropped) := fillWord word fraction
  let places : Int := fraction.length - dropped.length
  let x := ofScaledWord word (exponent + above.length - places)
  if negative then x.neg else x

end Number

end AnchorLayout
