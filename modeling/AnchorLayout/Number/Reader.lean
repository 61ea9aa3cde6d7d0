import AnchorLayout.Number.Decimal
/-!
# Reading numbers

  A number is written as an optional sign and then `inf`, `infinity` or `nan` in any case, or digits
  with an optional point and an optional exponent; at least one digit stands beside the point.

  Program        `Number.parse?`.
  Specification  `digitsValue` (the value of a digit string), `Number.ofDecimal` (the nearest
                 double).
  Crux           nothing is read in floating point: the digits form one natural number, and the
                 nearest double to it is taken once.
-/

namespace AnchorLayout

/-! ## Digits -/

/-- The value of a string of decimal digits. -/
def digitsValue (cs : List Char) : Nat :=
  cs.foldl (fun value c => 10 * value + (c.toNat - '0'.toNat)) 0

/-- The leading digits. -/
def leadingDigits (cs : List Char) : List Char := cs.takeWhile Char.isDigit

/-- What follows the leading digits. -/
def pastDigits (cs : List Char) : List Char := cs.dropWhile Char.isDigit

theorem leadingDigits_append_pastDigits (cs : List Char) :
    leadingDigits cs ++ pastDigits cs = cs :=
  List.takeWhile_append_dropWhile

/-- The digits after a point, if the text goes on with a point. -/
def fractionDigits : List Char → List Char
  | '.' :: rest => leadingDigits rest
  | _ => []

/-- What follows the point and its digits. -/
def pastFraction : List Char → List Char
  | '.' :: rest => pastDigits rest
  | rest => rest

/-! ## The parts of a number -/

namespace Number

/-- The number written by the digits before and after the point and an exponent. -/
def ofDigits (negative : Bool) (whole fraction : List Char) (exponent : Int) : Number :=
  ofDecimal negative ⟨digitsValue (whole ++ fraction), exponent - fraction.length⟩

/-- The value of a non-empty string of digits and nothing else. -/
def natural? (cs : List Char) : Option Nat :=
  if cs ≠ [] ∧ cs.all Char.isDigit then some (digitsValue cs) else none

/-- An exponent: nothing, or `e` in either case, an optional sign and digits. -/
def exponent? : List Char → Option Int
  | [] => some 0
  | mark :: rest =>
    if mark = 'e' ∨ mark = 'E' then
      match rest with
      | '-' :: digits => (natural? digits).map fun n => -(n : Int)
      | '+' :: digits => (natural? digits).map fun n => (n : Int)
      | digits => (natural? digits).map fun n => (n : Int)
    else none

/-- Digits, a point and an exponent, without a sign. -/
def decimal? (negative : Bool) (cs : List Char) : Option Number :=
  let whole := leadingDigits cs
  let rest := pastDigits cs
  let fraction := fractionDigits rest
  if whole = [] ∧ fraction = [] then none
  else (exponent? (pastFraction rest)).map (ofDigits negative whole fraction)

/-- A number without its sign: one of the words, or a decimal. -/
def unsigned? (negative : Bool) (cs : List Char) : Option Number :=
  let word := String.ofList (cs.map Char.toLower)
  if word = "inf" ∨ word = "infinity" then some (infinite negative)
  else if word = "nan" then some nan
  else decimal? negative cs

/-- **Reading**: the number that a whole text writes. -/
def parse? (text : String) : Option Number :=
  match text.toList with
  | '-' :: rest => unsigned? true rest
  | '+' :: rest => unsigned? false rest
  | rest => unsigned? false rest

end Number

end AnchorLayout
