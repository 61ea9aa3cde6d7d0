import AnchorLayout.Number.Decimal
/-!
# Writing numbers

  Three forms are written, and they differ only in the fields of a `Number.Format`: the plain one,
  which never has an exponent; the one in messages, which always shows that the number is not an
  integer; and the one in JSON.

  Program        `Number.plain`, `Number.text`, `Number.inspect`, `Number.jsonText`.
  Specification  `Number.Format`: when a number is positional, what a whole one ends in, how an
                 exponent and a tie are written.
-/

namespace AnchorLayout

/-! ## Numerals -/

namespace Decimal

/-- Positional notation: no exponent, however many zeros that takes. -/
def positional (pointZero : Bool) (d : Decimal) : String :=
  if 0 ≤ d.exponent then
    String.ofList (d.digitText ++ List.replicate d.exponent.natAbs '0') ++
      (if pointZero then ".0" else "")
  else
    let places := d.exponent.natAbs
    let padded := List.replicate (places + 1 - d.digitText.length) '0' ++ d.digitText
    String.ofList (padded.take (padded.length - places)) ++ "." ++
      String.ofList (padded.drop (padded.length - places))

/-- One digit before the point, and an exponent. -/
def scientific (plusSign : Bool) (d : Decimal) : String :=
  let sign := if d.leadingExponent < 0 then "-" else if plusSign then "+" else ""
  String.ofList (d.digitText.take 1) ++
    (if d.digitText.length ≤ 1 then "" else "." ++ String.ofList (d.digitText.drop 1)) ++
    "e" ++ sign ++ toString d.leadingExponent.natAbs

end Decimal

/-! ## Formats -/

namespace Number

/-- How the numeral of a finite number is laid out. -/
structure Format where
  /-- The neighbour that is written when two numerals are equally short and equally near. -/
  tie : TieRule
  /-- The exponents of the leading digit for which no exponent is written. -/
  positional : Int → Bool
  /-- Whether a number without a fraction ends in `.0`. -/
  pointZero : Bool
  /-- Whether an exponent above zero is written with its sign. -/
  plusSign : Bool

/-- Leading digits from `10 ^ least` to `10^15` stand without an exponent. -/
def isModerate (least leadingExponent : Int) : Bool :=
  least ≤ leadingExponent && leadingExponent < 16

/-- The plain form: `12`, `0.25`, `100000000000000000000`. -/
def Format.plain : Format := ⟨.up, fun _ => true, false, false⟩

/-- The form in messages: `12.0`, `0.0001`, `1e-5`, `1e20`. -/
def Format.inspect : Format := ⟨.up, isModerate (-4), true, false⟩

/-- The form in JSON: `12.0`, `0.00001`, `1e-6`, `1e+20`. -/
def Format.json : Format := ⟨.even, isModerate (-5), true, true⟩

/-- The numeral of a magnitude. -/
def Format.numeral (format : Format) (x : Magnitude) : String :=
  let d := x.shortest format.tie
  if format.positional d.leadingExponent then d.positional format.pointZero
  else d.scientific format.plusSign

/-- The text of any number in a format. -/
def Format.write (format : Format) : Number → String
  | finite negative x => (if negative then "-" else "") ++ format.numeral x
  | infinite negative => if negative then "-inf" else "inf"
  | nan => "NaN"

/-- The number without an exponent, the sign of a zero shown. -/
def plain (x : Number) : String := Format.plain.write x

/-- The number as messages show it. -/
def inspect (x : Number) : String := Format.inspect.write x

/-- The number as a JSON numeral; JSON has none for the others, which are `null`. -/
def jsonText (x : Number) : String :=
  if x.isFinite then Format.json.write x else "null"

/-- **Wire text**: a whole number below `10^15` as an integer, so that a zero has no sign, and any
other in plain form. -/
def text (x : Number) : String :=
  match x.whole? with
  | some n => toString n
  | none => x.plain

end Number

end AnchorLayout
