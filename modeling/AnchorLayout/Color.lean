import AnchorLayout.Json.Basic
import AnchorLayout.Text.Blank
import AnchorLayout.Text.Hex
import AnchorLayout.Text.Quoted
/-!
# Colours

  A colour has four channels, nominally from 0 to 1.  It is read from a CSS name, from hexadecimal
  digits or from JSON, and written with channels from 0 to 255.

  Program        `Color.parse?`, `Color.css`, `Color.ofJson?`.
  Specification  `channelByte` (a half goes up, what is out of range is cut), `hexByte?`.
  Crux           a pair of digits may also be a plus sign and one digit: it is read as a number.
-/

namespace AnchorLayout

/-- A colour with red, green, blue and opacity. -/
structure Color where
  r : Number
  g : Number
  b : Number
  a : Number
deriving DecidableEq

/-- Why a text is not a colour. -/
inductive ColorFault where
  /-- Two characters that are not a hexadecimal number. -/
  | invalidPair (pair : List Char)
  /-- The digits are not three, six or eight. -/
  | invalidLength (text : String)
  | notAscii (text : String)
deriving DecidableEq

/-- The wording of a fault. -/
def ColorFault.message : ColorFault → String
  | invalidPair pair => "invalid hex byte \"" ++ String.ofList pair ++ "\""
  | invalidLength text =>
    "invalid color \"" ++ text ++ "\", expected #RGB, #RRGGBB or #RRGGBBAA"
  | notAscii text => "invalid color \"" ++ text ++ "\""

namespace Color

/-- An opaque colour. -/
def rgb (r g b : Number) : Color := ⟨r, g, b, .ofNat 1⟩

/-- An opaque grey. -/
def gray (level : Number) : Color := rgb level level level

/-- A channel given as a number from 0 to 255. -/
def channel (byte : Nat) : Number := .ofRatio false byte 255

/-- A colour given as four numbers from 0 to 255. -/
def ofBytes (r g b a : Nat) : Color := ⟨channel r, channel g, channel b, channel a⟩

/-- No colour at all. -/
def transparent : Color := ⟨.zero, .zero, .zero, .zero⟩

/-- Opaque black. -/
def black : Color := gray .zero

/-- Opaque white. -/
def white : Color := gray (.ofNat 1)

/-! ## Reading -/

/-- The colour of a name. -/
def named? (name : String) : Option Color :=
  if name = "transparent" then some transparent
  else if name = "black" then some black
  else if name = "white" then some white
  else if name = "red" then some (rgb (.ofNat 1) .zero .zero)
  else if name = "green" then some (rgb .zero (channel 128) .zero)
  else if name = "blue" then some (rgb .zero .zero (.ofNat 1))
  else if name = "gray" ∨ name = "grey" then some (gray (channel 128))
  else none

/-- A number of two characters to base sixteen; a plus sign may take the place of the first. -/
def hexByte? (high low : Char) : Option Nat :=
  if high = '+' then hexValue? low
  else
    match hexValue? high, hexValue? low with
    | some h, some l => some (16 * h + l)
    | _, _ => none

/-- The same, with the pair at fault. -/
def hexByte (high low : Char) : Except ColorFault Nat :=
  match hexByte? high low with
  | some byte => .ok byte
  | none => .error (.invalidPair [high, low])

/-- The colour of three, six or eight digits, an optional `#` in front; `text` is what messages
show. -/
def ofHex (text : String) (digits : List Char) : Except ColorFault Color :=
  match digits with
  | [r, g, b] => do return ofBytes (← hexByte r r) (← hexByte g g) (← hexByte b b) 255
  | [r, r', g, g', b, b'] => do
    return ofBytes (← hexByte r r') (← hexByte g g') (← hexByte b b') 255
  | [r, r', g, g', b, b', a, a'] => do
    return ofBytes (← hexByte r r') (← hexByte g g') (← hexByte b b') (← hexByte a a')
  | _ => .error (.invalidLength text)

/-- A text without one `#` in front. -/
def withoutMark : List Char → List Char
  | '#' :: rest => rest
  | rest => rest

/-- **Reading** a colour: white space around it and the case of its letters do not matter. -/
def parse? (text : String) : Except ColorFault Color :=
  let trimmed := trimBlank text
  match named? (lowerAscii trimmed) with
  | some color => .ok color
  | none =>
    let digits := withoutMark trimmed.toList
    if digits.all fun c => c.toNat < 0x80 then ofHex trimmed digits
    else .error (.notAscii trimmed)

/-! ## Writing -/

/-- A channel from 0 to 255: cut to the range from 0 to 1, scaled, and rounded with a half going
up; `nan` is zero. -/
def channelByte : Number → Nat
  | .nan => 0
  | .infinite negative => if negative then 0 else 255
  | .finite negative x =>
    if negative then 0
    else if unitsPerOne ≤ x.units then 255
    else
      match Number.mul (.finite false x) (.ofNat 255) with
      | .finite _ scaled => (2 * scaled.units + unitsPerOne) / (2 * unitsPerOne)
      | _ => 255

/-- **CSS text**, opacity included. -/
def css (c : Color) : String :=
  "rgba(" ++ ",".intercalate ([c.r, c.g, c.b, c.a].map fun x => toString (channelByte x)) ++ ")"

/-- The JSON form. -/
def json (c : Color) : Json :=
  .object [("r", .float c.r), ("g", .float c.g), ("b", .float c.b), ("a", .float c.a)]

/-- The outline of a colour. -/
def outline (c : Color) : Outline :=
  .record "Color" [("r", .leaf c.r.inspect), ("g", .leaf c.g.inspect), ("b", .leaf c.b.inspect),
    ("a", .leaf c.a.inspect)]

/-! ## Decoding -/

/-- Why a JSON value is not a colour. -/
inductive DecodeFault where
  | text (fault : ColorFault)
  | listLength
  | shape

/-- All numbers of a list. -/
def numbers? (items : List Json) : Option (List Number) := items.mapM Json.toNumber?

/-- The channels of an object; opacity may be left out. -/
def ofMembers? (value : Json) : Option Color := do
  let r ← (← value.get? "r").toNumber?
  let g ← (← value.get? "g").toNumber?
  let b ← (← value.get? "b").toNumber?
  match value.get? "a" with
  | none => pure (rgb r g b)
  | some a => pure ⟨r, g, b, ← a.toNumber?⟩

/-- **Decoding**: a text, an object with the channels, or a list of three or four numbers. -/
def ofJson? (value : Json) : Except DecodeFault Color :=
  match value with
  | .string text =>
    match parse? text with
    | .ok color => .ok color
    | .error fault => .error (.text fault)
  | .object _ =>
    match ofMembers? value with
    | some color => .ok color
    | none => .error .shape
  | .array items =>
    match numbers? items with
    | some [r, g, b] => .ok (rgb r g b)
    | some [r, g, b, a] => .ok ⟨r, g, b, a⟩
    | some _ => .error .listLength
    | none => .error .shape
  | _ => .error .shape

end Color

end AnchorLayout
