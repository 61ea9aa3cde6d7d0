import AnchorLayout.Error
import AnchorLayout.Number.Reader
import AnchorLayout.Text.Blank
/-!
# Style properties

  Fourteen properties stand for one CSS declaration each, and each takes its own kinds of values.

  Program        `StyleProperty.convert`: the declaration that a value gives.
  Specification  `Declaration`: a text, or no declaration at all.
  Crux           a property whose value it cannot take is refused before anything is stored.
-/

namespace AnchorLayout

/-- A value handed to a style property. -/
inductive StyleValue where
  | bool (value : Bool)
  | number (value : Number)
  | text (value : String)
  | color (value : Color)
  | texts (values : List String)
  /-- One number for each side. -/
  | numbers (values : List Number)
deriving DecidableEq

/-- What a value declares. -/
inductive Declaration where
  | text (css : String)
  /-- No declaration: the value switches the property off. -/
  | absent
deriving DecidableEq

/-- A property with a CSS declaration. -/
inductive StyleProperty where
  | align
  | backgroundColor
  | bold
  | borderColor
  | borderStyle
  | borderWidth
  | cornerRadius
  | alpha
  | padding
  | scrollable
  | shadow
  | textColor
  | z
  | font
deriving DecidableEq

/-- The outline of a value. -/
def StyleValue.outline : StyleValue → Outline
  | bool value => .tuple "Bool" [.leaf (if value then "true" else "false")]
  | number value => .tuple "Num" [.leaf value.inspect]
  | text value => .tuple "Text" [.leaf (quoted value)]
  | color value => .tuple "Color" [value.outline]
  | texts values => .tuple "List" [.list (values.map fun s => .leaf (quoted s))]
  | numbers values => .tuple "Nums" [.list (values.map fun x => .leaf x.inspect)]

namespace StyleProperty

/-- All properties. -/
def all : List StyleProperty :=
  [align, backgroundColor, bold, borderColor, borderStyle, borderWidth, cornerRadius, alpha,
    padding, scrollable, shadow, textColor, z, font]

/-- The name of a property. -/
def name : StyleProperty → String
  | align => "align"
  | backgroundColor => "background_color"
  | bold => "bold"
  | borderColor => "border_color"
  | borderStyle => "border_style"
  | borderWidth => "border_width"
  | cornerRadius => "corner_radius"
  | alpha => "alpha"
  | padding => "padding"
  | scrollable => "scrollable"
  | shadow => "shadow"
  | textColor => "text_color"
  | z => "z"
  | font => "font"

/-- The CSS name of its declaration. -/
def cssName : StyleProperty → String
  | align => "text-align"
  | backgroundColor => "background-color"
  | bold => "font-weight"
  | borderColor => "border-color"
  | borderStyle => "border-style"
  | borderWidth => "border-width"
  | cornerRadius => "border-radius"
  | alpha => "opacity"
  | padding => "padding"
  | scrollable => "overflow"
  | shadow => "box-shadow"
  | textColor => "color"
  | z => "z-index"
  | font => "font-family"

/-- The property of a name. -/
def ofName? (name : String) : Option StyleProperty := all.find? fun p => p.name == name

end StyleProperty

/-! ## Conversions -/

namespace StyleValue

/-- A length in pixels. -/
def pixels? (x : Number) : Option String :=
  if x.isFinite then some (x.text ++ "px") else none

/-- One of several lengths: a number gets its unit, any other word stands as it is. -/
def length? (item : String) : Option String :=
  match Number.parse? (trimBlank item) with
  | some x => pixels? x
  | none => some (trimBlank item)

/-- Lengths with blanks between them, at least one. -/
def lengths (parts : List String) : Option Declaration :=
  if parts = [] then none else some (.text (" ".intercalate parts))

/-- A text as it stands. -/
def asText : StyleValue → Option Declaration
  | text s => some (.text s)
  | _ => none

/-- A colour, or a text that reads as one. -/
def asColor : StyleValue → Option Declaration
  | color c => some (.text c.css)
  | text s =>
    match Color.parse? s with
    | .ok c => some (.text c.css)
    | .error _ => none
  | _ => none

/-- A switch: a text when it is on. -/
def asSwitch (css : String) : StyleValue → Option Declaration
  | bool true => some (.text css)
  | bool false => some .absent
  | _ => none

/-- One length or several. -/
def asLength : StyleValue → Option Declaration
  | number x => (pixels? x).map .text
  | text s => some (.text s)
  | numbers xs => (xs.mapM pixels?).bind lengths
  | texts items => (items.mapM length?).bind lengths
  | _ => none

/-- A number without a unit. -/
def asNumber : StyleValue → Option Declaration
  | number x => if x.isFinite then some (.text x.text) else none
  | _ => none

/-- Scrolling in both directions, in one, or not at all. -/
def asScrolling : StyleValue → Option Declaration
  | bool true => some (.text "auto")
  | bool false => some .absent
  | text s =>
    if s = "horizontal" then some (.text "auto hidden")
    else if s = "vertical" then some (.text "hidden auto")
    else none
  | _ => none

/-- Texts with commas between them, at least one, or a text as it stands. -/
def asList : StyleValue → Option Declaration
  | texts items => if items = [] then none else some (.text (",".intercalate items))
  | text s => some (.text s)
  | _ => none

end StyleValue

namespace StyleProperty

/-- The declaration of a value, if the property takes values of its kind. -/
def convert? : StyleProperty → StyleValue → Option Declaration
  | align | borderStyle | shadow => StyleValue.asText
  | backgroundColor | borderColor | textColor => StyleValue.asColor
  | bold => StyleValue.asSwitch "bold"
  | borderWidth | cornerRadius | padding => StyleValue.asLength
  | alpha | z => StyleValue.asNumber
  | scrollable => StyleValue.asScrolling
  | font => StyleValue.asList

/-- **Conversion**, with the value and the property in the error. -/
def convert (p : StyleProperty) (value : StyleValue) : Except Error Declaration :=
  match p.convert? value with
  | some declaration => .ok declaration
  | none => .error (.unsupported p.name value.outline)

end StyleProperty

end AnchorLayout
