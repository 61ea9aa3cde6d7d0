import AnchorLayout.Text.Visible
/-!
# Quoted texts and outlines

  Messages show a rejected value as an outline: constructor names with their fields, lists in
  brackets, texts in double quotes.

  Program        `quoted` (a text between quotes), `Outline.text` (an outline in one line).
  Specification  `escaped`: what stands for a character between quotes.
-/

namespace AnchorLayout

/-! ## Quoted texts -/

/-- What stands for a character between quotes. -/
def escaped (c : Char) : String :=
  if c = '"' then "\\\""
  else if c = '\\' then "\\\\"
  else if c = '\n' then "\\n"
  else if c = '\r' then "\\r"
  else if c = '\t' then "\\t"
  else if c = '\x00' then "\\0"
  else if isShown c then c.toString
  else "\\u\x7b" ++ String.ofList (Nat.toDigits 16 c.toNat) ++ "\x7d"

/-- A text between double quotes. -/
def quoted (text : String) : String := "\"" ++ String.join (text.toList.map escaped) ++ "\""

/-! ## Outlines -/

/-- The outline of a value. -/
inductive Outline where
  /-- A name, a number or a quoted text. -/
  | leaf (text : String)
  /-- A name with its fields in parentheses. -/
  | tuple (name : String) (fields : List Outline)
  /-- A name with its named fields in braces. -/
  | record (name : String) (fields : List (String × Outline))
  /-- A list in brackets. -/
  | list (items : List Outline)

namespace Outline

mutual

/-- The outline in one line. -/
def text : Outline → String
  | leaf s => s
  | tuple name fields => name ++ "(" ++ ", ".intercalate (texts fields) ++ ")"
  | record name fields => name ++ " \x7b " ++ ", ".intercalate (fieldTexts fields) ++ " \x7d"
  | list items => "[" ++ ", ".intercalate (texts items) ++ "]"

/-- Each outline in one line. -/
def texts : List Outline → List String
  | [] => []
  | o :: rest => o.text :: texts rest

/-- Each named field as `name: outline`. -/
def fieldTexts : List (String × Outline) → List String
  | [] => []
  | (name, o) :: rest => (name ++ ": " ++ o.text) :: fieldTexts rest

end

/-- `None`, or `Some` with its field. -/
def option : Option Outline → Outline
  | none => leaf "None"
  | some o => tuple "Some" [o]

end Outline

end AnchorLayout
