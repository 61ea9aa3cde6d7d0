import AnchorLayout.Json.Basic
/-!
# Writing JSON

  Program        `Json.compact` (no white space at all), `Json.pretty` (two blanks for each level).
  Specification  `jsonEscaped`: what stands for a character inside a string.
-/

namespace AnchorLayout

/-- Four hexadecimal digits. -/
def fourHexDigits (n : Nat) : String :=
  let digits := Nat.toDigits 16 n
  String.ofList (List.replicate (4 - digits.length) '0' ++ digits)

/-- What stands for a character inside a JSON string: quotes, backslashes and controls are escaped,
all else is itself. -/
def jsonEscaped (c : Char) : String :=
  if c = '"' then "\\\""
  else if c = '\\' then "\\\\"
  else if c = '\x08' then "\\b"
  else if c = '\x0c' then "\\f"
  else if c = '\n' then "\\n"
  else if c = '\r' then "\\r"
  else if c = '\t' then "\\t"
  else if c.toNat < 0x20 then "\\u" ++ fourHexDigits c.toNat
  else c.toString

/-- A JSON string. -/
def jsonString (text : String) : String :=
  "\"" ++ String.join (text.toList.map jsonEscaped) ++ "\""

namespace Json

mutual

/-- **Compact text**: members in the order they have. -/
def compact : Json → String
  | null => "null"
  | bool b => if b then "true" else "false"
  | integer n => toString n
  | float x => x.jsonText
  | string s => jsonString s
  | array items => "[" ++ ",".intercalate (compactItems items) ++ "]"
  | object members => "\x7b" ++ ",".intercalate (compactMembers members) ++ "\x7d"

/-- The compact texts of a list of values. -/
def compactItems : List Json → List String
  | [] => []
  | value :: rest => value.compact :: compactItems rest

/-- The compact texts of a list of members. -/
def compactMembers : List (String × Json) → List String
  | [] => []
  | (key, value) :: rest => (jsonString key ++ ":" ++ value.compact) :: compactMembers rest

end

/-- A new line and the indentation of a level. -/
def lineBreak (level : Nat) : String := "\n" ++ String.ofList (List.replicate (2 * level) ' ')

/-- Texts in brackets, each on a line of its own one level further in. -/
def block (opening closing : String) (level : Nat) (texts : List String) : String :=
  if texts = [] then opening ++ closing
  else
    opening ++ lineBreak (level + 1) ++ ("," ++ lineBreak (level + 1)).intercalate texts ++
      lineBreak level ++ closing

mutual

/-- The text over several lines of a value that stands at a level of indentation. -/
def prettyAt (level : Nat) : Json → String
  | null => "null"
  | bool b => if b then "true" else "false"
  | integer n => toString n
  | float x => x.jsonText
  | string s => jsonString s
  | array items => block "[" "]" level (prettyItems level items)
  | object members => block "\x7b" "\x7d" level (prettyMembers level members)

/-- The texts of the items of a list at a level. -/
def prettyItems (level : Nat) : List Json → List String
  | [] => []
  | value :: rest => value.prettyAt (level + 1) :: prettyItems level rest

/-- The texts of the members of an object at a level. -/
def prettyMembers (level : Nat) : List (String × Json) → List String
  | [] => []
  | (key, value) :: rest =>
    (jsonString key ++ ": " ++ value.prettyAt (level + 1)) :: prettyMembers level rest

end

/-- **Text over several lines**. -/
def pretty (value : Json) : String := value.prettyAt 0

end Json

end AnchorLayout
