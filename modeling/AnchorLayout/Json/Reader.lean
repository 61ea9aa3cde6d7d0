import AnchorLayout.Json.Basic
import AnchorLayout.Number.Scaled
import AnchorLayout.Text.Hex
/-!
# Reading JSON

  Each function takes the text that is left and answers what it read with the text after it, or
  `none` when the text is not JSON.

  Program        `Json.parse?`.
  Specification  the grammar of RFC 8259, with three limits: nesting stays below `Json.depthLimit`,
                 a numeral must not overflow, and a `\u` escape must not stand for half of a pair.
  Crux           recursion is on the depth that is left; the loops over items and characters are
                 bounded by the length of the text.
-/

namespace AnchorLayout

namespace Json

/-- The white space between the tokens of JSON. -/
def isJsonBlank (c : Char) : Bool := c = ' ' || c = '\n' || c = '\t' || c = '\r'

/-- The text after leading white space. -/
def skipBlank (cs : List Char) : List Char := cs.dropWhile isJsonBlank

/-- The text after a word it starts with. -/
def afterWord? (word : String) (cs : List Char) : Option (List Char) :=
  if word.toList.isPrefixOf cs then some (cs.drop word.length) else none

/-! ## Numerals -/

/-- The value of an integer numeral: within 64 bits an integer, beyond them a double. -/
def ofNumeral (negative : Bool) (digits : List Char) : Json :=
  let n := digitsValue digits
  if negative then
    if 0 < n ∧ 2 * n ≤ UInt64.size then integer (-(n : Int))
    else float (Number.ofScaledDigits true digits [] 0)
  else
    if n < UInt64.size then integer n else float (Number.ofScaledDigits false digits [] 0)

/-- The digits of an exponent behind its mark, with the text after them. -/
def exponentOf? (cs : List Char) : Option (Int × List Char) :=
  let (negative, cs) := match cs with
    | '-' :: rest => (true, rest)
    | '+' :: rest => (false, rest)
    | rest => (false, rest)
  let digits := leadingDigits cs
  if digits = [] then none
  else
    let n : Int := digitsValue digits
    some (if negative then -n else n, pastDigits cs)

/-- A fraction or an exponent or both behind the whole part of a numeral. -/
def fractionOf? (negative : Bool) (whole cs : List Char) : Option (Json × List Char) :=
  let fraction := fractionDigits cs
  if fraction = [] ∧ cs.head? = some '.' then none
  else
    let finish (exponent : Int) (rest : List Char) : Option (Json × List Char) :=
      let x := Number.ofScaledDigits negative whole fraction exponent
      if x.isFinite then some (float x, rest) else none
    match pastFraction cs with
    | 'e' :: rest => (exponentOf? rest).bind fun (e, rest) => finish e rest
    | 'E' :: rest => (exponentOf? rest).bind fun (e, rest) => finish e rest
    | rest => finish 0 rest

/-- A numeral behind its sign.  The whole part has no zeros in front. -/
def numeral? (negative : Bool) (cs : List Char) : Option (Json × List Char) :=
  let whole := leadingDigits cs
  let rest := pastDigits cs
  if whole = [] ∨ (whole.head? = some '0' ∧ 1 < whole.length) then none
  else match rest.head? with
    | some '.' | some 'e' | some 'E' => fractionOf? negative whole rest
    | _ =>
      let value := ofNumeral negative whole
      match value with
      | float x => if x.isFinite then some (value, rest) else none
      | _ => some (value, rest)

/-! ## Strings -/

/-- Four hexadecimal digits, with the text after them. -/
def fourHex? : List Char → Option (Nat × List Char)
  | a :: b :: c :: d :: rest => do
    let a ← hexValue? a
    let b ← hexValue? b
    let c ← hexValue? c
    let d ← hexValue? d
    pure (((a * 16 + b) * 16 + c) * 16 + d, rest)
  | _ => none

/-- The character of a `\u` escape: one code, or two that form a pair. -/
def unicodeEscape? (cs : List Char) : Option (Char × List Char) := do
  let (high, rest) ← fourHex? cs
  if 0xdc00 ≤ high ∧ high < 0xe000 then none
  else if 0xd800 ≤ high ∧ high < 0xdc00 then
    let rest ← afterWord? "\\u" rest
    let (low, rest) ← fourHex? rest
    if 0xdc00 ≤ low ∧ low < 0xe000 then
      some (Char.ofNat (0x10000 + (high - 0xd800) * 0x400 + (low - 0xdc00)), rest)
    else none
  else some (Char.ofNat high, rest)

/-- The character behind a backslash. -/
def escape? : List Char → Option (Char × List Char)
  | '"' :: rest => some ('"', rest)
  | '\\' :: rest => some ('\\', rest)
  | '/' :: rest => some ('/', rest)
  | 'b' :: rest => some ('\x08', rest)
  | 'f' :: rest => some ('\x0c', rest)
  | 'n' :: rest => some ('\n', rest)
  | 'r' :: rest => some ('\r', rest)
  | 't' :: rest => some ('\t', rest)
  | 'u' :: rest => unicodeEscape? rest
  | _ => none

/-- The characters up to the closing quote, last first, behind those already read. -/
def stringBody? : Nat → List Char → List Char → Option (String × List Char)
  | 0, _, _ => none
  | fuel + 1, read, cs =>
    match cs with
    | [] => none
    | '"' :: rest => some (String.ofList read.reverse, rest)
    | '\\' :: rest => (escape? rest).bind fun (c, rest) => stringBody? fuel (c :: read) rest
    | c :: rest => if c.toNat < 0x20 then none else stringBody? fuel (c :: read) rest

/-- The text of a string behind its opening quote. -/
def string? (cs : List Char) : Option (String × List Char) := stringBody? (cs.length + 1) [] cs

/-! ## Values -/

/-- Items with commas between them, up to the closing bracket. -/
def sequence? {α : Type} (item : List Char → Option (α × List Char)) (closing : Char) :
    Nat → List Char → Option (List α × List Char)
  | 0, _ => none
  | fuel + 1, cs =>
    (item cs).bind fun (first, rest) =>
      match skipBlank rest with
      | ',' :: rest =>
        (sequence? item closing fuel rest).map fun (others, rest) => (first :: others, rest)
      | c :: rest => if c = closing then some ([first], rest) else none
      | [] => none

/-- Nothing or items, up to the closing bracket. -/
def itemsUpTo? {α : Type} (item : List Char → Option (α × List Char)) (closing : Char)
    (cs : List Char) : Option (List α × List Char) :=
  match skipBlank cs with
  | c :: rest =>
    if c = closing then some ([], rest) else sequence? item closing (rest.length + 1) (c :: rest)
  | [] => none

/-- A key, a colon and a value. -/
def member? (value : List Char → Option (Json × List Char)) (cs : List Char) :
    Option ((String × Json) × List Char) :=
  match skipBlank cs with
  | '"' :: rest =>
    (string? rest).bind fun (key, rest) =>
      match skipBlank rest with
      | ':' :: rest => (value rest).map fun (v, rest) => ((key, v), rest)
      | _ => none
  | _ => none

/-- A value with fewer levels of brackets than the depth. -/
def value? : Nat → List Char → Option (Json × List Char)
  | 0, _ => none
  | depth + 1, cs =>
    match skipBlank cs with
    | 'n' :: rest => (afterWord? "ull" rest).map fun rest => (null, rest)
    | 't' :: rest => (afterWord? "rue" rest).map fun rest => (bool true, rest)
    | 'f' :: rest => (afterWord? "alse" rest).map fun rest => (bool false, rest)
    | '"' :: rest => (string? rest).map fun (s, rest) => (string s, rest)
    | '[' :: rest =>
      if depth = 0 then none
      else (itemsUpTo? (value? depth) ']' rest).map fun (items, rest) => (array items, rest)
    | '\x7b' :: rest =>
      if depth = 0 then none
      else (itemsUpTo? (member? (value? depth)) '\x7d' rest).map fun (members, rest) =>
        (object members, rest)
    | '-' :: rest => numeral? true rest
    | rest => numeral? false rest

/-- Values are nested in fewer brackets than this. -/
def depthLimit : Nat := 128

/-- **Reading**: the value that a whole text writes, members as they are written. -/
def parse? (text : String) : Option Json :=
  match value? depthLimit text.toList with
  | some (value, rest) => if skipBlank rest = [] then some value else none
  | none => none

end Json

end AnchorLayout
