/-!
# White space

  Two classes of white space are in use: the ASCII one between the tokens of a clause, and the
  Unicode one around colours, lengths and lines.

  Program        `trimBlank`: a text without Unicode white space at its ends.
  Specification  `isAsciiBlank` (space, tab, line feed, form feed, carriage return),
                 `isBlank` (the characters with the Unicode property `White_Space`).
  Crux           `isBlank_of_isAsciiBlank`: the second class contains the first.
-/

namespace AnchorLayout

/-- Space, tab, line feed, form feed and carriage return; the vertical tab is not among them. -/
def isAsciiBlank (c : Char) : Bool :=
  c = ' ' || c = '\t' || c = '\n' || c = '\x0c' || c = '\r'

/-- The characters with the Unicode property `White_Space`. -/
def isBlank (c : Char) : Bool :=
  let n := c.toNat
  (9 ≤ n && n ≤ 13) || n = 0x20 || n = 0x85 || n = 0xa0 || n = 0x1680 ||
    (0x2000 ≤ n && n ≤ 0x200a) || n = 0x2028 || n = 0x2029 || n = 0x202f || n = 0x205f ||
    n = 0x3000

theorem isBlank_of_isAsciiBlank {c : Char} (h : isAsciiBlank c = true) : isBlank c = true := by
  simp only [isAsciiBlank, Bool.or_eq_true, decide_eq_true_eq] at h
  rcases h with (((rfl | rfl) | rfl) | rfl) | rfl <;> decide

/-- The characters between the first and the last that are not blank. -/
def trimBlankChars (cs : List Char) : List Char :=
  ((cs.dropWhile isBlank).reverse.dropWhile isBlank).reverse

/-- A text without white space at its ends. -/
def trimBlank (text : String) : String := String.ofList (trimBlankChars text.toList)

/-- ASCII upper-case letters become lower-case ones; all else stays. -/
def lowerAscii (text : String) : String := String.ofList (text.toList.map Char.toLower)

end AnchorLayout
