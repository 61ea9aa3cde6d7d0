import AnchorLayout.Clause.Token
/-!
# Faults of a clause text

  Why a text is not a list of clauses.  `Fault.message` words each cause; where it lies is known to
  the reader of clauses.
-/

namespace AnchorLayout

/-- A fault; where a token is at fault, the kind that was found, or nothing at the end. -/
inductive Fault where
  /-- No token starts with the character. -/
  | strayCharacter (c : Char)
  | missingSign (expected : Sign) (found : Option TokenKind)
  /-- There is more text where the last clause has ended. -/
  | missingEnd (found : Option TokenKind)
  | missingAttribute (found : Option TokenKind)
  | unknownAttribute (name : String)
  | missingComparison (found : Option TokenKind)
  /-- A guard is neither an orientation nor a comparison. -/
  | missingGuardComparison
  | missingView (found : Option TokenKind)
  | invalidView (name : String)
  | missingValue (found : Option TokenKind)
  | unknownName (name : String)
  /-- A sign in front of something that is not a numeral. -/
  | strayMinus
  | missingAnimation
  | tooManyTimes
deriving DecidableEq

/-- A token in messages; the end of the text has a name too. -/
def foundText (found : Option TokenKind) : String :=
  (found.map fun kind => kind.outline.text).getD "Eof"

/-- **The wording** of a fault. -/
def Fault.message : Fault → String
  | strayCharacter c => "unexpected character '" ++ c.toString ++ "'"
  | missingSign expected found =>
    "expected " ++ expected.outlineName ++ ", found " ++ foundText found
  | missingEnd found => "expected Eof, found " ++ foundText found
  | missingAttribute found => "expected attribute, found " ++ foundText found
  | unknownAttribute name => "unknown attribute '" ++ name ++ "'"
  | missingComparison found => "expected '=', '<' or '>', found " ++ foundText found
  | missingGuardComparison => "expected '<' or '>' in condition"
  | missingView found => "expected view id, found " ++ foundText found
  | invalidView name => "invalid view id '" ++ name ++ "'"
  | missingValue found => "expected value, found " ++ foundText found
  | unknownName name => "unknown name '" ++ name ++ "'"
  | strayMinus => "'-' must precede a number"
  | missingAnimation => "expected animation value"
  | tooManyTimes => "too many time values"

end AnchorLayout
