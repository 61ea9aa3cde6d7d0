import AnchorLayout.Number.Reader
import AnchorLayout.Number.Text
import AnchorLayout.Text.Blank
import AnchorLayout.Text.Quoted
/-!
# Tokens of the clause language

  A clause is written in names, numbers and fifteen signs, with ASCII white space between them.

  Program        `tokens?`: the tokens of a text, or the character at which no token starts.
  Specification  a token knows its text, the white space in front of it and where it starts, in
                 bytes.
  Crux           `length_lt_of_cut?`: every token takes at least one character, and the reading
                 ends on that.
-/

namespace AnchorLayout

/-! ## Kinds -/

/-- The signs of the clause language. -/
inductive Sign where
  | leftParen
  | rightParen
  | comma
  | dot
  | plus
  | minus
  | star
  | slash
  | equal
  | less
  | greater
  | ampersand
  | question
  | colon
  | semicolon
deriving DecidableEq

/-- What a token is. -/
inductive TokenKind where
  | name (text : String)
  | number (value : Number)
  | sign (sign : Sign)
deriving DecidableEq

/-- A token in its text. -/
structure Token where
  kind : TokenKind
  /-- The characters of the token. -/
  lexeme : List Char
  /-- The white space in front of it. -/
  blank : List Char
  /-- The byte at which it starts. -/
  start : Nat

/-- The sign of a character. -/
def Sign.ofChar? : Char → Option Sign
  | '(' => some leftParen
  | ')' => some rightParen
  | ',' => some comma
  | '.' => some dot
  | '+' => some plus
  | '-' => some minus
  | '*' => some star
  | '/' => some slash
  | '=' => some equal
  | '<' => some less
  | '>' => some greater
  | '&' => some ampersand
  | '?' => some question
  | ':' => some colon
  | ';' => some semicolon
  | _ => none

/-- The name of a sign in messages. -/
def Sign.outlineName : Sign → String
  | leftParen => "LParen"
  | rightParen => "RParen"
  | comma => "Comma"
  | dot => "Dot"
  | plus => "Plus"
  | minus => "Minus"
  | star => "Star"
  | slash => "Slash"
  | equal => "Eq"
  | less => "Lt"
  | greater => "Gt"
  | ampersand => "Amp"
  | question => "Question"
  | colon => "Colon"
  | semicolon => "Semicolon"

/-- A token in messages. -/
def TokenKind.outline : TokenKind → Outline
  | name text => .tuple "Ident" [.leaf (quoted text)]
  | number value => .tuple "Number" [.leaf value.inspect]
  | sign s => .leaf s.outlineName

/-! ## Cutting off one token -/

/-- Characters that a name starts with. -/
def startsName (c : Char) : Bool := c.isAlpha || c == '_'

/-- Characters that a name goes on with. -/
def continuesName (c : Char) : Bool := c.isAlphanum || c == '_'

/-- The digits of a fraction with their point, where a digit follows the point. -/
def fractionPart : List Char → List Char
  | '.' :: d :: rest => if d.isDigit then '.' :: leadingDigits (d :: rest) else []
  | _ => []

/-- The kind and the characters of the token at the start of a text: a number is digits with or
without a fraction, or a fraction alone. -/
def cut? (cs : List Char) : Option (TokenKind × List Char) :=
  match cs with
  | [] => none
  | c :: rest =>
    if c.isDigit ∨ fractionPart (c :: rest) ≠ [] then
      let whole := leadingDigits (c :: rest)
      let fraction := fractionPart (pastDigits (c :: rest))
      some (.number (.ofDigits false whole fraction.tail 0), whole ++ fraction)
    else if startsName c then
      let lexeme := c :: rest.takeWhile continuesName
      some (.name (String.ofList lexeme), lexeme)
    else (Sign.ofChar? c).map fun s => (.sign s, [c])

theorem fractionPart_isPrefix : ∀ cs : List Char, fractionPart cs <+: cs
  | [] => List.nil_prefix
  | [c] => by unfold fractionPart; split <;> first | exact List.nil_prefix | simp_all
  | c :: d :: rest => by
    unfold fractionPart
    split
    · next d' rest' h =>
      cases h
      split
      · exact (List.prefix_cons_inj _).2 (List.takeWhile_prefix _)
      · exact List.nil_prefix
    · exact List.nil_prefix

/-- A token is what its text starts with, and it is not empty. -/
theorem isPrefix_of_cut? {cs lexeme : List Char} {kind : TokenKind}
    (h : cut? cs = some (kind, lexeme)) : lexeme <+: cs ∧ lexeme ≠ [] := by
  unfold cut? at h
  split at h
  · cases h
  · next c rest =>
    split at h
    · next hd =>
      simp only [Option.some.injEq, Prod.mk.injEq] at h
      obtain ⟨-, rfl⟩ := h
      constructor
      · conv => rhs; rw [← leadingDigits_append_pastDigits (c :: rest)]
        exact (List.prefix_append_right_inj _).2 (fractionPart_isPrefix _)
      · rcases hd with hd | hd
        · simp [leadingDigits, hd]
        · by_cases hc : c.isDigit = true
          · simp [leadingDigits, hc]
          · simp [leadingDigits, pastDigits, hc] at hd ⊢
            exact hd
    · split at h
      · simp only [Option.some.injEq, Prod.mk.injEq] at h
        obtain ⟨-, rfl⟩ := h
        exact ⟨(List.prefix_cons_inj _).2 (List.takeWhile_prefix _), by simp⟩
      · obtain ⟨s, -, hs⟩ := Option.map_eq_some_iff.1 h
        simp only [Prod.mk.injEq] at hs
        obtain ⟨-, rfl⟩ := hs
        exact ⟨⟨rest, rfl⟩, by simp⟩

theorem length_lt_of_cut? {cs lexeme : List Char} {kind : TokenKind}
    (h : cut? cs = some (kind, lexeme)) : (cs.drop lexeme.length).length < cs.length := by
  obtain ⟨hp, hn⟩ := isPrefix_of_cut? h
  have hl := hp.length_le
  have : 0 < lexeme.length := List.length_pos_iff.2 hn
  rw [List.length_drop]
  omega

/-! ## All tokens -/

/-- The number of bytes of a text. -/
def byteLength : List Char → Nat
  | [] => 0
  | c :: cs => c.utf8Size + byteLength cs

/-- The tokens of a text that starts at a byte, or the character at which no token starts, with its
byte. -/
def tokensFrom (start : Nat) (cs : List Char) : Except (Nat × Char) (List Token) :=
  let blank := cs.takeWhile isAsciiBlank
  let begin := start + byteLength blank
  match _left : cs.dropWhile isAsciiBlank with
  | [] => .ok []
  | c :: rest =>
    match _cut : cut? (c :: rest) with
    | none => .error (begin, c)
    | some (kind, lexeme) =>
      (tokensFrom (begin + byteLength lexeme) ((c :: rest).drop lexeme.length)).map
        fun others => ⟨kind, lexeme, blank, begin⟩ :: others
termination_by cs.length
decreasing_by
  have h1 := length_lt_of_cut? _cut
  have h2 := (List.dropWhile_suffix (l := cs) isAsciiBlank).length_le
  rw [_left] at h2
  exact Nat.lt_of_lt_of_le h1 h2

/-- **The tokens** of a text. -/
def tokens? (text : String) : Except (Nat × Char) (List Token) := tokensFrom 0 text.toList

end AnchorLayout
