import AnchorLayout.Clause.Fault
import AnchorLayout.Constraint.Basic
/-!
# Reading clauses

  A list of clauses, with semicolons between them, is read back into constraints.

      clauses   := (clause | ';')*            condition := part ('&' part)*
      clause    := [condition '?'] attribute ('=' | '<' | '>') sum [':' animation]
      part      := ('portrait' | 'landscape') ['(' view ')'] | sum ('<' | '>') sum
      sum       := product (('+' | '-') product)*
      product   := operand (('*' | '/') operand)*
      operand   := number | '-' number | '(' sum ')' | 'gap' | view '.' attribute
                 | ('min' | 'max') '(' sum (',' sum)* ')'

  Program        `clauses?`.
  Specification  the grammar above; a fault is located at the token it lies on, or at the end.
  Crux           operators of one level are folded from the left by `chain`, and nesting is
                 bounded by the number of tokens, since every level opens a parenthesis.
-/

namespace AnchorLayout

/-- A fault with the byte it lies at; without one, at the end of the text. -/
structure LocatedFault where
  position : Option Nat
  fault : Fault

/-- Reading from the tokens that are left. -/
abbrev Reading := StateT (List Token) (Except LocatedFault)

namespace Reading

/-! ## Single tokens -/

/-- The kind of the next token, without taking it; nothing at the end. -/
def peek : Reading (Option TokenKind) := do return (← get).head?.map Token.kind

/-- Take the next token; the end stays where it is. -/
def next : Reading (Option Token) := do
  let tokens ← get
  set tokens.tail
  return tokens.head?

/-- Fail at the next token. -/
def failHere {α : Type} (fault : Fault) : Reading α := do
  throw ⟨(← get).head?.map Token.start, fault⟩

/-- Fail at a token that has been taken. -/
def failAt {α : Type} (token : Option Token) (fault : Fault) : Reading α :=
  throw ⟨token.map Token.start, fault⟩

/-- Take the next token if it is the given sign, and say whether it was. -/
def accept (sign : Sign) : Reading Bool := do
  if (← peek) = some (.sign sign) then
    let _ ← next
    return true
  else return false

/-- Take the given sign. -/
def expect (sign : Sign) : Reading Unit := do
  unless (← accept sign) do failHere (.missingSign sign (← peek))

/-! ## Repetition -/

/-- Items with a sign between them, at least one and at most as many as the fuel. -/
def separated {α : Type} (sign : Sign) (item : Reading α) : Nat → Reading (List α)
  | 0 => return []
  | fuel + 1 => do
    let first ← item
    if (← accept sign) then return first :: (← separated sign item fuel) else return [first]

/-- Items with a sign between them, at least one. -/
def listOf {α : Type} (sign : Sign) (item : Reading α) : Reading (List α) := do
  separated sign item ((← get).length + 1)

/-- An expression that goes on with operators of one level, folded from the left. -/
def chainFrom (operator? : TokenKind → Option BinaryOp) (operand : Reading Expr) :
    Nat → Expr → Reading Expr
  | 0, left => return left
  | fuel + 1, left => do
    match (← peek).bind operator? with
    | some op =>
      let _ ← next
      let right ← operand
      chainFrom operator? operand fuel (.binary op left right)
    | none => return left

/-- Operands with operators of one level between them, folded from the left. -/
def chain (operator? : TokenKind → Option BinaryOp) (operand : Reading Expr) : Reading Expr := do
  let first ← operand
  chainFrom operator? operand (← get).length first

/-! ## Expressions -/

/-- The operators of a sum. -/
def additive? : TokenKind → Option BinaryOp
  | .sign .plus => some .add
  | .sign .minus => some .sub
  | _ => none

/-- The operators of a product. -/
def multiplicative? : TokenKind → Option BinaryOp
  | .sign .star => some .mul
  | .sign .slash => some .div
  | _ => none

/-- The name of an attribute. -/
def attributeName : Reading Attribute := do
  let token ← next
  match token.map Token.kind with
  | some (.name name) =>
    match Attribute.ofName? name with
    | some attr => return attr
    | none => failAt token (.unknownAttribute name)
  | found => failAt token (.missingAttribute found)

/-- The arguments of a function in their parentheses. -/
def arguments (nested : Reading Expr) : Reading (List Expr) := do
  expect .leftParen
  let args ← listOf .comma nested
  expect .rightParen
  return args

/-- An operand; `nested` reads what stands in parentheses. -/
def operand (nested : Reading Expr) : Reading Expr := do
  let token ← next
  match token.map Token.kind with
  | some (.number value) => return .num value
  | some (.sign .minus) =>
    match (← next).map Token.kind with
    | some (.number value) => return .num value.neg
    | _ => failAt token .strayMinus
  | some (.sign .leftParen) =>
    let inner ← nested
    expect .rightParen
    return inner
  | some (.name name) =>
    if name = "gap" then return .gap
    else if name = "min" then return .call .min (← arguments nested)
    else if name = "max" then return .call .max (← arguments nested)
    else match ViewId.parse? name with
      | some view =>
        expect .dot
        return .anchor ⟨view, ← attributeName⟩
      | none => failAt token (.unknownName name)
  | found => failAt token (.missingValue found)

/-- An expression with fewer levels of parentheses than the depth. -/
def sum : Nat → Reading Expr
  | 0 => failHere (.missingValue none)
  | depth + 1 => chain additive? (chain multiplicative? (operand (sum depth)))

/-- An expression. -/
def expr : Reading Expr := do sum ((← get).length + 1)

/-! ## Conditions -/

/-- The view of an orientation in its parentheses, if there are any. -/
def orientedView : Reading (Option ViewId) := do
  if (← accept .leftParen) then
    let token ← next
    match token.map Token.kind with
    | some (.name name) =>
      match ViewId.parse? name with
      | some view =>
        expect .rightParen
        return some view
      | none => failAt token (.invalidView name)
    | found => failAt token (.missingView found)
  else return none

/-- Two expressions with `<` or `>` between them. -/
def comparedExprs : Reading Condition := do
  let lhs ← expr
  match (← peek) with
  | some (.sign .less) =>
    let _ ← next
    return .compare lhs .less (← expr)
  | some (.sign .greater) =>
    let _ ← next
    return .compare lhs .greater (← expr)
  | _ => failHere .missingGuardComparison

/-- One part of a guard. -/
def conditionPart : Reading Condition := do
  match (← peek) with
  | some (.name "portrait") =>
    let _ ← next
    return .portrait (← orientedView)
  | some (.name "landscape") =>
    let _ ← next
    return .landscape (← orientedView)
  | _ => comparedExprs

/-- A guard: its only part, or all of its parts. -/
def condition : Reading Condition := do
  match (← listOf .ampersand conditionPart) with
  | [part] => return part
  | parts => return .all parts

/-! ## Timings -/

/-- The tokens of one item, up to a comma outside parentheses or the end of the clause. -/
def itemTokens (depth : Nat) : List Token → List Token
  | [] => []
  | token :: rest =>
    match token.kind with
    | .sign .semicolon => []
    | .sign .comma => if depth = 0 then [] else token :: itemTokens depth rest
    | .sign .leftParen => token :: itemTokens (depth + 1) rest
    | .sign .rightParen => token :: itemTokens (depth - 1) rest
    | _ => token :: itemTokens depth rest

/-- The text of some tokens as it was written, the white space between them included. -/
def writtenText : List Token → String
  | [] => ""
  | first :: rest =>
    String.ofList (first.lexeme ++ rest.flatMap fun token => token.blank ++ token.lexeme)

/-- A timing with the number of times read so far. -/
structure TimingSoFar where
  animation : Animation
  times : Nat

/-- The seconds of a time. -/
def seconds? (text : String) : Option Number :=
  if text.toList.getLast? = some 's' then
    Number.parse? (String.ofList text.toList.dropLast)
  else none

/-- A timing with one more time; three fit. -/
def TimingSoFar.addTime? (t : TimingSoFar) (seconds : Number) : Option TimingSoFar :=
  match t.times with
  | 0 => some ⟨{ t.animation with duration := some seconds }, 1⟩
  | 1 => some ⟨{ t.animation with startDelay := some seconds }, 2⟩
  | 2 => some ⟨{ t.animation with endDelay := some seconds }, 3⟩
  | _ => none

/-- A timing with one more item: a time, a count, a direction or else an easing. -/
def TimingSoFar.addItem? (t : TimingSoFar) (text : String) : Option TimingSoFar :=
  match seconds? text with
  | some seconds => t.addTime? seconds
  | none =>
    if text = "inf" then
      some { t with animation := { t.animation with iterations := some .infinite } }
    else match Number.parse? text with
      | some n => some { t with animation := { t.animation with iterations := some (.count n) } }
      | none =>
        match Direction.ofCssName? text with
        | some d => some { t with animation := { t.animation with direction := some d } }
        | none =>
          some { t with animation := { t.animation with ease := some (.ofCssName text) } }

/-- One item of a timing. -/
def timingItem (t : TimingSoFar) : Reading TimingSoFar := do
  let tokens ← get
  let item := itemTokens 0 tokens
  if item.isEmpty then failHere .missingAnimation
  else
    -- the item is read from its text, so that its tokens need not be a value
    set (tokens.drop item.length)
    match t.addItem? (writtenText item) with
    | some t => return t
    | none => failAt item.head? .tooManyTimes

/-- The items of a timing. -/
def timingItems : Nat → TimingSoFar → Reading Animation
  | 0, t => return t.animation
  | fuel + 1, t => do
    let t ← timingItem t
    if (← accept .comma) then timingItems fuel t else return t.animation

/-- A timing. -/
def timing : Reading Animation := do timingItems ((← get).length + 1) ⟨∅, 0⟩

/-! ## Clauses -/

/-- **Guarded**: a question mark stands before the end of the clause. -/
def hasGuard (tokens : List Token) : Bool :=
  (tokens.takeWhile fun t => t.kind != .sign .semicolon).any fun t => t.kind == .sign .question

/-- The comparison of a clause. -/
def comparison : Reading Comparison := do
  match (← peek) with
  | some (.sign .equal) =>
    let _ ← next
    return .equal
  | some (.sign .less) =>
    let _ ← next
    return .less
  | some (.sign .greater) =>
    let _ ← next
    return .greater
  | found => failHere (.missingComparison found)

/-- The guard of a clause with its question mark, if the clause has one. -/
def guard : Reading (Option Condition) := do
  if hasGuard (← get) then
    let c ← condition
    expect .question
    return some c
  else return none

/-- The timing behind a colon, if there is one. -/
def clauseTiming : Reading (Option Animation) := do
  if (← accept .colon) then return some (← timing) else return none

/-- One clause. -/
def clause : Reading Constraint := do
  let condition ← guard
  let target ← attributeName
  let comparison ← comparison
  let value ← expr
  let animation ← clauseTiming
  return ⟨target, comparison, value, condition, animation⟩

/-- The clauses up to the end; semicolons may stand anywhere between them. -/
def clauses : Nat → Reading (List Constraint)
  | 0 => return []
  | fuel + 1 => do
    if (← accept .semicolon) then clauses fuel
    else
      match (← peek) with
      | none => return []
      | some _ =>
        let first ← clause
        if (← accept .semicolon) then return first :: (← clauses fuel)
        else
          match (← peek) with
          | none => return [first]
          | found => failHere (.missingEnd found)

end Reading

/-- **Reading** a list of clauses; a fault comes with the byte it lies at. -/
def clauses? (text : String) : Except (Nat × Fault) (List Constraint) :=
  match tokens? text with
  | .error (position, c) => .error (position, .strayCharacter c)
  | .ok tokens =>
    match (Reading.clauses (tokens.length + 1)).run tokens with
    | .ok (rules, _) => .ok rules
    | .error failure => .error (failure.position.getD text.utf8ByteSize, failure.fault)

end AnchorLayout
