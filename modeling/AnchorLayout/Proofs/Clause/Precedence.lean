import AnchorLayout.Proofs.Clause.RoundTrip
/-!
# Expressions written by hand

  The canonical text of an operation puts every operation below it in parentheses.  A text written
  by hand has them where the levels of the operators ask for them, and wherever else it likes.

  1. **Specification** — `Writes`: a text writes an expression, with the parentheses that
     `BinaryOp.enclosesLeft` and `BinaryOp.enclosesRight` ask for, any others around any part of
     it, and white space in front of any token.
  2. **Characters** — `CutsOff`: the text is cut by itself, whatever follows that does not go on
     with its last token.
  3. **Tokens** — `ReadsAs`: an expression is read at every level that its operator or its
     parentheses allow.
  4. **The crux (`written_of_writes`)** — one induction over the way a text is written: each
     operator becomes one more turn of the loop of its level, with what was read before as its left
     operand.
-/

namespace AnchorLayout

open Reading

/-! ## Specifications -/

/-- White space between tokens. -/
abbrev Blank := { cs : List Char // ∀ c ∈ cs, isAsciiBlank c = true }

/-- No white space. -/
def Blank.none : Blank := ⟨[], Lexes.blanks_nil⟩

/-- A sum or a difference. -/
def Expr.isAdditive : Expr → Bool
  | .binary op _ _ => op.isAdditive
  | _ => false

namespace BinaryOp

/-- The left operand has to stand in parentheses: a sum or a difference in a product. -/
def enclosesLeft (op : BinaryOp) (lhs : Expr) : Bool := !op.isAdditive && Expr.isAdditive lhs

/-- The right operand has to stand in parentheses: any operation in a product, a sum or a
difference in a sum. -/
def enclosesRight (op : BinaryOp) (rhs : Expr) : Bool :=
  if op.isAdditive then Expr.isAdditive rhs else rhs.isComposite

end BinaryOp

/-- What a stretch of a text may write. -/
inductive Phrase where
  /-- An expression, in parentheses of its own or not. -/
  | expr (enclosed : Bool) (e : Expr)
  /-- The arguments of a call. -/
  | args (es : List Expr)

/-- **Written**: the text writes the phrase. -/
inductive Writes : List Char → Phrase → Prop
  | number (b : Blank) {whole fraction : List Char} {x : Number}
      (digits : Number.IsNumeral whole fraction)
      (reads : Number.parse? (String.ofList (whole ++ Magnitude.pointed fraction)) = some x) :
      Writes (b.1 ++ (whole ++ Magnitude.pointed fraction)) (.expr false (.num x))
  | negative (b b' : Blank) {whole fraction : List Char} {x : Number}
      (digits : Number.IsNumeral whole fraction)
      (reads : Number.parse? (String.ofList (whole ++ Magnitude.pointed fraction)) = some x) :
      Writes (b.1 ++ '-' :: (b'.1 ++ (whole ++ Magnitude.pointed fraction)))
        (.expr false (.num x.neg))
  | gap (b : Blank) : Writes (b.1 ++ "gap".toList) (.expr false .gap)
  | anchor (b b' b'' : Blank) {view attr : List Char} {a : Anchor} (nameView : isName view = true)
      (readsView : ViewId.parse? (String.ofList view) = some a.view) (nameAttr : isName attr = true)
      (readsAttr : Attribute.ofName? (String.ofList attr) = some a.attr) :
      Writes (b.1 ++ (view ++ (b'.1 ++ '.' :: (b''.1 ++ attr)))) (.expr false (.anchor a))
  | call (b b' b'' : Blank) (func : Func) {cs : List Char} {args : List Expr}
      (inner : Writes cs (.args args)) :
      Writes (b.1 ++ (func.name.toList ++ (b'.1 ++ '(' :: (cs ++ (b''.1 ++ [')'])))))
        (.expr false (.call func args))
  | parens (b b' : Blank) {cs : List Char} {enclosed : Bool} {e : Expr}
      (inner : Writes cs (.expr enclosed e)) :
      Writes (b.1 ++ '(' :: (cs ++ (b'.1 ++ [')']))) (.expr true e)
  | binary (b : Blank) (op : BinaryOp) {cs ds : List Char} {left right : Bool} {lhs rhs : Expr}
      (first : Writes cs (.expr left lhs)) (second : Writes ds (.expr right rhs))
      (encloses : op.enclosesLeft lhs = true → left = true)
      (encloses' : op.enclosesRight rhs = true → right = true) :
      Writes (cs ++ (b.1 ++ op.char :: ds)) (.expr false (.binary op lhs rhs))
  | argument {cs : List Char} {enclosed : Bool} {e : Expr}
      (only : Writes cs (.expr enclosed e)) : Writes cs (.args [e])
  | arguments (b : Blank) {cs ds : List Char} {enclosed : Bool} {e : Expr} {es : List Expr}
      (first : Writes cs (.expr enclosed e)) (others : Writes ds (.args es)) :
      Writes (cs ++ (b.1 ++ ',' :: ds)) (.args (e :: es))

/-! ## Characters -/

/-- What follows does not go on with a name or a number. -/
def Halts (rest : List Char) : Prop :=
  ∀ c, rest.head? = some c → continuesName c = false ∧ c ≠ '.'

/-- What does not go on with a name does not go on with a number either, but for the point. -/
theorem isDigit_of_not_continuesName {c : Char} (h : continuesName c = false) :
    c.isDigit = false := by
  simp only [continuesName, Char.isAlphanum, Bool.or_eq_false_iff] at h
  exact h.1.2

theorem continuesName_of_isAsciiBlank {c : Char} (h : isAsciiBlank c = true) :
    continuesName c = false ∧ c ≠ '.' := by
  simp only [isAsciiBlank, Bool.or_eq_true, decide_eq_true_eq] at h
  rcases h with (((rfl | rfl) | rfl) | rfl) | rfl <;> decide

/-- White space goes on with nothing. -/
theorem halts_blank (b : Blank) : Halts b.1 := fun c hc =>
  continuesName_of_isAsciiBlank (b.2 c (List.mem_of_mem_head? hc))

/-- Nor does a sign other than the point, with white space in front of it or without. -/
theorem halts_sign (b : Blank) {c : Char} {s : Sign} (hc : Sign.ofChar? c = some s)
    (hdot : c ≠ '.') (rest : List Char) : Halts (b.1 ++ c :: rest) := by
  intro d hd
  cases hb : b.1 with
  | nil =>
    rw [hb, List.nil_append, List.head?_cons, Option.some.injEq] at hd
    subst hd
    exact ⟨continuesName_of_sign hc, hdot⟩
  | cons e es =>
    refine halts_blank b d ?_
    rw [hb] at hd ⊢
    exact hd

/-- A name ends there. -/
theorem Halts.name_ends {rest : List Char} (h : Halts rest) :
    rest.takeWhile continuesName = [] := by
  cases rest with
  | nil => rfl
  | cons c rest => exact List.takeWhile_cons_of_neg (by simp [(h c rfl).1])

/-- **Cut off**: whatever follows that does not go on with the last token, the text is cut into the
pieces, and what follows is cut behind them. -/
def CutsOff (cs : List Char) (ps : List Piece) : Prop :=
  ∀ rest, Halts rest → ∀ start, ∃ tokens start', tokens.map Token.piece = ps ∧
    tokensFrom start (cs ++ rest) = (tokensFrom start' rest).map (tokens ++ ·)

namespace CutsOff

variable {cs ds lexeme : List Char} {ps qs : List Piece} {kind : TokenKind} {c : Char} {s : Sign}

theorem nil : CutsOff [] [] := by
  intro rest _ start
  refine ⟨[], start, rfl, ?_⟩
  cases htokens : tokensFrom start rest <;> rw [List.nil_append, htokens] <;> rfl

/-- Two texts, of which the second does not go on with the last token of the first. -/
theorem append (h : CutsOff cs ps) (h' : CutsOff ds qs)
    (hhalts : ∀ rest, Halts rest → Halts (ds ++ rest)) : CutsOff (cs ++ ds) (ps ++ qs) := by
  intro rest hrest start
  obtain ⟨first, middle, rfl, hfirst⟩ := h (ds ++ rest) (hhalts rest hrest) start
  obtain ⟨last, stop, rfl, hlast⟩ := h' rest hrest middle
  refine ⟨first ++ last, stop, List.map_append, ?_⟩
  rw [List.append_assoc, hfirst, hlast]
  cases tokensFrom stop rest with
  | error => rfl
  | ok tokens => exact congrArg Except.ok (List.append_assoc first last tokens).symm

/-- One token in front. -/
theorem cons (b : Blank)
    (hcut : ∀ rest, Halts rest → cut? (lexeme ++ (ds ++ rest)) = some (kind, lexeme))
    (h : CutsOff ds qs) : CutsOff (b.1 ++ (lexeme ++ ds)) (⟨kind, lexeme, b.1⟩ :: qs) := by
  intro rest hrest start
  obtain ⟨tokens, stop, rfl, htokens⟩ :=
    h rest hrest (start + byteLength b.1 + byteLength lexeme)
  refine ⟨⟨kind, lexeme, b.1, start + byteLength b.1⟩ :: tokens, stop, rfl, ?_⟩
  rw [List.append_assoc, List.append_assoc, tokensFrom_step b.2 (hcut rest hrest), htokens]
  cases tokensFrom stop rest <;> rfl

/-- A sign in front of a text, with white space in front of the sign. -/
theorem sign (b : Blank) (hc : Sign.ofChar? c = some s) (hdot : c ≠ '.') (h : CutsOff ds qs) :
    CutsOff (b.1 ++ c :: ds) (⟨.sign s, [c], b.1⟩ :: qs) :=
  cons b (fun rest _ => cut?_sign hc hdot (ds ++ rest)) h

theorem lone_sign (b : Blank) (hc : Sign.ofChar? c = some s) (hdot : c ≠ '.') :
    CutsOff (b.1 ++ [c]) [⟨.sign s, [c], b.1⟩] := sign b hc hdot nil

/-- A name in front of a text that does not go on with it. -/
theorem name (b : Blank) (hcs : isName cs = true) (hds : ∀ rest, Halts rest →
    (ds ++ rest).takeWhile continuesName = []) (h : CutsOff ds qs) :
    CutsOff (b.1 ++ (cs ++ ds)) (⟨.name (String.ofList cs), cs, b.1⟩ :: qs) := by
  refine cons b (fun rest hrest => ?_) h
  cases cs with
  | nil => cases hcs
  | cons c cs =>
    simp only [isName, Bool.and_eq_true, List.all_eq_true] at hcs
    exact cut?_name hcs.1 hcs.2 (hds rest hrest)

theorem lone_name (b : Blank) (hcs : isName cs = true) :
    CutsOff (b.1 ++ cs) [⟨.name (String.ofList cs), cs, b.1⟩] := by
  have h : CutsOff (b.1 ++ (cs ++ [])) [⟨.name (String.ofList cs), cs, b.1⟩] :=
    name b hcs (fun _ hrest => hrest.name_ends) nil
  rwa [List.append_nil] at h

/-- A name with a point behind it, and another name behind the point. -/
theorem dotted (b b' b'' : Blank) (hcs : isName cs = true) (hds : isName ds = true) :
    CutsOff (b.1 ++ (cs ++ (b'.1 ++ '.' :: (b''.1 ++ ds))))
      [⟨.name (String.ofList cs), cs, b.1⟩, ⟨.sign .dot, ['.'], b'.1⟩,
        ⟨.name (String.ofList ds), ds, b''.1⟩] := by
  have hpoint : CutsOff (b'.1 ++ (['.'] ++ (b''.1 ++ ds)))
      [⟨.sign .dot, ['.'], b'.1⟩, ⟨.name (String.ofList ds), ds, b''.1⟩] := by
    refine cons b' (fun rest _ => ?_) (lone_name b'' hds)
    -- neither white space nor the first letter of a name is a digit
    have hhead : fractionPart ('.' :: (b''.1 ++ ds ++ rest)) = [] := by
      cases hb : b''.1 with
      | nil =>
        cases ds with
        | nil => cases hds
        | cons d ds =>
          simp only [isName, Bool.and_eq_true] at hds
          simp [fractionPart, isDigit_of_startsName hds.1]
      | cons c cs =>
        have hc := (continuesName_of_isAsciiBlank (b''.2 c (by simp [hb]))).1
        simp [fractionPart, isDigit_of_not_continuesName hc]
    show cut? ('.' :: (b''.1 ++ ds ++ rest)) = _
    unfold cut?
    simp only [hhead]
    rfl
  refine name b hcs (fun rest _ => ?_) hpoint
  · cases hb : b'.1 with
    | nil => rfl
    | cons c cs =>
      refine List.takeWhile_cons_of_neg ?_
      rw [(continuesName_of_isAsciiBlank (b'.2 c (by simp [hb]))).1]
      exact Bool.false_ne_true

/-- A numeral that ends its text.  It may be written in any way that the reader knows, with or
without digits on either side of its point. -/
theorem numeral (b : Blank) {whole fraction : List Char}
    (h : Number.IsNumeral whole fraction) : CutsOff (b.1 ++ (whole ++ Magnitude.pointed fraction))
      [⟨.number (.ofDigits false whole fraction 0), whole ++ Magnitude.pointed fraction, b.1⟩] := by
  have hcut : CutsOff (b.1 ++ (whole ++ Magnitude.pointed fraction ++ []))
      [⟨.number (.ofDigits false whole fraction 0), whole ++ Magnitude.pointed fraction, b.1⟩] :=
    cons b (fun rest hrest => cut?_numeral h fun c hc =>
      ⟨isDigit_of_not_continuesName (hrest c hc).1, (hrest c hc).2⟩) nil
  rwa [List.append_nil] at hcut

/-- A text in parentheses. -/
theorem parens (b b' : Blank) (h : CutsOff cs ps) : CutsOff (b.1 ++ '(' :: (cs ++ (b'.1 ++ [')'])))
    (⟨.sign .leftParen, ['('], b.1⟩ :: (ps ++ [⟨.sign .rightParen, [')'], b'.1⟩])) := by
  refine sign b rfl (by decide) (h.append (lone_sign b' rfl (by decide)) fun rest _ => ?_)
  rw [List.append_assoc]
  exact halts_sign b' rfl (by decide) rest

/-- Two texts with a sign between them. -/
theorem between (b : Blank) (hc : Sign.ofChar? c = some s) (hdot : c ≠ '.') (h : CutsOff cs ps)
    (h' : CutsOff ds qs) : CutsOff (cs ++ (b.1 ++ c :: ds)) (ps ++ ⟨.sign s, [c], b.1⟩ :: qs) := by
  refine h.append (sign b hc hdot h') fun rest _ => ?_
  rw [List.append_assoc]
  exact halts_sign b hc hdot (ds ++ rest)

end CutsOff

/-! ## Tokens -/

/-- **Read at every level it may stand at**: anything is read as a sum, what is no sum itself also
as a product, and what is no operation at all also as an operand; parentheses allow everything. -/
structure ReadsAs (depth : Nat) (ps : List Piece) (enclosed : Bool) (e : Expr) : Prop where
  sum : ReadsSum depth ps e
  product : (e.isAdditive = true → enclosed = true) → ReadsProduct depth ps e
  operand : (e.isComposite = true → enclosed = true) → ReadsOperand depth ps e

/-- **Read as arguments**, up to something that is no comma. -/
def ReadsArgs (depth : Nat) (ps : List Piece) (es : List Expr) : Prop :=
  ∀ fuel, es.length ≤ fuel →
    Takes (separated .comma (sum (depth + 1)) fuel) (Closes .comma Ends) ps es

section

variable {depth : Nat} {ps qs : List Piece} {p l r : Piece} {e x y : Expr} {es : List Expr}
  {enclosed left right : Bool}

/-- An operand may stand anywhere. -/
theorem ReadsOperand.readsAs (h : ReadsOperand depth ps e) : ReadsAs depth ps enclosed e :=
  ⟨h.product.sum, fun _ => h.product, fun _ => h⟩

/-- **An operation** is read where its operands are, each in the parentheses that it needs. -/
theorem ReadsAs.binary {op : BinaryOp} (hp : p.kind = .sign op.sign)
    (hx : ReadsAs depth ps left x) (hy : ReadsAs depth qs right y)
    (hleft : op.enclosesLeft x = true → left = true)
    (hright : op.enclosesRight y = true → right = true) :
    ReadsAs depth (ps ++ p :: qs) false (.binary op x y) := by
  cases hop : op.isAdditive with
  | true =>
    have hy' := hy.product fun hadd => hright (by simpa [BinaryOp.enclosesRight, hop] using hadd)
    refine ⟨hx.sum.binary hop hp hy', fun henclosed => ?_, fun henclosed => ?_⟩
    · exact absurd (henclosed hop) Bool.false_ne_true
    · exact absurd (henclosed rfl) Bool.false_ne_true
  | false =>
    have hx' := hx.product fun hadd => hleft (by simpa [BinaryOp.enclosesLeft, hop] using hadd)
    have hy' := hy.operand fun hcomp => hright (by simpa [BinaryOp.enclosesRight, hop] using hcomp)
    have hproduct := hx'.binary hop hp hy'
    refine ⟨hproduct.sum, fun _ => hproduct, fun henclosed => ?_⟩
    exact absurd (henclosed rfl) Bool.false_ne_true

/-- What stands in parentheses may be anything, and they make an operand of it. -/
theorem readsOperand_parens (hl : l.kind = .sign .leftParen) (hr : r.kind = .sign .rightParen)
    (h : ReadsSum depth ps e) : ReadsOperand (depth + 1) (l :: (ps ++ [r])) e := by
  rintro tokens rest htokens -
  obtain ⟨t, others, rfl, ht, hothers⟩ := List.map_eq_cons_iff.1 htokens
  obtain ⟨first, u, last, rfl, hfirst, hu, hlast⟩ := split_pieces hothers
  rw [List.map_eq_nil_iff.1 hlast, List.cons_append, List.append_assoc]
  have hclose : u.kind = .sign .rightParen := (congrArg Piece.kind hu).trans hr
  refine operand_parens ((congrArg Piece.kind ht).trans hl) ?_ hclose
  exact h.takes first _ hfirst (ends_of_kind hclose rfl rfl rest)

/-- A call of arguments that are read one after the other. -/
theorem readsOperand_call {func : Func} {n : Piece} (hn : n.kind = .name func.name)
    (hl : l.kind = .sign .leftParen) (hr : r.kind = .sign .rightParen)
    (hcount : es.length ≤ ps.length + 1) (h : ReadsArgs depth ps es) :
    ReadsOperand (depth + 1) (n :: l :: (ps ++ [r])) (.call func es) := by
  rintro tokens rest htokens -
  obtain ⟨t, others, rfl, ht, hothers⟩ := List.map_eq_cons_iff.1 htokens
  obtain ⟨o, others, rfl, ho, hothers⟩ := List.map_eq_cons_iff.1 hothers
  obtain ⟨first, u, last, rfl, rfl, hu, hlast⟩ := split_pieces hothers
  rw [List.map_eq_nil_iff.1 hlast, List.cons_append, List.cons_append, List.append_assoc,
    List.singleton_append]
  have hclose : u.kind = .sign .rightParen := (congrArg Piece.kind hu).trans hr
  refine operand_call ((congrArg Piece.kind ht).trans hn) ?_
  have hfollow : Closes .comma Ends (u :: rest) := by
    refine ⟨ends_of_kind hclose rfl rfl rest, ?_⟩
    rw [headKind?_cons, hclose]
    decide
  -- the fuel of the list is taken from the tokens, of which there are enough
  have hlist : (listOf .comma (sum (depth + 1))).run (first ++ u :: rest) =
      .ok (es, u :: rest) := by
    unfold listOf
    rw [run_bind (get_run _)]
    refine h _ ?_ first _ rfl hfollow
    rw [List.length_map] at hcount
    simp only [List.length_append, List.length_cons]
    omega
  unfold Reading.arguments
  rw [run_bind (expect_of_kind ((congrArg Piece.kind ho).trans hl)), run_bind hlist,
    run_bind (expect_of_kind hclose)]
  rfl

/-- The last argument. -/
theorem readsArgs_single (h : ReadsSum depth ps e) : ReadsArgs depth ps [e] := by
  intro fuel hfuel
  obtain ⟨fuel, rfl⟩ : ∃ n, fuel = n + 1 := ⟨fuel - 1, by simp at hfuel; omega⟩
  exact separated_single h.takes fuel

/-- One more argument in front, with its comma. -/
theorem readsArgs_cons (hp : p.kind = .sign .comma) (h : ReadsSum depth ps e)
    (hs : ReadsArgs depth qs es) : ReadsArgs depth (ps ++ p :: qs) (e :: es) := by
  intro fuel hfuel
  rw [List.length_cons] at hfuel
  obtain ⟨fuel, rfl⟩ : ∃ n, fuel = n + 1 := ⟨fuel - 1, by omega⟩
  exact separated_cons hp (fun t rest ht => ends_of_kind ht rfl rfl rest) h.takes
    (hs fuel (by omega))

end

/-! ## Written expressions -/

/-- What is written in a text is read from its pieces. -/
def Phrase.Reads (depth : Nat) (ps : List Piece) : Phrase → Prop
  | .expr enclosed e => ReadsAs depth ps enclosed e
  | .args es => es.length ≤ ps.length + 1 ∧ ReadsArgs depth ps es

theorem plain_singleton {p : Piece} (hp : p.kind ≠ .sign .semicolon ∧ p.kind ≠ .sign .question) :
    Plain [p] := plain_nil.cons hp

/-- Parentheses are no marks, so what stands in them stays plain. -/
theorem plain_parenthesized {b b' : List Char} {ps : List Piece} (h : Plain ps) :
    Plain (⟨.sign .leftParen, ['('], b⟩ :: (ps ++ [⟨.sign .rightParen, [')'], b'⟩])) :=
  (h.append (plain_singleton ⟨by simp, by simp⟩)).cons ⟨by simp, by simp⟩

/-- **What is written is read**: the text of a phrase is cut into pieces that are read as the
phrase, with any depth that their number does not exceed. -/
theorem written_of_writes {cs : List Char} {phrase : Phrase} (h : Writes cs phrase) :
    ∃ ps, CutsOff cs ps ∧ Plain ps ∧ ∀ depth, ps.length ≤ depth → phrase.Reads depth ps := by
  induction h with
  -- a single operand is read by its own lemma, on tokens that are known by their pieces
  | number b digits reads =>
    rw [Number.parse?_of_isNumeral digits, Option.some.injEq] at reads
    subst reads
    refine ⟨_, CutsOff.numeral b digits, plain_singleton ⟨by simp, by simp⟩, ?_⟩
    rintro depth -
    refine ReadsOperand.readsAs ?_
    rintro tokens rest htokens -
    obtain ⟨t, rfl, ht⟩ := List.map_eq_singleton_iff.1 htokens
    exact operand_number (congrArg Piece.kind ht)
  | negative b b' digits reads =>
    rw [Number.parse?_of_isNumeral digits, Option.some.injEq] at reads
    subst reads
    refine ⟨_, CutsOff.sign b rfl (by decide) (CutsOff.numeral b' digits),
      (plain_singleton ⟨by simp, by simp⟩).cons ⟨by simp, by simp⟩, ?_⟩
    rintro depth -
    refine ReadsOperand.readsAs ?_
    rintro tokens rest htokens -
    obtain ⟨t, others, rfl, ht, hothers⟩ := List.map_eq_cons_iff.1 htokens
    obtain ⟨u, rfl, hu⟩ := List.map_eq_singleton_iff.1 hothers
    exact operand_minus (congrArg Piece.kind ht) (congrArg Piece.kind hu)
  | gap b =>
    refine ⟨_, CutsOff.lone_name b (by decide), plain_singleton ⟨by simp, by simp⟩, ?_⟩
    rintro depth -
    refine ReadsOperand.readsAs ?_
    rintro tokens rest htokens -
    obtain ⟨t, rfl, ht⟩ := List.map_eq_singleton_iff.1 htokens
    exact operand_gap (congrArg Piece.kind ht)
  | anchor b b' b'' nameView readsView nameAttr readsAttr =>
    refine ⟨_, CutsOff.dotted b b' b'' nameView nameAttr,
      ((plain_singleton ⟨by simp, by simp⟩).cons ⟨by simp, by simp⟩).cons ⟨by simp, by simp⟩, ?_⟩
    rintro depth -
    refine ReadsOperand.readsAs ?_
    rintro tokens rest htokens -
    obtain ⟨t, others, rfl, ht, hothers⟩ := List.map_eq_cons_iff.1 htokens
    obtain ⟨d, others, rfl, hd, hothers⟩ := List.map_eq_cons_iff.1 hothers
    obtain ⟨u, rfl, hu⟩ := List.map_eq_singleton_iff.1 hothers
    exact operand_anchor (congrArg Piece.kind ht) readsView (congrArg Piece.kind hd)
      (congrArg Piece.kind hu) readsAttr
  -- parentheses take two pieces and use up one level of depth
  | call b b' b'' func inner ih =>
    obtain ⟨ps, hcuts, hplain, hreads⟩ := ih
    refine ⟨_, CutsOff.name b ?_ ?_ (CutsOff.parens b' b'' hcuts),
      (plain_parenthesized hplain).cons ⟨by simp, by simp⟩, ?_⟩
    · cases func <;> decide
    · intro rest _
      rw [List.append_assoc]
      exact (halts_sign b' (c := '(') rfl (by decide) _).name_ends
    · intro depth hdepth
      simp only [List.length_cons, List.length_append, List.length_nil] at hdepth
      obtain ⟨d, rfl⟩ : ∃ d, depth = d + 1 := ⟨depth - 1, by omega⟩
      obtain ⟨hcount, hargs⟩ := hreads d (by omega)
      exact (readsOperand_call (congrArg TokenKind.name String.ofList_toList) rfl rfl hcount
        hargs).readsAs
  | parens b b' inner ih =>
    obtain ⟨ps, hcuts, hplain, hreads⟩ := ih
    refine ⟨_, CutsOff.parens b b' hcuts, plain_parenthesized hplain, ?_⟩
    intro depth hdepth
    simp only [List.length_cons, List.length_append, List.length_nil] at hdepth
    obtain ⟨d, rfl⟩ : ∃ d, depth = d + 1 := ⟨depth - 1, by omega⟩
    exact (readsOperand_parens rfl rfl (hreads d (by omega)).sum).readsAs
  -- each operand has fewer pieces than the operation, so the depth is enough for both
  | binary b op first second encloses encloses' ihx ihy =>
    obtain ⟨ps, hcuts, hplain, hx⟩ := ihx
    obtain ⟨qs, hcuts', hplain', hy⟩ := ihy
    refine ⟨_, hcuts.between b op.ofChar?_char op.char_ne_point hcuts',
      hplain.append (hplain'.cons ⟨fun hs => op.sign_plain.1 (TokenKind.sign.inj hs),
        fun hs => op.sign_plain.2 (TokenKind.sign.inj hs)⟩), ?_⟩
    intro depth hdepth
    rw [List.length_append, List.length_cons] at hdepth
    exact ReadsAs.binary rfl (hx depth (by omega)) (hy depth (by omega)) encloses encloses'
  | argument only ih =>
    obtain ⟨ps, hcuts, hplain, hreads⟩ := ih
    refine ⟨ps, hcuts, hplain, fun depth hdepth => ⟨by simp, ?_⟩⟩
    exact readsArgs_single (hreads depth hdepth).sum
  | arguments b first others ihx ihs =>
    obtain ⟨ps, hcuts, hplain, hx⟩ := ihx
    obtain ⟨qs, hcuts', hplain', hs⟩ := ihs
    refine ⟨_, hcuts.between b (c := ',') rfl (by decide) hcuts',
      hplain.append (hplain'.cons ⟨by simp, by simp⟩), ?_⟩
    intro depth hdepth
    rw [List.length_append, List.length_cons] at hdepth
    obtain ⟨hcount, hargs⟩ := hs depth (by omega)
    refine ⟨?_, readsArgs_cons rfl (hx depth (by omega)).sum hargs⟩
    simp only [List.length_cons, List.length_append]
    omega

/-! ## Values of clauses -/

/-- The text of a value behind a target and a comparison. -/
theorem CutsOff.body (target : Attribute) (c : Comparison) {cs : List Char} {ps : List Piece}
    (h : CutsOff cs ps) :
    CutsOff (target.wireName.toList ++ c.char :: cs) (bodyPieces target c ps) := by
  refine CutsOff.name Blank.none (isName_wireName target) (fun rest _ => ?_)
    (CutsOff.sign Blank.none c.ofChar?_char c.char_ne_point h)
  exact (halts_sign Blank.none c.ofChar?_char c.char_ne_point _).name_ends

/-- **Precedence and associativity**: a text that writes an expression, whatever follows it, is cut
into tokens that are read as this expression, and the reader stops at their end where no operator
follows; as the value of a clause it makes the clause of this value. -/
theorem expr_of_writes {cs : List Char} {enclosed : Bool} {e : Expr}
    (h : Writes cs (.expr enclosed e)) :
    (∀ start after, Halts after → ∃ tokens stop,
      tokensFrom start (cs ++ after) = (tokensFrom stop after).map (tokens ++ ·) ∧
        ∀ rest, Ends rest → Reading.expr.run (tokens ++ rest) = .ok (e, rest)) ∧
    ∀ (target : Attribute) (c : Comparison) (b : Blank),
      clauses? (target.wireName ++ c.symbol ++ String.ofList (cs ++ b.1)) =
        .ok [⟨target, c, e, none, none⟩] := by
  obtain ⟨ps, hcuts, hplain, hreads⟩ := written_of_writes h
  -- the reader takes its depth from the tokens that are left, which are no fewer than the pieces
  have hvalue : Takes expr Ends ps e := by
    intro tokens rest htokens hrest
    have hlength : ps.length ≤ (tokens ++ rest).length := by
      rw [← htokens, List.length_map, List.length_append]
      omega
    unfold expr
    rw [run_bind (get_run _)]
    exact (hreads _ hlength).sum.takes tokens rest htokens hrest
  refine ⟨fun start after hafter => ?_, fun target c b => ?_⟩
  · obtain ⟨tokens, stop, htokens, hcut⟩ := hcuts after hafter start
    exact ⟨tokens, stop, hcut, fun rest hrest => hvalue tokens rest htokens hrest⟩
  -- as the value of a clause, the text is followed by its white space and then by nothing
  · obtain ⟨tokens, stop, htokens, hcut⟩ := hcuts.body target c b.1 (halts_blank b) 0
    rw [tokensFrom_blank b.2, Except.map, List.append_nil] at hcut
    obtain ⟨ds, -, -, -, hlex⟩ := exists_lexes_of_tokens hcut
    rw [htokens] at hlex
    have htakes : Takes clause EndsClause ([] ++ bodyPieces target c (ps ++ []))
        ⟨target, c, e, none, none⟩ := clause_takes spellsGuard_none hplain hvalue spellsTail_none
    rw [List.append_nil, List.nil_append] at htakes
    have hclause : SpellsClause ds ⟨target, c, e, none, none⟩ (bodyPieces target c ps) :=
      ⟨hlex, by simp [bodyPieces], fun p hp => (plain_bodyPieces target c hplain p hp).1, htakes⟩
    have htext : (target.wireName ++ c.symbol ++ String.ofList (cs ++ b.1)).toList =
        target.wireName.toList ++ c.char :: cs ++ b.1 := by
      simp only [String.toList_append, Comparison.toList_symbol, String.toList_ofList,
        List.append_assoc]
      rfl
    unfold clauses? tokens?
    rw [htext, hcut]
    simp only
    rw [clauses_last hclause htokens]

/-- A text with two differences in a row, a product, and white space around a sign. -/
def someText : List Char := "id2.left - 1 - 2*(( gap + - .5) )".toList

/-- The expression of this text. -/
def someValue : Expr :=
  .binary .sub (.binary .sub (.anchor ⟨⟨2⟩, .left⟩) (.num (.ofNat 1)))
    (.binary .mul (.num (.ofNat 2)) (.binary .add .gap (.num (Number.ofDigits false [] ['5'] 0).neg)))

/-- The derivation goes down the expression, with the white space that the text has at each
sign. -/
theorem writes_someText : Writes someText (.expr false someValue) := by
  have space : ∀ c ∈ [' '], isAsciiBlank c = true := List.forall_mem_singleton.2 rfl
  have hanchor : Writes "id2.left".toList (.expr false (.anchor ⟨⟨2⟩, .left⟩)) :=
    @Writes.anchor Blank.none Blank.none Blank.none "id2".toList "left".toList _
      (by decide) (by decide) (by decide) (by decide)
  have hone : Writes " 1".toList (.expr false (.num (.ofNat 1))) :=
    @Writes.number ⟨_, space⟩ ['1'] [] _
      ⟨List.forall_mem_singleton.2 rfl, List.forall_mem_nil _, by decide⟩ (by decide +kernel)
  have htwo : Writes " 2".toList (.expr false (.num (.ofNat 2))) :=
    @Writes.number ⟨_, space⟩ ['2'] [] _
      ⟨List.forall_mem_singleton.2 rfl, List.forall_mem_nil _, by decide⟩ (by decide +kernel)
  have hhalf : Writes " - .5".toList
      (.expr false (.num (Number.ofDigits false [] ['5'] 0).neg)) :=
    @Writes.negative ⟨_, space⟩ ⟨_, space⟩ [] ['5'] _
      ⟨List.forall_mem_nil _, List.forall_mem_singleton.2 rfl, by decide⟩ (by decide +kernel)
  have hsum := Writes.binary ⟨_, space⟩ .add (Writes.gap ⟨_, space⟩) hhalf nofun nofun
  have hinner := Writes.parens Blank.none ⟨_, space⟩
    (Writes.parens Blank.none Blank.none hsum)
  have hproduct := Writes.binary Blank.none .mul htwo hinner nofun (fun _ => rfl)
  have hfirst := Writes.binary ⟨_, space⟩ .sub hanchor hone nofun nofun
  exact Writes.binary ⟨_, space⟩ .sub hfirst hproduct nofun nofun

/-- That text is read as that expression, where it is the value of a clause. -/
theorem expr_of_writes_of_someText : Writes someText (.expr false someValue) ∧
    clauses? (Attribute.left.wireName ++ Comparison.equal.symbol ++
      String.ofList (someText ++ Blank.none.1)) =
        .ok [⟨.left, .equal, someValue, none, none⟩] :=
  ⟨writes_someText, (expr_of_writes writes_someText).2 .left .equal Blank.none⟩

end AnchorLayout
