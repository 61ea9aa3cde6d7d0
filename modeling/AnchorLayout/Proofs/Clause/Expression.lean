import AnchorLayout.Proofs.Clause.Grammar
import AnchorLayout.Proofs.Number.Reread
/-!
# Expressions are read back

  1. **Program** — `Expr.text`, and `operand` and `sum`, one lemma for each shape of operand and
     one for each level of operators (`ReadsProduct.binary`, `ReadsSum.binary`).
  2. **Specification** — `SpellsOperand` and `SpellsSum`: a text is read as an expression, as an
     operand or where a sum may stand.
  3. **Shapes** — numbers, anchors, operations, parentheses and calls; each is put together from
     the texts of its parts.
  4. **The crux (`exists_spelt_expr`)** — by induction over the expression, with both readings
     proved at once: an operation has to be read bare, and as an operand in its parentheses.
-/

namespace AnchorLayout

open Reading

/-! ## Names -/

/-- A letter or an underscore, and more of them or digits. -/
def isName : List Char → Bool
  | [] => false
  | c :: cs => startsName c && cs.all continuesName

/-- A name before something that does not go on with it. -/
theorem Lexes.word {cs rest : List Char} {ps : List Piece} (hcs : isName cs = true)
    (hrest : rest.takeWhile continuesName = []) (h : Lexes rest ps) :
    Lexes (cs ++ rest) (Piece.ofName cs :: ps) := by
  cases cs with
  | nil => cases hcs
  | cons c cs =>
    simp only [isName, Bool.and_eq_true, List.all_eq_true] at hcs
    exact Lexes.name hcs.1 hcs.2 hrest h

/-- A name that is all of the text. -/
theorem Lexes.lone_word {cs : List Char} (hcs : isName cs = true) : Lexes cs [Piece.ofName cs] := by
  have h : Lexes (cs ++ []) [Piece.ofName cs] := Lexes.word hcs rfl Lexes.done
  rwa [List.append_nil] at h

/-- Targets and the second half of an anchor are names, so what is known about names serves for
them. -/
theorem isName_wireName (attr : Attribute) : isName attr.wireName.toList = true := by
  cases attr <;> decide

/-- **An attribute is read back** from the name it is sent under. -/
theorem ofName?_wireName (attr : Attribute) : Attribute.ofName? attr.wireName = some attr := by
  cases attr <;> decide

namespace ViewId

/-- An identifier is written as two letters and decimal digits, which makes it a name. -/
theorem toList_text (v : ViewId) :
    v.text.toList = 'i' :: 'd' :: Nat.toDigits 10 v.number.toNat := by
  unfold text
  rw [String.toList_append, Nat.toString_eq_ofList_toDigits]
  exact congrArg (['i', 'd'] ++ ·) String.toList_ofList

theorem isName_text (v : ViewId) : isName v.text.toList = true := by
  rw [toList_text]
  simp only [isName, List.all_cons, Bool.and_eq_true, List.all_eq_true]
  refine ⟨rfl, rfl, ?_⟩
  intro c hc
  have hdigit := Nat.isDigit_of_mem_toDigits (by decide) (by decide) hc
  simp [continuesName, Char.isAlphanum, hdigit]

/-- **An identifier is read back.** -/
theorem parse?_text (v : ViewId) : parse? v.text = some v := by
  have hdigits : ∀ c ∈ Nat.toDigits 10 v.number.toNat, c.isDigit = true := fun c hc =>
    Nat.isDigit_of_mem_toDigits (by decide) (by decide) hc
  have hnatural : Number.natural? (Nat.toDigits 10 v.number.toNat) = some v.number.toNat := by
    unfold Number.natural?
    rw [if_pos ⟨Nat.toDigits_ne_nil, List.all_eq_true.2 hdigits⟩, digitsValue_toDigits]
  have hnumber : number? (Nat.toDigits 10 v.number.toNat) = some v.number := by
    unfold number?
    split
    · next rest heq =>
      have hplus := hdigits '+' (by rw [heq]; exact List.mem_cons_self)
      cases hplus
    · simp only
      rw [hnatural, Option.bind_some, if_pos v.number.toNat_lt]
      exact congrArg some (UInt32.toNat_inj.1 (by simp))
  unfold parse?
  rw [toList_text]
  simp only
  rw [hnumber]
  rfl

end ViewId

/-! ## Operands -/

namespace Reading

variable {nested : Reading Expr} {rest last : List Token} {t u d : Token}

/-- The operands, one by one: each lemma below runs the reader on the tokens of one kind of
operand. -/
theorem operand_number {value : Number} (h : t.kind = .number value) :
    (operand nested).run (t :: rest) = .ok (.num value, rest) := by
  unfold operand
  rw [run_bind (next_run t _), Option.map_some, h]
  rfl

/-- A sign in front of a number is part of the number; in front of anything else it is a fault. -/
theorem operand_minus {value : Number} (ht : t.kind = .sign .minus) (hu : u.kind = .number value) :
    (operand nested).run (t :: u :: rest) = .ok (.num value.neg, rest) := by
  unfold operand
  rw [run_bind (next_run t _), Option.map_some, ht]
  simp only
  rw [run_bind (next_run u _), Option.map_some, hu]
  rfl

/-- What stands in parentheses is read by the reader of one level further in. -/
theorem operand_parens {e : Expr} (ht : t.kind = .sign .leftParen)
    (he : nested.run rest = .ok (e, u :: last)) (hu : u.kind = .sign .rightParen) :
    (operand nested).run (t :: rest) = .ok (e, last) := by
  unfold operand
  rw [run_bind (next_run t _), Option.map_some, ht]
  simp only
  rw [run_bind he, run_bind (expect_of_kind hu)]
  rfl

theorem operand_gap (h : t.kind = .name "gap") :
    (operand nested).run (t :: rest) = .ok (.gap, rest) := by
  unfold operand
  rw [run_bind (next_run t _), Option.map_some, h]
  rfl

/-- A word that names a function is a call, and its arguments are read behind it. -/
theorem operand_call {func : Func} {args : List Expr} (h : t.kind = .name func.name)
    (hargs : (arguments nested).run rest = .ok (args, last)) :
    (operand nested).run (t :: rest) = .ok (.call func args, last) := by
  unfold operand
  rw [run_bind (next_run t _), Option.map_some]
  cases func with
  | min =>
    have hmin : t.kind = .name "min" := h
    rw [hmin]
    show (arguments nested >>= fun args => pure (.call .min args) : Reading Expr).run rest = _
    rw [run_bind hargs]
    rfl
  | max =>
    have hmax : t.kind = .name "max" := h
    rw [hmax]
    show (arguments nested >>= fun args => pure (.call .max args) : Reading Expr).run rest = _
    rw [run_bind hargs]
    rfl

/-- An attribute may be read by any name it has, the short ones included. -/
theorem attributeName_of_name {name : String} {attr : Attribute} (h : t.kind = .name name)
    (hattr : Attribute.ofName? name = some attr) :
    attributeName.run (t :: rest) = .ok (attr, rest) := by
  unfold attributeName
  rw [run_bind (next_run t _), Option.map_some, h]
  simp only
  rw [hattr]
  rfl

theorem attributeName_of_kind {attr : Attribute} (h : t.kind = .name attr.wireName) :
    attributeName.run (t :: rest) = .ok (attr, rest) :=
  attributeName_of_name h (ofName?_wireName attr)

/-- An anchor, by any name of its view and of its attribute. -/
theorem operand_anchor {name attr : String} {a : Anchor} (ht : t.kind = .name name)
    (hview : ViewId.parse? name = some a.view) (hd : d.kind = .sign .dot)
    (hu : u.kind = .name attr) (hattr : Attribute.ofName? attr = some a.attr) :
    (operand nested).run (t :: d :: u :: rest) = .ok (.anchor a, rest) := by
  have hother : ∀ word, ViewId.parse? word = none → name ≠ word := by
    rintro word hword rfl
    rw [hword] at hview
    cases hview
  unfold operand
  rw [run_bind (next_run t _), Option.map_some, ht]
  simp only
  rw [if_neg (hother "gap" rfl), if_neg (hother "min" rfl), if_neg (hother "max" rfl), hview]
  simp only
  rw [run_bind (expect_of_kind hd), run_bind (attributeName_of_name hu hattr)]
  rfl

/-- A word that is neither a function nor a view is no operand. -/
theorem operand_unknown {name : String} (h : t.kind = .name name) (hgap : name ≠ "gap")
    (hmin : name ≠ "min") (hmax : name ≠ "max") (hview : ViewId.parse? name = none) :
    ∃ fault, (operand nested).run (t :: rest) = .error fault := by
  unfold operand
  rw [run_bind (next_run t _), Option.map_some, h]
  simp only
  rw [if_neg hgap, if_neg hmin, if_neg hmax, hview]
  exact ⟨_, rfl⟩

end Reading

/-! ## Operators -/

namespace BinaryOp

/-- The operations of a sum; the others are those of a product. -/
def isAdditive : BinaryOp → Bool
  | add => true
  | sub => true
  | mul => false
  | div => false

/-- The sign of an operation. -/
def sign : BinaryOp → Sign
  | add => .plus
  | sub => .minus
  | mul => .star
  | div => .slash

/-- The character of an operation. -/
def char : BinaryOp → Char
  | add => '+'
  | sub => '-'
  | mul => '*'
  | div => '/'

variable (op : BinaryOp)

/-- An operation is written with one character, which is cut into one sign. -/
theorem toList_symbol : op.symbol.toList = [op.char] := by cases op <;> rfl

theorem ofChar?_char : Sign.ofChar? op.char = some op.sign := by cases op <;> rfl

theorem char_ne_point : op.char ≠ '.' := by cases op <;> decide

theorem sign_plain : op.sign ≠ .semicolon ∧ op.sign ≠ .question := by cases op <;> decide

variable {op}

/-- Which loop takes an operation is told by its sign, and no sign is taken by both. -/
theorem additive?_sign (h : op.isAdditive = true) : additive? (.sign op.sign) = some op := by
  cases op <;> first | rfl | cases h

theorem multiplicative?_sign (h : op.isAdditive = false) :
    multiplicative? (.sign op.sign) = some op := by
  cases op <;> first | rfl | cases h

theorem multiplicative?_sign_of_additive (h : op.isAdditive = true) :
    multiplicative? (.sign op.sign) = none := by
  cases op <;> first | rfl | cases h

end BinaryOp

/-! ## Levels -/

/-- Where a sum ends: no operator comes next. -/
def Ends (rest : List Token) : Prop := Stops multiplicative? rest ∧ Stops additive? rest

/-- **Read as an operand**, with as many levels of parentheses inside as the depth. -/
def ReadsOperand (depth : Nat) (ps : List Piece) (e : Expr) : Prop :=
  Takes (operand (sum depth)) (fun _ => True) ps e

/-- **Read at the level of products.** -/
def ReadsProduct (depth : Nat) (ps : List Piece) (e : Expr) : Prop :=
  Extends multiplicative? (operand (sum depth)) (fun _ => True) ps e

/-- **Read at the level of sums.** -/
def ReadsSum (depth : Nat) (ps : List Piece) (e : Expr) : Prop :=
  Extends additive? (chain multiplicative? (operand (sum depth))) (Stops multiplicative?) ps e

section

variable {depth : Nat} {ps qs : List Piece} {p : Piece} {op : BinaryOp} {e x y : Expr}

/-- The lower level reads all that the higher one reads, which here is a product of one factor. -/
theorem ReadsOperand.product (h : ReadsOperand depth ps e) : ReadsProduct depth ps e :=
  Extends.of_takes h

/-- A product is read once no factor follows. -/
theorem ReadsProduct.takes (h : ReadsProduct depth ps e) :
    Takes (chain multiplicative? (operand (sum depth))) (Stops multiplicative?) ps e :=
  Takes.mono (Extends.takes h) fun _ hrest => ⟨trivial, hrest⟩

theorem ReadsProduct.sum (h : ReadsProduct depth ps e) : ReadsSum depth ps e :=
  Extends.of_takes h.takes

/-- A sum is read once no operator at all follows. -/
theorem ReadsSum.takes (h : ReadsSum depth ps e) : Takes (Reading.sum (depth + 1)) Ends ps e :=
  Extends.takes h

/-- **One more factor**: the loop for products goes on. -/
theorem ReadsProduct.binary (hop : op.isAdditive = false) (hp : p.kind = .sign op.sign)
    (hx : ReadsProduct depth ps x) (hy : ReadsOperand depth qs y) :
    ReadsProduct depth (ps ++ p :: qs) (.binary op x y) := by
  have hkind : multiplicative? p.kind = some op := by rw [hp, BinaryOp.multiplicative?_sign hop]
  exact Extends.binary hkind (fun _ _ _ => trivial) hx hy

/-- **One more summand**: the loop for sums goes on.  The summand is a product, and the operator
behind it must not be one of products. -/
theorem ReadsSum.binary (hop : op.isAdditive = true) (hp : p.kind = .sign op.sign)
    (hx : ReadsSum depth ps x) (hy : ReadsProduct depth qs y) :
    ReadsSum depth (ps ++ p :: qs) (.binary op x y) := by
  have hkind : additive? p.kind = some op := by rw [hp, BinaryOp.additive?_sign hop]
  refine Extends.binary hkind ?_ hx hy.takes
  intro t rest ht
  rw [Stops, headKind?_cons, ht, hp]
  exact BinaryOp.multiplicative?_sign_of_additive hop

end

/-! ## Specifications -/

/-- **Read as an operand**, whatever follows. -/
def SpellsOperand (cs : List Char) (e : Expr) : Prop :=
  Spells (fun depth => operand (sum (depth - 1))) (fun _ => True) cs e

/-- **Read as a sum**, where no operator follows. -/
def SpellsSum (cs : List Char) (e : Expr) : Prop := Spells sum Ends cs e

/-- A sign that is no operator ends a sum, whatever comes behind it. -/
theorem ends_of_kind {t : Token} {s : Sign} (h : t.kind = .sign s)
    (hmul : multiplicative? (.sign s) = none) (hadd : additive? (.sign s) = none)
    (rest : List Token) : Ends (t :: rest) := by
  constructor
  · rw [Stops, headKind?_cons, h]
    exact hmul
  · rw [Stops, headKind?_cons, h]
    exact hadd

/-! ## Numbers, the gap and anchors -/

/-- **A finite number is read back**, with its sign in front of it. -/
theorem exists_spelt_number {x : Number} (h : x.isFinite = true) :
    ∃ y, x.same y = true ∧ SpellsOperand x.text.toList (.num y) := by
  obtain ⟨negative, m, whole, fraction, htext, hspelt, hsame⟩ := Number.exists_spelling h
  refine ⟨.finite negative m, hsame, ?_⟩
  have hdigits : Lexes (whole ++ Magnitude.pointed fraction ++ [])
      [Piece.ofNumber m whole fraction] := Lexes.number hspelt nofun Lexes.done
  rw [List.append_nil] at hdigits
  have hplain : Plain [Piece.ofNumber m whole fraction] := plain_nil.number
  rw [htext]
  cases negative with
  | false =>
    refine ⟨_, hdigits, hplain, ?_⟩
    rintro depth - tokens rest htokens -
    obtain ⟨t, rfl, ht⟩ := List.map_eq_singleton_iff.1 htokens
    exact operand_number (congrArg Piece.kind ht)
  | true =>
    refine ⟨_, Lexes.sign rfl (by decide) hdigits, hplain.sign ⟨by decide, by decide⟩, ?_⟩
    rintro depth - tokens rest htokens -
    obtain ⟨t, others, rfl, ht, hothers⟩ := List.map_eq_cons_iff.1 htokens
    obtain ⟨u, rfl, hu⟩ := List.map_eq_singleton_iff.1 hothers
    exact operand_minus (kind_of_piece ht) (congrArg Piece.kind hu)

/-- The gap is written as a word that is no view and no function. -/
theorem spelt_gap : SpellsOperand "gap".toList .gap := by
  refine ⟨_, Lexes.lone_word (by decide), plain_nil.name, ?_⟩
  rintro depth - tokens rest htokens -
  obtain ⟨t, rfl, ht⟩ := List.map_eq_singleton_iff.1 htokens
  exact operand_gap (kind_of_name ht)

/-- An anchor is cut into three tokens, since a letter and not a digit follows its point. -/
theorem lexes_anchor (a : Anchor) : Lexes a.text.toList
    [Piece.ofName a.view.text.toList, Piece.ofSign .dot '.',
      Piece.ofName a.attr.wireName.toList] := by
  have hattr := Lexes.lone_word (isName_wireName a.attr)
  have htext : a.text.toList = a.view.text.toList ++ '.' :: a.attr.wireName.toList := by
    unfold Anchor.text
    rw [String.toList_append, String.toList_append, List.append_assoc]
    rfl
  rw [htext]
  refine Lexes.word a.view.isName_text rfl ?_
  -- the name of an attribute begins with a letter, so the point is a sign
  have hname := isName_wireName a.attr
  cases hcs : a.attr.wireName.toList with
  | nil => rw [hcs] at hname; cases hname
  | cons c cs =>
    rw [hcs] at hattr hname
    simp only [isName, Bool.and_eq_true] at hname
    exact Lexes.dot (isDigit_of_startsName hname.1) hattr

/-- **An anchor is read back.** -/
theorem spelt_anchor (a : Anchor) : SpellsOperand a.text.toList (.anchor a) := by
  refine ⟨_, lexes_anchor a, (plain_nil.name.sign ⟨by decide, by decide⟩).name, ?_⟩
  rintro depth - tokens rest htokens -
  obtain ⟨t, others, rfl, ht, hothers⟩ := List.map_eq_cons_iff.1 htokens
  obtain ⟨d, others, rfl, hd, hothers⟩ := List.map_eq_cons_iff.1 hothers
  obtain ⟨u, rfl, hu⟩ := List.map_eq_singleton_iff.1 hothers
  exact operand_anchor (kind_of_name ht) a.view.parse?_text (kind_of_piece hd) (kind_of_name hu)
    (ofName?_wireName a.attr)

/-! ## Operations, parentheses and calls -/

section

variable {cs ds : List Char} {x y e : Expr}

/-- An operand takes at least one token, so the loops around it make progress. -/
theorem ne_nil_of_takes {nested : Reading Expr} {ps : List Piece}
    (h : Takes (operand nested) (fun _ => True) ps e) : ps ≠ [] := by
  rintro rfl
  have hnothing : (operand nested).run [] = .error ⟨none, .missingValue none⟩ := rfl
  have hrun : (operand nested).run [] = .ok (e, []) := takes_nil h trivial
  rw [hnothing] at hrun
  cases hrun

/-- An operand may stand where a sum is asked for. -/
theorem SpellsOperand.sum (h : SpellsOperand cs e) : SpellsSum cs e := by
  obtain ⟨ps, hlex, hplain, htakes⟩ := h
  refine ⟨ps, hlex, hplain, ?_⟩
  intro depth hdepth
  have hpos := List.length_pos_iff.2 (ne_nil_of_takes (htakes depth hdepth))
  obtain ⟨d, rfl⟩ : ∃ d, depth = d + 1 := ⟨depth - 1, by omega⟩
  have hoperand : ReadsOperand d ps e := htakes (d + 1) hdepth
  exact hoperand.product.sum.takes

/-- **An operation between two operands**, at the level of its operator. -/
theorem spelt_binary (op : BinaryOp) (hx : SpellsOperand cs x) (hy : SpellsOperand ds y) :
    SpellsSum (cs ++ (op.symbol.toList ++ ds)) (.binary op x y) := by
  obtain ⟨ps, hlex, hps, hx⟩ := hx
  obtain ⟨qs, hlex', hqs, hy⟩ := hy
  rw [op.toList_symbol]
  refine ⟨ps ++ Piece.ofSign op.sign op.char :: qs,
    hlex.append op.ofChar?_char op.char_ne_point hlex', hps.append (hqs.sign op.sign_plain), ?_⟩
  intro depth hdepth
  rw [List.length_append, List.length_cons] at hdepth
  obtain ⟨d, rfl⟩ : ∃ d, depth = d + 1 := ⟨depth - 1, by omega⟩
  have hreadsx : ReadsOperand d ps x := hx (d + 1) (by omega)
  have hreadsy : ReadsOperand d qs y := hy (d + 1) (by omega)
  cases hop : op.isAdditive with
  | false => exact (hreadsx.product.binary hop rfl hreadsy).sum.takes
  | true => exact (hreadsx.product.sum.binary hop rfl hreadsy.product).takes

/-- A text in parentheses. -/
theorem lexes_parens {ps : List Piece} (h : Lexes cs ps) : Lexes ('(' :: (cs ++ [')']))
    (Piece.ofSign .leftParen '(' :: (ps ++ [Piece.ofSign .rightParen ')'])) :=
  Lexes.sign rfl (by decide) (h.append rfl (by decide) Lexes.done)

theorem plain_parens {ps : List Piece} (h : Plain ps) :
    Plain (Piece.ofSign .leftParen '(' :: (ps ++ [Piece.ofSign .rightParen ')'])) :=
  (h.append (plain_nil.sign (by decide))).sign (by decide)

/-- A sum in parentheses is an operand, so parentheses mend any precedence. -/
theorem spelt_parens (h : SpellsSum cs e) : SpellsOperand ('(' :: (cs ++ [')'])) e := by
  obtain ⟨ps, hlex, hplain, htakes⟩ := h
  refine ⟨_, lexes_parens hlex, plain_parens hplain, ?_⟩
  rintro depth hdepth tokens rest htokens -
  simp only [List.length_cons, List.length_append, List.length_nil] at hdepth
  obtain ⟨t, others, rfl, ht, hothers⟩ := List.map_eq_cons_iff.1 htokens
  obtain ⟨first, u, last, rfl, hfirst, hu, hlast⟩ := split_pieces hothers
  rw [List.map_eq_nil_iff.1 hlast, List.cons_append, List.append_assoc]
  have hclose := kind_of_piece hu
  refine operand_parens (kind_of_piece ht) ?_ hclose
  exact htakes (depth - 1) (by omega) first _ hfirst (ends_of_kind hclose rfl rfl rest)

/-- **A call**: the name, and the arguments with commas between them in parentheses. -/
theorem spelt_call (func : Func) {css : List (List Char)} {args : List Expr}
    (h : List.Forall₂ SpellsSum css args) (hne : args ≠ []) :
    SpellsOperand (func.name.toList ++ '(' :: ([','].intercalate css ++ [')']))
      (.call func args) := by
  obtain ⟨ps, hlex, hplain, htakes⟩ := Spells.listOf (c := ',') rfl (by decide) (by decide)
    (fun t rest ht => ends_of_kind ht rfl rfl rest) h hne
  have hname : isName func.name.toList = true := by cases func <;> decide
  refine ⟨_, Lexes.word hname rfl (lexes_parens hlex), (plain_parens hplain).name, ?_⟩
  rintro depth hdepth tokens rest htokens -
  simp only [List.length_cons, List.length_append, List.length_nil] at hdepth
  -- the tokens are a name, a parenthesis, the arguments and the other parenthesis
  obtain ⟨t, others, rfl, ht, hothers⟩ := List.map_eq_cons_iff.1 htokens
  obtain ⟨l, others, rfl, hl, hothers⟩ := List.map_eq_cons_iff.1 hothers
  obtain ⟨first, u, last, rfl, hfirst, hu, hlast⟩ := split_pieces hothers
  rw [List.map_eq_nil_iff.1 hlast, List.cons_append, List.cons_append, List.append_assoc,
    List.singleton_append]
  have hclose := kind_of_piece hu
  refine operand_call (kind_of_name ht) ?_
  -- the closing parenthesis ends the last argument and is no comma
  have hfollow : Closes .comma Ends (u :: rest) := by
    refine ⟨ends_of_kind hclose rfl rfl rest, ?_⟩
    rw [headKind?_cons, hclose]
    decide
  have hlist : (Reading.listOf .comma (sum (depth - 1))).run (first ++ u :: rest) =
      .ok (args, u :: rest) := htakes (depth - 1) (by omega) first _ hfirst hfollow
  unfold arguments
  rw [run_bind (expect_of_kind (kind_of_piece hl)), run_bind hlist,
    run_bind (expect_of_kind hclose)]
  rfl

end

/-! ## All expressions -/

/-- The characters of a text that the printer has put in parentheses. -/
theorem toList_parenthesized (text : String) :
    (parenthesized true text).toList = '(' :: (text.toList ++ [')']) := by
  unfold parenthesized
  rw [if_pos rfl, String.toList_append, String.toList_append]
  rfl

/-- **Equal expressions are written alike.** -/
theorem Expr.text_eq_of_same (e e' : Expr) (h : Expr.same e e' = true) :
    Expr.text e = Expr.text e' ∧ e.isComposite = e'.isComposite := by
  induction e using Term.induction generalizing e' with
  | num value =>
    cases e' with
    | num value' => exact ⟨Number.text_eq_of_same h, rfl⟩
    | gap | anchor | binary | call => cases h
  | gap =>
    cases e' with
    | gap => exact ⟨rfl, rfl⟩
    | num | anchor | binary | call => cases h
  | anchor a =>
    cases e' with
    | anchor a' => exact ⟨congrArg Anchor.text (beq_iff_eq.1 h), rfl⟩
    | num | gap | binary | call => cases h
  | binary op lhs rhs ihl ihr =>
    cases e' with
    | binary op' lhs' rhs' =>
      simp only [Expr.same, Bool.and_eq_true, beq_iff_eq] at h
      obtain ⟨⟨rfl, hl⟩, hr⟩ := h
      -- the printer puts parentheses by whether an operand is composite, so that is carried along
      obtain ⟨htextl, hcompositel⟩ := ihl lhs' hl
      obtain ⟨htextr, hcompositer⟩ := ihr rhs' hr
      exact ⟨by rw [Expr.text, Expr.text, htextl, hcompositel, htextr, hcompositer], rfl⟩
    | num | gap | anchor | call => cases h
  | call func args ih =>
    cases e' with
    | call func' args' =>
      simp only [Expr.same, Bool.and_eq_true, beq_iff_eq] at h
      obtain ⟨rfl, hargs⟩ := h
      -- equal calls have as many arguments as each other
      have htexts : Expr.texts args = Expr.texts args' := by
        induction args generalizing args' with
        | nil =>
          cases args' with
          | nil => rfl
          | cons => cases hargs
        | cons arg args ihargs =>
          cases args' with
          | nil => cases hargs
          | cons arg' args' =>
            simp only [Expr.sameAll, Bool.and_eq_true] at hargs
            rw [Expr.texts, Expr.texts, (ih arg List.mem_cons_self arg' hargs.1).1,
              ihargs (fun a ha => ih a (List.mem_cons_of_mem arg ha)) args' hargs.2]
      exact ⟨by rw [Expr.text, Expr.text, htexts], rfl⟩
    | num | gap | anchor | binary => cases h

/-- The arguments of a call are read back if each of them is. -/
theorem exists_spelt_args {args : List Expr} (h : ∀ arg ∈ args, ∃ arg',
    Expr.same arg arg' = true ∧ SpellsSum (Expr.text arg).toList arg') :
    ∃ args', Expr.sameAll args args' = true ∧
      List.Forall₂ SpellsSum ((Expr.texts args).map String.toList) args' := by
  induction args with
  | nil => exact ⟨[], rfl, .nil⟩
  | cons arg args ih =>
    obtain ⟨arg', hsame, hspelt⟩ := h arg List.mem_cons_self
    obtain ⟨args', hsames, hspelts⟩ := ih fun a ha => h a (List.mem_cons_of_mem arg ha)
    exact ⟨arg' :: args', by simp [Expr.sameAll, hsame, hsames], .cons hspelt hspelts⟩

/-- **Any sound expression is read back** from its text, and as an operand from its text in the
parentheses it needs. -/
theorem exists_spelt_expr (e : Expr) (h : Expr.isSound e = true) :
    (∃ e', Expr.same e e' = true ∧ SpellsSum (Expr.text e).toList e') ∧
      ∃ e', Expr.same e e' = true ∧
        SpellsOperand (parenthesized e.isComposite (Expr.text e)).toList e' := by
  induction e using Term.induction with
  | num value =>
    obtain ⟨y, hsame, hspelt⟩ := exists_spelt_number h
    exact ⟨⟨.num y, hsame, hspelt.sum⟩, ⟨.num y, hsame, hspelt⟩⟩
  | gap => exact ⟨⟨.gap, rfl, spelt_gap.sum⟩, ⟨.gap, rfl, spelt_gap⟩⟩
  | anchor a =>
    have hsame : Expr.same (.anchor a) (.anchor a) = true := by simp [Expr.same]
    exact ⟨⟨.anchor a, hsame, (spelt_anchor a).sum⟩, ⟨.anchor a, hsame, spelt_anchor a⟩⟩
  | binary op lhs rhs ihl ihr =>
    simp only [Expr.isSound, Bool.and_eq_true] at h
    obtain ⟨-, lhs', hsamel, hl⟩ := ihl h.1
    obtain ⟨-, rhs', hsamer, hr⟩ := ihr h.2
    have hsame : Expr.same (.binary op lhs rhs) (.binary op lhs' rhs') = true := by
      simp [Expr.same, hsamel, hsamer]
    have htext : (Expr.text (.binary op lhs rhs)).toList =
        (parenthesized lhs.isComposite (Expr.text lhs)).toList ++ (op.symbol.toList ++
          (parenthesized rhs.isComposite (Expr.text rhs)).toList) := by
      rw [Expr.text, String.toList_append, String.toList_append, List.append_assoc]
    have hspelt : SpellsSum (Expr.text (.binary op lhs rhs)).toList (.binary op lhs' rhs') := by
      rw [htext]
      exact spelt_binary op hl hr
    refine ⟨⟨_, hsame, hspelt⟩, ⟨_, hsame, ?_⟩⟩
    -- an operation is an operand only in parentheses
    show SpellsOperand (parenthesized true (Expr.text (.binary op lhs rhs))).toList _
    rw [toList_parenthesized]
    exact spelt_parens hspelt
  | call func args ih =>
    simp only [Expr.isSound, Bool.and_eq_true, Bool.not_eq_true', List.isEmpty_eq_false_iff] at h
    obtain ⟨args', hsame, hargs⟩ := exists_spelt_args fun arg harg =>
      (ih arg harg (Expr.areSound_iff.1 h.2 arg harg)).1
    have hne : args' ≠ [] := by
      rintro rfl
      cases args with
      | nil => exact h.1 rfl
      | cons => cases hsame
    have htext : (Expr.text (.call func args)).toList = func.name.toList ++
        '(' :: ([','].intercalate ((Expr.texts args).map String.toList) ++ [')']) := by
      rw [Expr.text]
      simp only [String.toList_append, String.toList_intercalate]
      simp
    have hspelt : SpellsOperand (Expr.text (.call func args)).toList (.call func args') := by
      rw [htext]
      exact spelt_call func hargs hne
    have hsame' : Expr.same (.call func args) (.call func args') = true := by
      simp [Expr.same, hsame]
    exact ⟨⟨_, hsame', hspelt.sum⟩, ⟨_, hsame', hspelt⟩⟩

end AnchorLayout
