import AnchorLayout.Proofs.Clause.Expression
import AnchorLayout.Proofs.Clause.Stretch
/-!
# Items of a timing

  1. **Program** — `itemTokens` and `writtenText`: an item is read from the text of its tokens.
  2. **Specification** — `ReadsItem`: a text whose pieces make up one item, and the depth of
     parentheses in which it ends; `IsTimingFunction`: a custom timing function that can be told
     from everything else.
  3. **Both ways** — `exists_readsItem`: the tokens of an item are such a text;
     `itemTokens_append`: the tokens of such a text are an item.
  4. **The crux (`depthAfter_of_isEnclosed`, `writtenText_of_readsItem`)** — parentheses are counted
     among the tokens as in the text, and a token keeps its white space, so the text of an item
     survives although its tokens mean nothing to the reader.
-/

namespace AnchorLayout

open Reading

/-- **Enclosed**: parentheses are balanced, and every comma stands inside them. -/
def isEnclosed : Nat → List Char → Bool
  | depth, [] => depth == 0
  | depth, c :: cs =>
    if c = '(' then isEnclosed (depth + 1) cs
    else if c = ')' then depth != 0 && isEnclosed (depth - 1) cs
    else if c = ',' then depth != 0 && isEnclosed depth cs
    else isEnclosed depth cs

/-- **Unmarked**: neither the end of a clause nor the mark of a guard is in it. -/
def isUnmarked (cs : List Char) : Bool := cs.all fun c => c != ';' && c != '?'

/-- The depth of parentheses behind a token of an item; nothing if the item ends in front of it.
What is closed and was not open does not count. -/
def depthBehind (depth : Nat) : TokenKind → Option Nat
  | .sign .semicolon => none
  | .sign .comma => if depth = 0 then none else some depth
  | .sign .leftParen => some (depth + 1)
  | .sign .rightParen => some (depth - 1)
  | _ => some depth

/-- The depth of parentheses behind some pieces of an item; nothing if the item ends among them. -/
def depthAfter (depth : Nat) (ps : List Piece) : Option Nat :=
  ps.foldlM (fun d p => depthBehind d p.kind) depth

/-- **One item**, which ends in parentheses of a depth: nothing stands before its pieces, and a
question mark is among them only in a guarded clause. -/
structure ReadsItem (guarded : Bool) (text : String) (ps : List Piece) (depth : Nat) : Prop where
  lexes : Lexes text.toList ps
  unmarked : guarded = false → ∀ p ∈ ps, p.kind ≠ .sign .question
  depth_eq : depthAfter 0 ps = some depth
  ne_nil : ps ≠ []
  starts : ∀ p, ps.head? = some p → p.blank = []

/-- Where an item ends: at the end of the text, or at a token that goes with no item. -/
def EndsItem (depth : Nat) (rest : List Token) : Prop :=
  ∀ kind, headKind? rest = some kind → depthBehind depth kind = none

/-! ## The tokens of an item -/

theorem depthBehind_comma (depth : Nat) :
    depthBehind depth (.sign .comma) = if depth = 0 then none else some depth := rfl

theorem depthAfter_cons (depth : Nat) (p : Piece) (ps : List Piece) :
    depthAfter depth (p :: ps) = (depthBehind depth p.kind).bind fun d => depthAfter d ps := rfl

/-- Depth is counted piece by piece, so two stretches are counted one after the other. -/
theorem depthAfter_append (depth : Nat) (ps qs : List Piece) :
    depthAfter depth (ps ++ qs) = (depthAfter depth ps).bind fun d => depthAfter d qs :=
  List.foldlM_append

/-- An item takes a token as long as it has a depth behind it. -/
theorem itemTokens_cons (depth : Nat) (t : Token) (tokens : List Token) :
    itemTokens depth (t :: tokens) =
      (depthBehind depth t.kind).elim [] fun d => t :: itemTokens d tokens := by
  rw [itemTokens]
  generalize t.kind = kind
  cases kind with
  | name | number => rfl
  | sign s =>
    cases s with
    | comma => by_cases hdepth : depth = 0 <;> simp [depthBehind, hdepth]
    | _ => rfl

/-- As long as a depth is counted, no clause has ended. -/
theorem unended_of_depthAfter {depth d : Nat} {ps : List Piece} (h : depthAfter depth ps = some d) :
    ∀ p ∈ ps, p.kind ≠ .sign .semicolon := by
  induction ps generalizing depth with
  | nil => exact fun _ hp => absurd hp List.not_mem_nil
  | cons p ps ih =>
    obtain ⟨next, hnext, hothers⟩ := Option.bind_eq_some_iff.1 (depthAfter_cons depth p ps ▸ h)
    intro q hq
    rcases List.mem_cons.1 hq with rfl | hq
    · intro hkind
      rw [hkind] at hnext
      cases hnext
    · exact ih hothers q hq

/-- **The tokens of an item** are the first ones, and the item ends behind them. -/
theorem exists_itemTokens (depth : Nat) (tokens : List Token) : ∃ d rest,
    tokens = itemTokens depth tokens ++ rest ∧
      depthAfter depth ((itemTokens depth tokens).map Token.piece) = some d ∧ EndsItem d rest := by
  induction tokens generalizing depth with
  | nil =>
    refine ⟨depth, [], rfl, rfl, fun kind hkind => ?_⟩
    cases hkind
  | cons t tokens ih =>
    rw [itemTokens_cons]
    cases hnext : depthBehind depth t.kind with
    | none =>
      refine ⟨depth, t :: tokens, rfl, rfl, fun kind hkind => ?_⟩
      cases hkind
      exact hnext
    | some next =>
      obtain ⟨d, rest, htokens, hd, hrest⟩ := ih next
      refine ⟨d, rest, congrArg (t :: ·) htokens, ?_, hrest⟩
      show depthAfter depth (t.piece :: (itemTokens next tokens).map Token.piece) = some d
      rw [depthAfter_cons, show depthBehind depth t.piece.kind = some next from hnext]
      exact hd

/-- Where an item ends nothing more is taken for it. -/
theorem itemTokens_stop {depth : Nat} {rest : List Token} (h : EndsItem depth rest) :
    itemTokens depth rest = [] := by
  cases rest with
  | nil => rfl
  | cons t rest => rw [itemTokens_cons, h t.kind rfl, Option.elim_none]

/-- **An item ends where its text does.** -/
theorem itemTokens_append {depth d : Nat} {tokens rest : List Token}
    (h : depthAfter depth (tokens.map Token.piece) = some d) (hrest : EndsItem d rest) :
    itemTokens depth (tokens ++ rest) = tokens := by
  induction tokens generalizing depth with
  | nil =>
    cases h
    exact itemTokens_stop hrest
  | cons t tokens ih =>
    rw [List.map_cons, depthAfter_cons] at h
    obtain ⟨next, hnext, hothers⟩ := Option.bind_eq_some_iff.1 h
    have hkind : depthBehind depth t.kind = some next := hnext
    rw [List.cons_append, itemTokens_cons, hkind, Option.elim_some, ih hothers]

/-! ## The text of an item -/

/-- A text is its pieces with the white space in front of them: nothing is lost between tokens. -/
theorem flatMap_of_lexes {cs : List Char} {ps : List Piece} (h : Lexes cs ps) :
    ps.flatMap (fun p => p.blank ++ p.lexeme) = cs := by
  induction h with
  | done => rfl
  | step blanks cut others ih => rw [List.flatMap_cons, ih, List.append_assoc]

/-- **An item is read from the text it was written as.** -/
theorem writtenText_of_readsItem {guarded : Bool} {text : String} {ps : List Piece} {depth : Nat}
    {tokens : List Token} (h : ReadsItem guarded text ps depth)
    (htokens : tokens.map Token.piece = ps) : writtenText tokens = text := by
  have htext := flatMap_of_lexes h.lexes
  subst htokens
  cases tokens with
  | nil => exact absurd rfl h.ne_nil
  | cons t tokens =>
    have hblank : t.blank = [] := h.starts t.piece rfl
    rw [← String.ofList_toList (s := text), ← htext, List.map_cons, List.flatMap_cons,
      List.flatMap_map]
    show String.ofList (t.lexeme ++ _) = String.ofList (t.blank ++ t.lexeme ++ _)
    rw [hblank]
    rfl

/-- **Tokens that are cut from a text are an item** under the text they were written as. -/
theorem exists_readsItem {guarded : Bool} {tokens : List Token} {depth : Nat} (hcuts : Cuts tokens)
    (hdepth : depthAfter 0 (tokens.map Token.piece) = some depth) (hne : tokens ≠ [])
    (hmark : guarded = false → ∀ t ∈ tokens, t.kind ≠ .sign .question) :
    ∃ ps, ReadsItem guarded (writtenText tokens) ps depth := by
  cases tokens with
  | nil => exact absurd rfl hne
  | cons t tokens =>
    obtain ⟨cs, hlex⟩ := hcuts
    obtain ⟨ds, hds⟩ := Lexes.trimmed hlex
    have htext : (writtenText (t :: tokens)).toList = ds := by
      rw [← flatMap_of_lexes hds, writtenText, String.toList_ofList, List.flatMap_cons,
        List.flatMap_map]
      rfl
    refine ⟨{ t.piece with blank := [] } :: tokens.map Token.piece, htext ▸ hds,
      fun hguarded p hp => ?_, hdepth, List.cons_ne_nil _ _, ?_⟩
    · rcases List.mem_cons.1 hp with rfl | hp
      · exact hmark hguarded t List.mem_cons_self
      · obtain ⟨u, hu, rfl⟩ := List.mem_map.1 hp
        exact hmark hguarded u (List.mem_cons_of_mem t hu)
    · intro p hp
      cases hp
      rfl

/-! ## Characters of a token -/

/-- A fraction is made of digits and a point, which matter to nothing that items look for. -/
theorem mem_fractionPart {cs : List Char} {c : Char} (h : c ∈ fractionPart cs) :
    continuesName c = true ∨ c = '.' := by
  unfold fractionPart at h
  split at h
  · next d rest =>
    split at h
    · rcases List.mem_cons.1 h with rfl | h
      · exact Or.inr rfl
      · have hdigit : c.isDigit = true := List.mem_takeWhile_imp h
        exact Or.inl (by simp [continuesName, Char.isAlphanum, hdigit])
    · exact absurd h List.not_mem_nil
  · exact absurd h List.not_mem_nil

/-- A token is a sign, or it is made of letters, digits, underscores and points. -/
theorem cut?_cases {cs lexeme : List Char} {kind : TokenKind}
    (h : cut? cs = some (kind, lexeme)) :
    (∃ c s, Sign.ofChar? c = some s ∧ kind = .sign s ∧ lexeme = [c]) ∨
      ((∀ s, kind ≠ .sign s) ∧ ∀ c ∈ lexeme, continuesName c = true ∨ c = '.') := by
  unfold cut? at h
  split at h
  · cases h
  · next c rest =>
    split at h
    · cases h
      refine Or.inr ⟨fun s => TokenKind.noConfusion, fun d hd => ?_⟩
      rcases List.mem_append.1 hd with hd | hd
      · have hdigit : d.isDigit = true := List.mem_takeWhile_imp hd
        exact Or.inl (by simp [continuesName, Char.isAlphanum, hdigit])
      · exact mem_fractionPart hd
    · split at h
      · next hc =>
        cases h
        refine Or.inr ⟨fun s => TokenKind.noConfusion, fun d hd => Or.inl ?_⟩
        rcases List.mem_cons.1 hd with rfl | hd
        · exact continuesName_of_startsName hc
        · exact List.mem_takeWhile_imp hd
      · obtain ⟨s, hs, heq⟩ := Option.map_eq_some_iff.1 h
        cases heq
        exact Or.inl ⟨c, s, hs, rfl, rfl⟩

/-! ## Parentheses -/

/-- Characters that are no parentheses and no commas change nothing. -/
theorem isEnclosed_skip {cs : List Char} (h : ∀ c ∈ cs, c ≠ '(' ∧ c ≠ ')' ∧ c ≠ ',')
    (depth : Nat) (rest : List Char) : isEnclosed depth (cs ++ rest) = isEnclosed depth rest := by
  induction cs with
  | nil => rfl
  | cons c cs ih =>
    obtain ⟨hl, hr, hcomma⟩ := h c List.mem_cons_self
    rw [List.cons_append, isEnclosed, if_neg hl, if_neg hr, if_neg hcomma]
    exact ih fun d hd => h d (List.mem_cons_of_mem c hd)

/-- The signs that items look for, by their characters. -/
theorem sign_eq_of_ofChar? {c : Char} {s : Sign} (h : Sign.ofChar? c = some s) :
    (s = .leftParen ↔ c = '(') ∧ (s = .rightParen ↔ c = ')') ∧ (s = .comma ↔ c = ',') ∧
      (s = .semicolon ↔ c = ';') ∧ (s = .question ↔ c = '?') := by
  unfold Sign.ofChar? at h
  split at h <;> first | cases h; decide | cases h

/-- A text without the two marks has plain pieces. -/
theorem plain_of_lexes {cs : List Char} {ps : List Piece} (h : Lexes cs ps)
    (hunmarked : isUnmarked cs = true) : Plain ps := by
  have hplain : ∀ c ∈ cs, c ≠ ';' ∧ c ≠ '?' := by
    simpa [isUnmarked] using hunmarked
  clear hunmarked
  induction h with
  | done => exact plain_nil
  | @step kind blank lexeme rest ps blanks cut others ih =>
    have hothers := ih fun c hc =>
      hplain c (List.mem_append_right _ (List.mem_append_right _ hc))
    refine hothers.cons ?_
    rcases cut?_cases cut with ⟨c, s, hs, rfl, rfl⟩ | ⟨hkind, -⟩
    · obtain ⟨-, -, -, hsemicolon, hquestion⟩ := sign_eq_of_ofChar? hs
      have hc := hplain c (List.mem_append_right _ (List.mem_append_left _ List.mem_cons_self))
      exact ⟨fun h => hc.1 (hsemicolon.1 (TokenKind.sign.inj h)),
        fun h => hc.2 (hquestion.1 (TokenKind.sign.inj h))⟩
    · exact ⟨hkind _, hkind _⟩

/-- **Counting characters is counting tokens**: parentheses that are balanced in the text are
balanced among its pieces. -/
theorem depthAfter_of_isEnclosed {cs : List Char} {ps : List Piece} (h : Lexes cs ps)
    (hplain : Plain ps) {depth : Nat} (henclosed : isEnclosed depth cs = true) :
    depthAfter depth ps = some 0 := by
  induction h generalizing depth with
  | done => exact congrArg some (beq_iff_eq.1 henclosed)
  | @step kind blank lexeme rest ps blanks cut others ih =>
    have hended : kind ≠ .sign .semicolon := (hplain _ List.mem_cons_self).1
    replace ih := @ih fun p hp => hplain p (List.mem_cons_of_mem _ hp)
    -- white space is passed over by the characters and belongs to no token
    have hblank : ∀ c ∈ blank, c ≠ '(' ∧ c ≠ ')' ∧ c ≠ ',' := by
      intro c hc
      have hb := blanks c hc
      refine ⟨?_, ?_, ?_⟩ <;> (rintro rfl; cases hb)
    rw [isEnclosed_skip hblank] at henclosed
    rw [depthAfter_cons]
    -- a sign is one character, and the two counts agree on it; other tokens have none that counts
    rcases cut?_cases cut with ⟨c, s, hs, rfl, rfl⟩ | ⟨hkind, hlexeme⟩
    · obtain ⟨hl, hr, hcomma, -, -⟩ := sign_eq_of_ofChar? hs
      rw [List.singleton_append, isEnclosed] at henclosed
      by_cases hleft : s = .leftParen
      · rw [if_pos (hl.1 hleft)] at henclosed
        subst hleft
        exact ih henclosed
      · rw [if_neg fun hc => hleft (hl.2 hc)] at henclosed
        by_cases hright : s = .rightParen
        · rw [if_pos (hr.1 hright), Bool.and_eq_true, bne_iff_ne] at henclosed
          subst hright
          exact ih henclosed.2
        · rw [if_neg fun hc => hright (hr.2 hc)] at henclosed
          by_cases hseparator : s = .comma
          · rw [if_pos (hcomma.1 hseparator), Bool.and_eq_true, bne_iff_ne] at henclosed
            subst hseparator
            rw [depthBehind_comma, if_neg henclosed.1]
            exact ih henclosed.2
          · rw [if_neg fun hc => hseparator (hcomma.2 hc)] at henclosed
            have hothers := ih henclosed
            cases s <;> first | exact hothers | contradiction
    · have hskip : ∀ c ∈ lexeme, c ≠ '(' ∧ c ≠ ')' ∧ c ≠ ',' := by
        intro c hc
        have hchar := hlexeme c hc
        refine ⟨?_, ?_, ?_⟩ <;> (rintro rfl; revert hchar; decide)
      rw [isEnclosed_skip hskip] at henclosed
      have hothers := ih henclosed
      cases kind with
      | sign s => exact absurd rfl (hkind s)
      | name | number => exact hothers

/-! ## Timing functions -/

/-- **A timing function**: not empty, made of tokens, without white space at its ends and without
the marks that end a clause or a guard, its commas inside balanced parentheses, and neither a
number nor a time nor a direction. -/
structure IsTimingFunction (text : String) : Prop where
  ne_empty : text ≠ ""
  lexes : ∃ tokens, tokens? text = .ok tokens
  trimmed : trimBlank text = text
  unmarked : isUnmarked text.toList = true
  enclosed : isEnclosed 0 text.toList = true
  no_number : Number.parse? text = none
  no_time : seconds? text = none
  no_direction : Direction.ofCssName? text = none

theorem dropWhile_eq_self_iff_head {p : Char → Bool} {cs : List Char} :
    cs.dropWhile p = cs ↔ ∀ c, cs.head? = some c → p c = false := by
  rw [List.dropWhile_eq_self_iff]
  cases cs with
  | nil => simp
  | cons c cs => simp

/-- **Trimmed**: neither the first character nor the last one is white space. -/
theorem trimBlank_eq_self_iff {text : String} : trimBlank text = text ↔
    (∀ c, text.toList.head? = some c → isBlank c = false) ∧
      ∀ c, text.toList.getLast? = some c → isBlank c = false := by
  have hchars : trimBlank text = text ↔ trimBlankChars text.toList = text.toList := by
    rw [trimBlank, ← String.toList_inj, String.toList_ofList]
  rw [hchars, ← dropWhile_eq_self_iff_head]
  generalize text.toList = cs
  have hlast : (∀ c, cs.getLast? = some c → isBlank c = false) ↔
      cs.reverse.dropWhile isBlank = cs.reverse := by
    rw [dropWhile_eq_self_iff_head, List.head?_reverse]
  rw [hlast, trimBlankChars]
  constructor
  · intro htrim
    have hlength := congrArg List.length htrim
    have hfront := List.dropWhile_sublist (l := cs) isBlank
    have hback := List.dropWhile_sublist (l := (cs.dropWhile isBlank).reverse) isBlank
    have hle := hfront.length_le
    have hle' := hback.length_le
    rw [List.length_reverse] at hlength hle'
    -- neither end has been shortened
    have hhead : cs.dropWhile isBlank = cs := hfront.eq_of_length (by omega)
    rw [hhead] at hback hlength
    exact ⟨hhead, hback.eq_of_length (by rw [List.length_reverse]; omega)⟩
  · rintro ⟨hhead, hback⟩
    rw [hhead, hback, List.reverse_reverse]

/-- A text of tokens is an item if it does not begin with white space, its commas stand inside
parentheses and no mark is in it. -/
theorem readsItem_of_lexes {guarded : Bool} {text : String} {ps : List Piece}
    (hlex : Lexes text.toList ps) (hne : text ≠ "")
    (hhead : ∀ c, text.toList.head? = some c → isAsciiBlank c = false)
    (hunmarked : isUnmarked text.toList = true)
    (henclosed : isEnclosed 0 text.toList = true) : ReadsItem guarded text ps 0 := by
  have hchars : text.toList ≠ [] := fun hnil => hne (String.toList_eq_nil_iff.1 hnil)
  have hplain := plain_of_lexes hlex hunmarked
  refine ⟨hlex, fun _ p hp => (hplain p hp).2, depthAfter_of_isEnclosed hlex hplain henclosed,
    ?_, ?_⟩
  · rintro rfl
    generalize text.toList = cs at hlex hchars
    cases hlex
    exact hchars rfl
  · intro p hp
    generalize text.toList = cs at hlex hhead
    cases hlex with
    | done => cases hp
    | @step kind blank lexeme rest ps blanks cut others =>
      cases hp
      cases blank with
      | nil => rfl
      | cons c blank =>
        have hc := hhead c rfl
        rw [blanks c List.mem_cons_self] at hc
        cases hc

/-- A timing function is an item, in a clause with a guard and in one without. -/
theorem readsItem_of_isTimingFunction (guarded : Bool) {text : String} (h : IsTimingFunction text) :
    ∃ ps, ReadsItem guarded text ps 0 := by
  obtain ⟨hhead, hlast⟩ := trimBlank_eq_self_iff.1 h.trimmed
  obtain ⟨tokens, htokens⟩ := h.lexes
  have hnoBlank : ∀ c, isBlank c = false → isAsciiBlank c = false := by
    intro c hc
    by_contra hascii
    rw [isBlank_of_isAsciiBlank (by simpa using hascii)] at hc
    cases hc
  have hlex := lexes_of_tokens htokens fun c hc => hnoBlank c (hlast c hc)
  exact ⟨_, readsItem_of_lexes hlex h.ne_empty (fun c hc => hnoBlank c (hhead c hc)) h.unmarked
    h.enclosed⟩

end AnchorLayout
