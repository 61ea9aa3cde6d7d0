import AnchorLayout.Proofs.Clause.Lexing
/-!
# Stretches of a text

  1. **Program** — `tokensFrom`, which looks at most two characters past a token.
  2. **Specification** — `Cuts`: some text falls into the tokens, wherever they came from.
  3. **Parts** — `Cuts.append`: the tokens before a place and those behind it; `Lexes.trimmed`:
     a text without the white space in front of it.
  4. **The crux (`cut?_of_isPrefix`)** — a token is not changed by taking away text behind it, so a
     stretch of a text is cut as it was within the text.
-/

namespace AnchorLayout

/-! ## Less text behind a token -/

/-- With less behind it a stretch of characters ends where it did. -/
theorem takeWhile_of_isPrefix {p : Char → Bool} {a b b' : List Char}
    (h : (a ++ b).takeWhile p = a) (hb : b' <+: b) : (a ++ b').takeWhile p = a := by
  have hall : ∀ c ∈ a, p c = true := by
    intro c hc
    rw [← h] at hc
    exact List.mem_takeWhile_imp hc
  rw [List.takeWhile_append_of_pos hall] at h ⊢
  have hnone : b.takeWhile p = [] := List.append_right_eq_self.1 h
  obtain ⟨s, rfl⟩ := hb
  cases b' with
  | nil => exact List.append_nil a
  | cons c cs =>
    have hc : ¬ p c = true := by
      intro hc
      rw [List.cons_append, List.takeWhile_cons_of_pos hc] at hnone
      cases hnone
    rw [List.takeWhile_cons_of_neg hc, List.append_nil]

/-- So does the fraction of a number.  A second point behind the digits would have taken the
fraction away, and with less text there is no second point either. -/
theorem fractionPart_of_isPrefix {a b b' : List Char} (h : fractionPart (a ++ b) = a)
    (hb : b' <+: b) : fractionPart (a ++ b') = a := by
  obtain ⟨s, rfl⟩ := hb
  cases a with
  | nil =>
    -- a point with a digit behind it would have been there before
    rw [List.nil_append] at h ⊢
    unfold fractionPart
    split
    · next d rest =>
      split
      · next hd =>
        unfold fractionPart at h
        rw [List.cons_append, List.cons_append] at h
        simp [hd] at h
      · rfl
    · rfl
  | cons c cs =>
    rw [List.cons_append] at h ⊢
    unfold fractionPart at h
    split at h
    · next d rest heq =>
      split at h
      · next hd =>
        obtain ⟨rfl, hrest⟩ := List.cons.inj heq
        have hdigits : (cs ++ (b' ++ s)).takeWhile Char.isDigit = cs := by
          rw [hrest]
          exact (List.cons.inj h).2
        have hstop := takeWhile_of_isPrefix hdigits (List.prefix_append b' s)
        cases cs with
        | nil =>
          rw [List.nil_append] at hdigits hrest
          rw [hrest, List.takeWhile_cons_of_pos hd] at hdigits
          cases hdigits
        | cons e cs =>
          rw [List.cons_append] at hrest
          rw [List.cons_append, fractionPart, if_pos ((List.cons.inj hrest).1 ▸ hd)]
          exact congrArg ('.' :: ·) hstop
      · cases h
    · cases h

/-- A number without the text behind it has the same digits and the same fraction. -/
theorem digits_of_isPrefix {whole fraction b b' : List Char}
    (hwhole : leadingDigits (whole ++ (fraction ++ b)) = whole)
    (hfraction : fractionPart (pastDigits (whole ++ (fraction ++ b))) = fraction) (hb : b' <+: b) :
    leadingDigits (whole ++ (fraction ++ b')) = whole ∧
      fractionPart (pastDigits (whole ++ (fraction ++ b'))) = fraction := by
  have hpast : ∀ rest, leadingDigits (whole ++ rest) = whole →
      pastDigits (whole ++ rest) = rest := by
    intro rest h
    have hall := leadingDigits_append_pastDigits (whole ++ rest)
    rw [h] at hall
    exact List.append_cancel_left hall
  rw [hpast _ hwhole] at hfraction
  have hwhole' := takeWhile_of_isPrefix hwhole ((List.prefix_append_right_inj fraction).2 hb)
  exact ⟨hwhole', (hpast _ hwhole').symm ▸ fractionPart_of_isPrefix hfraction hb⟩

/-- **A token is not changed by taking away text behind it.** -/
theorem cut?_of_isPrefix {lexeme b b' : List Char} {kind : TokenKind}
    (h : cut? (lexeme ++ b) = some (kind, lexeme)) (hb : b' <+: b) :
    cut? (lexeme ++ b') = some (kind, lexeme) := by
  obtain ⟨c, cs, hcs⟩ := List.exists_cons_of_ne_nil (isPrefix_of_cut? h).2
  have hcons : ∀ rest, lexeme ++ rest = c :: (cs ++ rest) := fun rest => by
    rw [hcs, List.cons_append]
  have hwithin : lexeme ++ b' <+: lexeme ++ b := (List.prefix_append_right_inj _).2 hb
  rw [hcons] at h ⊢
  unfold cut? at h ⊢
  simp only [← hcons] at h ⊢
  split at h
  · next hnumber =>
    simp only [Option.some.injEq, Prod.mk.injEq] at h
    obtain ⟨hkind, hlexeme⟩ := h
    generalize hwhole : leadingDigits (lexeme ++ b) = whole at hkind hlexeme
    generalize hfraction : fractionPart (pastDigits (lexeme ++ b)) = fraction at hkind hlexeme
    subst hlexeme
    rw [List.append_assoc] at hwhole hfraction ⊢
    obtain ⟨hwhole', hfraction'⟩ := digits_of_isPrefix hwhole hfraction hb
    rw [hwhole', hfraction', hkind]
    refine if_pos ?_
    by_cases hdigit : c.isDigit = true
    · exact Or.inl hdigit
    · -- without a digit in front the token is the fraction alone
      refine Or.inr ?_
      rw [← List.append_assoc, hcons]
      rw [← List.append_assoc, hcons, leadingDigits, List.takeWhile_cons_of_neg hdigit] at hwhole'
      rw [← List.append_assoc, hcons, pastDigits, List.dropWhile_cons_of_neg hdigit] at hfraction'
      rw [hfraction']
      subst hwhole'
      rw [List.nil_append] at hcs
      rw [hcs]
      exact List.cons_ne_nil _ _
  · next hnumber =>
    have hpoint : fractionPart (lexeme ++ b') = [] :=
      fractionPart_of_isPrefix (a := []) (by simpa using (not_or.1 hnumber).2) hwithin
    rw [if_neg (by simpa [hpoint] using (not_or.1 hnumber).1)]
    split at h
    · next hstart =>
      simp only [Option.some.injEq, Prod.mk.injEq] at h
      have hname : (cs ++ b).takeWhile continuesName = cs := by
        rw [hcs] at h
        exact (List.cons.inj h.2).2
      rw [if_pos hstart, takeWhile_of_isPrefix hname hb, ← h.1, hname, hcs]
    · next hstart => rwa [if_neg hstart]

/-- So a token is cut from its own characters. -/
theorem cut?_alone {lexeme rest : List Char} {kind : TokenKind}
    (h : cut? (lexeme ++ rest) = some (kind, lexeme)) : cut? lexeme = some (kind, lexeme) := by
  have halone := cut?_of_isPrefix h (List.nil_prefix (l := rest))
  rwa [List.append_nil] at halone

/-! ## Parts of a text -/

namespace Lexes

variable {cs : List Char} {p : Piece} {ps qs : List Piece}

/-- A text is cut before any of its pieces. -/
theorem split (h : Lexes cs (ps ++ qs)) :
    ∃ ds es, cs = ds ++ es ∧ Lexes ds ps ∧ Lexes es qs := by
  induction ps generalizing cs with
  | nil => exact ⟨[], cs, rfl, Lexes.done, h⟩
  | cons p ps ih =>
    rw [List.cons_append] at h
    cases h with
    | @step kind blank lexeme rest _ blanks cut others =>
      obtain ⟨ds, es, rfl, hds, hes⟩ := ih others
      refine ⟨blank ++ (lexeme ++ ds), es, by simp only [List.append_assoc], ?_, hes⟩
      exact Lexes.step blanks (cut?_of_isPrefix cut (List.prefix_append ds es)) hds

/-- The white space in front of a text may be left out. -/
theorem trimmed (h : Lexes cs (p :: ps)) : ∃ ds, Lexes ds ({ p with blank := [] } :: ps) := by
  cases h with
  | step blanks cut others => exact ⟨_, Lexes.step Lexes.blanks_nil cut others⟩

end Lexes

/-! ## Tokens of a text -/

/-- **Cut from a text**: some text falls into the tokens. -/
def Cuts (tokens : List Token) : Prop := ∃ cs, Lexes cs (tokens.map Token.piece)

/-- Each part of tokens that were cut from a text was cut from a part of it. -/
theorem Cuts.append {first last : List Token} (h : Cuts (first ++ last)) :
    Cuts first ∧ Cuts last := by
  obtain ⟨cs, hlex⟩ := h
  rw [List.map_append] at hlex
  obtain ⟨ds, es, -, hds, hes⟩ := hlex.split
  exact ⟨⟨ds, hds⟩, es, hes⟩

theorem Cuts.tail {t : Token} {tokens : List Token} (h : Cuts (t :: tokens)) : Cuts tokens := by
  rw [← List.singleton_append] at h
  exact h.append.2

/-- **A text is cut into its tokens**, white space at its end left out. -/
theorem exists_lexes_of_tokens {start : Nat} {cs : List Char} {tokens : List Token}
    (h : tokensFrom start cs = .ok tokens) : ∃ ds blanks, cs = ds ++ blanks ∧
      (∀ c ∈ blanks, isAsciiBlank c = true) ∧ Lexes ds (tokens.map Token.piece) := by
  refine tokens_induction (motive := fun _ cs tokens => ∃ ds blanks, cs = ds ++ blanks ∧
    (∀ c ∈ blanks, isAsciiBlank c = true) ∧ Lexes ds (tokens.map Token.piece)) ?blank ?step h
  case blank => exact fun _ cs blanks => ⟨[], cs, rfl, blanks, Lexes.done⟩
  case step =>
    rintro start blank lexeme rest kind tokens blanks hcut ⟨ds, behind, rfl, hend, hlex⟩
    have hcut' := cut?_of_isPrefix hcut (List.prefix_append ds behind)
    refine ⟨blank ++ (lexeme ++ ds), behind, ?_, hend, Lexes.step blanks hcut' hlex⟩
    simp only [List.append_assoc]

/-- The tokens of a text are cut from one. -/
theorem cuts_of_tokens {start : Nat} {cs : List Char} {tokens : List Token}
    (h : tokensFrom start cs = .ok tokens) : Cuts tokens := by
  obtain ⟨ds, -, -, -, hlex⟩ := exists_lexes_of_tokens h
  exact ⟨ds, hlex⟩

/-- **A text without white space at its end is cut into its tokens.** -/
theorem lexes_of_tokens {start : Nat} {cs : List Char} {tokens : List Token}
    (h : tokensFrom start cs = .ok tokens)
    (hlast : ∀ c, cs.getLast? = some c → isAsciiBlank c = false) :
    Lexes cs (tokens.map Token.piece) := by
  obtain ⟨ds, blanks, rfl, hblanks, hlex⟩ := exists_lexes_of_tokens h
  rcases List.eq_nil_or_concat blanks with rfl | ⟨cs, c, rfl⟩
  · rwa [List.append_nil]
  · have hc := hlast c (by simp)
    rw [hblanks c (by simp)] at hc
    cases hc

end AnchorLayout
