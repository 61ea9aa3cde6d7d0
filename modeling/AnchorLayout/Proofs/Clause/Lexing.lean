import AnchorLayout.Clause.Token
import AnchorLayout.Proofs.Number.Numeral
import Mathlib.Data.List.TakeWhile
/-!
# Texts are cut at their signs

  1. **Specification** — `Lexes`: a text and the pieces it falls into, wherever it stands.
  2. **Program** — `tokens_of_lexes`: the tokens of a text are the pieces that it falls into.
  3. **Single tokens** — `cut?_name`, `cut?_numeral`, `cut?_sign`.
  4. **The crux (`Lexes.append`)** — a sign other than the point ends every token before it and
     begins none after it, so the text on either side can be cut by itself.
-/

namespace AnchorLayout

/-- What a token is, wherever it stands. -/
structure Piece where
  kind : TokenKind
  lexeme : List Char
  blank : List Char

/-- A token without its place. -/
def Token.piece (t : Token) : Piece := ⟨t.kind, t.lexeme, t.blank⟩

/-- **Cut**: the text falls into the pieces, and ends with the last of them. -/
inductive Lexes : List Char → List Piece → Prop
  | done : Lexes [] []
  | step {kind : TokenKind} {blank lexeme rest : List Char} {pieces : List Piece}
      (blanks : ∀ c ∈ blank, isAsciiBlank c = true)
      (cut : cut? (lexeme ++ rest) = some (kind, lexeme)) (others : Lexes rest pieces) :
      Lexes (blank ++ (lexeme ++ rest)) (⟨kind, lexeme, blank⟩ :: pieces)

/-! ## Classes of characters -/

/-- Signs, names and numbers begin with different characters, so the first one tells which reader
cuts the token. -/
theorem isDigit_of_sign {c : Char} {s : Sign} (h : Sign.ofChar? c = some s) :
    c.isDigit = false := by
  unfold Sign.ofChar? at h
  split at h <;> first | rfl | cases h

theorem continuesName_of_sign {c : Char} {s : Sign} (h : Sign.ofChar? c = some s) :
    continuesName c = false := by
  unfold Sign.ofChar? at h
  split at h <;> first | rfl | cases h

theorem continuesName_of_startsName {c : Char} (h : startsName c = true) :
    continuesName c = true := by
  simp only [startsName, continuesName, Char.isAlphanum, Bool.or_eq_true] at h ⊢
  rcases h with h | h
  · exact Or.inl (Or.inl h)
  · exact Or.inr h

/-- Space, tab, line feed, form feed and carriage return start no token. -/
theorem cut?_of_blank {c : Char} (h : isAsciiBlank c = true) (rest : List Char) :
    cut? (c :: rest) = none := by
  simp only [isAsciiBlank, Bool.or_eq_true, decide_eq_true_eq] at h
  rcases h with (((rfl | rfl) | rfl) | rfl) | rfl <;> rfl

/-- A token does not begin with white space. -/
theorem isAsciiBlank_of_cut? {c : Char} {rest lexeme : List Char} {kind : TokenKind}
    (h : cut? (c :: rest) = some (kind, lexeme)) : isAsciiBlank c = false := by
  by_contra hblank
  rw [cut?_of_blank (by simpa using hblank)] at h
  cases h

/-! ## Tokens and pieces -/

/-- The tokens of a text that begins with white space and a token. -/
theorem tokensFrom_step {kind : TokenKind} {blank lexeme rest : List Char}
    (blanks : ∀ c ∈ blank, isAsciiBlank c = true)
    (cut : cut? (lexeme ++ rest) = some (kind, lexeme)) (start : Nat) :
    tokensFrom start (blank ++ (lexeme ++ rest)) =
      (tokensFrom (start + byteLength blank + byteLength lexeme) rest).map
        fun others => ⟨kind, lexeme, blank, start + byteLength blank⟩ :: others := by
  obtain ⟨c, cs, hcs⟩ : ∃ c cs, lexeme ++ rest = c :: cs := by
    refine List.exists_cons_of_ne_nil fun hnil => ?_
    rw [hnil] at cut
    cases cut
  have hc : isAsciiBlank c = false := by
    rw [hcs] at cut
    exact isAsciiBlank_of_cut? cut
  -- the white space is all of what is passed over, since a token does not begin with any
  have htake : (blank ++ (lexeme ++ rest)).takeWhile isAsciiBlank = blank := by
    rw [hcs, List.takeWhile_append_of_pos blanks, List.takeWhile_cons_of_neg (by simp [hc]),
      List.append_nil]
  have hdrop : (blank ++ (lexeme ++ rest)).dropWhile isAsciiBlank = c :: cs := by
    rw [hcs, List.dropWhile_append_of_pos blanks, List.dropWhile_cons_of_neg (by simp [hc])]
  have hrest : (c :: cs).drop lexeme.length = rest := by
    rw [← hcs, List.drop_left]
  rw [hcs] at cut
  rw [tokensFrom, htake]
  split
  · next hleft =>
    rw [hdrop] at hleft
    cases hleft
  · next hleft =>
    rw [hdrop] at hleft
    cases hleft
    split
    · next hnone =>
      rw [cut] at hnone
      cases hnone
    · next hsome =>
      rw [cut] at hsome
      cases hsome
      rw [hrest]

/-- White space holds no token. -/
theorem tokensFrom_blank {cs : List Char} (blanks : ∀ c ∈ cs, isAsciiBlank c = true)
    (start : Nat) : tokensFrom start cs = .ok [] := by
  rw [tokensFrom]
  split
  · rfl
  · next hcons =>
    rw [List.dropWhile_eq_nil_iff.2 blanks] at hcons
    cases hcons

/-- A character that starts no token, behind white space. -/
theorem tokensFrom_stray {c : Char} {blank rest : List Char}
    (blanks : ∀ c ∈ blank, isAsciiBlank c = true) (hc : isAsciiBlank c = false)
    (hcut : cut? (c :: rest) = none) (start : Nat) :
    tokensFrom start (blank ++ c :: rest) = .error (start + byteLength blank, c) := by
  have htake : (blank ++ c :: rest).takeWhile isAsciiBlank = blank := by
    rw [List.takeWhile_append_of_pos blanks, List.takeWhile_cons_of_neg (by simp [hc]),
      List.append_nil]
  have hdrop : (blank ++ c :: rest).dropWhile isAsciiBlank = c :: rest := by
    rw [List.dropWhile_append_of_pos blanks, List.dropWhile_cons_of_neg (by simp [hc])]
  rw [tokensFrom, htake]
  split
  · next hleft =>
    rw [hdrop] at hleft
    cases hleft
  · next hleft =>
    rw [hdrop] at hleft
    cases hleft
    split
    · rfl
    · next hsome =>
      rw [hcut] at hsome
      cases hsome

/-- **Induction** over a text, token by token. -/
theorem text_induction {motive : List Char → Prop}
    (blank : ∀ cs, (∀ c ∈ cs, isAsciiBlank c = true) → motive cs)
    (stray : ∀ blank c rest, (∀ c ∈ blank, isAsciiBlank c = true) → isAsciiBlank c = false →
      cut? (c :: rest) = none → motive (blank ++ c :: rest))
    (step : ∀ blank lexeme rest kind, (∀ c ∈ blank, isAsciiBlank c = true) →
      cut? (lexeme ++ rest) = some (kind, lexeme) → motive rest →
        motive (blank ++ (lexeme ++ rest)))
    (cs : List Char) : motive cs := by
  suffices h : ∀ (_start : Nat) (cs : List Char), motive cs from h 0 cs
  intro start cs
  induction start, cs using tokensFrom.induct with
  | case1 start cs hleft => exact blank cs (List.dropWhile_eq_nil_iff.1 hleft)
  | case2 start cs c rest hleft hcut =>
    rw [← List.takeWhile_append_dropWhile (p := isAsciiBlank) (l := cs), hleft]
    refine stray _ c rest (fun d hd => List.mem_takeWhile_imp hd) ?_ hcut
    have hhead := List.head?_dropWhile_not isAsciiBlank cs
    rw [hleft] at hhead
    simpa using hhead
  | case3 start cs blanks begin c rest hleft kind lexeme hcut ih =>
    obtain ⟨⟨others, hothers⟩, -⟩ := isPrefix_of_cut? hcut
    rw [← hothers] at hcut
    rw [← hothers, List.drop_left] at ih
    rw [← List.takeWhile_append_dropWhile (p := isAsciiBlank) (l := cs), hleft, ← hothers]
    exact step _ lexeme others kind (fun d hd => List.mem_takeWhile_imp hd) hcut ih

/-- **Induction over the tokens of a text**: none of them in white space, and otherwise one in front
of those of what is left. -/
theorem tokens_induction {motive : Nat → List Char → List Token → Prop}
    (blank : ∀ start cs, (∀ c ∈ cs, isAsciiBlank c = true) → motive start cs [])
    (step : ∀ start blank lexeme rest kind tokens, (∀ c ∈ blank, isAsciiBlank c = true) →
      cut? (lexeme ++ rest) = some (kind, lexeme) →
        motive (start + byteLength blank + byteLength lexeme) rest tokens →
          motive start (blank ++ (lexeme ++ rest))
            (⟨kind, lexeme, blank, start + byteLength blank⟩ :: tokens))
    {start : Nat} {cs : List Char} {tokens : List Token} (h : tokensFrom start cs = .ok tokens) :
    motive start cs tokens := by
  induction cs using text_induction generalizing start tokens with
  | blank cs blanks =>
    rw [tokensFrom_blank blanks] at h
    cases h
    exact blank start cs blanks
  | stray blank c rest blanks hc hcut =>
    rw [tokensFrom_stray blanks hc hcut] at h
    cases h
  | step front lexeme rest kind blanks hcut ih =>
    rw [tokensFrom_step blanks hcut] at h
    cases hrest : tokensFrom (start + byteLength front + byteLength lexeme) rest with
    | error fault => rw [hrest] at h; cases h
    | ok others =>
      rw [hrest] at h
      cases h
      exact step start front lexeme rest kind others blanks hcut (ih hrest)

/-- **What is cut into pieces is cut into tokens** that have these pieces, wherever the text
starts. -/
theorem tokens_of_lexes {cs : List Char} {pieces : List Piece} (h : Lexes cs pieces)
    (start : Nat) :
    ∃ tokens, tokensFrom start cs = .ok tokens ∧ tokens.map Token.piece = pieces := by
  induction h generalizing start with
  | done => exact ⟨[], by rw [tokensFrom]; rfl, rfl⟩
  | @step kind blank lexeme rest pieces blanks cut others ih =>
    obtain ⟨tokens, htokens, hpieces⟩ := ih (start + byteLength blank + byteLength lexeme)
    refine ⟨⟨kind, lexeme, blank, start + byteLength blank⟩ :: tokens, ?_, ?_⟩
    · rw [tokensFrom_step blanks cut, htokens]
      rfl
    · rw [List.map_cons, hpieces]
      rfl

/-! ## Before a sign -/

/-- A character that does not go on with a stretch ends it, whatever comes behind. -/
theorem takeWhile_append_stop {p : Char → Bool} {c : Char} (h : p c = false)
    (cs rest : List Char) : (cs ++ c :: rest).takeWhile p = cs.takeWhile p := by
  induction cs with
  | nil => simp [h]
  | cons d cs ih => by_cases hd : p d = true <;> simp [hd, ih]

theorem dropWhile_append_stop {p : Char → Bool} {c : Char} (h : p c = false)
    (cs rest : List Char) : (cs ++ c :: rest).dropWhile p = cs.dropWhile p ++ c :: rest := by
  induction cs with
  | nil => simp [h]
  | cons d cs ih => by_cases hd : p d = true <;> simp [hd, ih]

/-- The fraction of a number is ended by any character but a digit or a point. -/
theorem fractionPart_append_stop {c : Char} (hdigit : c.isDigit = false) (hdot : c ≠ '.')
    (cs rest : List Char) : fractionPart (cs ++ c :: rest) = fractionPart cs := by
  match cs with
  | [] =>
    cases rest with
    | nil => simp [fractionPart]
    | cons d rest => simp [fractionPart, hdot]
  -- a single character in front of the stop is no fraction, not even a point
  | [d] =>
    simp only [List.cons_append, List.nil_append]
    rw [show fractionPart [d] = [] by unfold fractionPart; split <;> simp_all]
    unfold fractionPart
    split
    · next heq => cases heq; simp [hdigit]
    · rfl
  | d :: e :: cs =>
    simp only [List.cons_append]
    unfold fractionPart
    split
    · next heq =>
      cases heq
      have hstop := takeWhile_append_stop hdigit (e :: cs) rest
      simp only [leadingDigits, List.cons_append] at hstop ⊢
      rw [hstop]
    · next hne =>
      split
      · next heq => cases heq; exact absurd rfl (hne e _)
      · rfl

/-- A character that is neither a digit nor a point nor part of a name ends the token before it. -/
theorem cut?_append_end {c : Char} (hdigit : c.isDigit = false) (hcontinues : continuesName c = false)
    (hdot : c ≠ '.') {cs : List Char} (hne : cs ≠ []) (rest : List Char) :
    cut? (cs ++ c :: rest) = cut? cs := by
  cases cs with
  | nil => exact absurd rfl hne
  | cons d cs =>
    have hfraction := fractionPart_append_stop hdigit hdot (d :: cs) rest
    have hwhole := takeWhile_append_stop hdigit (d :: cs) rest
    have hpast := dropWhile_append_stop hdigit (d :: cs) rest
    have hpastFraction := fractionPart_append_stop hdigit hdot (pastDigits (d :: cs)) rest
    have hname := takeWhile_append_stop hcontinues cs rest
    unfold cut?
    simp only [List.cons_append, leadingDigits, pastDigits] at *
    rw [hfraction, hwhole, hpast, hpastFraction, hname]

/-- **A sign other than the point ends the token before it.** -/
theorem cut?_append_stop {c : Char} {s : Sign} (hc : Sign.ofChar? c = some s) (hdot : c ≠ '.')
    {cs : List Char} (hne : cs ≠ []) (rest : List Char) : cut? (cs ++ c :: rest) = cut? cs :=
  cut?_append_end (isDigit_of_sign hc) (continuesName_of_sign hc) hdot hne rest

/-! ## Single tokens -/

/-- The piece of a sign. -/
def Piece.ofSign (s : Sign) (c : Char) : Piece := ⟨.sign s, [c], []⟩

/-- The piece of a name. -/
def Piece.ofName (cs : List Char) : Piece := ⟨.name (String.ofList cs), cs, []⟩

/-- **A sign is cut off** before anything, if it is not the point. -/
theorem cut?_sign {c : Char} {s : Sign} (hc : Sign.ofChar? c = some s) (hdot : c ≠ '.')
    (rest : List Char) : cut? (c :: rest) = some (.sign s, [c]) := by
  have hdigit := isDigit_of_sign hc
  have hfraction := fractionPart_append_stop hdigit hdot [] rest
  have hname : startsName c = false := by
    by_contra hstart
    have hgoes := continuesName_of_startsName (by simpa using hstart)
    rw [continuesName_of_sign hc] at hgoes
    cases hgoes
  unfold cut?
  simp only [List.nil_append] at hfraction
  simp only [hdigit, hfraction, hname, hc]
  rfl

theorem isDigit_of_startsName {c : Char} (h : startsName c = true) : c.isDigit = false := by
  by_contra hdigit
  rw [Bool.not_eq_false] at hdigit
  have hnine := UInt32.le_iff_toNat_le.1 (of_decide_eq_true (Bool.and_eq_true_iff.1 hdigit).2)
  rcases Bool.or_eq_true_iff.1 h with hletter | hunderscore
  · rcases Bool.or_eq_true_iff.1 hletter with hupper | hlower
    · have hA := UInt32.le_iff_toNat_le.1 (of_decide_eq_true hupper).1
      have hgap : '9'.val.toNat < 'A'.val.toNat := by decide
      omega
    · have ha := UInt32.le_iff_toNat_le.1 (of_decide_eq_true (Bool.and_eq_true_iff.1 hlower).1)
      have hgap : '9'.val.toNat < 'a'.val.toNat := by decide
      omega
  · rw [beq_iff_eq.1 hunderscore] at hdigit
    cases hdigit

/-- **A name is cut off** before anything that does not go on with it. -/
theorem cut?_name {c : Char} {cs rest : List Char} (hc : startsName c = true)
    (hcs : ∀ d ∈ cs, continuesName d = true) (hrest : rest.takeWhile continuesName = []) :
    cut? (c :: cs ++ rest) = some (.name (String.ofList (c :: cs)), c :: cs) := by
  have hdigit := isDigit_of_startsName hc
  have hdot : c ≠ '.' := by
    rintro rfl
    cases hc
  have hfraction : fractionPart (c :: (cs ++ rest)) = [] := by
    unfold fractionPart
    split
    · next heq => exact absurd (List.cons.inj heq).1 hdot
    · rfl
  unfold cut?
  simp only [List.cons_append, hdigit, hfraction, hc]
  rw [List.takeWhile_append_of_pos hcs, hrest, List.append_nil]
  rfl

/-- The fraction that was written is the one that is read. -/
theorem fractionPart_pointed {fraction rest : List Char}
    (hdigits : ∀ c ∈ fraction, c.isDigit = true)
    (hrest : ∀ c, rest.head? = some c → c.isDigit = false ∧ c ≠ '.') :
    fractionPart (Magnitude.pointed fraction ++ rest) = Magnitude.pointed fraction := by
  have hstop : leadingDigits rest = [] := by
    cases rest with
    | nil => rfl
    | cons c rest => exact List.takeWhile_cons_of_neg (by simp [(hrest c rfl).1])
  cases fraction with
  | nil =>
    show fractionPart rest = []
    unfold fractionPart
    split
    · exact absurd rfl (hrest _ rfl).2
    · rfl
  | cons c cs =>
    have hc : c.isDigit = true := hdigits c List.mem_cons_self
    show (if c.isDigit = true then '.' :: leadingDigits (c :: cs ++ rest) else []) = _
    rw [if_pos hc, leadingDigits_append hdigits hstop]
    rfl

/-- **A numeral is cut whole** where neither a digit nor a point follows. -/
theorem cut?_numeral {whole fraction rest : List Char} (h : Number.IsNumeral whole fraction)
    (hrest : ∀ c, rest.head? = some c → c.isDigit = false ∧ c ≠ '.') :
    cut? (whole ++ Magnitude.pointed fraction ++ rest) =
      some (.number (.ofDigits false whole fraction 0), whole ++ Magnitude.pointed fraction) := by
  have hfraction := fractionPart_pointed h.fraction_digits hrest
  have hstop : leadingDigits (Magnitude.pointed fraction ++ rest) = [] := by
    cases fraction with
    | cons c cs => rfl
    | nil =>
      cases rest with
      | nil => rfl
      | cons c rest => exact List.takeWhile_cons_of_neg (by simp [(hrest c rfl).1])
  have hwhole := leadingDigits_append h.whole_digits hstop
  have hpast := pastDigits_append h.whole_digits hstop
  have htail : (Magnitude.pointed fraction).tail = fraction := by
    cases fraction <;> rfl
  obtain ⟨c, cs, hcs, hc⟩ := Number.head_of_isNumeral h
  have hbegins : c.isDigit = true ∨ fractionPart (c :: (cs ++ rest)) ≠ [] := by
    refine hc.imp_right ?_
    rintro rfl
    -- a point in front means that there is nothing but the fraction
    cases whole with
    | nil =>
      rw [← List.cons_append, ← hcs, List.nil_append, hfraction]
      rw [List.nil_append] at hcs
      rw [hcs]
      exact List.cons_ne_nil _ _
    | cons d ds =>
      have hd := h.whole_digits d List.mem_cons_self
      rw [(List.cons.inj hcs).1] at hd
      cases hd
  have hcons : whole ++ (Magnitude.pointed fraction ++ rest) = c :: (cs ++ rest) := by
    rw [← List.append_assoc, hcs, List.cons_append]
  rw [List.append_assoc]
  unfold cut?
  simp only [hcons] at hwhole hpast ⊢
  rw [if_pos hbegins, hwhole, hpast, hfraction, htail]

/-! ## Composition -/

/-- The piece of a number without its sign. -/
def Piece.ofNumber (m : Magnitude) (whole fraction : List Char) : Piece :=
  ⟨.number (.finite false m), whole ++ Magnitude.pointed fraction, []⟩

namespace Lexes

variable {cs rest : List Char} {ps qs : List Piece} {c : Char} {s : Sign}

theorem blanks_nil : ∀ c ∈ ([] : List Char), isAsciiBlank c = true := nofun

/-- A sign in front of what is cut already. -/
theorem sign (hc : Sign.ofChar? c = some s) (hdot : c ≠ '.') (h : Lexes rest qs) :
    Lexes (c :: rest) (Piece.ofSign s c :: qs) := by
  have hcut : cut? ([c] ++ rest) = some (.sign s, [c]) := cut?_sign hc hdot rest
  exact step blanks_nil hcut h

/-- The point is a sign where no digit follows. -/
theorem dot {d : Char} (hd : d.isDigit = false) (h : Lexes (d :: rest) qs) :
    Lexes ('.' :: d :: rest) (Piece.ofSign .dot '.' :: qs) := by
  have hcut : cut? (['.'] ++ d :: rest) = some (.sign .dot, ['.']) := by
    have hfraction : fractionPart ('.' :: d :: rest) = [] := by simp [fractionPart, hd]
    show cut? ('.' :: d :: rest) = some (.sign .dot, ['.'])
    unfold cut?
    simp only [hfraction]
    rfl
  exact step blanks_nil hcut h

/-- A name in front of it, if the text behind does not go on with the name. -/
theorem name (hc : startsName c = true) (hcs : ∀ d ∈ cs, continuesName d = true)
    (hrest : rest.takeWhile continuesName = []) (h : Lexes rest qs) :
    Lexes (c :: cs ++ rest) (Piece.ofName (c :: cs) :: qs) :=
  step blanks_nil (cut?_name hc hcs hrest) h

/-- A number in front of it, if the text behind does not go on with the number. -/
theorem number {m : Magnitude} {whole fraction : List Char} (hm : m.Spelt whole fraction)
    (hrest : ∀ c, rest.head? = some c → c.isDigit = false ∧ c ≠ '.') (h : Lexes rest qs) :
    Lexes (whole ++ Magnitude.pointed fraction ++ rest)
      (Piece.ofNumber m whole fraction :: qs) := by
  have hcut := cut?_numeral (Number.isNumeral_of_spelt hm) hrest
  rw [Number.ofDigits_of_spelt hm] at hcut
  exact step blanks_nil hcut h

/-- **A sign other than the point separates**: what stands before it and what stands behind it are
cut as if they stood alone. -/
theorem append (h : Lexes cs ps) (hc : Sign.ofChar? c = some s) (hdot : c ≠ '.')
    (h' : Lexes rest qs) : Lexes (cs ++ c :: rest) (ps ++ Piece.ofSign s c :: qs) := by
  induction h with
  | done => exact sign hc hdot h'
  | @step kind blank lexeme cs ps blanks cut others ih =>
    have hne : lexeme ++ cs ≠ [] := fun hnil =>
      (isPrefix_of_cut? cut).2 (List.append_eq_nil_iff.1 hnil).1
    have hcut := (cut?_append_stop hc hdot hne rest).trans cut
    rw [List.append_assoc] at hcut
    have hstep := step blanks hcut ih
    rwa [← List.append_assoc lexeme, ← List.append_assoc blank] at hstep

end Lexes

end AnchorLayout
