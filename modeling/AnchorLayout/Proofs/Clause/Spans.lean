import AnchorLayout.Clause.Reader
import AnchorLayout.Proofs.Clause.Stretch
import AnchorLayout.Proofs.Text.Slicing
/-!
# Where the tokens of a text lie

  1. **Program** — `tokensFrom`, and `Token.stop`, the byte at which a token ends.
  2. **Specification** — `Placed`: the tokens lie one behind another from a byte on, with white space
     between them; `spelled`, the text that they take up; `isStray`, a character at which no token
     starts.
  3. **Slices** — a token is a slice of its text, and so is a stretch of tokens
     (`Placed.slice?_token`, `Placed.slice?_writtenText`).
  4. **The crux (`placed_of_tokens`)** — the text is spelt by its tokens and white space behind them,
     so every byte of it lies in a token or in white space.
-/

namespace AnchorLayout

open Reading

/-! ## Specification -/

/-- The byte at which a token ends. -/
def Token.stop (t : Token) : Nat := t.start + byteLength t.lexeme

/-- The text that tokens take up, with the white space in front of each. -/
def spelled (tokens : List Token) : List Char := tokens.flatMap fun t => t.blank ++ t.lexeme

/-- **Placed**: the tokens lie one behind another from a byte on. -/
inductive Placed : Nat → List Token → Prop
  | nil (start : Nat) : Placed start []
  | cons {start : Nat} {t : Token} {rest : List Token}
      (blanks : ∀ c ∈ t.blank, isAsciiBlank c = true)
      (cut : cut? t.lexeme = some (t.kind, t.lexeme)) (place : t.start = start + byteLength t.blank)
      (others : Placed t.stop rest) : Placed start (t :: rest)

/-- A character at which a token starts. -/
def startsToken (c : Char) : Bool := c.isDigit || startsName c || (Sign.ofChar? c).isSome

/-- **Stray**: neither white space nor the start of a token. -/
def isStray (c : Char) : Bool := !isAsciiBlank c && !startsToken c

/-! ## Single tokens -/

/-- A fraction is nothing, or a point and digits. -/
theorem fractionPart_eq_pointed (cs : List Char) :
    fractionPart cs = Magnitude.pointed (fractionPart cs).tail ∧
      ∀ c ∈ (fractionPart cs).tail, c.isDigit = true := by
  unfold fractionPart
  split
  · next d rest =>
    split
    · next hd =>
      rw [List.tail_cons, leadingDigits, List.takeWhile_cons_of_pos hd]
      refine ⟨rfl, fun c hc => ?_⟩
      rcases List.mem_cons.1 hc with rfl | hc
      · exact hd
      · exact List.mem_takeWhile_imp hc
    · exact ⟨rfl, fun _ hc => absurd hc List.not_mem_nil⟩
  · exact ⟨rfl, fun _ hc => absurd hc List.not_mem_nil⟩

/-- **What a token is**: a numeral, a name or a sign. -/
inductive Shape : TokenKind → List Char → Prop
  | number {value : Number} {whole fraction : List Char} (numeral : Number.IsNumeral whole fraction)
      (read : value = .ofDigits false whole fraction 0) :
      Shape (.number value) (whole ++ Magnitude.pointed fraction)
  | name {c : Char} {cs : List Char} (starts : startsName c = true)
      (continues : ∀ d ∈ cs, continuesName d = true) :
      Shape (.name (String.ofList (c :: cs))) (c :: cs)
  | sign {c : Char} {s : Sign} (char : Sign.ofChar? c = some s) : Shape (.sign s) [c]

/-- **Every token has its shape**: which one it is depends on the first character. -/
theorem shape_of_cut? {cs lexeme : List Char} {kind : TokenKind}
    (h : cut? cs = some (kind, lexeme)) : Shape kind lexeme := by
  have hne := (isPrefix_of_cut? h).2
  unfold cut? at h
  split at h
  · cases h
  · next c rest =>
    split at h
    · simp only [Option.some.injEq, Prod.mk.injEq] at h
      obtain ⟨rfl, rfl⟩ := h
      obtain ⟨hpointed, hdigits⟩ := fractionPart_eq_pointed (pastDigits (c :: rest))
      -- a point without digits on either side would have been no token
      have hnumeral : Number.IsNumeral (leadingDigits (c :: rest))
          (fractionPart (pastDigits (c :: rest))).tail := by
        refine ⟨fun d hd => List.mem_takeWhile_imp hd, hdigits, ?_⟩
        by_contra hnone
        obtain ⟨hwhole, hfraction⟩ := not_or.1 hnone
        rw [not_not] at hwhole hfraction
        rw [hpointed, hwhole, hfraction] at hne
        exact hne rfl
      have hshape := Shape.number hnumeral rfl
      rwa [← hpointed] at hshape
    · split at h
      · next hname =>
        simp only [Option.some.injEq, Prod.mk.injEq] at h
        obtain ⟨rfl, rfl⟩ := h
        exact .name hname fun d hd => List.mem_takeWhile_imp hd
      · obtain ⟨s, hs, hkind⟩ := Option.map_eq_some_iff.1 h
        simp only [Prod.mk.injEq] at hkind
        obtain ⟨rfl, rfl⟩ := hkind
        exact .sign hs

/-- The characters that go on with a token could start one too, so they are never stray. -/
theorem startsToken_of_isDigit {c : Char} (h : c.isDigit = true) : startsToken c = true := by
  rw [startsToken, h]
  rfl

theorem startsToken_of_continuesName {c : Char} (h : continuesName c = true) :
    startsToken c = true := by
  simp only [continuesName, Char.isAlphanum, startsToken, startsName, Bool.or_eq_true] at h ⊢
  tauto

/-- Every character of a token could start one. -/
theorem Shape.startsToken {kind : TokenKind} {lexeme : List Char} {c : Char}
    (h : Shape kind lexeme) (hc : c ∈ lexeme) : startsToken c = true := by
  cases h with
  | @number value whole fraction numeral =>
    rcases List.mem_append.1 hc with hc | hc
    · exact startsToken_of_isDigit (numeral.whole_digits c hc)
    · cases fraction with
      | nil => cases hc
      | cons d ds =>
        rcases List.mem_cons.1 hc with rfl | hc
        · rfl
        · exact startsToken_of_isDigit (numeral.fraction_digits c hc)
  | name starts continues =>
    rcases List.mem_cons.1 hc with rfl | hc
    · exact startsToken_of_continuesName (continuesName_of_startsName starts)
    · exact startsToken_of_continuesName (continues c hc)
  | sign char =>
    rw [List.mem_singleton.1 hc, AnchorLayout.startsToken, char]
    exact Bool.or_true _

/-- A numeral is read as the number that its token holds. -/
theorem Shape.parse?_number {x : Number} {lexeme : List Char} (h : Shape (.number x) lexeme) :
    Number.parse? (String.ofList lexeme) = some x := by
  cases h with
  | number numeral hread =>
    rw [hread]
    exact Number.parse?_of_isNumeral numeral

/-- The name of a token is its text. -/
theorem Shape.name_eq {name : String} {lexeme : List Char} (h : Shape (.name name) lexeme) :
    name = String.ofList lexeme := by
  cases h with
  | name => rfl

/-- **Where no token starts**: that is told from the character alone. -/
theorem cut?_eq_none_iff {c : Char} {rest : List Char} :
    cut? (c :: rest) = none ↔ startsToken c = false := by
  constructor
  · intro h
    unfold cut? at h
    simp only at h
    split at h
    · cases h
    · next hnumber =>
      split at h
      · cases h
      · next hname =>
        rw [startsToken, Bool.eq_false_iff.2 (fun hd => hnumber (Or.inl hd)),
          Bool.eq_false_iff.2 hname, Option.map_eq_none_iff.1 h]
        rfl
  · intro h
    cases hcut : cut? (c :: rest) with
    | none => rfl
    | some token =>
      obtain ⟨kind, lexeme⟩ := token
      obtain ⟨hfront, hne⟩ := isPrefix_of_cut? hcut
      obtain ⟨d, ds, rfl⟩ := List.exists_cons_of_ne_nil hne
      obtain rfl : d = c := (List.cons_prefix_cons.1 hfront).1
      rw [(shape_of_cut? hcut).startsToken List.mem_cons_self] at h
      cases h

/-! ## Tokens in a text -/

/-- The length of a stretch, token by token. -/
theorem byteLength_spelled_cons (t : Token) (rest : List Token) : byteLength (spelled (t :: rest)) =
    byteLength t.blank + byteLength t.lexeme + byteLength (spelled rest) := by
  rw [spelled, List.flatMap_cons, byteLength_append, byteLength_append]
  rfl

/-- **The tokens of a text** are placed in it, and spell it up to white space at its end. -/
theorem placed_of_tokens {start : Nat} {cs : List Char} {tokens : List Token}
    (h : tokensFrom start cs = .ok tokens) : Placed start tokens ∧ ∃ behind,
      cs = spelled tokens ++ behind ∧ ∀ c ∈ behind, isAsciiBlank c = true := by
  refine tokens_induction (motive := fun start cs tokens => Placed start tokens ∧ ∃ behind,
    cs = spelled tokens ++ behind ∧ ∀ c ∈ behind, isAsciiBlank c = true) ?blank ?step h
  case blank => exact fun start cs blanks => ⟨.nil start, cs, rfl, blanks⟩
  case step =>
    rintro start blank lexeme rest kind others blanks hcut ⟨hplaced, behind, rfl, hbehind⟩
    refine ⟨.cons blanks (cut?_alone hcut) rfl hplaced, behind, ?_, hbehind⟩
    simp only [spelled, List.flatMap_cons, List.append_assoc]

namespace Placed

variable {start : Nat} {tokens front rest : List Token} {t u : Token}

/-- The tokens behind some others are placed as well. -/
theorem drop (h : Placed start (front ++ rest)) :
    Placed (start + byteLength (spelled front)) rest := by
  induction front generalizing start with
  | nil => exact h
  | cons t front ih =>
    cases h with
    | cons blanks cut place others =>
      have hrest := ih others
      rwa [Token.stop, place, Nat.add_assoc start, Nat.add_assoc start,
        ← byteLength_spelled_cons] at hrest

/-- Tokens in front of some others are placed without them. -/
theorem before (h : Placed start (front ++ rest)) : Placed start front := by
  induction front generalizing start with
  | nil => exact .nil start
  | cons t front ih =>
    cases h with
    | cons blanks cut place others => exact .cons blanks cut place (ih others)

/-- Where a token starts is told by the tokens in front of it. -/
theorem start_eq (h : Placed start (front ++ t :: rest)) :
    t.start = start + byteLength (spelled front) + byteLength t.blank := by
  cases h.drop with
  | cons blanks cut place others => exact place

/-- A token is cut from its own text, so its shape is known. -/
theorem cut (h : Placed start tokens) (ht : t ∈ tokens) : cut? t.lexeme = some (t.kind, t.lexeme) := by
  obtain ⟨front, rest, rfl⟩ := List.append_of_mem ht
  cases h.drop with
  | cons blanks cut place others => exact cut

theorem start_lt_stop (h : Placed start tokens) (ht : t ∈ tokens) : t.start < t.stop :=
  Nat.lt_add_of_pos_right (byteLength_pos (isPrefix_of_cut? (h.cut ht)).2)

/-- No token starts before the place where they begin. -/
theorem le_start (h : Placed start tokens) (ht : t ∈ tokens) : start ≤ t.start := by
  obtain ⟨front, rest, rfl⟩ := List.append_of_mem ht
  rw [h.start_eq, Nat.add_assoc]
  exact Nat.le_add_right _ _

/-- **The spans** are in order and apart from each other. -/
theorem pairwise (h : Placed start tokens) : tokens.Pairwise fun t u => t.stop ≤ u.start := by
  induction h with
  | nil start => exact List.Pairwise.nil
  | cons blanks cut place others ih => exact List.pairwise_cons.2 ⟨fun u hu => others.le_start hu, ih⟩

/-! ## Slices -/

/-- A text is spelled stretch by stretch. -/
theorem spelled_append (first last : List Token) :
    spelled (first ++ last) = spelled first ++ spelled last := List.flatMap_append

/-- The text that an item is read from is what its tokens spell, without the white space in
front. -/
theorem spelled_eq_writtenText (t : Token) (rest : List Token) :
    spelled (t :: rest) = t.blank ++ (writtenText (t :: rest)).toList := by
  rw [writtenText, String.toList_ofList, spelled, List.flatMap_cons, List.append_assoc]

/-- Where a token ends is told by the tokens up to it. -/
theorem stop_eq (h : Placed start (front ++ t :: rest)) :
    t.stop = start + byteLength (spelled (front ++ [t])) := by
  rw [Token.stop, h.start_eq, spelled_append, byteLength_append, byteLength_spelled_cons]
  simp only [Nat.add_assoc]
  rfl

/-- A stretch of tokens ends where its text does. -/
theorem stop_last (item : List Token) (h : Placed start (front ++ (t :: item ++ rest)))
    (hlast : (t :: item).getLast? = some u) :
    u.stop = t.start + byteLength (writtenText (t :: item)).toList := by
  obtain ⟨init, hinit⟩ := List.getLast?_eq_some_iff.1 hlast
  have hplaced := h
  rw [hinit, List.append_assoc, ← List.append_assoc] at hplaced
  rw [hplaced.stop_eq, h.start_eq, List.append_assoc, ← hinit, spelled_append,
    spelled_eq_writtenText, byteLength_append, byteLength_append]
  simp only [Nat.add_assoc]

/-- **A stretch of tokens is a slice** of the text, from where the first one starts to where the last
one ends. -/
theorem slice?_writtenText (item : List Token) (behind : List Char)
    (h : Placed 0 (front ++ (t :: item ++ rest))) (hlast : (t :: item).getLast? = some u) :
    slice? (String.ofList (spelled (front ++ (t :: item ++ rest)) ++ behind)) t.start u.stop =
      some (writtenText (t :: item)) := by
  have hstart : t.start = byteLength (spelled front ++ t.blank) := by
    rw [h.start_eq, byteLength_append, Nat.zero_add]
  have hslice := slice?_append (spelled front ++ t.blank) (writtenText (t :: item)).toList
    (spelled rest ++ behind)
  rw [← hstart, ← h.stop_last item hlast, String.ofList_toList] at hslice
  rw [spelled_append, spelled_append, spelled_eq_writtenText]
  simp only [List.append_assoc] at hslice ⊢
  exact hslice

/-- **A token is a slice** of the text. -/
theorem slice?_token (behind : List Char) (h : Placed 0 tokens) (ht : t ∈ tokens) :
    slice? (String.ofList (spelled tokens ++ behind)) t.start t.stop =
      some (String.ofList t.lexeme) := by
  obtain ⟨front, rest, rfl⟩ := List.append_of_mem ht
  have hslice := slice?_writtenText [] behind h rfl
  rwa [writtenText, List.flatMap_nil, List.append_nil] at hslice

/-- No token ends behind the text. -/
theorem stop_le {behind : List Char} (h : Placed 0 tokens) (ht : t ∈ tokens) :
    t.stop ≤ byteLength (spelled tokens ++ behind) := by
  obtain ⟨front, rest, rfl⟩ := List.append_of_mem ht
  have hsplit : spelled (front ++ t :: rest) ++ behind =
      spelled (front ++ [t]) ++ (spelled rest ++ behind) := by
    rw [List.append_cons, spelled_append (front ++ [t]), List.append_assoc]
  rw [h.stop_eq, Nat.zero_add, hsplit, byteLength_append]
  exact Nat.le_add_right _ _

end Placed

/-! ## Between the tokens -/

/-- A character of two texts one behind the other belongs to one of them. -/
theorem append_eq_append_cons {as bs front back : List Char} {c : Char}
    (h : as ++ bs = front ++ c :: back) :
    (∃ more, as = front ++ c :: more) ∨ ∃ more, front = as ++ more ∧ bs = more ++ c :: back := by
  rcases List.append_eq_append_iff.1 h with ⟨more, hfront, hbs⟩ | ⟨more, has, hback⟩
  · exact Or.inr ⟨more, hfront, hbs⟩
  · cases more with
    | nil => exact Or.inr ⟨[], by rw [has, List.append_nil, List.append_nil], hback.symm⟩
    | cons d more =>
      obtain ⟨rfl, -⟩ := List.cons.inj hback
      exact Or.inl ⟨more, has⟩

/-- **Between the tokens** there is nothing but white space. -/
theorem Placed.blank_of_outside {start : Nat} {tokens : List Token} {behind front back : List Char}
    {c : Char} (h : Placed start tokens) (blanks : ∀ c ∈ behind, isAsciiBlank c = true)
    (split : spelled tokens ++ behind = front ++ c :: back)
    (outside : ∀ t ∈ tokens, ¬ (t.start ≤ start + byteLength front ∧
      start + byteLength front < t.stop)) : isAsciiBlank c = true := by
  induction h generalizing front with
  | nil start =>
    refine blanks c ?_
    rw [show behind = front ++ c :: back from split]
    exact List.mem_append_right _ List.mem_cons_self
  | @cons start t rest hblank cut place others ih =>
    rw [spelled, List.flatMap_cons, List.append_assoc, List.append_assoc] at split
    rcases append_eq_append_cons split with ⟨more, hmore⟩ | ⟨more, rfl, hsplit⟩
    · refine hblank c ?_
      rw [hmore]
      exact List.mem_append_right _ List.mem_cons_self
    rcases append_eq_append_cons hsplit with ⟨last, hlast⟩ | ⟨last, rfl, hothers⟩
    · -- it would lie within the token
      refine absurd ⟨?_, ?_⟩ (outside t List.mem_cons_self)
      · rw [place, byteLength_append]
        omega
      · have hlong := congrArg byteLength hlast
        have hsize := c.utf8Size_pos
        rw [byteLength_append, byteLength] at hlong
        rw [Token.stop, place, byteLength_append]
        omega
    · have hplace : start + byteLength (t.blank ++ (t.lexeme ++ last)) = t.stop + byteLength last := by
        rw [Token.stop, place, byteLength_append, byteLength_append]
        omega
      rw [hplace] at outside
      exact ih hothers fun u hu => outside u (List.mem_cons_of_mem t hu)

/-- **Where the reading of tokens fails**: at the first character that is stray. -/
theorem stray_of_tokens {start position : Nat} {cs : List Char} {c : Char}
    (h : tokensFrom start cs = .error (position, c)) : ∃ front back, cs = front ++ c :: back ∧
      position = start + byteLength front ∧ isStray c = true ∧ ∀ d ∈ front, isStray d = false := by
  have hblank {d : Char} (hd : isAsciiBlank d = true) : isStray d = false := by
    rw [isStray, hd]
    rfl
  induction cs using text_induction generalizing start with
  | blank cs blanks =>
    rw [tokensFrom_blank blanks] at h
    cases h
  | stray blank d rest blanks hd hcut =>
    rw [tokensFrom_stray blanks hd hcut] at h
    cases h
    refine ⟨blank, rest, rfl, rfl, ?_, fun d hd => hblank (blanks d hd)⟩
    rw [isStray, hd, cut?_eq_none_iff.1 hcut]
    rfl
  | step blank lexeme rest kind blanks hcut ih =>
    rw [tokensFrom_step blanks hcut] at h
    cases hrest : tokensFrom (start + byteLength blank + byteLength lexeme) rest with
    | ok others => rw [hrest] at h; cases h
    | error fault =>
      rw [hrest] at h
      cases h
      -- the stray character is further on, and no character of this token is one
      obtain ⟨front, back, rfl, rfl, hc, hfront⟩ := ih hrest
      refine ⟨blank ++ (lexeme ++ front), back, by simp only [List.append_assoc], ?_, hc, ?_⟩
      · rw [byteLength_append, byteLength_append, Nat.add_assoc, Nat.add_assoc]
      · intro d hd
        rcases List.mem_append.1 hd with hd | hd
        · exact hblank (blanks d hd)
        rcases List.mem_append.1 hd with hd | hd
        · rw [isStray, (shape_of_cut? hcut).startsToken hd]
          exact Bool.and_false _
        · exact hfront d hd

end AnchorLayout
