import AnchorLayout.Proofs.Clause.Locality
/-!
# Clauses are read independently

  1. **Program** — `clauses?`, which reads clauses one after the other and wants a semicolon or the
     end behind each of them.
  2. **Specification** — `rulesOf?`: the pieces of a text are split at the semicolons, and each
     stretch between two of them is empty or one clause by itself.
  3. **Texts** — `pieces?_append`: a semicolon splits a text in two that are cut by themselves.
  4. **The crux (`clauses_run`)** — what `clauses` reads from some tokens is `rulesOf?` of their
     pieces, whatever their places and with any fuel that suffices.
-/

namespace AnchorLayout

open Reading

/-! ## Specification -/

/-- The pieces of a text, if it is made of tokens. -/
def pieces? (cs : List Char) : Option (List Piece) :=
  (tokensFrom 0 cs).toOption.map (List.map Token.piece)

/-- The mark between two clauses. -/
def Piece.isBreak (p : Piece) : Bool := p.kind == .sign .semicolon

/-- A token of the piece, at the start of a text. -/
def Piece.token (p : Piece) : Token := ⟨p.kind, p.lexeme, p.blank, 0⟩

/-- The rule of a clause, if nothing is left behind it. -/
def completeRule? : Except LocatedFault (Constraint × List Token) → Option (List Constraint)
  | .ok (rule, []) => some [rule]
  | _ => none

/-- The rules of one stretch: none if it is empty, or that of the clause that it is. -/
def stretchRules? : List Piece → Option (List Constraint)
  | [] => some []
  | p :: ps => completeRule? (clause.run ((p :: ps).map Piece.token))

/-- **The rules of a text**, stretch by stretch. -/
def rulesOf? (ps : List Piece) : Option (List Constraint) :=
  ((ps.splitOnP Piece.isBreak).mapM stretchRules?).map List.flatten

/-! ## Texts -/

/-- White space has no pieces. -/
theorem pieces?_blank {cs : List Char} (blanks : ∀ c ∈ cs, isAsciiBlank c = true) :
    pieces? cs = some [] := by
  unfold pieces?
  rw [tokensFrom_blank blanks]
  rfl

theorem pieces?_stray {c : Char} {blank rest : List Char}
    (blanks : ∀ c ∈ blank, isAsciiBlank c = true) (hc : isAsciiBlank c = false)
    (hcut : cut? (c :: rest) = none) : pieces? (blank ++ c :: rest) = none := by
  unfold pieces?
  rw [tokensFrom_stray blanks hc hcut]
  rfl

/-- **The pieces of a text do not depend on where it starts.** -/
theorem pieces?_of_start (start : Nat) (cs : List Char) :
    (tokensFrom start cs).toOption.map (List.map Token.piece) = pieces? cs := by
  have hany : ∀ start', (tokensFrom start cs).toOption.map (List.map Token.piece) =
      (tokensFrom start' cs).toOption.map (List.map Token.piece) := by
    intro start'
    induction cs using text_induction generalizing start start' with
    | blank cs blanks => rw [tokensFrom_blank blanks, tokensFrom_blank blanks]
    | stray blank c rest blanks hc hcut =>
      rw [tokensFrom_stray blanks hc hcut, tokensFrom_stray blanks hc hcut]
      rfl
    | step blank lexeme rest kind blanks hcut ih =>
      have hstep : ∀ start, (tokensFrom start (blank ++ (lexeme ++ rest))).toOption.map
          (List.map Token.piece) =
            ((tokensFrom (start + byteLength blank + byteLength lexeme) rest).toOption.map
              (List.map Token.piece)).map (⟨kind, lexeme, blank⟩ :: ·) := by
        intro start
        rw [tokensFrom_step blanks hcut]
        cases tokensFrom (start + byteLength blank + byteLength lexeme) rest <;> rfl
      rw [hstep, hstep, ih _ (start' + byteLength blank + byteLength lexeme)]
  exact hany 0

/-- A token in front is a piece in front. -/
theorem pieces?_step {kind : TokenKind} {blank lexeme rest : List Char}
    (blanks : ∀ c ∈ blank, isAsciiBlank c = true)
    (cut : cut? (lexeme ++ rest) = some (kind, lexeme)) :
    pieces? (blank ++ (lexeme ++ rest)) = (pieces? rest).map (⟨kind, lexeme, blank⟩ :: ·) := by
  rw [← pieces?_of_start (0 + byteLength blank + byteLength lexeme) rest]
  unfold pieces?
  rw [tokensFrom_step blanks cut]
  cases tokensFrom (0 + byteLength blank + byteLength lexeme) rest <;> rfl

/-- **A semicolon splits a text** in two that are cut by themselves. -/
theorem pieces?_append (cs : List Char) : ∃ blank, ∀ ds, pieces? (cs ++ ';' :: ds) =
    (pieces? cs).bind fun ps => (pieces? ds).map fun qs =>
      ps ++ ⟨.sign .semicolon, [';'], blank⟩ :: qs := by
  -- the semicolon is never part of the token in front of it
  have hstop : ∀ {cs : List Char}, cs ≠ [] → ∀ ds, cut? (cs ++ ';' :: ds) = cut? cs :=
    fun hne ds => cut?_append_stop rfl (by decide) hne ds
  induction cs using text_induction with
  | blank cs blanks =>
    -- white space at the end of the first text goes to the semicolon
    refine ⟨cs, fun ds => ?_⟩
    have hcut : cut? ([';'] ++ ds) = some (.sign .semicolon, [';']) :=
      cut?_sign rfl (by decide) ds
    rw [pieces?_blank blanks, Option.bind_some]
    exact pieces?_step blanks hcut
  | stray blank c rest blanks hc hcut =>
    refine ⟨[], fun ds => ?_⟩
    have hcut' : cut? (c :: (rest ++ ';' :: ds)) = none :=
      (hstop (List.cons_ne_nil c rest) ds).trans hcut
    rw [pieces?_stray blanks hc hcut, Option.bind_none, List.append_assoc, List.cons_append]
    exact pieces?_stray blanks hc hcut'
  | step blank lexeme rest kind blanks hcut ih =>
    obtain ⟨mark, hmark⟩ := ih
    refine ⟨mark, fun ds => ?_⟩
    have hne : lexeme ++ rest ≠ [] := fun hnil =>
      (isPrefix_of_cut? hcut).2 (List.append_eq_nil_iff.1 hnil).1
    have hcut' := (hstop hne ds).trans hcut
    rw [List.append_assoc] at hcut'
    rw [List.append_assoc, List.append_assoc, pieces?_step blanks hcut', pieces?_step blanks hcut,
      hmark]
    cases pieces? rest with
    | none => rfl
    | some ps => cases pieces? ds <;> rfl

/-! ## Stretches -/

/-- A break splits the rules as it splits the pieces. -/
theorem rulesOf?_append (ps qs : List Piece) {q : Piece} (hq : q.isBreak = true) :
    rulesOf? (ps ++ q :: qs) =
      (rulesOf? ps).bind fun first => (rulesOf? qs).map (first ++ ·) := by
  unfold rulesOf?
  rw [List.splitOnP_append_cons ps qs hq, List.mapM_append]
  cases (ps.splitOnP Piece.isBreak).mapM stretchRules? with
  | none => rfl
  | some first =>
    cases (qs.splitOnP Piece.isBreak).mapM stretchRules? with
    | none => rfl
    | some last => exact congrArg some List.flatten_append

/-- Where there is no break there is one stretch. -/
theorem rulesOf?_stretch {ps : List Piece} (h : ∀ p ∈ ps, p.isBreak = false) :
    rulesOf? ps = stretchRules? ps := by
  unfold rulesOf?
  rw [List.splitOnP_eq_singleton h, List.mapM_cons, List.mapM_nil]
  cases stretchRules? ps with
  | none => rfl
  | some rules => exact congrArg some (List.append_nil rules)

/-! ## Clauses one after the other -/

/-- The tokens that are left begin with a stretch, up to the end of its clause. -/
theorem exists_stretch (tokens : List Token) :
    ∃ s after, tokens = s ++ after ∧ Unended s ∧ EndsClause after := by
  induction tokens with
  | nil => exact ⟨[], [], rfl, unended_nil, Or.inl rfl⟩
  | cons t tokens ih =>
    by_cases ht : t.kind = .sign .semicolon
    · exact ⟨[], t :: tokens, rfl, unended_nil, Or.inr (congrArg some ht)⟩
    · obtain ⟨s, after, rfl, hunended, hafter⟩ := ih
      exact ⟨t :: s, after, rfl, (unended_singleton ht).append hunended, hafter⟩

/-- A clause that does not end with the text ends with a semicolon. -/
theorem kind_of_endsClause {t : Token} {rest : List Token} (h : EndsClause (t :: rest)) :
    t.kind = .sign .semicolon := by
  rcases h with hnil | hhead
  · cases hnil
  · exact Option.some.inj hhead

/-- A stretch has no break in it. -/
theorem isBreak_eq_false {s : List Token} (h : Unended s) :
    ∀ p ∈ s.map Token.piece, p.isBreak = false := by
  intro p hp
  obtain ⟨t, ht, rfl⟩ := List.mem_map.1 hp
  exact beq_eq_false_iff_ne.2 (h t ht)

/-- The rules of a stretch, and then those of what stands behind its end. -/
theorem rulesOf?_stretch_append {s after : List Token} (hunended : Unended s)
    (hafter : EndsClause after) : rulesOf? (s.map Token.piece ++ after.map Token.piece) =
      (stretchRules? (s.map Token.piece)).bind fun first =>
        (rulesOf? (after.tail.map Token.piece)).map (first ++ ·) := by
  rw [← rulesOf?_stretch (isBreak_eq_false hunended)]
  cases after with
  | nil =>
    rw [List.map_nil, List.append_nil]
    cases rulesOf? (s.map Token.piece) with
    | none => rfl
    | some rules => exact congrArg some (List.append_nil rules).symm
  | cons u after =>
    exact rulesOf?_append _ _ (beq_iff_eq.2 (kind_of_endsClause hafter))

/-- **A clause and what is left of its stretch**: read among other clauses, it is read as it is by
itself, and it is a fault in both places to leave something. -/
theorem clause_run {s after : List Token} (hunended : Unended s) (hne : s ≠ [])
    (hafter : EndsClause after) :
    (∃ rule, clause.run (s ++ after) = .ok (rule, after) ∧
      stretchRules? (s.map Token.piece) = some [rule]) ∨
    (((∃ fault, clause.run (s ++ after) = .error fault) ∨
      ∃ rule t left, clause.run (s ++ after) = .ok (rule, t :: left) ∧
        t.kind ≠ .sign .semicolon) ∧ stretchRules? (s.map Token.piece) = none) := by
  obtain ⟨t, s, rfl⟩ := List.exists_cons_of_ne_nil hne
  have halike : Alike (t :: s) (((t :: s).map Token.piece).map Piece.token) := by
    unfold Alike
    rw [List.map_map, List.map_map]
    rfl
  have hagree := agree_clause _ _ halike hunended (Nat.le_refl (t :: s).length) after [] hafter
    (Or.inl rfl)
  rw [List.append_nil, List.map_cons] at hagree
  rw [List.map_cons, stretchRules?]
  generalize hrun : clause.run ((t :: s) ++ after) = r at hagree
  generalize hrun' : clause.run ((t.piece :: s.map Token.piece).map Piece.token) = r' at hagree
  cases hagree with
  | fault fault fault' => exact Or.inr ⟨Or.inl ⟨fault, rfl⟩, rfl⟩
  | @value rule left left' alike unended short =>
    cases left with
    | nil =>
      obtain rfl := List.length_eq_zero_iff.1 alike.length.symm
      exact Or.inl ⟨rule, rfl, rfl⟩
    | cons u left =>
      obtain ⟨start, others, rfl, -⟩ := alike.exists_cons
      exact Or.inr ⟨Or.inr ⟨rule, u, left ++ after, rfl, unended u List.mem_cons_self⟩, rfl⟩

/-- **Clause by clause**: what is read from some tokens are the rules of their pieces, with any
fuel that exceeds their number. -/
theorem clauses_run {fuel : Nat} {tokens : List Token} (hfuel : tokens.length < fuel) :
    ((clauses fuel).run tokens).toOption.map Prod.fst = rulesOf? (tokens.map Token.piece) := by
  induction fuel generalizing tokens with
  | zero => exact absurd hfuel (Nat.not_lt_zero _)
  | succ fuel ih =>
    obtain ⟨s, after, rfl, hunended, hafter⟩ := exists_stretch tokens
    rw [List.length_append] at hfuel
    unfold clauses
    cases s with
    | nil =>
      cases after with
      | nil => rfl
      | cons t after =>
        -- a semicolon in front of everything else
        have hkind : t.kind = .sign .semicolon := kind_of_endsClause hafter
        have hbreak : t.piece.isBreak = true := beq_iff_eq.2 hkind
        rw [List.nil_append, run_bind (accept_of_kind hkind)]
        simp only [if_true]
        rw [ih (by simpa using hfuel)]
        show _ = rulesOf? ([] ++ t.piece :: after.map Token.piece)
        rw [rulesOf?_append [] _ hbreak]
        cases rulesOf? (after.map Token.piece) <;> rfl
    | cons t s =>
      have hkind : t.kind ≠ .sign .semicolon := hunended t List.mem_cons_self
      have hstart : headKind? (t :: s ++ after) ≠ some (.sign .semicolon) := fun hhead =>
        hkind (Option.some.inj hhead)
      have hpeek : peek.run (t :: s ++ after) = .ok (some t.kind, t :: s ++ after) := rfl
      rw [run_bind (accept_of_ne hstart)]
      simp only [Bool.false_eq_true, if_false]
      rw [run_bind hpeek, List.map_append]
      simp only
      rw [rulesOf?_stretch_append hunended hafter]
      rcases clause_run hunended (List.cons_ne_nil t s) hafter with
        ⟨rule, hrun, hstretch⟩ | ⟨⟨fault, hrun⟩ | ⟨rule, u, left, hrun, hu⟩, hstretch⟩
      · rw [run_bind hrun, hstretch, Option.bind_some]
        cases after with
        | nil => rfl
        | cons u after =>
          have hend : u.kind = .sign .semicolon := kind_of_endsClause hafter
          simp only [List.length_cons] at hfuel
          have hless : after.length < fuel := by omega
          have hothers := ih hless
          rw [run_bind (accept_of_kind hend), List.tail_cons, ← hothers]
          simp only [if_true]
          cases hlast : (clauses fuel).run after with
          | error fault => rw [run_bind_error hlast]; rfl
          | ok read => rw [run_bind (a := read.1) hlast]; rfl
      · rw [run_bind_error hrun, hstretch]
        rfl
      · have hmore : headKind? (u :: left) ≠ some (.sign .semicolon) := fun hhead =>
          hu (Option.some.inj hhead)
        rw [run_bind hrun, run_bind (accept_of_ne hmore), hstretch]
        rfl

/-! ## Texts of clauses -/

/-- **A text of clauses is read stretch by stretch.** -/
theorem clauses?_toOption (text : String) :
    (clauses? text).toOption = (pieces? text.toList).bind rulesOf? := by
  unfold clauses? tokens? pieces?
  cases tokensFrom 0 text.toList with
  | error fault => rfl
  | ok tokens =>
    show _ = rulesOf? (tokens.map Token.piece)
    rw [← clauses_run (Nat.lt_succ_self tokens.length)]
    simp only
    cases (clauses (tokens.length + 1)).run tokens <;> rfl

theorem eq_ok_iff {ε α : Type} {x : Except ε α} {a : α} : x = .ok a ↔ x.toOption = some a := by
  cases x with
  | error => exact ⟨nofun, nofun⟩
  | ok b => exact ⟨fun h => congrArg some (Except.ok.inj h), fun h => congrArg _ (Option.some.inj h)⟩

/-- **Clauses are read independently**: two texts with a semicolon between them are accepted if and
only if both are, and what is read is what is read from the first and then from the second. -/
theorem clauses?_append (first last : String) (rules : List Constraint) :
    clauses? (first ++ ";" ++ last) = .ok rules ↔ ∃ rules₁ rules₂,
      clauses? first = .ok rules₁ ∧ clauses? last = .ok rules₂ ∧ rules = rules₁ ++ rules₂ := by
  have htext : (first ++ ";" ++ last).toList = first.toList ++ ';' :: last.toList := by
    rw [String.toList_append, String.toList_append, List.append_assoc]
    rfl
  obtain ⟨blank, hpieces⟩ := pieces?_append first.toList
  have hbreak : (⟨.sign .semicolon, [';'], blank⟩ : Piece).isBreak = true := beq_self_eq_true _
  simp only [eq_ok_iff, clauses?_toOption, htext, hpieces]
  cases pieces? first.toList with
  | none => simp
  | some ps =>
    cases pieces? last.toList with
    | none => simp
    | some qs =>
      simp only [Option.bind_some, Option.map_some, rulesOf?_append ps qs hbreak,
        Option.bind_eq_some_iff, Option.map_eq_some_iff]
      constructor
      · rintro ⟨rules₁, h₁, rules₂, h₂, rfl⟩
        exact ⟨rules₁, rules₂, h₁, h₂, rfl⟩
      · rintro ⟨rules₁, rules₂, h₁, h₂, rfl⟩
        exact ⟨rules₁, h₁, rules₂, h₂, rfl⟩

end AnchorLayout
