import AnchorLayout.Proofs.Clause.Guard
import AnchorLayout.Proofs.Clause.Legible
/-!
# Decoding undoes encoding

  1. **Program** — `clausesText` writes a list of rules, `clauses?` reads one.
  2. **Specification** — `Constraint.IsSound` (the rules whose texts can be read),
     `Constraint.normal` (what a text keeps of a rule), `Constraint.IsLegible` (the rules whose
     texts can be read as rules of the same text).
  3. **Lookahead (`hasGuard_of_question`, `hasGuard_of_plain`)** — a question mark before the end
     of a clause is the mark of its guard, because without a guard no value and no timing has one.
  4. **The crux (`clauses_read_back`)** — a semicolon separates the texts of two rules as a comma
     does those of two arguments, so the list is read back rule by rule.
-/

namespace AnchorLayout

open Reading

/-! ## Specifications -/

/-- A timing as it is read back; nothing is left of an empty one. -/
def Animation.normal? (a : Animation) : Option Animation :=
  if a.isEmpty then none else some a.written

namespace Constraint

/-- **Sound**: a sound value, a sound guard and a sound timing. -/
structure IsSound (c : Constraint) : Prop where
  value : Expr.isSound c.value = true
  guard : ∀ g, c.condition = some g → g.isSound = true
  timing : ∀ a, c.animation = some a → a.IsSound

/-- **Legible**: a sound value, a sound guard, and a timing that is read as one of the same text. -/
structure IsLegible (c : Constraint) : Prop where
  value : Expr.isSound c.value = true
  guard : ∀ g, c.condition = some g → g.isSound = true
  timing : ∀ a, c.animation = some a → a.IsLegible c.condition.isSome

/-- A sound rule is read back as it is, so it is read back at all. -/
theorem IsSound.isLegible {c : Constraint} (h : c.IsSound) : c.IsLegible :=
  ⟨h.value, h.guard, fun a ha => (h.timing a ha).isLegible _⟩

/-- **Normal form**: a flat guard, and the timing as it is written. -/
def normal (c : Constraint) : Constraint where
  target := c.target
  comparison := c.comparison
  value := c.value
  condition := c.condition.map Condition.flat
  animation := c.animation.bind Animation.normal?

end Constraint

theorem eq_nil_of_lexes_nil {cs : List Char} {ps : List Piece} (h : Lexes cs ps) (hcs : cs = []) :
    ps = [] := by
  cases h with
  | done => rfl
  | step blanks cut others =>
    have hlexeme := (isPrefix_of_cut? cut).2
    exact absurd (List.append_eq_nil_iff.1 (List.append_eq_nil_iff.1 hcs).2).1 hlexeme

/-! ## Timings of clauses -/

/-- The text behind the value of a rule. -/
def tailText (timing : Option Animation) : String :=
  (timing.map fun a => if a.text = "" then "" else ":" ++ a.text).getD ""

/-- The printer leaves a timing out exactly if it has no item. -/
theorem items_eq_nil_iff {a : Animation} : a.items = [] ↔ a.isEmpty = true := by
  simp only [Animation.items, List.append_eq_nil_iff, Option.toList_eq_nil_iff,
    Option.map_eq_none_iff, Animation.isEmpty, Bool.and_eq_true, Option.isNone_iff_eq_none]
  constructor
  · rintro ⟨⟨⟨⟨⟨hduration, hease⟩, hdirection⟩, hstart⟩, hend⟩, hiterations⟩
    have hstartDelay : a.startDelay = none := by
      unfold Animation.writtenStartDelay at hstart
      cases hs : a.startDelay <;> simp_all
    have hown : a.duration = none := by
      unfold Animation.writtenDuration at hduration
      cases hd : a.duration <;> simp_all
    exact ⟨⟨⟨⟨⟨hown, hease⟩, hstartDelay⟩, hend⟩, hdirection⟩, hiterations⟩
  · rintro ⟨⟨⟨⟨⟨hduration, hease⟩, hstart⟩, hend⟩, hdirection⟩, hiterations⟩
    simp [Animation.writtenDuration, Animation.writtenStartDelay, hduration, hease, hstart, hend,
      hdirection, hiterations]

/-- Where a clause ends no operator follows. -/
theorem ends_of_endsClause {rest : List Token} (h : EndsClause rest) : Ends rest := by
  rcases h with h | h
  · constructor <;> (unfold Stops; rw [h]; rfl)
  · constructor <;> (unfold Stops; rw [h]; rfl)

/-- **Behind a value**: a text whose pieces end the value, and are read as a timing or as none. -/
structure SpellsTail (guarded : Bool) (text : String) (timing : Option Animation)
    (ps : List Piece) : Prop where
  unended : ∀ p ∈ ps, p.kind ≠ .sign .semicolon
  plain : guarded = false → Plain ps
  lexes : ∀ cs qs, Lexes cs qs → Lexes (cs ++ text.toList) (qs ++ ps)
  ends : ∀ tokens rest, tokens.map Token.piece = ps → EndsClause rest → Ends (tokens ++ rest)
  takes : Takes clauseTiming EndsClause ps timing

section

variable {guarded : Bool}

/-- Nothing behind the value: the clause ends there. -/
theorem spellsTail_none : SpellsTail guarded "" none [] where
  unended := fun _ hp => absurd hp List.not_mem_nil
  plain := fun _ => plain_nil
  lexes := by
    intro cs qs hlex
    simpa using hlex
  ends := by
    intro tokens rest htokens hrest
    rw [List.map_eq_nil_iff.1 htokens]
    exact ends_of_endsClause hrest
  takes := by
    intro tokens rest htokens hrest
    rw [List.map_eq_nil_iff.1 htokens, List.nil_append]
    unfold clauseTiming
    rw [run_bind (accept_of_ne (hrest.headKind?_ne (by decide)))]
    rfl

/-- A colon and a timing behind the value. -/
theorem spellsTail_some {text : String} {a : Animation} {ps : List Piece}
    (h : SpellsTiming guarded text a ps) :
    SpellsTail guarded (":" ++ text) (some a) (Piece.ofSign .colon ':' :: ps) where
  unended := by
    intro p hp
    rcases List.mem_cons.1 hp with rfl | hp
    · decide
    · exact h.unended p hp
  plain := fun hguarded => (h.plain hguarded).sign (by decide)
  lexes := by
    intro cs qs hcs
    rw [String.toList_append]
    exact hcs.append rfl (by decide) h.lexes
  ends := by
    intro tokens rest htokens hrest
    obtain ⟨t, others, rfl, ht, hothers⟩ := List.map_eq_cons_iff.1 htokens
    -- the value ends at the colon
    exact ends_of_kind (kind_of_piece ht) rfl rfl _
  takes := by
    intro tokens rest htokens hrest
    obtain ⟨t, others, rfl, ht, hothers⟩ := List.map_eq_cons_iff.1 htokens
    rw [List.cons_append]
    unfold clauseTiming
    rw [run_bind (accept_of_kind (kind_of_piece ht))]
    simp only [if_true]
    rw [run_bind (h.takes others rest hothers hrest)]
    rfl

/-- **The timing of a rule is read back**; nothing is written for a missing or an empty one. -/
theorem exists_spellsTail {o : Option Animation} (h : ∀ a, o = some a → a.IsLegible guarded) :
    ∃ o' ps, tailText o' = tailText o ∧ ((∀ a, o = some a → a.IsSound) →
      sameOption Animation.same (o.bind Animation.normal?) o' = true) ∧
        SpellsTail guarded (tailText o) o' ps := by
  cases o with
  | none => exact ⟨none, [], rfl, fun _ => rfl, spellsTail_none⟩
  | some a =>
    show ∃ o' ps, tailText o' = (if a.text = "" then "" else ":" ++ a.text) ∧
      (_ → sameOption Animation.same a.normal? o' = true) ∧
        SpellsTail guarded (if a.text = "" then "" else ":" ++ a.text) o' ps
    unfold Animation.normal?
    -- an empty timing has an empty text, so nothing of it is written
    by_cases hempty : a.isEmpty = true
    · have htext : a.text = "" := by
        rw [Animation.text, items_eq_nil_iff.2 hempty]
        rfl
      rw [if_pos htext, if_pos hempty]
      exact ⟨none, [], rfl, fun _ => rfl, spellsTail_none⟩
    · obtain ⟨a', ps, hread, hsame, hspelt⟩ :=
        exists_spelt_timing (h a rfl) fun hnil => hempty (items_eq_nil_iff.1 hnil)
      have htext : a.text ≠ "" := by
        intro htext
        have hlex := hspelt.lexes
        rw [htext] at hlex
        exact hspelt.ne_nil (eq_nil_of_lexes_nil hlex rfl)
      rw [if_neg htext, if_neg hempty]
      refine ⟨some a', _, ?_, fun hsound => hsame (hsound a rfl), spellsTail_some hspelt⟩
      show (if a'.text = "" then "" else ":" ++ a'.text) = _
      rw [hread, if_neg htext]

end

/-! ## Guards of clauses -/

/-- Plain tokens end no clause. -/
theorem unended_of_plain {tokens : List Token} (h : Plain (tokens.map Token.piece)) :
    Unended tokens := fun t ht => (h t.piece (List.mem_map_of_mem ht)).1

/-- The look ahead finds the mark that ends a guard. -/
theorem hasGuard_of_question {first rest : List Token} {t : Token}
    (hplain : Plain (first.map Token.piece)) (ht : t.kind = .sign .question) :
    hasGuard (first ++ t :: rest) = true := by
  have hmark : hasGuard ([t] ++ rest) = true := by
    rw [hasGuard_append (unended_singleton (by rw [ht]; decide))]
    simp [ht]
  rw [hasGuard_append (unended_of_plain hplain)]
  exact Bool.or_eq_true_iff.2 (Or.inr hmark)

/-- Behind the end of a clause no mark is looked for. -/
theorem hasGuard_of_endsClause {rest : List Token} (h : EndsClause rest) :
    hasGuard rest = false := by
  cases rest with
  | nil => rfl
  | cons t rest =>
    rcases h with h | h
    · cases h
    · unfold hasGuard
      rw [List.takeWhile_cons_of_neg (by simp [Option.some.inj h])]
      rfl

/-- Where there is none it goes up to the end of the clause and finds nothing. -/
theorem hasGuard_of_plain {tokens rest : List Token} (hplain : Plain (tokens.map Token.piece))
    (hrest : EndsClause rest) : hasGuard (tokens ++ rest) = false := by
  rw [hasGuard_append (unended_of_plain hplain), hasGuard_of_endsClause hrest, Bool.or_false,
    List.any_eq_false]
  intro t ht hquestion
  exact (hplain t.piece (List.mem_map_of_mem ht)).2 (beq_iff_eq.1 hquestion)

/-- The text of a guard with its mark. -/
def guardText (guard : Option Condition) : String := (guard.map fun g => g.text ++ "?").getD ""

/-- **In front of a rule**: a text whose pieces are read as a guard or as none, where a body
follows that has no mark of its own if there is no guard. -/
structure SpellsGuard (text : String) (condition : Option Condition) (ps : List Piece) : Prop where
  unended : ∀ p ∈ ps, p.kind ≠ .sign .semicolon
  lexes : ∀ cs qs, Lexes cs qs → Lexes (text.toList ++ cs) (ps ++ qs)
  takes : ∀ tokens body rest, tokens.map Token.piece = ps →
    (condition.isSome = false → Plain (body.map Token.piece)) → EndsClause rest →
      Reading.guard.run (tokens ++ (body ++ rest)) = .ok (condition, body ++ rest)

/-- No guard: the body has no mark in it, so none is looked for. -/
theorem spellsGuard_none : SpellsGuard "" none [] where
  unended := fun p hp => absurd hp List.not_mem_nil
  lexes := by
    intro cs qs hcs
    exact hcs
  takes := by
    intro tokens body rest htokens hbody hrest
    rw [List.map_eq_nil_iff.1 htokens, List.nil_append]
    unfold Reading.guard
    rw [run_bind (get_run _), hasGuard_of_plain (hbody rfl) hrest]
    rfl

/-- A guard with its mark: the look ahead sees the mark, and the guard is read up to it. -/
theorem spellsGuard_some {text : String} {g : Condition} {ps : List Piece}
    (hlex : Lexes text.toList ps) (hplain : Plain ps) (htakes : Takes condition EndsGuard ps g) :
    SpellsGuard (text ++ "?") (some g) (ps ++ [Piece.ofSign .question '?']) where
  unended := by
    intro p hp
    rcases List.mem_append.1 hp with hp | hp
    · exact (hplain p hp).1
    · rw [List.mem_singleton.1 hp]
      decide
  lexes := by
    intro cs qs hcs
    have htext : (text ++ "?").toList = text.toList ++ ['?'] := by
      rw [String.toList_append]
      rfl
    rw [htext, List.append_assoc, List.append_assoc]
    exact hlex.append rfl (by decide) hcs
  takes := by
    intro tokens body rest htokens hbody hrest
    obtain ⟨first, t, last, rfl, rfl, ht, hlast⟩ := split_pieces htokens
    rw [List.map_eq_nil_iff.1 hlast, List.append_assoc, List.singleton_append]
    have hkind := kind_of_piece ht
    -- the mark ends the last part, and it is no ampersand
    have hends : EndsGuard (t :: (body ++ rest)) := by
      refine ⟨endsPart_of_kind hkind (Or.inr rfl) _, ?_⟩
      rw [headKind?_cons, hkind]
      decide
    unfold Reading.guard
    rw [run_bind (get_run _), hasGuard_of_question hplain hkind]
    simp only [if_true]
    rw [run_bind (htakes first _ rfl hends), run_bind (expect_of_kind hkind)]
    rfl

/-- **The guard of a rule is read back**, in front of a body that has no mark of its own. -/
theorem exists_spellsGuard {o : Option Condition} (h : ∀ g, o = some g → g.isSound = true) :
    ∃ o' ps, sameOption Condition.same (o.map Condition.flat) o' = true ∧
      guardText o' = guardText o ∧ o'.isSome = o.isSome ∧ SpellsGuard (guardText o) o' ps := by
  cases o with
  | none => exact ⟨none, [], rfl, rfl, rfl, spellsGuard_none⟩
  | some g =>
    obtain ⟨g', hsame, ps, hlex, hplain, htakes⟩ := exists_spelt_condition g (h g rfl)
    have htext : g'.text = g.text := by
      rw [← Condition.text_eq_of_same g.flat g' hsame, g.text_flat (h g rfl)]
    exact ⟨some g', _, hsame, congrArg (· ++ "?") htext, rfl,
      spellsGuard_some hlex hplain (htakes ps.length (Nat.le_refl _))⟩

/-! ## Clauses -/

/-- The three comparisons are told apart by their sign. -/
theorem comparison_of_kind {c : Comparison} {t : Token} (h : t.kind = .sign c.sign)
    (rest : List Token) : comparison.run (t :: rest) = .ok (c, rest) := by
  unfold comparison
  rw [run_bind (peek_run _), headKind?_cons, h]
  cases c <;> rfl

/-- **A clause is read back**, up to the end of the text or the next semicolon. -/
structure SpellsClause (cs : List Char) (rule : Constraint) (ps : List Piece) : Prop where
  lexes : Lexes cs ps
  ne_nil : ps ≠ []
  unended : ∀ p ∈ ps, p.kind ≠ .sign .semicolon
  takes : Takes clause EndsClause ps rule

/-- The pieces of the target and the comparison of a rule, in front of other pieces. -/
def bodyPieces (target : Attribute) (c : Comparison) (ps : List Piece) : List Piece :=
  Piece.ofName target.wireName.toList :: Piece.ofSign c.sign c.char :: ps

/-- Target and comparison add no mark. -/
theorem plain_bodyPieces (target : Attribute) (c : Comparison) {ps : List Piece} (h : Plain ps) :
    Plain (bodyPieces target c ps) :=
  (h.sign c.sign_plain).name

/-- **The front of a body** is cut into a name and a sign, whatever value follows. -/
theorem lexes_body (target : Attribute) (c : Comparison) {cs : List Char} {ps : List Piece}
    (h : Lexes cs ps) :
    Lexes (target.wireName.toList ++ c.char :: cs) (bodyPieces target c ps) :=
  (Lexes.lone_word (isName_wireName target)).append c.ofChar?_char c.char_ne_point h

/-- **A clause is put together** from a guard, a target, a comparison, a value and a timing. -/
theorem clause_takes {target : Attribute} {c : Comparison} {value : Expr} {text text' : String}
    {guard : Option Condition} {timing : Option Animation} {gs vs ts : List Piece}
    (hguard : SpellsGuard text guard gs) (hplain : Plain vs)
    (hvalue : Takes expr Ends vs value) (htail : SpellsTail guard.isSome text' timing ts) :
    Takes clause EndsClause (gs ++ bodyPieces target c (vs ++ ts))
      ⟨target, c, value, guard, timing⟩ := by
  intro tokens rest htokens hrest
  obtain ⟨first, body, rfl, hfirst, hbody⟩ := List.map_eq_append_iff.1 htokens
  have hplainBody : guard.isSome = false → Plain (body.map Token.piece) := by
    intro hguarded
    rw [hbody]
    exact plain_bodyPieces target c (hplain.append (htail.plain hguarded))
  have hguardRun := hguard.takes first body rest hfirst hplainBody hrest
  obtain ⟨t, others, rfl, ht, hothers⟩ := List.map_eq_cons_iff.1 hbody
  obtain ⟨u, others, rfl, hu, hothers⟩ := List.map_eq_cons_iff.1 hothers
  obtain ⟨valueTokens, timingTokens, rfl, hvs, hts⟩ := List.map_eq_append_iff.1 hothers
  have hends := htail.ends timingTokens rest hts hrest
  rw [List.append_assoc]
  unfold clause
  rw [run_bind hguardRun, List.cons_append, List.cons_append, List.append_assoc,
    run_bind (attributeName_of_kind (kind_of_name ht)),
    run_bind (comparison_of_kind (kind_of_piece hu) _),
    run_bind (hvalue valueTokens _ hvs hends),
    run_bind (htail.takes timingTokens rest hts hrest)]
  rfl

/-- The text of a rule, in the five parts that are read one after the other. -/
theorem text_eq (c : Constraint) : c.text = guardText c.condition ++ c.target.wireName ++
    c.comparison.symbol ++ Expr.text c.value ++ tailText c.animation := rfl

/-- **Any legible rule is read back** as a rule of the same text, and a sound one in normal form. -/
theorem exists_spelt_clause {c : Constraint} (h : c.IsLegible) :
    ∃ c' ps, c'.text = c.text ∧ (c.IsSound → c.normal.same c' = true) ∧
      SpellsClause c.text.toList c' ps := by
  obtain ⟨⟨value, hsamev, vs, hlexv, hplainv, hvalue⟩, -⟩ := exists_spelt_expr c.value h.value
  obtain ⟨guard, gs, hsameg, htextg, hguarded, hguard⟩ := exists_spellsGuard h.guard
  obtain ⟨timing, ts, htextt, hsamet, htail⟩ := exists_spellsTail h.timing
  -- the text falls into the parts of which the lemmas above tell what they are read as
  have hparts : c.text.toList = (guardText c.condition).toList ++ (c.target.wireName.toList ++
      c.comparison.char :: ((Expr.text c.value).toList ++ (tailText c.animation).toList)) := by
    rw [text_eq]
    simp only [String.toList_append, Comparison.toList_symbol, List.append_assoc]
    rfl
  refine ⟨⟨c.target, c.comparison, value, guard, timing⟩, _, ?_, fun hsound => ?_, ?_, ?_, ?_,
    clause_takes hguard hplainv (expr_run hvalue) (hguarded ▸ htail)⟩
  · rw [text_eq, text_eq, htextg, htextt, (Expr.text_eq_of_same c.value value hsamev).1]
  · simp only [Constraint.same, Constraint.normal, hsamev, hsameg, hsamet hsound.timing,
      beq_self_eq_true, Bool.and_self]
  · rw [hparts]
    exact hguard.lexes _ _ (lexes_body c.target c.comparison (htail.lexes _ _ hlexv))
  · simp [bodyPieces]
  · have hbody := plain_bodyPieces c.target c.comparison hplainv
    intro p hp
    simp only [bodyPieces, ← List.cons_append] at hp
    rcases List.mem_append.1 hp with hp | hp
    · exact hguard.unended p hp
    · rcases List.mem_append.1 hp with hp | hp
      · exact (hbody p hp).1
      · exact htail.unended p hp

/-! ## Lists of clauses -/

section

variable {cs : List Char} {rule : Constraint} {ps qs : List Piece} {fuel : Nat}
  {tokens last : List Token} {t : Token}

/-- A clause does not begin with a semicolon, and it does begin. -/
theorem SpellsClause.starts (h : SpellsClause cs rule ps) (htokens : tokens.map Token.piece = ps)
    (rest : List Token) : (accept .semicolon).run (tokens ++ rest) = .ok (false, tokens ++ rest) ∧
      ∃ kind, peek.run (tokens ++ rest) = .ok (some kind, tokens ++ rest) := by
  subst htokens
  cases tokens with
  | nil => exact absurd rfl h.ne_nil
  | cons t tokens =>
    have hkind : t.kind ≠ .sign .semicolon := h.unended t.piece List.mem_cons_self
    refine ⟨accept_of_ne ?_, t.kind, rfl⟩
    intro heq
    exact hkind (Option.some.inj heq)

/-- The last clause ends the list. -/
theorem clauses_last (h : SpellsClause cs rule ps) (htokens : tokens.map Token.piece = ps) :
    (clauses (fuel + 1)).run tokens = .ok ([rule], []) := by
  have hrun := h.takes tokens [] htokens (Or.inl rfl)
  obtain ⟨haccept, kind, hpeek⟩ := h.starts htokens []
  rw [List.append_nil] at haccept hpeek hrun
  have hend : headKind? [] ≠ some (.sign .semicolon) := by
    intro heq
    cases heq
  unfold clauses
  rw [run_bind haccept]
  simp only [Bool.false_eq_true, if_false]
  rw [run_bind hpeek]
  simp only
  rw [run_bind hrun, run_bind (accept_of_ne hend)]
  rfl

/-- A clause before a semicolon, and then the others. -/
theorem clauses_cons {read : List Constraint} (h : SpellsClause cs rule ps)
    (htokens : tokens.map Token.piece = ps) (ht : t.kind = .sign .semicolon)
    (hothers : (clauses fuel).run last = .ok (read, [])) :
    (clauses (fuel + 1)).run (tokens ++ t :: last) = .ok (rule :: read, []) := by
  have hrun := h.takes tokens (t :: last) htokens (Or.inr (congrArg some ht))
  obtain ⟨haccept, kind, hpeek⟩ := h.starts htokens (t :: last)
  unfold clauses
  rw [run_bind haccept]
  simp only [Bool.false_eq_true, if_false]
  rw [run_bind hpeek]
  simp only
  rw [run_bind hrun, run_bind (accept_of_kind ht)]
  simp only [if_true]
  rw [run_bind hothers]
  rfl

end

section

variable {R : Constraint → Constraint → Prop} {rules : List Constraint}

/-- **Rules with semicolons between them** are read one after the other. -/
theorem exists_spelt_clauses
    (h : ∀ rule ∈ rules, ∃ r ps, R rule r ∧ SpellsClause rule.text.toList r ps) (hne : rules ≠ []) :
    ∃ read ps, List.Forall₂ R rules read ∧
      Lexes ([';'].intercalate (rules.map fun rule => rule.text.toList)) ps ∧
        rules.length ≤ ps.length ∧ ∀ fuel tokens, rules.length ≤ fuel →
          tokens.map Token.piece = ps → (clauses fuel).run tokens = .ok (read, []) := by
  induction rules with
  | nil => exact absurd rfl hne
  | cons rule rules ih =>
    obtain ⟨rule', ps, hrelated, hclause⟩ := h rule List.mem_cons_self
    have hpos := List.length_pos_iff.2 hclause.ne_nil
    -- the last rule ends the text; any other is followed by a semicolon
    cases rules with
    | nil =>
      refine ⟨[rule'], ps, .cons hrelated .nil, by simpa using hclause.lexes, hpos, ?_⟩
      intro fuel tokens hfuel htokens
      obtain ⟨fuel, rfl⟩ : ∃ n, fuel = n + 1 := ⟨fuel - 1, by simp at hfuel; omega⟩
      exact clauses_last hclause htokens
    | cons next rules =>
      obtain ⟨read, qs, hothers, hlex, hcount, hrun⟩ :=
        ih (fun r hr => h r (List.mem_cons_of_mem rule hr)) (List.cons_ne_nil _ _)
      refine ⟨rule' :: read, ps ++ Piece.ofSign .semicolon ';' :: qs, .cons hrelated hothers, ?_,
        ?_, ?_⟩
      · have happend := hclause.lexes.append (c := ';') rfl (by decide) hlex
        simpa using happend
      · simp only [List.length_append, List.length_cons] at hcount ⊢
        omega
      · intro fuel tokens hfuel htokens
        obtain ⟨fuel, rfl⟩ : ∃ n, fuel = n + 1 := ⟨fuel - 1, by simp at hfuel; omega⟩
        obtain ⟨first, t, last, rfl, hfirst, ht, hlast⟩ := split_pieces htokens
        exact clauses_cons hclause hfirst (kind_of_piece ht)
          (hrun fuel last (by simpa using hfuel) hlast)

/-- **Lists of rules are put together**: what the text of each rule is read as, that of the list is
read as. -/
theorem exists_clauses_read
    (h : ∀ rule ∈ rules, ∃ r ps, R rule r ∧ SpellsClause rule.text.toList r ps) :
    ∃ read, clauses? (clausesText rules) = .ok read ∧ List.Forall₂ R rules read := by
  -- no rules have an empty text, which is no list of clauses with semicolons between them
  by_cases hne : rules = []
  · subst hne
    refine ⟨[], ?_, .nil⟩
    have htokens : tokens? (clausesText []) = .ok [] := by
      show tokensFrom 0 [] = .ok []
      rw [tokensFrom]
      rfl
    unfold clauses?
    rw [htokens]
    rfl
  · obtain ⟨read, ps, hrelated, hlex, hcount, hrun⟩ := exists_spelt_clauses h hne
    obtain ⟨tokens, htokens, hpieces⟩ := tokens_of_lexes hlex 0
    have htext : (clausesText rules).toList =
        [';'].intercalate (rules.map fun rule => rule.text.toList) := by
      unfold clausesText
      rw [String.toList_intercalate, List.map_map]
      rfl
    have hall : tokens? (clausesText rules) = .ok tokens := by
      unfold tokens?
      rw [htext]
      exact htokens
    -- the fuel is one for each token, and there are no more rules than that
    have hlength : ps.length = tokens.length := by rw [← hpieces, List.length_map]
    refine ⟨read, ?_, hrelated⟩
    unfold clauses?
    rw [hall]
    simp only
    rw [hrun (tokens.length + 1) tokens (by omega) hpieces]

end

/-- **Decoding undoes encoding**: the texts of sound rules, with semicolons between them, are read
as the same rules in normal form. -/
theorem clauses_read_back {rules : List Constraint} (h : ∀ rule ∈ rules, rule.IsSound) :
    ∃ read, clauses? (clausesText rules) = .ok read ∧
      List.Forall₂ (fun rule r => rule.normal.same r = true) rules read := by
  refine exists_clauses_read fun rule hrule => ?_
  obtain ⟨r, ps, -, hsame, hclause⟩ := exists_spelt_clause (h rule hrule).isLegible
  exact ⟨r, ps, hsame (h rule hrule), hclause⟩

/-- A timing with a timing function of its own, and with a delay that brings two times with it. -/
def someTiming (delay count : Number) : Animation :=
  ⟨none, some (.custom "steps(4, end)"), none, some delay, some .reverse, some (.count count)⟩

/-- A guarded rule with such a timing, and a rule with an empty one. -/
def someRules : List Constraint :=
  [⟨.left, .less, .binary .sub (.call .min [.anchor ⟨⟨1⟩, .right⟩, .gap]) (.num (.ofInt (-2))),
      some (.all [.portrait none, .all [.compare .gap .greater (.num (.ofNat 8))]]),
      some (someTiming (.ofNat 1) (.ofNat 3))⟩,
    ⟨.width, .equal, .gap, none, some ∅⟩]

/-- A function with a comma in its parentheses, which must not end the item. -/
theorem isTimingFunction_steps : IsTimingFunction "steps(4, end)" := by
  have hname : Lexes "steps".toList _ := Lexes.lone_word (by decide)
  have hcount : Lexes ([] ++ (['4'] ++ [])) _ := Lexes.step Lexes.blanks_nil rfl Lexes.done
  have hblank : ∀ c ∈ [' '], isAsciiBlank c = true := by
    intro c hc
    rw [List.mem_singleton.1 hc]
    rfl
  have hword : Lexes ([' '] ++ (['e', 'n', 'd'] ++ [])) _ := Lexes.step hblank rfl Lexes.done
  have hclosed := hword.append (c := ')') rfl (by decide) Lexes.done
  have hopened := hname.append (c := '(') rfl (by decide)
    (hcount.append (c := ',') rfl (by decide) hclosed)
  exact isTimingFunction_of_lexes hopened (by decide)

theorem isSound_someTiming {delay count : Number} (hdelay : delay.isFinite = true)
    (hcount : count.isFinite = true) : (someTiming delay count).IsSound := by
  refine ⟨?_, ?_, ?_⟩
  · rintro x (hx | hx | hx) <;> cases hx
    exact hdelay
  · intro x hx
    cases hx
    exact hcount
  · intro text htext
    cases htext
    exact isTimingFunction_steps

theorem isSound_empty : (∅ : Animation).IsSound := by
  refine ⟨?_, ?_, ?_⟩
  · rintro x (hx | hx | hx) <;> cases hx
  · intro x hx
    cases hx
  · intro text htext
    cases htext

theorem isSound_someRules : ∀ rule ∈ someRules, rule.IsSound := by
  have htiming : (someTiming (.ofNat 1) (.ofNat 3)).IsSound :=
    isSound_someTiming (by decide +kernel) (by decide +kernel)
  simp only [someRules, List.mem_cons, List.not_mem_nil, or_false, forall_eq_or_imp, forall_eq]
  refine ⟨⟨by decide +kernel, ?_, ?_⟩, ⟨rfl, nofun, ?_⟩⟩
  · simp only [Option.some.injEq, forall_eq']
    decide +kernel
  · simpa only [Option.some.injEq, forall_eq'] using htiming
  · simpa only [Option.some.injEq, forall_eq'] using isSound_empty

/-- Both rules are read back, the second without its empty timing. -/
theorem clauses_read_back_of_someRules :
    (∀ rule ∈ someRules, rule.IsSound) ∧ ∃ read, clauses? (clausesText someRules) = .ok read ∧
      List.Forall₂ (fun rule r => rule.normal.same r = true) someRules read :=
  ⟨isSound_someRules, clauses_read_back isSound_someRules⟩

end AnchorLayout
