import AnchorLayout.Constraint.Input
import AnchorLayout.Proofs.Clause.Canonical
import AnchorLayout.Proofs.Clause.Independence
import AnchorLayout.Proofs.Number.Overflow
/-!
# What is read has the numbers that are written

  1. **Program** — `clauses?` on any text, and `ConstraintInput.rule`, which checks a value before
     it is stored.
  2. **Specification** — `literals`: the decimals that a text writes in front of the timings.
  3. **Correspondence (`forall₂_literals`)** — the numbers of the rules are the literals, each with
     its sign or without one and rounded to the nearest double.
  4. **The crux (`sound_iff_of_clauses`)** — so the rules are stored and their numbers are read
     again exactly where no literal reaches `overflowValue`; a literal that does is accepted, as an
     infinity.
-/

namespace AnchorLayout

open Reading

/-! ## Specification -/

/-- The decimal that a lexeme writes: its digits, and how many of them stand behind the point. -/
def lexemeDecimal (lexeme : List Char) : Decimal :=
  let fraction := (fractionPart (pastDigits lexeme)).tail
  ⟨digitsValue (leadingDigits lexeme ++ fraction), -(fraction.length : Int)⟩

/-- The decimal that a piece writes, if it is a number. -/
def Piece.literal? (p : Piece) : Option Decimal :=
  p.kind.number?.map fun _ => lexemeDecimal p.lexeme

/-- The literals of a stretch, up to its timing. -/
def stretchLiterals (ps : List Piece) : List Decimal :=
  (ps.takeWhile fun p => !p.kind.endsValue).filterMap Piece.literal?

/-- **The literals** of a text, without those of its timings. -/
def literals (text : String) : List Decimal :=
  (((pieces? text.toList).getD []).splitOnP Piece.isBreak).flatMap stretchLiterals

/-- The numbers of a rule in the order in which they are written. -/
def Constraint.writtenNumbers (c : Constraint) : List Number :=
  guardNumbers c.condition ++ c.value.numbers

/-- The order in which numbers are written does not matter to the check. -/
theorem Constraint.mem_writtenNumbers {c : Constraint} {x : Number} :
    x ∈ c.writtenNumbers ↔ x ∈ c.numbers := by
  unfold writtenNumbers numbers guardNumbers
  rw [List.mem_append, List.mem_append, or_comm]

/-- **Written as**: the decimal, rounded, with the sign in front of it or without one. -/
def WrittenAs (x : Number) (d : Decimal) : Prop := IsSigned x (.ofDecimal false d)

theorem Number.isFinite_neg (x : Number) : x.neg.isFinite = x.isFinite := by
  cases x <;> rfl

/-- **A literal is finite** exactly if its decimal stays below the bound at which rounding
overflows. -/
theorem isFinite_iff_of_writtenAs {x : Number} {d : Decimal} (h : WrittenAs x d) :
    x.isFinite = true ↔ d.value < overflowValue := by
  rw [← Number.isFinite_ofDecimal_iff false d]
  rcases h with h | h
  · rw [h]
  · rw [h, Number.isFinite_neg]

/-! ## Pieces -/

/-- **The piece of a number** holds the decimal of its lexeme, rounded. -/
theorem number?_eq_literal? {p : Piece} (h : cut? p.lexeme = some (p.kind, p.lexeme)) :
    p.kind.number? = p.literal?.map (Number.ofDecimal false) := by
  unfold Piece.literal?
  cases hkind : p.kind with
  | name | sign => rfl
  | number value =>
    rw [hkind] at h
    obtain ⟨c, cs, hcs⟩ := List.exists_cons_of_ne_nil (isPrefix_of_cut? h).2
    rw [hcs] at h ⊢
    unfold cut? at h
    simp only at h
    split at h
    · -- the value is that of the digits on either side of the point
      simp only [Option.some.injEq, Prod.mk.injEq, TokenKind.number.injEq] at h
      rw [TokenKind.number?, Option.map_some, Option.map_some, ← h.1, Number.ofDigits, Int.zero_sub]
      rfl
    · split at h
      · cases h
      · obtain ⟨s, -, hs⟩ := Option.map_eq_some_iff.1 h
        cases hs

/-- The pieces of a text are cut as if each stood alone. -/
theorem cut?_of_mem_pieces {cs : List Char} {ps : List Piece} (h : pieces? cs = some ps) :
    ∀ p ∈ ps, cut? p.lexeme = some (p.kind, p.lexeme) := by
  obtain ⟨tokens, htokens, rfl⟩ := Option.map_eq_some_iff.1 h
  refine tokens_induction (motive := fun _ _ tokens => ∀ p ∈ tokens.map Token.piece,
    cut? p.lexeme = some (p.kind, p.lexeme)) ?blank ?step (eq_ok_iff.2 htokens)
  case blank => exact fun _ _ _ p hp => absurd hp List.not_mem_nil
  case step =>
    intro start blank lexeme rest kind tokens blanks hcut ih p hp
    rcases List.mem_cons.1 hp with rfl | hp
    · exact cut?_alone hcut
    · exact ih p hp

/-- The numbers of tokens are the literals of their pieces, rounded. -/
theorem numerals_eq_literals {ps : List Piece}
    (h : ∀ p ∈ ps, cut? p.lexeme = some (p.kind, p.lexeme)) :
    numerals (ps.map Piece.token) = (ps.filterMap Piece.literal?).map (Number.ofDecimal false) := by
  unfold numerals
  rw [List.filterMap_map, List.map_filterMap]
  exact List.filterMap_congr fun p hp => number?_eq_literal? (h p hp)

/-! ## Stretches -/

/-- What a clause has left in front of its timing ends its value. -/
theorem takeWhile_of_clauseTiming {front behind : List Token} {timing : Option Animation}
    (hinner : Inner front) (h : clauseTiming.run behind = .ok (timing, [])) :
    (front ++ behind).takeWhile (fun t => !t.kind.endsValue) = front := by
  have hfront : ∀ t ∈ front, (!t.kind.endsValue) = true := fun t ht => by
    rw [hinner t ht]
    rfl
  rw [List.takeWhile_append_of_pos hfront]
  unfold clauseTiming at h
  obtain ⟨found, rest, haccept, hrest⟩ := run_bind_eq_ok h
  rcases accept_eq_ok haccept with ⟨rfl, t, rfl, ht⟩ | ⟨rfl, rfl, -⟩
  · rw [List.takeWhile_cons_of_neg (by rw [ht]; decide), List.append_nil]
  · cases hrest
    exact List.append_nil front

/-- **The rule of a stretch** has the numbers that are written in front of the timing. -/
theorem forall₂_stretchLiterals {ps : List Piece} {rules : List Constraint}
    (hcut : ∀ p ∈ ps, cut? p.lexeme = some (p.kind, p.lexeme)) (h : stretchRules? ps = some rules) :
    List.Forall₂ WrittenAs (rules.flatMap Constraint.writtenNumbers) (stretchLiterals ps) ∧
      ∀ rule ∈ rules, rule.IsFilled := by
  unfold stretchRules? at h
  split at h
  · cases h
    exact ⟨.nil, fun _ hrule => absurd hrule List.not_mem_nil⟩
  · next p ps =>
    unfold completeRule? at h
    split at h
    · next rule hrun =>
      cases h
      obtain ⟨front, behind, htokens, hinner, hcounted, hguard, hvalue, -, htiming⟩ :=
        exists_front_of_clause hrun
      have hfront : ((p :: ps).takeWhile fun q => !q.kind.endsValue).map Piece.token = front := by
        rw [← takeWhile_of_clauseTiming hinner htiming, ← htokens, List.takeWhile_map]
        rfl
      refine ⟨?_, fun r hr => List.mem_singleton.1 hr ▸ ⟨hvalue, hguard⟩⟩
      rw [← hfront] at hcounted
      unfold Counted at hcounted
      rw [numerals_eq_literals fun q hq => hcut q (List.takeWhile_subset _ hq),
        List.forall₂_map_right_iff] at hcounted
      rw [List.flatMap_singleton]
      exact hcounted
    · cases h

/-- **The rules of a text** have the numbers of its literals, stretch by stretch. -/
theorem forall₂_rulesOf? {ss : List (List Piece)} {rss : List (List Constraint)}
    (hcut : ∀ s ∈ ss, ∀ p ∈ s, cut? p.lexeme = some (p.kind, p.lexeme))
    (h : ss.mapM stretchRules? = some rss) :
    List.Forall₂ WrittenAs (rss.flatten.flatMap Constraint.writtenNumbers)
        (ss.flatMap stretchLiterals) ∧
      ∀ rule ∈ rss.flatten, rule.IsFilled := by
  induction ss generalizing rss with
  | nil =>
    cases h
    exact ⟨.nil, fun _ hrule => absurd hrule List.not_mem_nil⟩
  | cons s ss ih =>
    rw [List.mapM_cons] at h
    obtain ⟨rules, hrules, hothers⟩ := Option.bind_eq_some_iff.1 h
    obtain ⟨others, hread, hdone⟩ := Option.bind_eq_some_iff.1 hothers
    cases hdone
    obtain ⟨hnumbers, hfilled⟩ := forall₂_stretchLiterals (hcut s List.mem_cons_self) hrules
    obtain ⟨hnumbers', hfilled'⟩ := ih (fun s' hs' => hcut s' (List.mem_cons_of_mem s hs')) hread
    rw [List.flatten_cons, List.flatMap_append, List.flatMap_cons]
    refine ⟨List.rel_append hnumbers hnumbers', fun rule hrule => ?_⟩
    exact (List.mem_append.1 hrule).elim (hfilled rule) (hfilled' rule)

/-- A piece of a stretch is a piece of the text. -/
theorem mem_of_mem_splitOnP {α : Type} {q : α → Bool} {xs s : List α} {x : α}
    (hs : s ∈ xs.splitOnP q) (hx : x ∈ s) : x ∈ xs := by
  induction xs generalizing s with
  | nil =>
    rw [List.splitOnP_nil, List.mem_singleton] at hs
    rwa [hs] at hx
  | cons y ys ih =>
    rw [List.splitOnP_cons_eq_if_modifyHead] at hs
    split at hs
    · rcases List.mem_cons.1 hs with rfl | hs
      · exact absurd hx List.not_mem_nil
      · exact List.mem_cons_of_mem y (ih hs hx)
    · cases hsplit : ys.splitOnP q with
      | nil =>
        exact absurd hsplit (List.splitOnP_ne_nil q ys)
      | cons first others =>
        rw [hsplit] at hs ih
        rcases List.mem_cons.1 hs with rfl | hs
        · rcases List.mem_cons.1 hx with rfl | hx
          · exact List.mem_cons_self
          · exact List.mem_cons_of_mem y (ih List.mem_cons_self hx)
        · exact List.mem_cons_of_mem y (ih (List.mem_cons_of_mem first hs) hx)

/-- **The numbers of what is read** are the literals of the text, one by one. -/
theorem forall₂_literals {text : String} {rules : List Constraint} (h : clauses? text = .ok rules) :
    List.Forall₂ WrittenAs (rules.flatMap Constraint.writtenNumbers) (literals text) ∧
      ∀ rule ∈ rules, rule.IsFilled := by
  rw [eq_ok_iff, clauses?_toOption] at h
  obtain ⟨ps, hps, hrules⟩ := Option.bind_eq_some_iff.1 h
  obtain ⟨rss, hread, rfl⟩ := Option.map_eq_some_iff.1 hrules
  unfold literals
  rw [hps, Option.getD_some]
  exact forall₂_rulesOf? (fun s hs p hp => cut?_of_mem_pieces hps p (mem_of_mem_splitOnP hs hp)) hread

/-! ## What is accepted -/

/-- The rule that puts a number somewhere. -/
def Constraint.ofNumber (x : Number) : Constraint := ⟨.left, .equal, .num x, none, none⟩

/-- The text of such a rule, by which a number is put into a clause. -/
theorem Constraint.text_ofNumber (x : Number) : clausesText [.ofNumber x] = "left=" ++ x.text := by
  show (Constraint.ofNumber x).text = _
  rw [text_eq]
  show "" ++ "left" ++ "=" ++ x.text ++ "" = _
  rw [String.empty_append, String.append_empty]
  rfl

/-- A rule that equals such a rule is one, with an equal number. -/
theorem Constraint.eq_ofNumber_of_same {x : Number} {r : Constraint}
    (h : (Constraint.ofNumber x).normal.same r = true) :
    ∃ y, r = .ofNumber y ∧ x.same y = true := by
  obtain ⟨target, comparison, value, guard, timing⟩ := r
  simp only [same, normal, ofNumber, Bool.and_eq_true, beq_iff_eq] at h
  obtain ⟨⟨⟨⟨rfl, rfl⟩, hvalue⟩, hguard⟩, htiming⟩ := h
  cases guard with
  | some => cases hguard
  | none =>
    cases timing with
    | some => cases htiming
    | none =>
      cases value with
      | num y => exact ⟨y, rfl, hvalue⟩
      | gap | anchor | binary | call => cases hvalue

/-- **A finite number is read again** where it is the value of a clause. -/
theorem exists_number_read {x : Number} (h : x.isFinite = true) :
    ∃ y, clauses? ("left=" ++ x.text) = .ok [.ofNumber y] ∧ x.same y = true := by
  have hvalue : Expr.isSound (.num x) = true := by rwa [Expr.isSound]
  have hsound : (Constraint.ofNumber x).IsSound := by
    refine ⟨hvalue, fun g hg => ?_, fun a ha => ?_⟩
    · cases hg
    · cases ha
  obtain ⟨r, ps, -, hsame, hclause⟩ := exists_spelt_clause hsound.isLegible
  obtain ⟨y, rfl, hy⟩ := Constraint.eq_ofNumber_of_same (hsame hsound)
  have hrule : ∀ rule ∈ [Constraint.ofNumber x], ∃ r ps,
      r = .ofNumber y ∧ SpellsClause rule.text.toList r ps := fun rule hrule =>
    ⟨_, ps, rfl, List.mem_singleton.1 hrule ▸ hclause⟩
  obtain ⟨read, hread, hrelated⟩ := exists_clauses_read hrule
  rw [Constraint.text_ofNumber] at hread
  cases hrelated with
  | cons hfirst hnone =>
    cases hfirst
    cases hnone
    exact ⟨y, hread, hy⟩

/-- Numbers are finite together if their literals are small enough. -/
theorem forall_isFinite_iff {xs : List Number} {ds : List Decimal}
    (h : List.Forall₂ WrittenAs xs ds) :
    (∀ d ∈ ds, d.value < overflowValue) ↔ ∀ x ∈ xs, x.isFinite = true := by
  induction h with
  | nil => exact iff_of_true (List.forall_mem_nil _) (List.forall_mem_nil _)
  | cons hx _ ih =>
    rw [List.forall_mem_cons, List.forall_mem_cons, ih, isFinite_iff_of_writtenAs hx]

/-- **What a text is read as is sound** exactly where none of its literals is too large: then every
rule passes the check that it is stored with, guards included, and every number in it is written as
a text that is read again.  That calls have arguments needs no condition. -/
theorem sound_iff_of_clauses {text : String} {rules : List Constraint}
    (h : clauses? text = .ok rules) :
    (∀ rule ∈ rules, rule.IsFilled) ∧
    ((∀ d ∈ literals text, d.value < overflowValue) ↔
      ∀ rule ∈ rules, ∀ x ∈ rule.numbers, x.isFinite = true) ∧
    ((∀ d ∈ literals text, d.value < overflowValue) → ∀ rule ∈ rules,
      ConstraintInput.rule rule.target rule.comparison rule.condition rule.animation rule.value =
          .ok rule ∧
      (∀ g, rule.condition = some g → g.isSound = true) ∧
      ∀ x ∈ rule.numbers,
        ∃ y, clauses? ("left=" ++ x.text) = .ok [.ofNumber y] ∧ x.same y = true) := by
  obtain ⟨hnumbers, hfilled⟩ := forall₂_literals h
  have hiff := forall_isFinite_iff hnumbers
  simp only [List.forall_mem_flatMap, Constraint.mem_writtenNumbers] at hiff
  refine ⟨hfilled, hiff, fun hliterals rule hrule => ?_⟩
  have hfinite := hiff.1 hliterals rule hrule
  obtain ⟨hvalue, hguard⟩ := (hfilled rule hrule).isSound hfinite
  exact ⟨if_pos hvalue, hguard, fun x hx => exists_number_read (hfinite x hx)⟩

/-- Literals with blanks around them, with and without digits on either side of the point, in a
guard, behind a sign and in calls, and a time that is larger than all of them. -/
def someNumbers : String :=
  "portrait&.5<gap?width= - 12.250*max(7,id3.width):1s,99999999999999999999ms;;left=min(-0)"

example : literals someNumbers = [⟨5, -1⟩, ⟨12250, -3⟩, ⟨7, 0⟩, ⟨0, 0⟩] := by
  decide +kernel

/-- This text is read as two rules, and both pass the check. -/
theorem sound_iff_of_someNumbers : ∃ rules, clauses? someNumbers = .ok rules ∧
    rules.length = 2 ∧ (∀ d ∈ literals someNumbers, d.value < overflowValue) ∧
    ∀ rule ∈ rules, ConstraintInput.rule rule.target rule.comparison rule.condition rule.animation
      rule.value = .ok rule := by
  have hread : ((clauses? someNumbers).toOption.any fun rules => rules.length == 2 &&
      rules.all fun rule => rule.numbers.all Number.isFinite) = true := by decide +kernel
  obtain ⟨rules, hrules, htest⟩ := exists_ok_of_any hread
  simp only [Bool.and_eq_true, List.all_eq_true, beq_iff_eq] at htest
  obtain ⟨-, hiff, hsound⟩ := sound_iff_of_clauses hrules
  have hsmall := hiff.2 htest.2
  exact ⟨rules, hrules, htest.1, hsmall, fun rule hrule => (hsound hsmall rule hrule).1⟩

/-- A literal of 309 digits, which is more than `2^1024`. -/
def longText : String := "left=" ++ String.ofList (List.replicate 309 '9')

/-- **Not everything that is accepted can be stored**: a literal that is too large is read as an
infinity, which is refused as a value and written as a word that is refused as a text. -/
theorem infinite_of_longText : ∃ rules, clauses? longText = .ok rules ∧
    rules.map Constraint.numbers = [[.infinite false]] ∧
    (∀ rule ∈ rules, ¬ ConstraintInput.rule rule.target rule.comparison rule.condition
      rule.animation rule.value = .ok rule) ∧
    clausesText rules = "left=inf" ∧ ¬ ∃ again, clauses? "left=inf" = .ok again := by
  -- everything that is to be known of the rules is put into one test, so that reading runs once
  have hread : ((clauses? longText).toOption.any fun rules =>
      rules.map Constraint.numbers == [[.infinite false]] &&
        (rules.all (fun rule => !Expr.isSound rule.value) && clausesText rules == "left=inf")) =
          true := by
    have htext : longText.toList = ['l', 'e', 'f', 't', '='] ++ List.replicate 309 '9' := by
      have hleft : "left=".toList = ['l', 'e', 'f', 't', '='] := by decide
      rw [longText, String.toList_append, hleft, String.toList_ofList]
    rw [clauses?_toOption, htext]
    decide +kernel
  have hrefused : (clauses? "left=inf").toOption.isNone = true := by decide +kernel
  obtain ⟨rules, hrules, htest⟩ := exists_ok_of_any hread
  simp only [Bool.and_eq_true, List.all_eq_true, Bool.not_eq_true', beq_iff_eq] at htest
  obtain ⟨hnumbers, hunsound, htext⟩ := htest
  refine ⟨rules, hrules, hnumbers, fun rule hrule hstored => ?_, htext, ?_⟩
  · unfold ConstraintInput.rule at hstored
    rw [hunsound rule hrule] at hstored
    cases hstored
  · rintro ⟨again, hagain⟩
    rw [hagain] at hrefused
    cases hrefused

end AnchorLayout
