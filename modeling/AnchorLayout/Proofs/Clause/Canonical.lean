import AnchorLayout.Proofs.Clause.RoundTrip
/-!
# Canonical text is a fixed point

  1. **Program** — `clauses?` reads any text that it accepts, `clausesText` writes what was read.
  2. **Specification** — `Constraint.numbers` (the numbers of the value and the guard of a rule):
     where they are finite, the text that is written is read as rules of the same text.
  3. **Timings (`isLegible_of_timing`)** — every item gives the timing something, and the timing
     function that is left at the end is one of the items.
  4. **The crux (`isLegible_of_clauses`)** — many more texts are read than are ever written, but
     what is read from any of them is legible.
-/

namespace AnchorLayout

open Reading

/-- The numbers in the value and the guard of a rule. -/
def Constraint.numbers (c : Constraint) : List Number :=
  Expr.numbers c.value ++ (c.condition.map Condition.numbers).getD []

/-- **Filled**: the value and the guard lack nothing but finite numbers to be sound. -/
structure Constraint.IsFilled (c : Constraint) : Prop where
  value : Expr.isFilled c.value = true
  guard : ∀ g, c.condition = some g → g.isFilled = true

/-- A filled rule with finite numbers is sound. -/
theorem Constraint.IsFilled.isSound {c : Constraint} (h : c.IsFilled)
    (hfinite : ∀ x ∈ c.numbers, x.isFinite = true) :
    Expr.isSound c.value = true ∧ ∀ g, c.condition = some g → g.isSound = true := by
  simp only [numbers, List.mem_append] at hfinite
  refine ⟨(Expr.isSound_iff _).2 ⟨h.value, fun x hx => hfinite x (Or.inl hx)⟩, fun g hg => ?_⟩
  refine (Condition.isSound_iff g).2 ⟨h.guard g hg, fun x hx => hfinite x (Or.inr ?_)⟩
  rw [hg]
  exact hx

/-! ## Timings that have been read -/

namespace Reading.TimingSoFar

variable {t t' : TimingSoFar} {text : String}

/-- What an item does to a timing: it gives it something, and a timing function only if the text
is taken for one. -/
theorem addItem?_eq_some (h : t.addItem? text = some t') : t'.animation.isEmpty = false ∧
    (t'.animation.ease = t.animation.ease ∨
      (t'.animation.ease = some (.ofCssName text) ∧ IsEasing text)) := by
  unfold addItem? at h
  split at h
  · unfold addTime? at h
    split at h <;> cases h <;> exact ⟨by simp [Animation.isEmpty], Or.inl rfl⟩
  · next htime =>
    split at h
    · cases h
      exact ⟨by simp [Animation.isEmpty], Or.inl rfl⟩
    · split at h
      · cases h
        exact ⟨by simp [Animation.isEmpty], Or.inl rfl⟩
      · next hnumber =>
        split at h
        · cases h
          exact ⟨by simp [Animation.isEmpty], Or.inl rfl⟩
        · next hdirection =>
          cases h
          exact ⟨by simp [Animation.isEmpty], Or.inr ⟨rfl, hnumber, htime, hdirection⟩⟩

/-- The timing function of a timing was there before its items, or is one of them. -/
theorem ease_of_fold {texts : List String} {e : Ease} (h : texts.foldlM addItem? t = some t')
    (he : t'.animation.ease = some e) :
    t.animation.ease = some e ∨ (e.cssName ∈ texts ∧ IsEasing e.cssName) := by
  induction texts generalizing t with
  | nil =>
    cases h
    exact Or.inl he
  | cons text texts ih =>
    rw [List.foldlM_cons] at h
    obtain ⟨next, hadd, hothers⟩ := Option.bind_eq_some_iff.1 h
    rcases ih hothers with hnext | ⟨hmem, heasing⟩
    · rcases (addItem?_eq_some hadd).2 with hkept | ⟨hnew, heasing⟩
      · exact Or.inl (hkept ▸ hnext)
      · rw [hnew] at hnext
        cases hnext
        rw [Ease.cssName_ofCssName]
        exact Or.inr ⟨List.mem_cons_self, heasing⟩
    · exact Or.inr ⟨List.mem_cons_of_mem text hmem, heasing⟩

end Reading.TimingSoFar

section

variable {guarded : Bool} {tokens rest : List Token}

/-- **A timing that has been read is legible.** -/
theorem isLegible_of_timing {a : Animation} (h : timing.run tokens = .ok (a, rest))
    (hcuts : Cuts tokens) (hmark : guarded = false → hasGuard tokens = false) :
    a.IsLegible guarded ∧ ∃ taken, tokens = taken ++ rest := by
  obtain ⟨texts, ps, taken, n, htokens, hitems, hfold⟩ := exists_areItems_of_timing h hcuts hmark
  refine ⟨fun e he => ?_, taken, htokens⟩
  rcases TimingSoFar.ease_of_fold hfold he with hnone | ⟨hmem, heasing⟩
  · cases hnone
  · exact ⟨heasing, hitems.exists_of_mem hmem⟩

/-! ## Clauses that have been read -/

theorem isLegible_of_clauseTiming {o : Option Animation}
    (h : clauseTiming.run tokens = .ok (o, rest)) (hcuts : Cuts tokens)
    (hmark : guarded = false → hasGuard tokens = false) :
    (∀ a, o = some a → a.IsLegible guarded) ∧ ∃ taken, tokens = taken ++ rest := by
  unfold clauseTiming at h
  obtain ⟨found, mid, haccept, hrest⟩ := run_bind_eq_ok h
  rcases accept_eq_ok haccept with ⟨rfl, t, rfl, ht⟩ | ⟨rfl, rfl, -⟩
  · obtain ⟨a, left, htiming, hdone⟩ := run_bind_eq_ok hrest
    cases hdone
    have hcolon : Unended [t] := unended_singleton (by rw [ht]; decide)
    obtain ⟨hlegible, taken, rfl⟩ := isLegible_of_timing htiming hcuts.tail fun hguarded =>
      (hasGuard_append_eq_false hcolon (hmark hguarded)).2
    refine ⟨fun a' heq => ?_, t :: taken, rfl⟩
    cases heq
    exact hlegible
  · cases hrest
    refine ⟨fun a heq => ?_, [], rfl⟩
    cases heq

/-- **A rule that has been read is legible**, if its numbers are finite. -/
theorem isLegible_of_clause {rule : Constraint} (h : clause.run tokens = .ok (rule, rest))
    (hcuts : Cuts tokens) (hfinite : ∀ x ∈ rule.numbers, x.isFinite = true) :
    rule.IsLegible ∧ ∃ taken, tokens = taken ++ rest := by
  obtain ⟨front, behind, rfl, -, -, hguard, hvalue, hmark, htiming⟩ := exists_front_of_clause h
  obtain ⟨hlegible, taken, rfl⟩ := isLegible_of_clauseTiming htiming hcuts.append.2 hmark
  have hfilled : rule.IsFilled := ⟨hvalue, hguard⟩
  obtain ⟨hsound, hsound'⟩ := hfilled.isSound hfinite
  exact ⟨⟨hsound, hsound', hlegible⟩, front ++ taken, (List.append_assoc _ _ _).symm⟩

/-- **All rules that have been read are legible**, if their numbers are finite. -/
theorem isLegible_of_clauses {fuel : Nat} {rules : List Constraint}
    (h : (clauses fuel).run tokens = .ok (rules, rest)) (hcuts : Cuts tokens)
    (hfinite : ∀ rule ∈ rules, ∀ x ∈ rule.numbers, x.isFinite = true) :
    ∀ rule ∈ rules, rule.IsLegible := by
  induction fuel generalizing tokens rules with
  | zero =>
    cases h
    exact fun _ hrule => absurd hrule List.not_mem_nil
  | succ fuel ih =>
    unfold clauses at h
    obtain ⟨skipped, mid, haccept, hrest⟩ := run_bind_eq_ok h
    -- a semicolon in front is skipped; otherwise the tokens are used up, or a clause comes next
    rcases accept_eq_ok haccept with ⟨rfl, t, rfl, -⟩ | ⟨rfl, rfl, -⟩
    · exact ih hrest hcuts.tail hfinite
    · simp only [Bool.false_eq_true, if_false] at hrest
      rw [run_bind (peek_run _)] at hrest
      split at hrest
      · cases hrest
        exact fun _ hrule => absurd hrule List.not_mem_nil
      · obtain ⟨first, mid, hclause, hbehind⟩ := run_bind_eq_ok hrest
        obtain ⟨more, left, hmore, hothers⟩ := run_bind_eq_ok hbehind
        -- behind the clause there are others only if a semicolon is taken first
        rcases accept_eq_ok hmore with ⟨rfl, t, rfl, -⟩ | ⟨rfl, rfl, -⟩
        · simp only [if_true] at hothers
          obtain ⟨others, last, hread, hdone⟩ := run_bind_eq_ok hothers
          cases hdone
          obtain ⟨hlegible, taken, rfl⟩ :=
            isLegible_of_clause hclause hcuts (hfinite first List.mem_cons_self)
          have hall := ih hread hcuts.append.2.tail fun rule hrule =>
            hfinite rule (List.mem_cons_of_mem first hrule)
          intro rule hrule
          rcases List.mem_cons.1 hrule with rfl | hrule
          · exact hlegible
          · exact hall rule hrule
        · simp only [Bool.false_eq_true, if_false] at hothers
          rw [run_bind (peek_run _)] at hothers
          split at hothers
          · cases hothers
            intro rule hrule
            rw [List.mem_singleton.1 hrule]
            exact (isLegible_of_clause hclause hcuts (hfinite first List.mem_cons_self)).1
          · cases hothers

end

/-! ## Reading, writing and reading again -/

/-- **Canonical text is a fixed point**: what has been read from any text is written as a text that
is read again, as rules that are written as the same text. -/
theorem clausesText_read_again {source : String} {rules : List Constraint}
    (h : clauses? source = .ok rules)
    (hfinite : ∀ rule ∈ rules, ∀ x ∈ rule.numbers, x.isFinite = true) :
    ∃ again, clauses? (clausesText rules) = .ok again ∧ clausesText again = clausesText rules := by
  have hlegible : ∀ rule ∈ rules, rule.IsLegible := by
    unfold clauses? at h
    split at h
    · cases h
    · next tokens htokens =>
      split at h
      · next hrun =>
        cases h
        exact isLegible_of_clauses hrun (cuts_of_tokens htokens) hfinite
      · cases h
  obtain ⟨again, hread, htexts⟩ :=
    exists_clauses_read (R := fun rule r => r.text = rule.text) fun rule hrule => by
      obtain ⟨r, ps, htext, -, hclause⟩ := exists_spelt_clause (hlegible rule hrule)
      exact ⟨r, ps, htext, hclause⟩
  refine ⟨again, hread, congrArg (";".intercalate ·) ?_⟩
  clear hread h hfinite hlegible
  induction htexts with
  | nil => rfl
  | cons htext _ ih => rw [List.map_cons, List.map_cons, htext, ih]

/-- **Reading that passes a test succeeds**, with a result that passes it.  Whether it does can be
evaluated on a text, and the rules are then named by this lemma. -/
theorem exists_ok_of_any {ε α : Type} {result : Except ε α} {test : α → Bool}
    (h : result.toOption.any test = true) : ∃ a, result = .ok a ∧ test a = true := by
  cases result with
  | error e => cases h
  | ok a => exact ⟨a, rfl, h⟩

/-- A text with other names, zeros and white space than are written, with a timing whose function
leaves a parenthesis open before a direction, and with times and counts that are not finite. -/
def looseText : String :=
  " ;portrait ? x < id007.left * ( 012 + max(gap) ) : infs , -nan, cubic( 0,2s , reverse;;" ++
    "width=-0:a ,b ,inf;"

/-- What is written of it. -/
def strictText : String :=
  "portrait?left<id7.left*(12+max(gap)):infs,cubic( 0,2s , reverse,NaN;width=0:b,inf"

theorem clausesText_read_again_of_looseText : ∃ rules, clauses? looseText = .ok rules ∧
    (∀ rule ∈ rules, ∀ x ∈ rule.numbers, x.isFinite = true) ∧ clausesText rules = strictText ∧
      ∃ again, clauses? (clausesText rules) = .ok again ∧
        clausesText again = clausesText rules := by
  have hread : ((clauses? looseText).toOption.any fun rules =>
      (rules.all fun rule => rule.numbers.all Number.isFinite) &&
        clausesText rules == strictText) = true := by decide +kernel
  obtain ⟨rules, hrules, htest⟩ := exists_ok_of_any hread
  simp only [Bool.and_eq_true, List.all_eq_true, beq_iff_eq] at htest
  exact ⟨rules, hrules, htest.1, htest.2, clausesText_read_again hrules htest.1⟩

end AnchorLayout
