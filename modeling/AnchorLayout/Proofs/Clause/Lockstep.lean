import AnchorLayout.Proofs.Clause.ItemList
import AnchorLayout.Proofs.Clause.Yield
/-!
# Two readers in lockstep

  A reader is compared with itself on other tokens, or with itself on other fuel.  Whatever the
  comparison says, it is made along the reader in the same way.

  1. **Specification** — `Lockstep`: a relation between readers on so many tokens, with one rule for
     each way in which readers are put together.
  2. **Program** — the readers of `Clause.Reader`, with the same fuel on both sides or with two
     fuels that are both enough.
  3. **Loops (`separated`, `chainFrom`, `timingItems`)** — every turn takes a token, so by induction
     on the number of tokens the two sides make the same turns.
  4. **The crux (`sum`)** — a level of nesting takes a parenthesis.  The depth is a fuel too, and so
     a whole clause is in lockstep (`clause`) as soon as a relation has the rules.
-/

namespace AnchorLayout

namespace Reading

/-! ## Specification -/

/-- The end of a clause, seen as the kind of the next token. -/
def IsEnd (found : Option TokenKind) : Prop := found = none ∨ found = some (.sign .semicolon)

/-- **The rules for comparing readers.**  `R size x y` says of two readers what is to be proved, on
stretches of at most `size` tokens; `Same` says which tokens may stand at one place on the two
sides.  The rules that look at a token (`next`, `peek`, `accept`) ask for less than `size` tokens
behind it, and ask separately what happens where there is none left in the clause. -/
structure Lockstep (Same : Token → Token → Prop)
    (R : (α : Type) → Nat → Reading α → Reading α → Prop) : Prop where
  mono : ∀ {α : Type} {size size' : Nat} {x y : Reading α}, R α size x y → size' ≤ size →
    R α size' x y
  bind : ∀ {α β : Type} {size : Nat} {x y : Reading α} {f g : α → Reading β}, R α size x y →
    (∀ a, R β size (f a) (g a)) → R β size (x >>= f) (y >>= g)
  pure : ∀ {α : Type} {size : Nat} (a : α), R α size (pure a) (pure a)
  /-- The end of the clause is left alone by both. -/
  stop : ∀ {α : Type} {x y : Reading α} {a : α},
    (∀ rest, EndsClause rest → x.run rest = .ok (a, rest)) →
    (∀ rest, EndsClause rest → y.run rest = .ok (a, rest)) → R α 0 x y
  failHere : ∀ {α : Type} {size : Nat} (fault : Fault),
    R α size (failHere fault) (failHere fault)
  failAt : ∀ {α : Type} {size : Nat} {t t' : Token}, Same t t' → ∀ fault : Fault,
    R α size (Reading.failAt (some t) fault) (Reading.failAt (some t') fault)
  failAt_none : ∀ {α : Type} {size : Nat} (fault : Fault),
    R α size (Reading.failAt none fault) (Reading.failAt none fault)
  /-- The tokens that are left are counted: each side has at least those of the stretch. -/
  get : ∀ {α : Type} {size : Nat} {f g : List Token → Reading α},
    (∀ n ≤ size, ∀ tokens tokens', n ≤ tokens.length → n ≤ tokens'.length →
      R α n (f tokens) (g tokens')) → R α size (get >>= f) (get >>= g)
  /-- The mark of a guard is looked for up to the end of the clause. -/
  hasGuard : ∀ {α : Type} {size : Nat} {x x' y y' : Reading α}, R α size x y → R α size x' y' →
    R α size (MonadState.get >>= fun tokens => if hasGuard tokens then x else x')
      (MonadState.get >>= fun tokens => if hasGuard tokens then y else y')
  /-- A token is taken, of the same kind on both sides, if the end of a clause is a fault. -/
  next : ∀ {α : Type} {size : Nat} {f g : Option Token → Reading α},
    (∀ token, IsEnd (token.map Token.kind) → Fails (f token) ∧ Fails (g token)) →
    R α 0 (f none) (g none) →
    (∀ kind lexeme blank start start' n, size = n + 1 →
      Same ⟨kind, lexeme, blank, start⟩ ⟨kind, lexeme, blank, start'⟩ →
      R α n (f (some ⟨kind, lexeme, blank, start⟩)) (g (some ⟨kind, lexeme, blank, start'⟩))) →
    R α size (next >>= f) (next >>= g)
  /-- A token is looked at, and then taken without another look or left. -/
  peek : ∀ {α : Type} {size : Nat} {f g : Option TokenKind → Reading α},
    R α 0 (f none) (g none) →
    (∀ found found', IsEnd found → IsEnd found' →
      Fails (f found) ∧ Fails (g found') ∨ R α 0 (f found) (g found')) →
    (∀ kind, R α size (f (some kind)) (g (some kind)) ∨
      ∃ x y, (∀ n, size = n + 1 → R α n x y) ∧ f (some kind) = (Reading.next >>= fun _ => x) ∧
        g (some kind) = (Reading.next >>= fun _ => y)) →
    R α size (peek >>= f) (peek >>= g)
  /-- A sign may be taken that is not the end of a clause. -/
  accept : ∀ {α : Type} {size : Nat} {sign : Sign} {f g : Bool → Reading α}, sign ≠ .semicolon →
    (∀ n, size = n + 1 → R α n (f true) (g true)) → R α size (f false) (g false) →
    R α size (accept sign >>= f) (accept sign >>= g)
  timingItem : ∀ {size : Nat} (t : TimingSoFar), R _ size (timingItem t) (timingItem t)

variable {Same : Token → Token → Prop} {R : (α : Type) → Nat → Reading α → Reading α → Prop}
  {α : Type} {size : Nat} {x y : Reading α}

namespace Lockstep

variable (rules : Lockstep Same R)

include rules

/-! ## Single tokens -/

/-- What is read behind a token that both take without looking at it, as `peek` asks for it. -/
theorem skips (h : R α size x y) : ∃ x' y', (∀ n, size = n + 1 → R α n x' y') ∧
    (Reading.next >>= fun _ => x) = (Reading.next >>= fun _ => x') ∧
      (Reading.next >>= fun _ => y) = (Reading.next >>= fun _ => y') :=
  ⟨x, y, fun n hn => rules.mono h (hn ▸ Nat.le_succ n), rfl, rfl⟩

/-- A sign that must be there is read as one that may be, and then missed. -/
theorem expect {sign : Sign} (hs : sign ≠ .semicolon) :
    R _ size (Reading.expect sign) (Reading.expect sign) := by
  refine rules.accept hs (fun n _ => rules.pure ()) (rules.peek (rules.failHere _) ?_ ?_)
  · exact fun found found' _ _ => Or.inl ⟨fails_failHere _, fails_failHere _⟩
  · exact fun kind => Or.inl (rules.failHere _)

/-! ## Repetition -/

/-- **Items with a sign between them**: the signs are tokens too. -/
theorem separated {sign : Sign} (hs : sign ≠ .semicolon) (h : R α size x y) {n : Nat}
    (hn : n ≤ size) {fuel fuel' : Nat} (hfuel : n < fuel) (hfuel' : n < fuel') :
    R _ n (Reading.separated sign x fuel) (Reading.separated sign y fuel') := by
  induction n using Nat.strongRecOn generalizing fuel fuel' with
  | ind n ih =>
    obtain ⟨fuel, rfl⟩ : ∃ k, fuel = k + 1 := ⟨fuel - 1, by omega⟩
    obtain ⟨fuel', rfl⟩ : ∃ k, fuel' = k + 1 := ⟨fuel' - 1, by omega⟩
    refine rules.bind (rules.mono h hn) fun a => rules.accept hs (fun k hk => ?_) (rules.pure _)
    exact rules.bind (ih k (by omega) (by omega) (by omega) (by omega)) fun as => rules.pure _

/-- The same for a list that begins with an item. -/
theorem listOf {sign : Sign} (hs : sign ≠ .semicolon) (h : R α size x y) :
    R _ size (Reading.listOf sign x) (Reading.listOf sign y) :=
  rules.get fun _ hn _ _ hcount hcount' =>
    rules.separated hs h hn (Nat.lt_succ_of_le hcount) (Nat.lt_succ_of_le hcount')

end Lockstep

/-- The end of a clause is no operator, so the loop for operators stops there on both sides. -/
theorem stops_of_endsClause {operator? : TokenKind → Option BinaryOp}
    (hend : operator? (.sign .semicolon) = none) {rest : List Token} (h : EndsClause rest) :
    Stops operator? rest := by
  unfold Stops
  rcases h with h | h <;> rw [h]
  · rfl
  · exact hend

namespace Lockstep

variable (rules : Lockstep Same R)

include rules

section

variable {operator? : TokenKind → Option BinaryOp} {x y : Reading Expr}

/-- **Operators of one level**: each of them is a token, and the end of a clause is none. -/
theorem chainFrom (hend : operator? (.sign .semicolon) = none) (h : R _ size x y) {n : Nat}
    (hn : n ≤ size) {fuel fuel' : Nat} (hfuel : n ≤ fuel) (hfuel' : n ≤ fuel') (left : Expr) :
    R _ n (Reading.chainFrom operator? x fuel left) (Reading.chainFrom operator? y fuel' left) := by
  induction n generalizing fuel fuel' left with
  | zero =>
    -- with no fuel there is no look at the end either, so `peek` does not apply
    refine rules.stop (a := left) (fun rest h => ?_) fun rest h => ?_ <;>
      exact chainFrom_stop (stops_of_endsClause hend h) _ left
  | succ n ih =>
    obtain ⟨fuel, rfl⟩ : ∃ k, fuel = k + 1 := ⟨fuel - 1, by omega⟩
    obtain ⟨fuel', rfl⟩ : ∃ k, fuel' = k + 1 := ⟨fuel' - 1, by omega⟩
    have hnone {found : Option TokenKind} (hfound : IsEnd found) :
        found.bind operator? = none := by
      rcases hfound with rfl | rfl
      · rfl
      · exact hend
    refine rules.peek (rules.pure left) (fun found found' hfound hfound' => Or.inr ?_) fun kind => ?_
    · rw [hnone hfound, hnone hfound']
      exact rules.pure left
    · rw [Option.bind_some]
      cases operator? kind with
      | none => exact Or.inl (rules.pure left)
      | some op =>
        refine Or.inr ⟨_, _, fun k hk => ?_, rfl, rfl⟩
        obtain rfl : n = k := Nat.succ.inj hk
        exact rules.bind (rules.mono h (by omega)) fun right =>
          ih (by omega) (by omega) (by omega) _

/-- The same for an operand and the operators behind it. -/
theorem chain (hend : operator? (.sign .semicolon) = none) (h : R _ size x y) :
    R _ size (Reading.chain operator? x) (Reading.chain operator? y) :=
  rules.bind h fun first => rules.get fun _ hn _ _ hcount hcount' =>
    rules.chainFrom hend h hn hcount hcount' first

end

/-! ## Expressions -/

/-- A name is one token, and what it names is settled by its kind. -/
theorem attributeName : R _ size Reading.attributeName Reading.attributeName := by
  refine rules.next ?_ (rules.failAt_none _) fun kind lexeme blank start start' n _ hsame => ?_
  · rintro token (h | h) <;> simp only [h] <;> exact ⟨fails_failAt _ _, fails_failAt _ _⟩
  cases kind with
  | name name =>
    simp only [Option.map_some]
    cases Attribute.ofName? name with
    | some attr => exact rules.pure attr
    | none => exact rules.failAt hsame _
  | number | sign => exact rules.failAt hsame _

/-- The arguments of a call, in parentheses and with commas. -/
theorem arguments {nested nested' : Reading Expr} (h : R _ size nested nested') :
    R _ size (Reading.arguments nested) (Reading.arguments nested') :=
  rules.bind (rules.expect (by decide)) fun _ => rules.bind (rules.listOf (by decide) h) fun args =>
    rules.bind (rules.expect (by decide)) fun _ => rules.pure args

/-- **Operands**: what stands in parentheses is shorter. -/
theorem operand {nested nested' : Reading Expr} (h : ∀ n, size = n + 1 → R _ n nested nested') :
    R _ size (Reading.operand nested) (Reading.operand nested') := by
  refine rules.next ?_ (rules.failAt_none _) fun kind lexeme blank start start' n hn hsame => ?_
  · rintro token (h | h) <;> simp only [h] <;> exact ⟨fails_failAt _ _, fails_failAt _ _⟩
  have hnested := h n hn
  cases kind with
  | number value => exact rules.pure _
  | name name =>
    simp only [Option.map_some]
    split
    · exact rules.pure _
    split
    · exact rules.bind (rules.arguments hnested) fun args => rules.pure _
    split
    · exact rules.bind (rules.arguments hnested) fun args => rules.pure _
    cases ViewId.parse? name with
    | none => exact rules.failAt hsame _
    | some view =>
      exact rules.bind (rules.expect (by decide)) fun _ =>
        rules.bind rules.attributeName fun attr => rules.pure _
  | sign s =>
    cases s with
    | minus =>
      -- a fault lies at the minus sign, whatever the token behind it is
      refine rules.next ?_ (rules.failAt hsame _) fun kind _ _ _ _ m _ _ => ?_
      · rintro token (h | h) <;> simp only [h] <;> exact ⟨fails_failAt _ _, fails_failAt _ _⟩
      · cases kind with
        | number value => exact rules.pure _
        | name | sign => exact rules.failAt hsame _
    | leftParen =>
      exact rules.bind hnested fun inner =>
        rules.bind (rules.expect (by decide)) fun _ => rules.pure inner
    | _ => exact rules.failAt hsame _

/-- **Depth does not matter** where it exceeds the number of tokens. -/
theorem sum {depth depth' : Nat} (hdepth : size < depth) (hdepth' : size < depth') :
    R _ size (Reading.sum depth) (Reading.sum depth') := by
  induction size using Nat.strongRecOn generalizing depth depth' with
  | ind size ih =>
    obtain ⟨depth, rfl⟩ : ∃ k, depth = k + 1 := ⟨depth - 1, by omega⟩
    obtain ⟨depth', rfl⟩ : ∃ k, depth' = k + 1 := ⟨depth' - 1, by omega⟩
    refine rules.chain rfl (rules.chain rfl (rules.operand fun n hn => ?_))
    exact ih n (by omega) (by omega) (by omega)

/-- **Expressions**, for which the depth is taken from the number of tokens.  It differs between the
two sides, and `sum` says that this does no harm. -/
theorem expr : R _ size Reading.expr Reading.expr :=
  rules.get fun _ _ _ _ hcount hcount' =>
    rules.sum (Nat.lt_succ_of_le hcount) (Nat.lt_succ_of_le hcount')

/-- An expression of any depth is in lockstep with itself, be the depth enough or not. -/
theorem sum_self (depth : Nat) : R _ size (Reading.sum depth) (Reading.sum depth) := by
  induction depth generalizing size with
  | zero => exact rules.failHere _
  | succ depth ih => exact rules.chain rfl (rules.chain rfl (rules.operand fun n _ => ih))

/-! ## Guards -/

/-- The view of an orientation stands in parentheses, if there is one. -/
theorem orientedView : R _ size Reading.orientedView Reading.orientedView := by
  refine rules.accept (by decide) (fun n _ => ?_) (rules.pure none)
  refine rules.next ?_ (rules.failAt_none _) fun kind lexeme blank start start' m _ hsame => ?_
  · rintro token (h | h) <;> simp only [h] <;> exact ⟨fails_failAt _ _, fails_failAt _ _⟩
  · cases kind with
    | name name =>
      simp only [Option.map_some]
      cases ViewId.parse? name with
      | none => exact rules.failAt hsame _
      | some view => exact rules.bind (rules.expect (by decide)) fun _ => rules.pure _
    | number | sign => exact rules.failAt hsame _

/-- Two expressions and a comparison between them. -/
theorem comparedExprs : R _ size Reading.comparedExprs Reading.comparedExprs := by
  refine rules.bind rules.expr fun lhs => rules.peek (rules.failHere _) ?_ fun kind => ?_
  · rintro found found' (rfl | rfl) (rfl | rfl) <;>
      exact Or.inl ⟨fails_failHere _, fails_failHere _⟩
  · cases kind with
    | name | number => exact Or.inl (rules.failHere _)
    | sign s =>
      cases s with
      | less => exact Or.inr (rules.skips (rules.bind rules.expr fun rhs => rules.pure _))
      | greater => exact Or.inr (rules.skips (rules.bind rules.expr fun rhs => rules.pure _))
      | _ => exact Or.inl (rules.failHere _)

/-- An orientation is tried before a comparison, and both sides make the same choice. -/
theorem conditionPart : R _ size Reading.conditionPart Reading.conditionPart := by
  refine rules.peek rules.comparedExprs ?_ fun kind => ?_
  · rintro found found' (rfl | rfl) (rfl | rfl) <;> exact Or.inr rules.comparedExprs
  · split
    · exact Or.inr (rules.skips (rules.bind rules.orientedView fun view => rules.pure _))
    · exact Or.inr (rules.skips (rules.bind rules.orientedView fun view => rules.pure _))
    · exact Or.inl rules.comparedExprs

/-- Parts with an ampersand between them. -/
theorem condition : R _ size Reading.condition Reading.condition := by
  refine rules.bind (rules.listOf (by decide) rules.conditionPart) fun parts => ?_
  split <;> exact rules.pure _

/-- Whether there is a guard at all is seen by a look ahead, which is a rule of its own. -/
theorem guard : R _ size Reading.guard Reading.guard :=
  rules.hasGuard
    (rules.bind rules.condition fun c => rules.bind (rules.expect (by decide)) fun _ =>
      rules.pure (some c))
    (rules.pure none)

/-! ## Comparisons and timings -/

/-- One of three signs, or a fault. -/
theorem comparison : R _ size Reading.comparison Reading.comparison := by
  refine rules.peek (rules.failHere _) ?_ fun kind => ?_
  · rintro found found' (rfl | rfl) (rfl | rfl) <;>
      exact Or.inl ⟨fails_failHere _, fails_failHere _⟩
  · cases kind with
    | name | number => exact Or.inl (rules.failHere _)
    | sign s =>
      cases s with
      | equal => exact Or.inr (rules.skips (rules.pure Comparison.equal))
      | less => exact Or.inr (rules.skips (rules.pure Comparison.less))
      | greater => exact Or.inr (rules.skips (rules.pure Comparison.greater))
      | _ => exact Or.inl (rules.failHere _)

/-- **Items of a timing**: the commas between them are tokens too. -/
theorem timingItems {fuel fuel' : Nat} (hfuel : size < fuel) (hfuel' : size < fuel')
    (t : TimingSoFar) : R _ size (Reading.timingItems fuel t) (Reading.timingItems fuel' t) := by
  induction size using Nat.strongRecOn generalizing fuel fuel' t with
  | ind size ih =>
    obtain ⟨fuel, rfl⟩ : ∃ k, fuel = k + 1 := ⟨fuel - 1, by omega⟩
    obtain ⟨fuel', rfl⟩ : ∃ k, fuel' = k + 1 := ⟨fuel' - 1, by omega⟩
    refine rules.bind (rules.timingItem t) fun t =>
      rules.accept (by decide) (fun k hk => ?_) (rules.pure _)
    exact ih k (by omega) (by omega) (by omega) t

/-- A timing begins without any item. -/
theorem timing : R _ size Reading.timing Reading.timing :=
  rules.get fun _ _ _ _ hcount hcount' =>
    rules.timingItems (Nat.lt_succ_of_le hcount) (Nat.lt_succ_of_le hcount') _

/-- A colon says whether there is a timing. -/
theorem clauseTiming : R _ size Reading.clauseTiming Reading.clauseTiming :=
  rules.accept (by decide) (fun _ hn => rules.bind rules.timing fun _ => rules.pure _)
    (rules.pure none)

/-- **A clause is in lockstep**: its parts are read one after the other. -/
theorem clause : R _ size Reading.clause Reading.clause :=
  rules.bind rules.guard fun _ => rules.bind rules.attributeName fun _ =>
    rules.bind rules.comparison fun _ => rules.bind rules.expr fun _ =>
      rules.bind rules.clauseTiming fun _ => rules.pure _

end Lockstep

end Reading

end AnchorLayout
