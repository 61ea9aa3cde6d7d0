import AnchorLayout.Proofs.Clause.Guard
/-!
# What a reader takes and yields

  1. **Program** — the readers of `Clause.Reader` for the guard, the target, the comparison and the
     value of a clause, and those they are made of.
  2. **Specification** — `Yields`: what is read has a property and the numbers of the tokens that
     were taken, each with its sign or without one; these are the first tokens, and they end
     neither a value nor a clause.
  3. **Composition** — `Yields.bind`, and one lemma for each way of taking a single token.
  4. **The crux (`yields_sum`, `yields_condition`)** — whatever is read has arguments in its calls
     and parts in its conjunctions, so it lacks nothing but finite numbers to be sound
     (`Expr.isSound_iff`), and no number comes from anywhere but a numeral.
-/

namespace AnchorLayout

/-! ## Numbers -/

namespace Expr

mutual

/-- The numbers of an expression from left to right. -/
def numbers : Expr → List Number
  | .num value => [value]
  | .gap => []
  | .anchor _ => []
  | .binary _ lhs rhs => numbers lhs ++ numbers rhs
  | .call _ args => numbersOfAll args

/-- The numbers of several expressions. -/
def numbersOfAll : List Expr → List Number
  | [] => []
  | e :: rest => numbers e ++ numbersOfAll rest

end

/-- The recursion over arguments is that of a list, so the lemmas about lists apply. -/
theorem numbersOfAll_eq_flatMap (args : List Expr) : numbersOfAll args = args.flatMap numbers := by
  induction args with
  | nil => rfl
  | cons arg rest ih => rw [numbersOfAll, ih, List.flatMap_cons]

mutual

/-- **Filled**: no call is without arguments. -/
def isFilled : Expr → Bool
  | .num _ => true
  | .gap => true
  | .anchor _ => true
  | .binary _ lhs rhs => isFilled lhs && isFilled rhs
  | .call _ args => !args.isEmpty && areFilled args

/-- Whether all of several expressions are filled. -/
def areFilled : List Expr → Bool
  | [] => true
  | e :: rest => isFilled e && areFilled rest

end

/-- Several are filled if each of them is. -/
theorem areFilled_iff {args : List Expr} :
    areFilled args = true ↔ ∀ arg ∈ args, isFilled arg = true := by
  induction args with
  | nil => simp [areFilled]
  | cons arg rest ih => simp [areFilled, ih]

/-- A call that has arguments, all of them filled, is filled. -/
theorem isFilled_call (func : Func) {args : List Expr} (hne : args ≠ [])
    (h : ∀ arg ∈ args, isFilled arg = true) : isFilled (.call func args) = true := by
  simp only [isFilled, Bool.and_eq_true, Bool.not_eq_true', List.isEmpty_eq_false_iff]
  exact ⟨hne, areFilled_iff.2 h⟩

/-- **Sound** means filled, with finite numbers. -/
theorem isSound_iff (e : Expr) :
    isSound e = true ↔ isFilled e = true ∧ ∀ x ∈ numbers e, x.isFinite = true := by
  induction e using Term.induction with
  | num value => simp [isSound, isFilled, numbers]
  | gap => simp [isSound, isFilled, numbers]
  | anchor a => simp [isSound, isFilled, numbers]
  | binary op lhs rhs ihl ihr =>
    simp only [isSound, isFilled, numbers, Bool.and_eq_true, ihl, ihr, List.forall_mem_append]
    exact and_and_and_comm
  | call func args ih =>
    simp only [isSound, isFilled, numbers, Bool.and_eq_true, areSound_iff, areFilled_iff,
      numbersOfAll_eq_flatMap, List.forall_mem_flatMap]
    constructor
    · rintro ⟨hne, hall⟩
      exact ⟨⟨hne, fun arg harg => ((ih arg harg).1 (hall arg harg)).1⟩,
        fun arg harg => ((ih arg harg).1 (hall arg harg)).2⟩
    · rintro ⟨⟨hne, hfilled⟩, hfinite⟩
      exact ⟨hne, fun arg harg => (ih arg harg).2 ⟨hfilled arg harg, hfinite arg harg⟩⟩

end Expr

namespace Condition

mutual

/-- The numbers that are compared in a condition. -/
def numbers : Condition → List Number
  | portrait _ => []
  | landscape _ => []
  | compare lhs _ rhs => Expr.numbers lhs ++ Expr.numbers rhs
  | all parts => numbersOfAll parts

/-- The numbers that are compared in several conditions. -/
def numbersOfAll : List Condition → List Number
  | [] => []
  | condition :: rest => numbers condition ++ numbersOfAll rest

end

/-- The same for the parts of a conjunction. -/
theorem numbersOfAll_eq_flatMap (parts : List Condition) :
    numbersOfAll parts = parts.flatMap numbers := by
  induction parts with
  | nil => rfl
  | cons part rest ih => rw [numbersOfAll, ih, List.flatMap_cons]

theorem areSound_iff {parts : List Condition} :
    areSound parts = true ↔ ∀ part ∈ parts, part.isSound = true := by
  induction parts with
  | nil => simp [areSound]
  | cons part rest ih => simp [areSound, ih]

mutual

/-- **Filled**: filled expressions are compared by `<` or `>`, and no conjunction is empty. -/
def isFilled : Condition → Bool
  | portrait _ => true
  | landscape _ => true
  | compare lhs comparison rhs => comparison != .equal && Expr.isFilled lhs && Expr.isFilled rhs
  | all parts => !parts.isEmpty && areFilled parts

/-- Whether all of several conditions are filled. -/
def areFilled : List Condition → Bool
  | [] => true
  | condition :: rest => isFilled condition && areFilled rest

end

/-- Several conditions are filled if each of them is. -/
theorem areFilled_iff {parts : List Condition} :
    areFilled parts = true ↔ ∀ part ∈ parts, part.isFilled = true := by
  induction parts with
  | nil => simp [areFilled]
  | cons part rest ih => simp [areFilled, ih]

/-- A comparison of filled expressions is filled, unless it is by `=`, which no guard has. -/
theorem isFilled_compare {c : Comparison} (hc : c ≠ .equal) {lhs rhs : Expr}
    (hl : Expr.isFilled lhs = true) (hr : Expr.isFilled rhs = true) :
    isFilled (compare lhs c rhs) = true := by
  simp only [isFilled, Bool.and_eq_true, bne_iff_ne]
  exact ⟨⟨hc, hl⟩, hr⟩

theorem isFilled_all {parts : List Condition} (hne : parts ≠ [])
    (h : ∀ part ∈ parts, part.isFilled = true) : isFilled (all parts) = true := by
  simp only [isFilled, Bool.and_eq_true, Bool.not_eq_true', List.isEmpty_eq_false_iff]
  exact ⟨hne, areFilled_iff.2 h⟩

/-- **Sound** means filled, with finite numbers. -/
theorem isSound_iff (condition : Condition) : condition.isSound = true ↔
    condition.isFilled = true ∧ ∀ x ∈ condition.numbers, x.isFinite = true := by
  induction condition using Condition.induction with
  | portrait view => simp [isSound, isFilled, numbers]
  | landscape view => simp [isSound, isFilled, numbers]
  | compare lhs comparison rhs =>
    simp only [isSound, isFilled, numbers, Bool.and_eq_true, Expr.isSound_iff,
      List.forall_mem_append]
    constructor
    · rintro ⟨⟨hc, hl, hl'⟩, hr, hr'⟩
      exact ⟨⟨⟨hc, hl⟩, hr⟩, hl', hr'⟩
    · rintro ⟨⟨⟨hc, hl⟩, hr⟩, hl', hr'⟩
      exact ⟨⟨hc, hl, hl'⟩, hr, hr'⟩
  | all parts ih =>
    simp only [isSound, isFilled, numbers, Bool.and_eq_true, areSound_iff, areFilled_iff,
      numbersOfAll_eq_flatMap, List.forall_mem_flatMap]
    constructor
    · rintro ⟨hne, hall⟩
      exact ⟨⟨hne, fun part hpart => ((ih part hpart).1 (hall part hpart)).1⟩,
        fun part hpart => ((ih part hpart).1 (hall part hpart)).2⟩
    · rintro ⟨⟨hne, hfilled⟩, hfinite⟩
      exact ⟨hne, fun part hpart => (ih part hpart).2 ⟨hfilled part hpart, hfinite part hpart⟩⟩

end Condition

/-! ## Specification -/

/-- None of the tokens ends a clause. -/
def Unended (tokens : List Token) : Prop := ∀ t ∈ tokens, t.kind ≠ .sign .semicolon

theorem unended_nil : Unended [] := fun _ h => absurd h List.not_mem_nil

/-- Tokens are collected stretch by stretch. -/
theorem Unended.append {first last : List Token} (h : Unended first) (h' : Unended last) :
    Unended (first ++ last) := by
  intro t ht
  rcases List.mem_append.1 ht with ht | ht
  · exact h t ht
  · exact h' t ht

theorem unended_singleton {t : Token} (h : t.kind ≠ .sign .semicolon) : Unended [t] := by
  intro u hu
  rw [List.mem_singleton.1 hu]
  exact h

/-- A semicolon ends a clause, and a colon ends its value. -/
def TokenKind.endsValue : TokenKind → Bool
  | .sign .semicolon => true
  | .sign .colon => true
  | _ => false

/-- None of the tokens ends a value. -/
def Inner (tokens : List Token) : Prop := ∀ t ∈ tokens, t.kind.endsValue = false

theorem inner_nil : Inner [] := fun _ h => absurd h List.not_mem_nil

theorem Inner.append {first last : List Token} (h : Inner first) (h' : Inner last) :
    Inner (first ++ last) := by
  intro t ht
  rcases List.mem_append.1 ht with ht | ht
  · exact h t ht
  · exact h' t ht

theorem inner_singleton {t : Token} (h : t.kind.endsValue = false) : Inner [t] := by
  intro u hu
  rw [List.mem_singleton.1 hu]
  exact h

/-- What does not end a value does not end a clause. -/
theorem Inner.unended {tokens : List Token} (h : Inner tokens) : Unended tokens := by
  intro t ht hkind
  have hinner := h t ht
  rw [hkind] at hinner
  cases hinner

/-- The number that a token writes. -/
def TokenKind.number? : TokenKind → Option Number
  | .number value => some value
  | _ => none

/-- The numbers that tokens write, from left to right. -/
def numerals (tokens : List Token) : List Number := tokens.filterMap fun t => t.kind.number?

/-- Numbers are collected from left to right. -/
theorem numerals_append (first last : List Token) :
    numerals (first ++ last) = numerals first ++ numerals last := List.filterMap_append

/-- A number with the sign in front of it taken into account. -/
def IsSigned (x value : Number) : Prop := x = value ∨ x = value.neg

/-- **Accounted for**: the numbers are those of the tokens, one by one. -/
def Counted (numbers : List Number) (tokens : List Token) : Prop :=
  List.Forall₂ IsSigned numbers (numerals tokens)

theorem counted_nil : Counted [] [] := List.Forall₂.nil

/-- What is accounted for in two stretches is accounted for in both together. -/
theorem Counted.append {xs ys : List Number} {first last : List Token} (h : Counted xs first)
    (h' : Counted ys last) : Counted (xs ++ ys) (first ++ last) := by
  unfold Counted
  rw [numerals_append]
  exact List.rel_append h h'

/-- A number by itself, of which the sign may have been taken into account. -/
theorem counted_singleton {t : Token} {x value : Number} (hkind : t.kind = .number value)
    (hx : IsSigned x value) : Counted [x] [t] := by
  unfold Counted numerals
  rw [List.filterMap_cons_some (b := value) (by rw [hkind]; rfl)]
  exact List.Forall₂.cons hx List.Forall₂.nil

/-- A token without a number contributes none. -/
theorem counted_other {t : Token} (hkind : t.kind.number? = none) : Counted [] [t] := by
  unfold Counted numerals
  rw [List.filterMap_cons_none (f := fun t : Token => t.kind.number?) hkind]
  exact List.Forall₂.nil

namespace Reading

variable {α β : Type} {good : α → Prop} {good' : β → Prop} {nums : α → List Number}
  {nums' : β → List Number} {before : List Number} {tokens : List Token}

/-- What a reader gives for some tokens is good, and it has taken the first of them, up to the end
of the value at most; the numbers of what it gives are those it was given before and those of the
tokens it has taken. -/
def YieldsAt (tokens : List Token) (before : List Number) (good : α → Prop)
    (nums : α → List Number) (reader : Reading α) : Prop :=
  ∀ a rest, reader.run tokens = .ok (a, rest) → good a ∧ ∃ taken, tokens = taken ++ rest ∧
    Inner taken ∧ ∃ numbers, nums a = before ++ numbers ∧ Counted numbers taken

/-- **Yields**: whatever the reader reads is good, and stays within the value. -/
def Yields (before : List Number) (good : α → Prop) (nums : α → List Number)
    (reader : Reading α) : Prop := ∀ tokens, YieldsAt tokens before good nums reader

/-- The reader fails, whatever it is given. -/
def Fails (reader : Reading α) : Prop := ∀ tokens, ∃ fault, reader.run tokens = .error fault

/-- A fault is a fault with all tokens. -/
theorem fails_failHere (fault : Fault) : Fails (failHere fault : Reading α) :=
  fun _ => ⟨_, rfl⟩

theorem fails_failAt (token : Option Token) (fault : Fault) :
    Fails (failAt token fault : Reading α) := fun _ => ⟨_, rfl⟩

/-! ## Composition -/

/-- **Where two readers in a row succeed** each of them does.  This takes every run below apart. -/
theorem run_bind_eq_ok {x : Reading α} {f : α → Reading β} {b : β} {rest : List Token}
    (h : (x >>= f).run tokens = .ok (b, rest)) :
    ∃ a mid, x.run tokens = .ok (a, mid) ∧ (f a).run mid = .ok (b, rest) := by
  cases hx : x.run tokens with
  | error fault =>
    rw [run_bind_error hx] at h
    cases h
  | ok read =>
    rw [run_bind (a := read.1) hx] at h
    exact ⟨read.1, read.2, rfl, h⟩

/-- **Composition**: the numbers of the first reader are handed on to the second, whose own come
behind them. -/
theorem YieldsAt.bind {x : Reading α} {f : α → Reading β} (hx : YieldsAt tokens [] good nums x)
    (hf : ∀ a, good a → Yields (before ++ nums a) good' nums' (f a)) :
    YieldsAt tokens before good' nums' (x >>= f) := by
  intro b rest hrun
  obtain ⟨a, mid, ha, hb⟩ := run_bind_eq_ok hrun
  obtain ⟨hgood, taken, rfl, htaken, xs, hxs, hcounted⟩ := hx a mid ha
  obtain ⟨hgood', taken', rfl, htaken', ys, hys, hcounted'⟩ := hf a hgood mid b rest hb
  refine ⟨hgood', taken ++ taken', (List.append_assoc _ _ _).symm, htaken.append htaken', xs ++ ys,
    ?_, hcounted.append hcounted'⟩
  rw [hys, hxs, List.nil_append, List.append_assoc]

/-- The same for every list of tokens. -/
theorem Yields.bind {x : Reading α} {f : α → Reading β} (hx : Yields [] good nums x)
    (hf : ∀ a, good a → Yields (before ++ nums a) good' nums' (f a)) :
    Yields before good' nums' (x >>= f) :=
  fun tokens => (hx tokens).bind hf

/-- Nothing that has a number is read first. -/
theorem Yields.skip {x : Reading α} {f : α → Reading β} (hx : Yields [] good (fun _ => []) x)
    (hf : ∀ a, good a → Yields before good' nums' (f a)) : Yields before good' nums' (x >>= f) := by
  refine hx.bind fun a ha => ?_
  rw [List.append_nil]
  exact hf a ha

/-- Without a token to take, the numbers have to be those that are there already. -/
theorem yields_pure {a : α} (h : good a) (hnums : nums a = before) :
    Yields before good nums (pure a) := by
  intro tokens b rest hrun
  cases hrun
  exact ⟨h, [], rfl, inner_nil, [], by rw [hnums, List.append_nil], counted_nil⟩

/-- A reader that fails gives nothing that could be bad. -/
theorem Fails.yields {x : Reading α} (h : Fails x) : Yields before good nums x := by
  intro tokens a rest hrun
  obtain ⟨fault, hfault⟩ := h tokens
  rw [hfault] at hrun
  cases hrun

/-! ## Single tokens -/

/-- Looking ahead takes nothing. -/
theorem YieldsAt.peek {f : Option TokenKind → Reading α}
    (h : YieldsAt tokens before good nums (f (headKind? tokens))) :
    YieldsAt tokens before good nums (peek >>= f) := h

/-- A look at all tokens takes none of them. -/
theorem Yields.get {f : List Token → Reading α} (h : ∀ tokens, Yields before good nums (f tokens)) :
    Yields before good nums (get >>= f) := fun tokens => h tokens tokens

/-- A token that has been looked at, and is no number and does not end the value, is taken. -/
theorem YieldsAt.next_of_kind {kind : TokenKind} {x : Reading α}
    (hhead : headKind? tokens = some kind) (hend : kind.endsValue = false)
    (hnumber : kind.number? = none) (h : Yields before good nums x) :
    YieldsAt tokens before good nums (next >>= fun _ => x) := by
  intro a rest hrun
  cases tokens with
  | nil => cases hhead
  | cons t tokens =>
    obtain rfl := Option.some.inj hhead
    obtain ⟨hgood, taken, rfl, htaken, xs, hxs, hcounted⟩ := h tokens a rest hrun
    exact ⟨hgood, t :: taken, rfl, (inner_singleton hend).append htaken, xs, hxs,
      (counted_other hnumber).append hcounted⟩

/-- **A token is taken**: it is a fault, or it does not end the value and its number counts. -/
theorem Yields.next {f : Option Token → Reading α} (hnone : Fails (f none))
    (h : ∀ t : Token, Fails (f (some t)) ∨ (t.kind.endsValue = false ∧ ∃ numbers,
      Counted numbers [t] ∧ Yields (before ++ numbers) good nums (f (some t)))) :
    Yields before good nums (next >>= f) := by
  intro tokens a rest hrun
  cases tokens with
  | nil =>
    obtain ⟨fault, hfault⟩ := hnone []
    have hfail : (f none).run [] = .ok (a, rest) := hrun
    rw [hfault] at hfail
    cases hfail
  | cons t tokens =>
    have hbehind : (f (some t)).run tokens = .ok (a, rest) := hrun
    rcases h t with hfails | ⟨hend, xs, hxs, hyields⟩
    · obtain ⟨fault, hfault⟩ := hfails tokens
      rw [hfault] at hbehind
      cases hbehind
    · obtain ⟨hgood, taken, rfl, htaken, ys, hys, hcounted⟩ := hyields tokens a rest hbehind
      refine ⟨hgood, t :: taken, rfl, (inner_singleton hend).append htaken, xs ++ ys, ?_,
        hxs.append hcounted⟩
      rw [hys, List.append_assoc]

/-- A token without a number is taken. -/
theorem yields_of_kind {kind : TokenKind} {t : Token} (hkind : t.kind = kind)
    (hend : kind.endsValue = false) (hnumber : kind.number? = none) {x : Reading α}
    (h : Yields before good nums x) : kind.endsValue = false ∧ ∃ numbers,
      Counted numbers [t] ∧ Yields (before ++ numbers) good nums x := by
  subst hkind
  exact ⟨hend, [], counted_other hnumber, by rwa [List.append_nil]⟩

/-- A sign that may be there was taken or is not the next one. -/
theorem accept_eq_ok {s : Sign} {found : Bool} {rest : List Token}
    (h : (accept s).run tokens = .ok (found, rest)) :
    (found = true ∧ ∃ t, tokens = t :: rest ∧ t.kind = .sign s) ∨
      (found = false ∧ tokens = rest ∧ headKind? tokens ≠ some (.sign s)) := by
  by_cases hhead : headKind? tokens = some (.sign s)
  · cases tokens with
    | nil => cases hhead
    | cons t tokens =>
      have hkind : t.kind = .sign s := Option.some.inj hhead
      rw [accept_of_kind hkind] at h
      cases h
      exact Or.inl ⟨rfl, t, rfl, hkind⟩
  · rw [accept_of_ne hhead] at h
    cases h
    exact Or.inr ⟨rfl, rfl, hhead⟩

/-- A sign has no number; it must not end the value. -/
theorem yields_accept {s : Sign} (hs : (TokenKind.sign s).endsValue = false) :
    Yields [] (fun _ => True) (fun _ => []) (accept s) := by
  intro tokens
  refine YieldsAt.peek ?_
  split
  · next hhead => exact YieldsAt.next_of_kind hhead hs rfl (yields_pure trivial rfl)
  · exact yields_pure trivial rfl tokens

theorem yields_expect {s : Sign} (hs : (TokenKind.sign s).endsValue = false) :
    Yields [] (fun _ => True) (fun _ => []) (expect s) := by
  refine (yields_accept hs).skip fun found _ => ?_
  cases found with
  | true => exact yields_pure trivial rfl
  | false => exact fun tokens => YieldsAt.peek ((fails_failHere _).yields tokens)

/-! ## Repetition -/

/-- Good items make up a list of good items. -/
theorem yields_separated {s : Sign} (hs : (TokenKind.sign s).endsValue = false)
    {item : Reading α} (hitem : Yields [] good nums item) (fuel : Nat) :
    Yields [] (fun as => (0 < fuel → as ≠ []) ∧ ∀ a ∈ as, good a) (fun as => as.flatMap nums)
      (separated s item fuel) := by
  induction fuel with
  | zero =>
    exact yields_pure
      ⟨fun h => absurd h (Nat.lt_irrefl 0), fun _ h => absurd h List.not_mem_nil⟩ rfl
  | succ fuel ih =>
    refine hitem.bind fun first hfirst => (yields_accept hs).skip fun more _ => ?_
    cases more with
    | false =>
      refine yields_pure ⟨fun _ => List.cons_ne_nil _ _, fun a ha => ?_⟩
        (List.flatMap_singleton nums first)
      rwa [List.mem_singleton.1 ha]
    | true =>
      refine ih.bind fun others hothers =>
        yields_pure ⟨fun _ => List.cons_ne_nil _ _, fun a ha => ?_⟩ List.flatMap_cons
      rcases List.mem_cons.1 ha with rfl | ha
      · exact hfirst
      · exact hothers.2 a ha

/-- A list that begins with an item has at least one. -/
theorem yields_listOf {s : Sign} (hs : (TokenKind.sign s).endsValue = false) {item : Reading α}
    (hitem : Yields [] good nums item) :
    Yields [] (fun as => as ≠ [] ∧ ∀ a ∈ as, good a) (fun as => as.flatMap nums)
      (listOf s item) := by
  refine Yields.get fun tokens top a rest hrun => ?_
  obtain ⟨⟨hne, hall⟩, htaken⟩ := yields_separated hs hitem _ top a rest hrun
  exact ⟨⟨hne (Nat.succ_pos _), hall⟩, htaken⟩

section

variable {good : Expr → Prop} {operator? : TokenKind → Option BinaryOp} {reader : Reading Expr}

/-- An operation between good operands is good. -/
theorem yields_chainFrom (hop : ∀ kind op, operator? kind = some op →
      kind.endsValue = false ∧ kind.number? = none)
    (hreader : Yields [] good Expr.numbers reader)
    (hbinary : ∀ op x y, good x → good y → good (.binary op x y)) (fuel : Nat) {left : Expr}
    (hleft : good left) :
    Yields left.numbers good Expr.numbers (chainFrom operator? reader fuel left) := by
  induction fuel generalizing left with
  | zero => exact yields_pure hleft rfl
  | succ fuel ih =>
    intro tokens
    refine YieldsAt.peek ?_
    split
    · next op hsome =>
      obtain ⟨kind, hhead, hkind⟩ := Option.bind_eq_some_iff.1 hsome
      obtain ⟨hend, hnumber⟩ := hop kind op hkind
      exact YieldsAt.next_of_kind hhead hend hnumber (hreader.bind fun right hright =>
        ih (hbinary op left right hleft hright))
    · exact yields_pure hleft rfl tokens

/-- Good operands and operators between them make a good expression. -/
theorem yields_chain (hop : ∀ kind op, operator? kind = some op →
      kind.endsValue = false ∧ kind.number? = none)
    (hreader : Yields [] good Expr.numbers reader)
    (hbinary : ∀ op x y, good x → good y → good (.binary op x y)) :
    Yields [] good Expr.numbers (chain operator? reader) :=
  hreader.bind fun _ hfirst => Yields.get fun _ => yields_chainFrom hop hreader hbinary _ hfirst

end

/-! ## Expressions -/

/-- A name has no number. -/
theorem yields_attributeName : Yields [] (fun _ => True) (fun _ => []) attributeName := by
  refine Yields.next (fails_failAt _ _) fun t => ?_
  simp only [Option.map_some]
  cases hkind : t.kind with
  | name name =>
    refine Or.inr (yields_of_kind hkind rfl rfl ?_)
    simp only
    cases Attribute.ofName? name with
    | some attr => exact yields_pure trivial rfl
    | none => exact (fails_failAt _ _).yields
  | number | sign => exact Or.inl (fails_failAt _ _)

/-- A call is read with at least one argument, so it is filled. -/
theorem yields_arguments {nested : Reading Expr}
    (h : Yields [] (fun e => Expr.isFilled e = true) Expr.numbers nested) :
    Yields [] (fun args => args ≠ [] ∧ ∀ arg ∈ args, Expr.isFilled arg = true) Expr.numbersOfAll
      (arguments nested) := by
  refine (yields_expect rfl).skip fun _ _ => (yields_listOf rfl h).bind fun args hargs =>
    (yields_expect rfl).skip fun _ _ => yields_pure hargs ?_
  rw [Expr.numbersOfAll_eq_flatMap, List.nil_append]

/-- **Operands.** A number takes its sign along; everything else has the numbers of its parts. -/
theorem yields_operand {nested : Reading Expr}
    (h : Yields [] (fun e => Expr.isFilled e = true) Expr.numbers nested) :
    Yields [] (fun e => Expr.isFilled e = true) Expr.numbers (operand nested) := by
  have hcall : ∀ func, Yields [] (fun e => Expr.isFilled e = true) Expr.numbers
      (arguments nested >>= fun args => pure (.call func args)) := fun func =>
    (yields_arguments h).bind fun args hargs =>
      yields_pure (Expr.isFilled_call func hargs.1 hargs.2) (List.nil_append _).symm
  refine Yields.next (fails_failAt _ _) fun t => ?_
  simp only [Option.map_some]
  cases hkind : t.kind with
  | number value =>
    exact Or.inr ⟨rfl, [value], counted_singleton hkind (Or.inl rfl),
      yields_pure rfl rfl⟩
  | name name =>
    -- a name is the gap, a function or a view, and is asked about in that order
    refine Or.inr (yields_of_kind hkind rfl rfl ?_)
    simp only
    split
    · exact yields_pure rfl rfl
    split
    · exact hcall .min
    split
    · exact hcall .max
    cases ViewId.parse? name with
    | none => exact (fails_failAt _ _).yields
    | some view =>
      exact (yields_expect rfl).skip fun _ _ => yields_attributeName.skip fun _ _ =>
        yields_pure rfl rfl
  | sign s =>
    cases s with
    | minus =>
      refine Or.inr (yields_of_kind hkind rfl rfl ?_)
      refine Yields.next (fails_failAt _ _) fun u => ?_
      simp only [Option.map_some]
      cases hu : u.kind with
      | number value =>
        exact Or.inr ⟨rfl, [value.neg], counted_singleton hu (Or.inr rfl),
          yields_pure rfl rfl⟩
      | name | sign => exact Or.inl (fails_failAt _ _)
    | leftParen =>
      refine Or.inr (yields_of_kind hkind rfl rfl ?_)
      exact h.bind fun inner hinner => (yields_expect rfl).skip fun _ _ =>
        yields_pure hinner (List.nil_append _).symm
    | _ => exact Or.inl (fails_failAt _ _)

/-- An operator is no number and ends no value. -/
theorem operator_inner (kind : TokenKind) (op : BinaryOp)
    (h : additive? kind = some op ∨ multiplicative? kind = some op) :
    kind.endsValue = false ∧ kind.number? = none := by
  cases kind with
  | name | number => rcases h with h | h <;> cases h
  | sign s => cases s <;> first | exact ⟨rfl, rfl⟩ | (rcases h with h | h <;> cases h)

/-- **Whatever is read where a sum may stand** is filled. -/
theorem yields_sum (depth : Nat) :
    Yields [] (fun e => Expr.isFilled e = true) Expr.numbers (sum depth) := by
  induction depth with
  | zero => exact (fails_failHere _).yields
  | succ depth ih =>
    have hbinary : ∀ op x y, Expr.isFilled x = true → Expr.isFilled y = true →
        Expr.isFilled (.binary op x y) = true := fun _ _ _ hx hy => Bool.and_eq_true_iff.2 ⟨hx, hy⟩
    exact yields_chain (fun kind op h => operator_inner kind op (Or.inl h))
      (yields_chain (fun kind op h => operator_inner kind op (Or.inr h)) (yields_operand ih)
        hbinary) hbinary

/-- **Expressions** are filled, and their numbers are those of their tokens. -/
theorem yields_expr : Yields [] (fun e => Expr.isFilled e = true) Expr.numbers expr :=
  Yields.get fun _ => yields_sum _

/-! ## Guards -/

/-- The view of an orientation is a name. -/
theorem yields_orientedView : Yields [] (fun _ => True) (fun _ => []) orientedView := by
  refine (yields_accept rfl).skip fun opened _ => ?_
  cases opened with
  | false => exact yields_pure trivial rfl
  | true =>
    refine Yields.next (fails_failAt _ _) fun t => ?_
    simp only [Option.map_some]
    cases hkind : t.kind with
    | name name =>
      refine Or.inr (yields_of_kind hkind rfl rfl ?_)
      simp only
      cases ViewId.parse? name with
      | none => exact (fails_failAt _ _).yields
      | some view => exact (yields_expect rfl).skip fun _ _ => yields_pure trivial rfl
    | number | sign => exact Or.inl (fails_failAt _ _)

/-- Two expressions are compared by `<` or `>`, since `=` is refused here. -/
theorem yields_comparedExprs :
    Yields [] (fun c => c.isFilled = true) Condition.numbers comparedExprs := by
  refine yields_expr.bind fun lhs hlhs tokens => YieldsAt.peek ?_
  split
  · next hhead =>
    exact YieldsAt.next_of_kind hhead rfl rfl (yields_expr.bind fun rhs hrhs =>
      yields_pure (Condition.isFilled_compare (by decide) hlhs hrhs) rfl)
  · next hhead =>
    exact YieldsAt.next_of_kind hhead rfl rfl (yields_expr.bind fun rhs hrhs =>
      yields_pure (Condition.isFilled_compare (by decide) hlhs hrhs) rfl)
  · exact (fails_failHere _).yields tokens

/-- A part of a guard is an orientation or a comparison. -/
theorem yields_conditionPart :
    Yields [] (fun c => c.isFilled = true) Condition.numbers conditionPart := by
  intro tokens
  refine YieldsAt.peek ?_
  split
  · next hhead =>
    exact YieldsAt.next_of_kind hhead rfl rfl (yields_orientedView.skip fun _ _ =>
      yields_pure rfl rfl)
  · next hhead =>
    exact YieldsAt.next_of_kind hhead rfl rfl (yields_orientedView.skip fun _ _ =>
      yields_pure rfl rfl)
  · exact yields_comparedExprs tokens

/-- **Whatever is read as a guard** is filled. -/
theorem yields_condition : Yields [] (fun c => c.isFilled = true) Condition.numbers condition := by
  refine (yields_listOf rfl yields_conditionPart).bind fun parts hparts => ?_
  obtain ⟨hne, hall⟩ := hparts
  split
  · next part =>
    exact yields_pure (hall part List.mem_cons_self) (List.flatMap_singleton _ part).symm
  · exact yields_pure (Condition.isFilled_all hne hall)
      (Condition.numbersOfAll_eq_flatMap parts)

/-- The numbers of a guard, if there is one. -/
def guardNumbers (guard : Option Condition) : List Number := (guard.map Condition.numbers).getD []

/-- A guard is read if there is a mark for it. -/
theorem yields_guard :
    Yields [] (fun o => ∀ g, o = some g → g.isFilled = true) guardNumbers Reading.guard := by
  refine Yields.get fun tokens => ?_
  split
  · refine yields_condition.bind fun g hg => (yields_expect rfl).skip fun _ _ =>
      yields_pure (fun g' heq => ?_) rfl
    cases heq
    exact hg
  · refine yields_pure (fun g heq => ?_) rfl
    cases heq

/-- A guard is looked for in the tokens of a clause, one after the other. -/
theorem hasGuard_append {first : List Token} (h : Unended first) (rest : List Token) :
    hasGuard (first ++ rest) = (first.any (fun t => t.kind == .sign .question) || hasGuard rest) := by
  unfold hasGuard
  rw [List.takeWhile_append_of_pos fun t ht => bne_iff_ne.2 (h t ht), List.any_append]

/-- The look ahead that finds no mark has seen none in the tokens up to the end of the clause. -/
theorem hasGuard_append_eq_false {first rest : List Token} (h : Unended first)
    (hguard : hasGuard (first ++ rest) = false) :
    (∀ t ∈ first, t.kind ≠ .sign .question) ∧ hasGuard rest = false := by
  rw [hasGuard_append h, Bool.or_eq_false_iff] at hguard
  refine ⟨fun t ht hkind => ?_, hguard.2⟩
  have hnone := List.any_eq_false.1 hguard.1 t ht
  exact hnone (beq_iff_eq.2 hkind)

/-- A clause is read without a guard only if no question mark stands before its end. -/
theorem hasGuard_of_guard_none {tokens rest : List Token}
    (h : Reading.guard.run tokens = .ok (none, rest)) : hasGuard tokens = false := by
  by_contra hguard
  unfold Reading.guard at h
  rw [run_bind (get_run _), if_pos (by simpa using hguard)] at h
  obtain ⟨g, mid, -, hrest⟩ := run_bind_eq_ok h
  obtain ⟨u, mid', -, hend⟩ := run_bind_eq_ok hrest
  cases hend

/-- A comparison has no number. -/
theorem yields_comparison : Yields [] (fun _ => True) (fun _ => []) comparison := by
  intro tokens
  refine YieldsAt.peek ?_
  split
  · next hhead => exact YieldsAt.next_of_kind hhead rfl rfl (yields_pure trivial rfl)
  · next hhead => exact YieldsAt.next_of_kind hhead rfl rfl (yields_pure trivial rfl)
  · next hhead => exact YieldsAt.next_of_kind hhead rfl rfl (yields_pure trivial rfl)
  · exact (fails_failHere _).yields tokens

/-! ## Clauses -/

/-- **The front of a clause**, up to its timing: the guard, the target, the comparison and the
value. -/
theorem exists_front_of_clause {rule : Constraint} {rest : List Token}
    (h : clause.run tokens = .ok (rule, rest)) : ∃ front behind, tokens = front ++ behind ∧
      Inner front ∧ Counted (guardNumbers rule.condition ++ rule.value.numbers) front ∧
      (∀ g, rule.condition = some g → g.isFilled = true) ∧ Expr.isFilled rule.value = true ∧
      (rule.condition.isSome = false → hasGuard behind = false) ∧
      clauseTiming.run behind = .ok (rule.animation, rest) := by
  unfold clause at h
  obtain ⟨condition, tokens₁, hguard, hbody⟩ := run_bind_eq_ok h
  obtain ⟨target, tokens₂, htarget, hrelation⟩ := run_bind_eq_ok hbody
  obtain ⟨c, tokens₃, hcomparison, hright⟩ := run_bind_eq_ok hrelation
  obtain ⟨value, tokens₄, hvalue, htail⟩ := run_bind_eq_ok hright
  obtain ⟨timing, tokens₅, htiming, hdone⟩ := run_bind_eq_ok htail
  cases hdone
  obtain ⟨hsound, ts₁, rfl, hinner₁, xs₁, hxs₁, hcount₁⟩ := yields_guard _ _ _ hguard
  obtain ⟨-, ts₂, rfl, hinner₂, xs₂, hxs₂, hcount₂⟩ := yields_attributeName _ _ _ htarget
  obtain ⟨-, ts₃, rfl, hinner₃, xs₃, hxs₃, hcount₃⟩ := yields_comparison _ _ _ hcomparison
  obtain ⟨hsound', ts₄, rfl, hinner₄, xs₄, hxs₄, hcount₄⟩ := yields_expr _ _ _ hvalue
  -- each of the four readers has accounted for the tokens that it took; together these are the
  -- front
  rw [List.nil_append] at hxs₁ hxs₂ hxs₃ hxs₄
  subst hxs₁ hxs₂ hxs₃ hxs₄
  have hinner := hinner₁.append (hinner₂.append (hinner₃.append hinner₄))
  refine ⟨ts₁ ++ (ts₂ ++ (ts₃ ++ ts₄)), tokens₄, by simp only [List.append_assoc], hinner,
    hcount₁.append (hcount₂.append (hcount₃.append hcount₄)), hsound, hsound', ?_, htiming⟩
  intro hnone
  have hcondition : condition = none :=
    Option.isNone_iff_eq_none.1 (Option.isSome_eq_false_iff.1 hnone)
  rw [hcondition] at hguard
  have hall := hasGuard_of_guard_none hguard
  simp only [← List.append_assoc] at hall
  exact (hasGuard_append_eq_false (by simpa only [List.append_assoc] using hinner.unended) hall).2

end Reading

end AnchorLayout
