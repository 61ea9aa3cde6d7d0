import AnchorLayout.Constraint.Basic
import AnchorLayout.Proofs.Number.Exact
import Mathlib.Data.List.Induction
import Mathlib.Tactic.Ring
/-!
# What a positional record denotes

  A record carries a source, a multiplier and a modifier in place of the value's text.  Sender and
  client agree only if both spell one function of the anchors.

  1. **Program** — `Term.linear?`, run on the doubles of the value.
  2. **Specification** — `LinearChain`, a number or an anchor with operations on its right, whose
     `form` is the product of its factors and the sum of its offsets; `Term.eval?`, exact
     evaluation, which fails at a division by zero; `LinearForm.value?`, what a form stands for.
  3. **Chains (`linear?_eq_some_iff`)** — a chain grows at its end, and its form with it; factors
     come before offsets because a form with a modifier takes no factor.  So the program finds the
     form of the chain, on doubles as on rationals.
  4. **One operation (`value?_operate?`)** — a form that takes in an operation stands for its result.
     The three optional parts meet their defaults here and nowhere else.
  5. **Evaluation (`eval?_of_linear?`)** — so a term with a form evaluates, whatever the anchors are,
     and to what the form stands for.
  6. **The crux (`record?_denotes`)** — the record of a chain of doubles has the form of that chain,
     and the same chain on rationals evaluates to what its own form stands for.  The two forms are
     one when no step is rounded (`map_form`).
-/

namespace AnchorLayout

/-! ## Exact arithmetic -/

instance : LinearArithmetic ℚ where
  zero := 0
  one := 1
  add x y := x + y
  neg x := -x
  mul x y := x * y
  div x y := x / y
  isZero x := x == 0

/-- Whether a divisor is zero does not depend on whether it is read. -/
theorem Number.Reading.isZero_value (reading : Number.Reading) (x : Number) :
    LinearArithmetic.isZero (reading.value x) = LinearArithmetic.isZero x :=
  Bool.eq_iff_iff.2 (beq_iff_eq.trans (reading.value_eq_zero_iff x))

/-! ## Evaluation -/

/-- The result of an operation; dividing by zero has none. -/
def BinaryOp.result? : BinaryOp → ℚ → ℚ → Option ℚ
  | add, x, y => some (x + y)
  | sub, x, y => some (x - y)
  | mul, x, y => some (x * y)
  | div, x, y => if y = 0 then none else some (x / y)

/-- The least or the greatest argument. -/
def Func.result? : Func → List ℚ → Option ℚ
  | min, arguments => arguments.min?
  | max, arguments => arguments.max?

namespace Term

variable {ν μ : Type}

mutual

/-- **The value** of a term for given values of the anchors and a given gap; `none` when a division
by zero occurs, or a function is applied to nothing. -/
def eval? (values : Anchor → ℚ) (spacing : ℚ) : Term ℚ → Option ℚ
  | num c => some c
  | gap => some spacing
  | anchor a => some (values a)
  | binary op lhs rhs =>
    (lhs.eval? values spacing).bind fun x => (rhs.eval? values spacing).bind fun y => op.result? x y
  | call func args => (evalAll? values spacing args).bind func.result?

/-- The values of several terms. -/
def evalAll? (values : Anchor → ℚ) (spacing : ℚ) : List (Term ℚ) → Option (List ℚ)
  | [] => some []
  | term :: rest =>
    (term.eval? values spacing).bind fun x => (evalAll? values spacing rest).map (x :: ·)

end

mutual

/-- Every number replaced. -/
def mapNumbers (f : ν → μ) : Term ν → Term μ
  | num c => num (f c)
  | gap => gap
  | anchor a => anchor a
  | binary op lhs rhs => binary op (lhs.mapNumbers f) (rhs.mapNumbers f)
  | call func args => call func (mapNumbersOfAll f args)

/-- Every number of several terms replaced. -/
def mapNumbersOfAll (f : ν → μ) : List (Term ν) → List (Term μ)
  | [] => []
  | term :: rest => term.mapNumbers f :: mapNumbersOfAll f rest

end

end Term

namespace LinearForm

/-- **What a form stands for**: the source times the multiplier plus the modifier, or the modifier
alone when there is no source. -/
def value? (values : Anchor → ℚ) (form : LinearForm ℚ) : Option ℚ :=
  match form.source with
  | some a => some (values a * form.multiplier.getD 1 + form.modifier.getD 0)
  | none => form.modifier

variable {values : Anchor → ℚ} {form next : LinearForm ℚ} {x c : ℚ}

theorem value?_shift (hx : form.value? values = some x) :
    (form.shift c).value? values = some (x + c) := by
  obtain ⟨source, multiplier, modifier⟩ := form
  cases source with
  | none =>
    obtain rfl : modifier = some x := hx
    rfl
  | some a =>
    obtain rfl := Option.some.inj hx
    exact congrArg some (add_assoc _ _ _).symm

theorem value?_scale? (hx : form.value? values = some x) (h : form.scale? c = some next) :
    next.value? values = some (x * c) := by
  obtain ⟨source, multiplier, modifier⟩ := form
  unfold scale? at h
  split at h
  case isFalse => cases h
  case isTrue alone =>
    obtain ⟨hmodifier, hsource⟩ := alone
    obtain rfl : modifier = none := Option.isNone_iff_eq_none.1 hmodifier
    obtain ⟨a, rfl⟩ : ∃ a, source = some a := Option.isSome_iff_exists.1 hsource
    obtain rfl := Option.some.inj h
    obtain rfl := Option.some.inj hx
    refine congrArg some ?_
    change values a * (multiplier.getD 1 * c) + 0 = (values a * multiplier.getD 1 + 0) * c
    ring

/-- **A form that takes in an operation stands for the result of the operation**, which exists: a
divisor is not zero. -/
theorem value?_operate? {op : BinaryOp} (hx : form.value? values = some x)
    (h : form.operate? op c = some next) :
    ∃ y, next.value? values = some y ∧ op.result? x c = some y := by
  cases op with
  | add =>
    obtain rfl := Option.some.inj h
    exact ⟨x + c, value?_shift hx, rfl⟩
  | sub =>
    obtain rfl := Option.some.inj h
    exact ⟨x + -c, value?_shift hx, congrArg some (sub_eq_add_neg x c)⟩
  | mul => exact ⟨x * c, value?_scale? hx h, rfl⟩
  | div =>
    simp only [operate?] at h
    split at h
    case isTrue => cases h
    case isFalse hzero =>
      have hc : c ≠ 0 := fun hc => hzero (beq_iff_eq.2 hc)
      refine ⟨x * (1 / c), value?_scale? hx h, ?_⟩
      rw [BinaryOp.result?, if_neg hc, mul_one_div]

end LinearForm

namespace Term

section

variable {ν : Type} [LinearArithmetic ν]

/-- **The cases of a linear term**: a number, an anchor, or one more operation with a number. -/
theorem linear?_cases {term : Term ν} {form : LinearForm ν} (h : term.linear? = some form) :
    (∃ c, term = num c ∧ form = ⟨none, none, some c⟩) ∨
      (∃ a, term = anchor a ∧ form = ⟨some a, none, none⟩) ∨
        ∃ op lhs c inner, term = binary op lhs (num c) ∧ lhs.linear? = some inner ∧
          inner.operate? op c = some form := by
  unfold linear? at h
  split at h
  case h_1 c => exact .inl ⟨c, rfl, (Option.some.inj h).symm⟩
  case h_2 a => exact .inr (.inl ⟨a, rfl, (Option.some.inj h).symm⟩)
  case h_3 op lhs c =>
    obtain ⟨inner, hinner, hform⟩ := Option.bind_eq_some_iff.1 h
    exact .inr (.inr ⟨op, lhs, c, inner, rfl, hinner, hform⟩)
  case h_4 => cases h

/-- **Induction over the linear terms**, along the left spine. -/
theorem linear?_induction {motive : Term ν → LinearForm ν → Prop}
    (number : ∀ c, motive (num c) ⟨none, none, some c⟩)
    (source : ∀ a, motive (anchor a) ⟨some a, none, none⟩)
    (operate : ∀ op lhs c inner form, lhs.linear? = some inner → inner.operate? op c = some form →
      motive lhs inner → motive (binary op lhs (num c)) form)
    {term : Term ν} {form : LinearForm ν} (h : term.linear? = some form) : motive term form := by
  induction term using Term.induction generalizing form with
  | num c => exact Option.some.inj h ▸ number c
  | anchor a => exact Option.some.inj h ▸ source a
  | gap => cases h
  | call func args => cases h
  | binary op lhs rhs ihl _ =>
    obtain ⟨_, hterm, -⟩ | ⟨_, hterm, -⟩ | ⟨_, _, c, inner, hterm, hinner, hform⟩ := linear?_cases h
    · cases hterm
    · cases hterm
    · cases hterm
      exact operate op lhs c inner form hinner hform (ihl hinner)

end

/-- **A term with a form has a value, the one that the form stands for.** -/
theorem eval?_of_linear? (values : Anchor → ℚ) (spacing : ℚ) {term : Term ℚ} {form : LinearForm ℚ}
    (h : term.linear? = some form) :
    ∃ value, form.value? values = some value ∧ term.eval? values spacing = some value := by
  refine linear?_induction (motive := fun term form => ∃ value,
    form.value? values = some value ∧ term.eval? values spacing = some value)
    ?number ?source ?operate h
  case number => exact fun c => ⟨c, rfl, by rw [eval?]⟩
  case source =>
    refine fun a => ⟨values a * 1 + 0, rfl, ?_⟩
    rw [eval?, mul_one, add_zero]
  case operate =>
    rintro op lhs c inner form - hform ⟨x, hx, heval⟩
    obtain ⟨y, hy, happly⟩ := LinearForm.value?_operate? hx hform
    refine ⟨y, hy, ?_⟩
    rw [eval?, heval, eval?]
    exact happly

end Term

/-! ## Chains -/

section

variable {ν : Type}

/-- A number that is added or subtracted on the right. -/
inductive Offset (ν : Type) where
  | add (c : ν)
  | sub (c : ν)

namespace Offset

/-- The operation, written behind a term. -/
def applied (lhs : Term ν) : Offset ν → Term ν
  | add c => .binary .add lhs (.num c)
  | sub c => .binary .sub lhs (.num c)

/-- The same offset with another number. -/
def map {μ : Type} (f : ν → μ) : Offset ν → Offset μ
  | add c => add (f c)
  | sub c => sub (f c)

/-- The number in it. -/
def number : Offset ν → ν
  | add c | sub c => c

/-- What is added in the end: the opposite of what is subtracted. -/
def summand [LinearArithmetic ν] : Offset ν → ν
  | add c => c
  | sub c => LinearArithmetic.neg c

end Offset

/-- Several numbers taken together from the left; without any there is no result. -/
def folded? (op : ν → ν → ν) (start : ν) : List ν → Option ν
  | [] => none
  | x :: xs => some ((x :: xs).foldl op start)

theorem folded?_append (op : ν → ν → ν) (start : ν) (xs : List ν) (x : ν) :
    folded? op start (xs ++ [x]) = some (op ((folded? op start xs).getD start) x) := by
  cases xs with
  | nil => rfl
  | cons y ys =>
    rw [List.cons_append, folded?, folded?, Option.getD_some, ← List.cons_append,
      List.foldl_append]
    rfl

variable [LinearArithmetic ν]

/-- A number that multiplies on the right, or that divides there and is not zero. -/
inductive Factor (ν : Type) [LinearArithmetic ν] where
  | mul (c : ν)
  | div (c : ν) (nonzero : LinearArithmetic.isZero c = false)

namespace Factor

/-- The operation, written behind a term. -/
def applied (lhs : Term ν) : Factor ν → Term ν
  | mul c => .binary .mul lhs (.num c)
  | div c _ => .binary .div lhs (.num c)

/-- The number in it. -/
def number : Factor ν → ν
  | mul c | div c _ => c

/-- What is multiplied by in the end: the inverse of a divisor. -/
def multiplicand : Factor ν → ν
  | mul c => c
  | div c _ => LinearArithmetic.div LinearArithmetic.one c

end Factor

/-- **The shapes of a linear value**: a number with offsets, or an anchor with factors and then
offsets, each operation applied to everything on its left. -/
inductive LinearChain (ν : Type) [LinearArithmetic ν] where
  | number (c : ν) (offsets : List (Offset ν))
  | anchor (a : Anchor) (factors : List (Factor ν)) (offsets : List (Offset ν))

namespace LinearChain

/-- The value that a chain spells. -/
def term : LinearChain ν → Term ν
  | number c offsets => offsets.foldl Offset.applied (.num c)
  | anchor a factors offsets =>
    offsets.foldl Offset.applied (factors.foldl Factor.applied (.anchor a))

/-- **The form of a chain**: its factors multiplied from one on and its offsets added from zero on,
each part missing when there is nothing to take together; a number on its own is a modifier. -/
def form : LinearChain ν → LinearForm ν
  | number c offsets =>
    ⟨none, none, some ((offsets.map Offset.summand).foldl LinearArithmetic.add c)⟩
  | anchor a factors offsets =>
    ⟨some a, folded? LinearArithmetic.mul LinearArithmetic.one (factors.map Factor.multiplicand),
      folded? LinearArithmetic.add LinearArithmetic.zero (offsets.map Offset.summand)⟩

/-- One more offset, at the end. -/
def shift (offset : Offset ν) : LinearChain ν → LinearChain ν
  | number c offsets => number c (offsets ++ [offset])
  | anchor a factors offsets => anchor a factors (offsets ++ [offset])

theorem term_shift (chain : LinearChain ν) (offset : Offset ν) :
    (chain.shift offset).term = offset.applied chain.term := by
  cases chain <;> exact List.foldl_append

/-- An offset at the end goes into the modifier, and into it alone. -/
theorem form_shift (chain : LinearChain ν) (offset : Offset ν) :
    (chain.shift offset).form = chain.form.shift offset.summand := by
  cases chain with
  | number c offsets =>
    rw [shift, form, List.map_append, List.foldl_append]
    rfl
  | anchor a factors offsets =>
    rw [shift, form, List.map_append, List.map_singleton, folded?_append]
    rfl

theorem term_scale (a : Anchor) (factors : List (Factor ν)) (factor : Factor ν) :
    (anchor a (factors ++ [factor]) []).term = factor.applied (anchor a factors []).term :=
  List.foldl_append

/-- A factor at the end goes into the multiplier, as long as there is no offset before it. -/
theorem form_scale (a : Anchor) (factors : List (Factor ν)) (factor : Factor ν) :
    (anchor a factors []).form.scale? factor.multiplicand =
      some (anchor a (factors ++ [factor]) []).form := by
  rw [form, form, List.map_append, List.map_singleton, folded?_append]
  rfl

/-- **A chain grows at its end**: factors while there is no offset, and offsets at any time. -/
theorem induction {motive : LinearChain ν → Prop} (number : ∀ c, motive (.number c []))
    (source : ∀ a, motive (.anchor a [] []))
    (scale : ∀ a factors factor, motive (.anchor a factors []) →
      motive (.anchor a (factors ++ [factor]) []))
    (shift : ∀ chain offset, motive chain → motive (chain.shift offset))
    (chain : LinearChain ν) : motive chain := by
  cases chain with
  | number c offsets =>
    induction offsets using List.reverseRecOn with
    | nil => exact number c
    | append_singleton offsets offset ih => exact shift (.number c offsets) offset ih
  | anchor a factors offsets =>
    induction offsets using List.reverseRecOn with
    | nil =>
      induction factors using List.reverseRecOn with
      | nil => exact source a
      | append_singleton factors factor ih => exact scale a factors factor ih
    | append_singleton offsets offset ih => exact shift (.anchor a factors offsets) offset ih

end LinearChain

end

/-! ## The form that the program finds -/

namespace Term

section

variable {ν : Type} [LinearArithmetic ν]

theorem linear?_offset {term : Term ν} {form : LinearForm ν} (h : term.linear? = some form)
    (offset : Offset ν) : (offset.applied term).linear? = some (form.shift offset.summand) := by
  cases offset <;> rw [Offset.applied, linear?, h] <;> rfl

/-- A factor is offered to the form, which takes it unless it has a modifier or no source. -/
theorem linear?_factor {term : Term ν} {form : LinearForm ν} (h : term.linear? = some form)
    (factor : Factor ν) : (factor.applied term).linear? = form.scale? factor.multiplicand := by
  cases factor with
  | mul c =>
    rw [Factor.applied, linear?, h]
    rfl
  | div c nonzero =>
    rw [Factor.applied, linear?, h, Option.bind_some, LinearForm.operate?, nonzero]
    rfl

/-- **The program finds the form of a chain.** -/
theorem linear?_term (chain : LinearChain ν) : chain.term.linear? = some chain.form := by
  induction chain using LinearChain.induction with
  | number c => rfl
  | source a => rfl
  | scale a factors factor ih =>
    rw [LinearChain.term_scale, linear?_factor ih, LinearChain.form_scale]
  | shift chain offset ih =>
    rw [LinearChain.term_shift, linear?_offset ih, LinearChain.form_shift]

/-- A form that takes a factor is the form of an anchor with nothing but factors, so that the chain
can be made longer by one more. -/
theorem exists_chain_of_scale? {chain : LinearChain ν} (factor : Factor ν) {next : LinearForm ν}
    (h : chain.form.scale? factor.multiplicand = some next) :
    ∃ longer : LinearChain ν, factor.applied chain.term = longer.term ∧ next = longer.form := by
  have hscaled : chain.form.modifier.isNone ∧ chain.form.source.isSome := by
    unfold LinearForm.scale? at h
    split at h
    case isTrue hscaled => exact hscaled
    case isFalse => cases h
  cases chain with
  | number c offsets => exact absurd hscaled.2 Bool.false_ne_true
  | anchor a factors offsets =>
    cases offsets with
    | nil =>
      refine ⟨.anchor a (factors ++ [factor]) [], (LinearChain.term_scale a factors factor).symm, ?_⟩
      exact Option.some.inj (h.symm.trans (LinearChain.form_scale a factors factor))
    | cons offset offsets => exact absurd hscaled.1 Bool.false_ne_true

/-- **The linear terms are the chains**, and the form of a linear term is the form of its chain. -/
theorem linear?_eq_some_iff (term : Term ν) (form : LinearForm ν) :
    term.linear? = some form ↔ ∃ chain : LinearChain ν, term = chain.term ∧ form = chain.form := by
  constructor
  · intro h
    refine linear?_induction (motive := fun term form =>
      ∃ chain : LinearChain ν, term = chain.term ∧ form = chain.form) ?number ?source ?operate h
    case number => exact fun c => ⟨.number c [], rfl, rfl⟩
    case source => exact fun a => ⟨.anchor a [] [], rfl, rfl⟩
    case operate =>
      rintro op lhs c inner form - hform ⟨chain, rfl, rfl⟩
      cases op with
      | add =>
        refine ⟨chain.shift (.add c), (chain.term_shift (.add c)).symm, ?_⟩
        exact (Option.some.inj hform).symm.trans (chain.form_shift (.add c)).symm
      | sub =>
        refine ⟨chain.shift (.sub c), (chain.term_shift (.sub c)).symm, ?_⟩
        exact (Option.some.inj hform).symm.trans (chain.form_shift (.sub c)).symm
      -- an addition only prolongs the chain; a product goes over the steps that are there
      | mul => exact exists_chain_of_scale? (.mul c) hform
      | div =>
        simp only [LinearForm.operate?] at hform
        split at hform
        case isTrue => cases hform
        case isFalse hzero =>
          exact exists_chain_of_scale? (.div c (Bool.eq_false_iff.2 hzero)) hform
  · rintro ⟨chain, rfl, rfl⟩
    exact linear?_term chain

end

end Term

/-! ## Chains of doubles read as rationals -/

variable (reading : Number.Reading)

/-- The factor with its number read; a divisor that is not zero is read as one that is not. -/
def Factor.read : Factor Number → Factor ℚ
  | mul c => mul (reading.value c)
  | div c nonzero => div (reading.value c) ((reading.isZero_value c).trans nonzero)

namespace LinearChain

/-- The chain with every number read. -/
def read : LinearChain Number → LinearChain ℚ
  | number c offsets => number (reading.value c) (offsets.map (Offset.map reading.value))
  | anchor a factors offsets =>
    anchor a (factors.map (Factor.read reading)) (offsets.map (Offset.map reading.value))

theorem mapNumbers_offsets (offsets : List (Offset Number)) (head : Expr) :
    (offsets.foldl Offset.applied head).mapNumbers reading.value =
      (offsets.map (Offset.map reading.value)).foldl Offset.applied
        (head.mapNumbers reading.value) := by
  induction offsets generalizing head with
  | nil => rfl
  | cons offset offsets ih =>
    have hstep : (offset.applied head).mapNumbers reading.value =
        (offset.map reading.value).applied (head.mapNumbers reading.value) := by
      cases offset <;> rw [Offset.applied, Term.mapNumbers, Term.mapNumbers] <;> rfl
    rw [List.foldl_cons, ih, hstep, List.map_cons, List.foldl_cons]

theorem mapNumbers_factors (factors : List (Factor Number)) (head : Expr) :
    (factors.foldl Factor.applied head).mapNumbers reading.value =
      (factors.map (Factor.read reading)).foldl Factor.applied (head.mapNumbers reading.value) := by
  induction factors generalizing head with
  | nil => rfl
  | cons factor factors ih =>
    have hstep : (factor.applied head).mapNumbers reading.value =
        (factor.read reading).applied (head.mapNumbers reading.value) := by
      cases factor <;> rw [Factor.applied, Term.mapNumbers, Term.mapNumbers] <;> rfl
    rw [List.foldl_cons, ih, hstep, List.map_cons, List.foldl_cons]

/-- **The value of the chain read is the value read**, so that exact evaluation can be taken from
the exact form. -/
theorem term_read (chain : LinearChain Number) :
    (chain.read reading).term = chain.term.mapNumbers reading.value := by
  cases chain with
  | number c offsets =>
    rw [term, mapNumbers_offsets, Term.mapNumbers]
    rfl
  | anchor a factors offsets =>
    rw [term, mapNumbers_offsets, mapNumbers_factors, Term.mapNumbers]
    rfl

/-- **No step is rounded**: the numbers are finite, and doubles hold the inverse of every divisor,
every product on the way to the multiplier and every sum on the way to the modifier. -/
def Unrounded : LinearChain Number → Prop
  | number c offsets =>
    c.isFinite = true ∧ (∀ offset ∈ offsets, offset.number.isFinite = true) ∧
      Number.HeldAlong LinearArithmetic.add (reading.value c)
        ((offsets.map (Offset.map reading.value)).map Offset.summand)
  | anchor _ factors offsets =>
    (∀ factor ∈ factors, factor.number.isFinite = true ∧
      Number.IsHeld (factor.read reading).multiplicand) ∧
      (∀ offset ∈ offsets, offset.number.isFinite = true) ∧
      Number.HeldAlong LinearArithmetic.mul LinearArithmetic.one
        ((factors.map (Factor.read reading)).map Factor.multiplicand) ∧
      Number.HeldAlong LinearArithmetic.add LinearArithmetic.zero
        ((offsets.map (Offset.map reading.value)).map Offset.summand)

end LinearChain

/-! ## Chains without rounding -/

namespace LinearForm

/-- The form with its numbers replaced. -/
def map {ν μ : Type} (f : ν → μ) (form : LinearForm ν) : LinearForm μ :=
  ⟨form.source, form.multiplier.map f, form.modifier.map f⟩

end LinearForm

section

variable {reading}

/-- The opposite of a double is the opposite of what it denotes. -/
theorem Offset.denotes_summand {offset : Offset Number} (h : offset.number.isFinite = true) :
    offset.summand.Denotes (offset.map reading.value).summand := by
  cases offset with
  | add c => exact Number.denotes_value reading h
  | sub c => exact (Number.denotes_value reading h).neg

theorem Factor.denotes_multiplicand {factor : Factor Number}
    (h : factor.number.isFinite = true) (hheld : Number.IsHeld (factor.read reading).multiplicand) :
    factor.multiplicand.Denotes (factor.read reading).multiplicand := by
  cases factor with
  | mul c => exact Number.denotes_value reading h
  | div c nonzero =>
    have hc : reading.value c ≠ 0 := fun hzero =>
      Bool.false_ne_true (nonzero.symm.trans ((reading.value_eq_zero_iff c).1 hzero))
    rw [Factor.multiplicand]
    exact Number.denotes_one.div (Number.denotes_value reading h) hc hheld

/-- A part of the form that is exact: missing on both sides, or a double that denotes the
rational. -/
theorem map_folded? (reading : Number.Reading) {op : Number → Number → Number} {exactOp : ℚ → ℚ → ℚ}
    (hop : ∀ {x y p q}, x.Denotes p → y.Denotes q → Number.IsHeld (exactOp p q) →
      (op x y).Denotes (exactOp p q))
    {xs : List Number} {qs : List ℚ} (hxs : List.Forall₂ Number.Denotes xs qs)
    {start : Number} {exactStart : ℚ} (hstart : start.Denotes exactStart)
    (h : Number.HeldAlong exactOp exactStart qs) :
    (folded? op start xs).map reading.value = folded? exactOp exactStart qs := by
  cases hxs with
  | nil => rfl
  | cons hx hxs =>
    exact congrArg some ((Number.denotes_foldl hop (.cons hx hxs) hstart h).value reading)

theorem denotes_summands {offsets : List (Offset Number)}
    (h : ∀ offset ∈ offsets, offset.number.isFinite = true) :
    List.Forall₂ Number.Denotes (offsets.map Offset.summand)
      ((offsets.map (Offset.map reading.value)).map Offset.summand) := by
  rw [List.map_map, List.forall₂_map_left_iff, List.forall₂_map_right_iff, List.forall₂_same]
  exact fun offset hoffset => Offset.denotes_summand (h offset hoffset)

theorem denotes_multiplicands {factors : List (Factor Number)}
    (h : ∀ factor ∈ factors, factor.number.isFinite = true ∧
      Number.IsHeld (factor.read reading).multiplicand) :
    List.Forall₂ Number.Denotes (factors.map Factor.multiplicand)
      ((factors.map (Factor.read reading)).map Factor.multiplicand) := by
  rw [List.map_map, List.forall₂_map_left_iff, List.forall₂_map_right_iff, List.forall₂_same]
  exact fun factor hfactor => Factor.denotes_multiplicand (h factor hfactor).1 (h factor hfactor).2

/-- **Without rounding the two forms are one**: the multiplier and the modifier of the doubles are
the exact ones. -/
theorem LinearChain.map_form {chain : LinearChain Number} (h : chain.Unrounded reading) :
    chain.form.map reading.value = (chain.read reading).form := by
  cases chain with
  | number c offsets =>
    obtain ⟨hc, hoffsets, hheld⟩ := h
    have hsum := Number.denotes_foldl Number.Denotes.add (denotes_summands hoffsets)
      (Number.denotes_value reading hc) hheld
    exact congrArg (fun sum => LinearForm.mk none none (some sum)) (hsum.value reading)
  | anchor a factors offsets =>
    obtain ⟨hfactors, hoffsets, hproducts, hsums⟩ := h
    have hmultiplier := map_folded? reading Number.Denotes.mul
      (denotes_multiplicands hfactors) Number.denotes_one hproducts
    have hmodifier := map_folded? reading Number.Denotes.add
      (denotes_summands hoffsets) Number.denotes_zero hsums
    exact congrArg₂ (LinearForm.mk (some a)) hmultiplier hmodifier

end

/-! ## The record -/

namespace Record

/-- The linear function in a record. -/
def form (record : Record) : LinearForm Number :=
  ⟨record.source, record.multiplier, record.modifier⟩

end Record

namespace Constraint

/-- The record takes source, multiplier and modifier from the form that is found. -/
theorem form_of_record? {c : Constraint} {record : Record} (h : c.record? = some record) :
    Term.linear? c.value = some record.form := by
  obtain ⟨form, hform, rfl⟩ := Option.map_eq_some_iff.1 h
  exact hform

/-- **A record denotes the function that the value spells**, and the values that have one are the
chains.  Its multiplier and its modifier are those of the chain on doubles.  The same chain on
rationals evaluates to the source times the multiplier plus the modifier, whatever the anchors are:
so no division by zero occurs.  Where no step is rounded, the numbers of the record are the exact
ones. -/
theorem record?_denotes (reading : Number.Reading) (c : Constraint) :
    (c.record?.isSome ↔ ∃ chain : LinearChain Number, c.value = chain.term) ∧
      ∀ record (chain : LinearChain Number), c.record? = some record → c.value = chain.term →
        record.form = chain.form ∧
          (∀ values spacing, ∃ value, (chain.read reading).form.value? values = some value ∧
            (c.value.mapNumbers reading.value).eval? values spacing = some value) ∧
          (chain.Unrounded reading →
            record.form.map reading.value = (chain.read reading).form) := by
  constructor
  · rw [record?, Option.isSome_map, Option.isSome_iff_exists]
    constructor
    · rintro ⟨form, hform⟩
      obtain ⟨chain, hvalue, -⟩ := (Term.linear?_eq_some_iff c.value form).1 hform
      exact ⟨chain, hvalue⟩
    · rintro ⟨chain, hvalue⟩
      exact ⟨chain.form, (Term.linear?_eq_some_iff c.value _).2 ⟨chain, hvalue, rfl⟩⟩
  · intro record chain hrecord hvalue
    have hform : record.form = chain.form := by
      have hlinear := form_of_record? hrecord
      rw [hvalue, Term.linear?_term] at hlinear
      exact (Option.some.inj hlinear).symm
    refine ⟨hform, fun values spacing => ?_, fun h => ?_⟩
    · rw [hvalue, ← LinearChain.term_read]
      exact Term.eval?_of_linear? values spacing (Term.linear?_term _)
    · rw [hform, LinearChain.map_form h]

/-- A width of half another width and eight more. -/
def halfAndEight : Constraint :=
  ⟨.width, .equal, .binary .add (.binary .div (.anchor ⟨⟨1⟩, .width⟩) (.num (.ofNat 2)))
    (.num (.ofNat 8)), none, none⟩

theorem record?_denotes_halfAndEight : ∃ record, halfAndEight.record? = some record ∧
    record.form.map (Number.Reading.value .finiteOrOne) =
      ⟨some ⟨⟨1⟩, .width⟩, some (1 / 2), some 8⟩ ∧
    ∀ values spacing,
      (halfAndEight.value.mapNumbers (Number.Reading.value .finiteOrOne)).eval? values spacing =
        some (values ⟨⟨1⟩, .width⟩ * (1 / 2) + 8) := by
  have htwo : (Number.ofNat 2).Denotes 2 :=
    Number.denotes_ofNat (Number.isHeld_twoPow (by decide : 1 + unitExponent < limitExponent))
  have height : (Number.ofNat 8).Denotes 8 :=
    Number.denotes_ofNat (Number.isHeld_twoPow (by decide : 3 + unitExponent < limitExponent))
  have hhalf : Number.IsHeld (1 / 2) := Number.isHeld_one_div_twoPow (by decide : 1 ≤ unitExponent)
  have hnonzero : LinearArithmetic.isZero (Number.ofNat 2) = false := by decide +kernel
  -- the record is the one of the chain, whose two parts are a half and eight
  let chain : LinearChain Number :=
    .anchor ⟨⟨1⟩, .width⟩ [.div (.ofNat 2) hnonzero] [.add (.ofNat 8)]
  obtain ⟨hsome, hdenotes⟩ := record?_denotes .finiteOrOne halfAndEight
  obtain ⟨record, hrecord⟩ := Option.isSome_iff_exists.1 (hsome.2 ⟨chain, rfl⟩)
  obtain ⟨-, heval, hexact⟩ := hdenotes record chain hrecord rfl
  have hproduct : LinearArithmetic.mul LinearArithmetic.one ((1 : ℚ) / 2) = 1 / 2 := one_mul _
  have hsum : LinearArithmetic.add LinearArithmetic.zero (8 : ℚ) = 8 := zero_add _
  have hread : (Factor.read .finiteOrOne (.div (.ofNat 2) hnonzero)).multiplicand = 1 / 2 := by
    rw [Factor.read, Factor.multiplicand, htwo.value]
    rfl
  have hform : (chain.read .finiteOrOne).form = ⟨some ⟨⟨1⟩, .width⟩, some (1 / 2), some 8⟩ := by
    simp only [chain, LinearChain.read, LinearChain.form, List.map_cons, List.map_nil, folded?,
      List.foldl_cons, List.foldl_nil, Offset.map, Offset.summand, hread, height.value, hproduct,
      hsum]
  have hunrounded : chain.Unrounded .finiteOrOne := by
    simp only [chain, LinearChain.Unrounded, List.forall_mem_singleton, List.map_cons,
      List.map_nil, Factor.number, Offset.number, Offset.map, Offset.summand, Number.HeldAlong,
      hread, height.value, hproduct, hsum]
    exact ⟨⟨htwo.isFinite, hhalf⟩, height.isFinite, ⟨hhalf, trivial⟩, ⟨⟨_, height⟩, trivial⟩⟩
  refine ⟨record, hrecord, (hexact hunrounded).trans hform, fun values spacing => ?_⟩
  obtain ⟨value, hvalue, heq⟩ := heval values spacing
  rw [hform] at hvalue
  exact heq.trans hvalue.symm

end Constraint

end AnchorLayout
