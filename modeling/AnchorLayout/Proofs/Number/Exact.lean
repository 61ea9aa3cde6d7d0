import AnchorLayout.Proofs.Number.Rounding
import Mathlib.Algebra.Order.AbsoluteValue.Basic
/-!
# Arithmetic is exact where a double holds the result

  1. **Program** — `Number.add`, `mul`, `div` and `neg`, which round an exact result once.
  2. **Specification** — `Number.exactValue`, the rational that a finite double is; `IsHeld`, the
     rationals that are one; `Reading`, which gives every double a rational.
  3. **Rounding (`denotes_ofUnits`)** — a count of units whose value is held is a representable
     count, and rounding leaves such a count alone.
  4. **The crux (`Denotes.add`, `Denotes.mul`, `Denotes.div`)** — so an operation on doubles gives
     the exact result whenever any double is the exact result.
-/

namespace AnchorLayout

namespace Number

/-! ## Exact values -/

/-- The exact value of a finite number. -/
def exactValue (negative : Bool) (magnitude : Magnitude) : ℚ :=
  signedUnits negative magnitude / unitsPerOne

/-- **Denotation**: the double is finite and its exact value is the rational. -/
def Denotes (x : Number) (q : ℚ) : Prop :=
  ∃ negative magnitude, x = finite negative magnitude ∧ exactValue negative magnitude = q

/-- **Held**: some double is the rational, so that no rounding is needed for it. -/
def IsHeld (q : ℚ) : Prop := ∃ x : Number, x.Denotes q

/-- **A reading of doubles as rationals**: a finite one is its exact value.  The others have none,
and may be read as anything but zero. -/
structure Reading where
  value : Number → ℚ
  value_finite : ∀ negative magnitude,
    value (.finite negative magnitude) = exactValue negative magnitude
  value_ne_zero : ∀ x : Number, x.isFinite = false → value x ≠ 0

/-- Everything that is not finite read as one. -/
def Reading.finiteOrOne : Reading where
  value
    | .finite negative magnitude => exactValue negative magnitude
    | _ => 1
  value_finite _ _ := rfl
  value_ne_zero
    | .finite .., h => absurd h (by simp [isFinite])
    | .infinite _, _ | .nan, _ => one_ne_zero

/-- The rational with a sign put before it, as a magnitude gets one. -/
def signed (negative : Bool) (q : ℚ) : ℚ := if negative then -q else q

/-- Negation changes the sign, which for a double is one bit. -/
theorem signed_not (negative : Bool) (q : ℚ) : signed (!negative) q = -signed negative q := by
  cases negative <;> simp [signed]

/-- Signs multiply as they do for doubles: unlike ones make a negative product. -/
theorem signed_mul (s t : Bool) (p q : ℚ) :
    signed s p * signed t q = signed (s != t) (p * q) := by
  cases s <;> cases t <;> simp [signed]

/-- The same for quotients. -/
theorem signed_div (s t : Bool) (p q : ℚ) :
    signed s p / signed t q = signed (s != t) (p / q) := by
  cases s <;> cases t <;> simp [signed, neg_div, div_neg]

theorem abs_signed (negative : Bool) (q : ℚ) : |signed negative q| = |q| := by
  cases negative
  · rfl
  · exact abs_neg q

theorem unitsPerOne_ne_zero : (unitsPerOne : ℚ) ≠ 0 :=
  Nat.cast_ne_zero.2 (Nat.ne_of_gt unitsPerOne_pos)

/-- Sign and size apart, which is how products and quotients are calculated. -/
theorem exactValue_eq_signed (negative : Bool) (magnitude : Magnitude) :
    exactValue negative magnitude = signed negative (magnitude.units / unitsPerOne) := by
  unfold exactValue signedUnits signed
  cases negative
  · rw [if_neg Bool.false_ne_true, if_neg Bool.false_ne_true, Int.cast_natCast]
  · rw [if_pos rfl, if_pos rfl, Int.cast_neg, Int.cast_natCast, neg_div]

/-- The size of a double is its count of units. -/
theorem abs_exactValue (negative : Bool) (magnitude : Magnitude) :
    |exactValue negative magnitude| = magnitude.units / unitsPerOne := by
  rw [exactValue_eq_signed, abs_signed]
  exact abs_of_nonneg (div_nonneg (Nat.cast_nonneg _) (Nat.cast_nonneg _))

/-- Both zeros are worth zero, and no other double is. -/
theorem exactValue_eq_zero_iff (negative : Bool) (magnitude : Magnitude) :
    exactValue negative magnitude = 0 ↔ magnitude.units = 0 := by
  rw [← abs_eq_zero, abs_exactValue, div_eq_zero_iff, or_iff_left unitsPerOne_ne_zero,
    Nat.cast_eq_zero]

/-- **Zero is read as zero, and nothing else is**, so that a division by zero is the same on both
sides of a reading. -/
theorem Reading.value_eq_zero_iff (reading : Reading) (x : Number) :
    reading.value x = 0 ↔ x.isZero = true := by
  cases x with
  | finite negative magnitude =>
    rw [reading.value_finite, exactValue_eq_zero_iff, isZero, beq_iff_eq]
  | infinite negative => simp [isZero, reading.value_ne_zero (.infinite negative) rfl]
  | nan => simp [isZero, reading.value_ne_zero .nan rfl]

/-- A reading adds nothing to what a double denotes. -/
theorem Denotes.value {x : Number} {q : ℚ} (h : x.Denotes q) (reading : Reading) :
    reading.value x = q := by
  obtain ⟨negative, magnitude, rfl, rfl⟩ := h
  exact reading.value_finite negative magnitude

theorem Denotes.isFinite {x : Number} {q : ℚ} (h : x.Denotes q) : x.isFinite = true := by
  obtain ⟨negative, magnitude, rfl, -⟩ := h
  rfl

/-- A finite double denotes what it is read as. -/
theorem denotes_value (reading : Reading) {x : Number} (h : x.isFinite = true) :
    x.Denotes (reading.value x) := by
  cases x with
  | finite negative magnitude =>
    exact ⟨negative, magnitude, rfl, (reading.value_finite negative magnitude).symm⟩
  | infinite | nan => cases h

/-! ## Rounding a value that is held -/

/-- **Nothing is rounded** when the value of a count of units is held: the count is then the one of
a magnitude, over the same denominator. -/
theorem denotes_ofUnits {negative : Bool} {num den : Nat} (hden : 0 < den)
    (h : IsHeld (signed negative (num / (den * unitsPerOne)))) :
    (ofUnits negative num den).Denotes (signed negative (num / (den * unitsPerOne))) := by
  obtain ⟨-, sign, magnitude, rfl, hvalue⟩ := h
  have hden' : (den : ℚ) ≠ 0 := Nat.cast_ne_zero.2 (Nat.ne_of_gt hden)
  have hsize : (magnitude.units / unitsPerOne : ℚ) = num / (den * unitsPerOne) := by
    rw [← abs_exactValue sign, hvalue, abs_signed]
    exact abs_of_nonneg (div_nonneg (Nat.cast_nonneg _)
      (mul_nonneg (Nat.cast_nonneg _) (Nat.cast_nonneg _)))
  have hcount : num = magnitude.units * den := by
    rw [div_eq_div_iff unitsPerOne_ne_zero (mul_ne_zero hden' unitsPerOne_ne_zero), ← mul_assoc,
      mul_right_cancel_iff_of_pos (Nat.cast_pos.2 unitsPerOne_pos)] at hsize
    exact_mod_cast hsize.symm
  refine ⟨negative, magnitude, ofUnits_of_round? (round?_of_cross hden magnitude hcount) _, ?_⟩
  rw [exactValue_eq_signed, hsize]

/-! ## Powers of two -/

/-- A count that fits into the significant bits is held. -/
theorem isHeld_of_representable {units : Nat} (h : Representable units) :
    IsHeld (units / unitsPerOne) :=
  ⟨finite false ⟨units, h⟩, false, ⟨units, h⟩, rfl, exactValue_eq_signed false ⟨units, h⟩⟩

theorem twoPow_lt {m n : Nat} (h : m < n) : twoPow m < twoPow n :=
  Nat.pow_lt_pow_right (by decide) h

theorem representable_twoPow {k : Nat} (h : k < limitExponent) : Representable (twoPow k) :=
  ⟨⟨1, k, by decide, (Nat.one_mul _).symm⟩, twoPow_lt h⟩

/-- A power of two is held as long as it is in range: it has one significant bit. -/
theorem isHeld_twoPow {k : Nat} (h : k + unitExponent < limitExponent) :
    IsHeld ((twoPow k : Nat) : ℚ) := by
  have hheld := isHeld_of_representable (representable_twoPow h)
  rwa [twoPow_add, Nat.cast_mul, ← unitsPerOne, mul_div_cancel_right₀ _ unitsPerOne_ne_zero]
    at hheld

/-- So is its inverse, down to the smallest double. -/
theorem isHeld_one_div_twoPow {k : Nat} (h : k ≤ unitExponent) :
    IsHeld (1 / ((twoPow k : Nat) : ℚ)) := by
  have hrange : unitExponent - k < limitExponent :=
    Nat.lt_of_le_of_lt (Nat.sub_le _ _) (by decide)
  have hheld := isHeld_of_representable (representable_twoPow hrange)
  have hsplit : unitsPerOne = twoPow (unitExponent - k) * twoPow k := by
    rw [← twoPow_add, Nat.sub_add_cancel h, unitsPerOne]
  have hpos : ((twoPow (unitExponent - k) : Nat) : ℚ) ≠ 0 :=
    Nat.cast_ne_zero.2 (Nat.ne_of_gt (twoPow_pos _))
  rwa [hsplit, Nat.cast_mul, div_mul_cancel_left₀ hpos, ← one_div] at hheld

theorem isHeld_one : IsHeld 1 := by
  have h : IsHeld ((twoPow 0 : Nat) : ℚ) := isHeld_twoPow (by decide)
  rwa [show twoPow 0 = 1 from rfl, Nat.cast_one] at h

/-! ## Operations -/

/-- The two numbers that folds of sums and of products begin with. -/
theorem denotes_zero : zero.Denotes 0 :=
  ⟨false, Magnitude.zero, rfl, (exactValue_eq_zero_iff false Magnitude.zero).2 rfl⟩

/-- A natural number is exact when a double holds it. -/
theorem denotes_ofNat {n : Nat} (h : IsHeld n) : (ofNat n).Denotes n := by
  have hvalue : (n : ℚ) = signed false ((n * unitsPerOne : Nat) / ((1 : Nat) * unitsPerOne)) := by
    rw [signed, if_neg Bool.false_ne_true, Nat.cast_one, one_mul, Nat.cast_mul,
      mul_div_cancel_right₀ _ unitsPerOne_ne_zero]
  rw [hvalue] at h ⊢
  rw [ofNat, ofRatio]
  exact denotes_ofUnits Nat.one_pos h

theorem denotes_one : (ofNat 1).Denotes 1 := by
  have h : (ofNat 1).Denotes ((1 : Nat) : ℚ) := denotes_ofNat (Nat.cast_one (R := ℚ) ▸ isHeld_one)
  rwa [Nat.cast_one] at h

variable {x y : Number} {p q : ℚ}

/-- Negation is always exact. -/
theorem Denotes.neg (h : x.Denotes q) : x.neg.Denotes (-q) := by
  obtain ⟨negative, magnitude, rfl, rfl⟩ := h
  refine ⟨!negative, magnitude, rfl, ?_⟩
  rw [exactValue_eq_signed, exactValue_eq_signed, signed_not]

/-- **A sum that is held is exact.** -/
theorem Denotes.add (hx : x.Denotes p) (hy : y.Denotes q) (h : IsHeld (p + q)) :
    (x.add y).Denotes (p + q) := by
  obtain ⟨s, a, rfl, rfl⟩ := hx
  obtain ⟨t, b, rfl, rfl⟩ := hy
  -- in units the sum is a whole number, which is what the program adds up
  have hsum : exactValue s a + exactValue t b =
      ((signedUnits s a + signedUnits t b : Int) : ℚ) / unitsPerOne := by
    rw [exactValue, exactValue, ← add_div, Int.cast_add]
  rw [hsum] at h ⊢
  unfold Number.add
  simp only
  generalize signedUnits s a + signedUnits t b = total at h ⊢
  split
  -- a sum of nothing is a zero, of whichever sign
  case isTrue hzero =>
    refine ⟨s && t, Magnitude.zero, rfl, ?_⟩
    rw [hzero, Int.cast_zero, zero_div]
    exact (exactValue_eq_zero_iff _ _).2 rfl
  case isFalse =>
    have hvalue : signed (total < 0) (total.natAbs / ((1 : Nat) * unitsPerOne)) =
        (total : ℚ) / unitsPerOne := by
      rw [Nat.cast_one, one_mul, signed, ← neg_div, ← apply_ite (· / (unitsPerOne : ℚ))]
      congr 1
      by_cases hsign : total < 0
      · simp [hsign, abs_of_neg]
      · simp [hsign, abs_of_nonneg (not_lt.1 hsign)]
    rw [← hvalue] at h ⊢
    exact denotes_ofUnits Nat.one_pos h

/-- **A product that is held is exact.** -/
theorem Denotes.mul (hx : x.Denotes p) (hy : y.Denotes q) (h : IsHeld (p * q)) :
    (x.mul y).Denotes (p * q) := by
  obtain ⟨s, a, rfl, rfl⟩ := hx
  obtain ⟨t, b, rfl, rfl⟩ := hy
  have hproduct : exactValue s a * exactValue t b =
      signed (s != t) ((a.units * b.units : Nat) / (unitsPerOne * unitsPerOne)) := by
    rw [exactValue_eq_signed, exactValue_eq_signed, signed_mul, Nat.cast_mul, ← div_mul_div_comm]
  rw [hproduct] at h ⊢
  exact denotes_ofUnits unitsPerOne_pos h

/-- **A quotient that is held is exact**, the divisor not being zero. -/
theorem Denotes.div (hx : x.Denotes p) (hy : y.Denotes q) (hq : q ≠ 0) (h : IsHeld (p / q)) :
    (x.div y).Denotes (p / q) := by
  obtain ⟨s, a, rfl, rfl⟩ := hx
  obtain ⟨t, b, rfl, rfl⟩ := hy
  have hb : b.units ≠ 0 := fun hzero => hq ((exactValue_eq_zero_iff t b).2 hzero)
  have hquotient : exactValue s a / exactValue t b =
      signed (s != t) ((a.units * unitsPerOne : Nat) / (b.units * unitsPerOne)) := by
    rw [exactValue_eq_signed, exactValue_eq_signed, signed_div, Nat.cast_mul,
      mul_div_mul_right _ _ unitsPerOne_ne_zero, div_div_div_cancel_right₀ unitsPerOne_ne_zero]
  rw [hquotient] at h ⊢
  unfold Number.div
  simp only
  rw [if_neg hb]
  exact denotes_ofUnits (Nat.pos_of_ne_zero hb) h

/-! ## Runs of operations -/

/-- **Held along the way**: every result of the numbers taken together from the left is held, not
only the last one. -/
def HeldAlong (op : ℚ → ℚ → ℚ) : ℚ → List ℚ → Prop
  | _, [] => True
  | start, q :: rest => IsHeld (op start q) ∧ HeldAlong op (op start q) rest

/-- **A run of operations is exact** when each of its results is held: no error can enter, and so
none is carried on. -/
theorem denotes_foldl {op : Number → Number → Number} {exactOp : ℚ → ℚ → ℚ}
    (hop : ∀ {x y p q}, x.Denotes p → y.Denotes q → IsHeld (exactOp p q) →
      (op x y).Denotes (exactOp p q))
    {xs : List Number} {qs : List ℚ} (hxs : List.Forall₂ Denotes xs qs)
    {start : Number} {exactStart : ℚ} (hstart : start.Denotes exactStart)
    (h : HeldAlong exactOp exactStart qs) :
    (xs.foldl op start).Denotes (qs.foldl exactOp exactStart) := by
  induction hxs generalizing start exactStart with
  | nil => exact hstart
  | cons hx _ ih => exact ih (hop hstart hx h.1) h.2

end Number

end AnchorLayout
