import AnchorLayout.Number.Decimal
import Mathlib.Algebra.Order.Field.Rat
import Mathlib.Tactic.FieldSimp
import Mathlib.Tactic.NormNum
/-!
# Rounding depends on the value

  1. **Specification** — `Decimal.value`, the rational number that a decimal stands for.
  2. **Scaling (`roundHalfEven_scale`)** — a fraction and the same fraction in other terms are
     rounded alike.
  3. **Clamping (`round?_ratio`)** — the exponents that reading does not tell apart belong to
     numbers that all round to zero, or all overflow.
  4. **The crux (`reads_iff_of_value_eq`)** — so what a decimal is read as depends on its value
     alone, and the shortest numeral of a magnitude reads back whichever way it was found.
-/

namespace AnchorLayout

/-! ## Scaling -/

/-- Rounding looks at a quotient and its remainder, which scale with the fraction. -/
theorem roundHalfEven_scale {k : Nat} (hk : 0 < k) (num den : Nat) :
    roundHalfEven (num * k) (den * k) = roundHalfEven num den := by
  unfold roundHalfEven
  rw [Nat.mul_div_mul_right _ _ hk, Nat.mul_mod_mul_right]
  have hlt : 2 * (num % den * k) < den * k ↔ 2 * (num % den) < den := by
    rw [← Nat.mul_assoc, Nat.mul_lt_mul_right hk]
  have heq : 2 * (num % den * k) = den * k ↔ 2 * (num % den) = den := by
    rw [← Nat.mul_assoc, Nat.mul_right_cancel_iff hk]
  simp only [hlt, heq]

/-- So does the number of bits that are kept. -/
theorem roundedUnits_scale {k : Nat} (hk : 0 < k) (num den : Nat) :
    roundedUnits (num * k) (den * k) = roundedUnits num den := by
  unfold roundedUnits
  rw [Nat.mul_div_mul_right _ _ hk, Nat.mul_right_comm den k, roundHalfEven_scale hk]

/-- **Fractions of one value are rounded alike.** -/
theorem roundedUnits_eq_of_cross {num den num' den' : Nat} (hden : 0 < den) (hden' : 0 < den')
    (h : num * den' = num' * den) : roundedUnits num den = roundedUnits num' den' := by
  rw [← roundedUnits_scale hden' num den, h, Nat.mul_comm den den', roundedUnits_scale hden]

/-- What is read depends on the rounded count alone. -/
theorem round?_eq_of_units_eq {num den num' den' : Nat}
    (h : roundedUnits num den = roundedUnits num' den') :
    Magnitude.round? num den = Magnitude.round? num' den' := by
  unfold Magnitude.round?
  by_cases hb : roundedUnits num den < unitLimit
  · have hb' : roundedUnits num' den' < unitLimit := h ▸ hb
    rw [dif_pos hb, dif_pos hb']
    exact congrArg some (Magnitude.ext h)
  · have hb' : ¬ roundedUnits num' den' < unitLimit := h ▸ hb
    rw [dif_neg hb, dif_neg hb']

/-! ## Exact counts -/

/-- **A representable count is not changed by rounding**: no bit of it is lost. -/
theorem roundedUnits_of_representable {units : Nat} (h : Representable units) :
    roundedUnits units 1 = units := by
  obtain ⟨⟨mantissa, exponent, hm, rfl⟩, -⟩ := h
  unfold roundedUnits
  rw [Nat.div_one, Nat.one_mul]
  -- the bits that are lost are zeros, as the mantissa fits into those that are kept
  have hdvd : twoPow (lostBits (mantissa * twoPow exponent)) ∣ mantissa * twoPow exponent := by
    by_cases hzero : mantissa = 0
    · rw [hzero, Nat.zero_mul]
      exact Nat.dvd_zero _
    · have hle : lostBits (mantissa * twoPow exponent) ≤ exponent := by
        have hpos : mantissa * twoPow exponent ≠ 0 :=
          Nat.mul_ne_zero hzero (Nat.ne_of_gt (twoPow_pos exponent))
        have hlt : mantissa * twoPow exponent < twoPow (53 + exponent) := by
          rw [twoPow_add]
          exact Nat.mul_lt_mul_of_pos_right hm (twoPow_pos exponent)
        have hlog : (mantissa * twoPow exponent).log2 < 53 + exponent :=
          (Nat.log2_lt hpos).2 hlt
        unfold lostBits
        omega
      exact Nat.dvd_mul_left_of_dvd (Nat.pow_dvd_pow 2 hle) mantissa
  -- a quotient without a remainder is not rounded
  have hexact : roundHalfEven (mantissa * twoPow exponent)
      (twoPow (lostBits (mantissa * twoPow exponent))) =
        mantissa * twoPow exponent / twoPow (lostBits (mantissa * twoPow exponent)) := by
    have hpos := twoPow_pos (lostBits (mantissa * twoPow exponent))
    unfold roundHalfEven
    rw [Nat.mod_eq_zero_of_dvd hdvd]
    exact if_pos (Or.inl (by omega))
  rw [hexact, Nat.div_mul_cancel hdvd]

/-- **A double is rounded to itself.** -/
theorem round?_units (x : Magnitude) : Magnitude.round? x.units 1 = some x := by
  have hexact := roundedUnits_of_representable x.representable
  unfold Magnitude.round?
  have hbound : roundedUnits x.units 1 < unitLimit := by
    rw [hexact]
    exact x.representable.2
  rw [dif_pos hbound]
  exact congrArg some (Magnitude.ext hexact)

/-- A fraction whose value is a count that can be held is read as that count. -/
theorem round?_of_cross {num den : Nat} (hden : 0 < den) (x : Magnitude)
    (h : num = x.units * den) : Magnitude.round? num den = some x := by
  rw [← round?_units x]
  refine round?_eq_of_units_eq (roundedUnits_eq_of_cross hden Nat.one_pos ?_)
  rw [Nat.mul_one, h]

/-! ## Far away -/

theorem twoPow_three_mul_le (n : Nat) : twoPow (3 * n) ≤ Nat.pow 10 n := by
  unfold twoPow
  show 2 ^ (3 * n) ≤ 10 ^ n
  rw [Nat.pow_mul]
  exact Nat.pow_le_pow_left (by decide) n

/-- What is less than half a unit is rounded to nothing. -/
theorem roundedUnits_tiny {num den : Nat} (h : 2 * num < den) : roundedUnits num den = 0 := by
  unfold roundedUnits
  have hzero : num / den = 0 := Nat.div_eq_of_lt (by omega)
  rw [hzero]
  have hone : twoPow (lostBits 0) = 1 := rfl
  rw [hone, Nat.mul_one, Nat.mul_one]
  unfold roundHalfEven
  rw [hzero, Nat.mod_eq_of_lt (by omega : num < den)]
  exact if_pos (Or.inl h)

/-- Rounding goes down by less than one. -/
theorem le_roundHalfEven (num den : Nat) : num / den ≤ roundHalfEven num den := by
  unfold roundHalfEven
  simp only
  split <;> omega

/-- Rounding does not cross a power of two downwards. -/
theorem twoPow_log2_le_roundedUnits {num den : Nat} (h : num / den ≠ 0) :
    twoPow (num / den).log2 ≤ roundedUnits num den := by
  have hself : twoPow (num / den).log2 ≤ num / den := Nat.log2_self_le h
  unfold roundedUnits
  by_cases hlost : lostBits (num / den) = 0
  · rw [hlost, show twoPow 0 = 1 from rfl, Nat.mul_one, Nat.mul_one]
    exact Nat.le_trans hself (le_roundHalfEven num den)
  · have hsplit : (num / den).log2 = 52 + lostBits (num / den) := by
      unfold lostBits at hlost ⊢
      omega
    have hmantissa : twoPow 52 ≤ num / (den * twoPow (lostBits (num / den))) := by
      rw [← Nat.div_div_eq_div_mul, Nat.le_div_iff_mul_le (twoPow_pos _), ← twoPow_add, ← hsplit]
      exact hself
    calc twoPow (num / den).log2 = twoPow 52 * twoPow (lostBits (num / den)) := by
          rw [← twoPow_add, ← hsplit]
      _ ≤ num / (den * twoPow (lostBits (num / den))) * twoPow (lostBits (num / den)) :=
          Nat.mul_le_mul_right _ hmantissa
      _ ≤ _ := Nat.mul_le_mul_right _ (le_roundHalfEven _ _)

theorem twoPow_le_roundedUnits {k num den : Nat} (h : twoPow k ≤ num / den) :
    twoPow k ≤ roundedUnits num den := by
  have hne : num / den ≠ 0 := Nat.ne_of_gt (Nat.lt_of_lt_of_le (twoPow_pos k) h)
  exact Nat.le_trans (twoPow_le ((Nat.le_log2 hne).2 h)) (twoPow_log2_le_roundedUnits hne)

/-- Beyond the largest double there is nothing to round to. -/
theorem round?_huge {n : Nat} (h : unitLimit ≤ n) : Magnitude.round? n 1 = none := by
  unfold Magnitude.round?
  refine dif_neg (Nat.not_lt.2 (twoPow_le_roundedUnits ?_))
  rwa [Nat.div_one]

/-! ## Clamping -/

namespace Decimal

/-- Numerator and denominator as they are written, whatever the exponent. -/
def fraction (d : Decimal) : Nat × Nat :=
  if d.exponent < 0 then (d.digits, Nat.pow 10 d.exponent.natAbs)
  else (d.digits * Nat.pow 10 d.exponent.natAbs, 1)

theorem fraction_pos (d : Decimal) : 0 < d.fraction.2 := by
  unfold fraction
  split
  · exact Nat.pow_pos (by decide)
  · exact Nat.one_pos

/-- What is rounded is the fraction of the decimal with its exponent clamped. -/
theorem ratio_eq_fraction (d : Decimal) : d.ratio =
    fraction ⟨d.digits, max (min d.exponent 400) (-(d.digits.log2 + 401 : Int))⟩ := rfl

/-- Far below one: half a unit is more. -/
theorem tiny {digits m : Nat} (h : digits.log2 + 401 ≤ m) :
    2 * (digits * unitsPerOne) < Nat.pow 10 m := by
  have hdigits : digits < twoPow (digits.log2 + 1) := lt_twoPow_log2 digits
  have htwo : (2 : Nat) = twoPow 1 := rfl
  have hexponent : unitExponent = 1074 := rfl
  calc 2 * (digits * unitsPerOne) = twoPow 1 * (digits * twoPow unitExponent) := by
        rw [← htwo]
        rfl
    _ < twoPow 1 * (twoPow (digits.log2 + 1) * twoPow unitExponent) :=
        Nat.mul_lt_mul_of_pos_left
          (Nat.mul_lt_mul_of_pos_right hdigits (twoPow_pos unitExponent)) (twoPow_pos 1)
    _ = twoPow (1 + (digits.log2 + 1 + unitExponent)) := by rw [← twoPow_add, ← twoPow_add]
    _ ≤ twoPow (3 * m) := twoPow_le (by omega)
    _ ≤ Nat.pow 10 m := twoPow_three_mul_le m

/-- Far above the largest double. -/
theorem huge {digits m : Nat} (hd : digits ≠ 0) (h : 400 ≤ m) :
    unitLimit ≤ digits * Nat.pow 10 m * unitsPerOne := by
  have hexponent : unitExponent = 1074 := rfl
  have hlimit : limitExponent = 2098 := rfl
  calc unitLimit = twoPow limitExponent := rfl
    _ ≤ twoPow (3 * m + unitExponent) := twoPow_le (by omega)
    _ = twoPow (3 * m) * unitsPerOne := twoPow_add _ _
    _ ≤ Nat.pow 10 m * unitsPerOne := Nat.mul_le_mul_right _ (twoPow_three_mul_le m)
    _ ≤ digits * Nat.pow 10 m * unitsPerOne :=
        Nat.mul_le_mul_right _ (Nat.le_mul_of_pos_left _ (Nat.pos_of_ne_zero hd))

/-- **Clamping does not matter**: the exponents that are brought together belong to numbers that
are all read alike. -/
theorem round?_ratio (d : Decimal) :
    Magnitude.round? (d.ratio.1 * unitsPerOne) d.ratio.2 =
      Magnitude.round? (d.fraction.1 * unitsPerOne) d.fraction.2 := by
  obtain ⟨digits, exponent⟩ := d
  rw [ratio_eq_fraction]
  by_cases hlow : exponent < -(digits.log2 + 401 : Int)
  · have hclamp : max (min exponent 400) (-(digits.log2 + 401 : Int)) = -(digits.log2 + 401 : Int) := by
      omega
    have hnear : digits.log2 + 401 ≤ (-(digits.log2 + 401 : Int)).natAbs := by omega
    have hfar : digits.log2 + 401 ≤ exponent.natAbs := by omega
    refine round?_eq_of_units_eq ?_
    rw [hclamp, fraction, if_pos (by simp only; omega), fraction, if_pos (by simp only; omega)]
    rw [roundedUnits_tiny (tiny hnear), roundedUnits_tiny (tiny hfar)]
  · by_cases hhigh : 400 < exponent
    · have hclamp : max (min exponent 400) (-(digits.log2 + 401 : Int)) = 400 := by omega
      have hnear : 400 ≤ (400 : Int).natAbs := by omega
      have hfar : 400 ≤ exponent.natAbs := by omega
      rw [hclamp, fraction, if_neg (by simp only; omega), fraction, if_neg (by simp only; omega)]
      by_cases hd : digits = 0
      · simp only [hd, Nat.zero_mul]
      · exact (round?_huge (huge hd hnear)).trans (round?_huge (huge hd hfar)).symm
    · have hclamp : max (min exponent 400) (-(digits.log2 + 401 : Int)) = exponent := by omega
      rw [hclamp]

/-! ## Values -/

/-- **The value** of a decimal. -/
def value (d : Decimal) : ℚ := d.digits * (10 : ℚ) ^ d.exponent

/-- The value is that of the fraction, so rounding can speak of natural numbers. -/
theorem value_eq_fraction (d : Decimal) : d.value = d.fraction.1 / d.fraction.2 := by
  unfold value fraction
  split
  · next h =>
    have hexp : d.exponent = -(d.exponent.natAbs : Int) := by omega
    rw [hexp, zpow_neg, zpow_natCast, Int.natAbs_neg, Int.natAbs_natCast]
    show _ = (d.digits : ℚ) / ((10 ^ d.exponent.natAbs : Nat) : ℚ)
    rw [Nat.cast_pow, div_eq_mul_inv]
    rfl
  · next h =>
    have hexp : d.exponent = (d.exponent.natAbs : Int) := by omega
    rw [hexp, zpow_natCast, Int.natAbs_natCast]
    show _ = ((d.digits * 10 ^ d.exponent.natAbs : Nat) : ℚ) / ((1 : Nat) : ℚ)
    rw [Nat.cast_mul, Nat.cast_pow, Nat.cast_one, div_one]
    rfl

/-- **Decimals of one value are read alike.** -/
theorem round?_eq_of_value_eq {d d' : Decimal} (h : d.value = d'.value) :
    Magnitude.round? (d.ratio.1 * unitsPerOne) d.ratio.2 =
      Magnitude.round? (d'.ratio.1 * unitsPerOne) d'.ratio.2 := by
  rw [round?_ratio, round?_ratio]
  refine round?_eq_of_units_eq (roundedUnits_eq_of_cross d.fraction_pos d'.fraction_pos ?_)
  rw [value_eq_fraction, value_eq_fraction, div_eq_div_iff] at h
  · have hcross : d.fraction.1 * d'.fraction.2 = d'.fraction.1 * d.fraction.2 := by exact_mod_cast h
    rw [Nat.mul_right_comm, hcross, Nat.mul_right_comm]
  · exact Nat.cast_ne_zero.2 (Nat.ne_of_gt d.fraction_pos)
  · exact Nat.cast_ne_zero.2 (Nat.ne_of_gt d'.fraction_pos)

end Decimal

/-- Whether a decimal is read as a magnitude is a matter of its value. -/
theorem reads_iff_of_value_eq {x : Magnitude} {d d' : Decimal} (h : d.value = d'.value) :
    x.Reads d ↔ x.Reads d' := by
  unfold Magnitude.Reads
  rw [Decimal.round?_eq_of_value_eq h]

end AnchorLayout
