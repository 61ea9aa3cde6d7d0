import AnchorLayout.Proofs.Number.Rounding
import Mathlib.Tactic.Ring
/-!
# Which decimals overflow

  1. **Program** — `Number.ofDecimal`, which reads any decimal, however long, and rounds it once.
  2. **Specification** — `overflowValue`, the number half way between the largest double and
     `2^1024`.
  3. **Rounding (`roundHalfEven_le_iff`)** — a quotient is not rounded past an odd number exactly
     when it is less than half a step above it.
  4. **The crux (`isFinite_ofDecimal_iff`)** — the decimals below `overflowValue` are the ones that
     are read as finite numbers, since the largest double has an odd mantissa.
-/

namespace AnchorLayout

/-- The value half way between the largest double and `2^1024`. -/
def overflowValue : ℚ := 2 ^ 1024 - 2 ^ 970

/-- The odd number of which the largest double is a multiple, twice and half a step more. -/
def topHalves : Nat := 2 * (twoPow 53 - 1) + 1

/-! ## Rounding -/

/-- **A half is rounded away from an odd number.** -/
theorem roundHalfEven_le_iff {num den k : Nat} (hden : 0 < den) (hodd : k % 2 = 1) :
    roundHalfEven num den ≤ k ↔ 2 * num < (2 * k + 1) * den := by
  have hnum : den * (num / den) + num % den = num := Nat.div_add_mod num den
  have hrest : num % den < den := Nat.mod_lt num hden
  have hlower := le_roundHalfEven num den
  have hupper := roundHalfEven_le num den
  have hside : (2 * k + 1) * den = 2 * (den * k) + den := by ring
  rw [hside]
  rcases Nat.lt_trichotomy (num / den) k with hlt | heq | hgt
  · have hle : den * (num / den + 1) ≤ den * k := Nat.mul_le_mul_left den hlt
    rw [Nat.mul_add, Nat.mul_one] at hle
    omega
  · unfold roundHalfEven
    simp only
    rw [heq] at hnum ⊢
    split <;> omega
  · have hle : den * (k + 1) ≤ den * (num / den) := Nat.mul_le_mul_left den hgt
    rw [Nat.mul_add, Nat.mul_one] at hle
    omega

theorem twoPow_succ (e : Nat) : twoPow (e + 1) = 2 * twoPow e := by
  rw [Nat.add_comm, twoPow_add]
  rfl

/-- A quotient of fewer bits is not rounded up to a power of two beyond the next one. -/
theorem roundedUnits_lt_of_lt {num den e : Nat} (h : num / den < twoPow (53 + e)) :
    roundedUnits num den < twoPow (53 + (e + 1)) := by
  have hkept := Nat.le_trans (roundHalfEven_le num (den * twoPow (lostBits (num / den))))
    (div_mul_lostBits_lt num den)
  have hlost : lostBits (num / den) ≤ e := by
    by_cases hzero : num / den = 0
    · rw [hzero]
      exact Nat.zero_le e
    · have hlog : (num / den).log2 < 53 + e := (Nat.log2_lt hzero).2 h
      unfold lostBits
      omega
  have hpos := twoPow_pos e
  calc roundedUnits num den ≤ twoPow 53 * twoPow (lostBits (num / den)) :=
        Nat.mul_le_mul_right _ hkept
    _ ≤ twoPow 53 * twoPow e := Nat.mul_le_mul_left _ (twoPow_le hlost)
    _ < twoPow 53 * twoPow (e + 1) :=
        Nat.mul_lt_mul_of_pos_left (by rw [twoPow_succ]; omega) (twoPow_pos 53)
    _ = twoPow (53 + (e + 1)) := (twoPow_add 53 (e + 1)).symm

/-- **Rounding stays below a power of two** exactly where the quotient is less than half a step
above the last number of 53 bits below it. -/
theorem roundedUnits_lt_iff {num den : Nat} (hden : 0 < den) (e : Nat) :
    roundedUnits num den < twoPow (53 + (e + 1)) ↔ num < topHalves * twoPow e * den := by
  rcases Nat.lt_or_ge (num / den) (twoPow (53 + e)) with hlow | hlow
  · -- too few bits to come near
    have hsmall : num < topHalves * twoPow e * den := by
      refine Nat.lt_of_lt_of_le ((Nat.div_lt_iff_lt_mul hden).1 hlow) ?_
      rw [twoPow_add]
      exact Nat.mul_le_mul_right den (Nat.mul_le_mul_right _ (by decide))
    exact iff_of_true (roundedUnits_lt_of_lt hlow) hsmall
  rcases Nat.lt_or_ge (num / den) (twoPow (53 + (e + 1))) with hhigh | hhigh
  · -- the last bits that are kept are those of the power of two
    have hlost : lostBits (num / den) = e + 1 := by
      have hne : num / den ≠ 0 := Nat.ne_of_gt (Nat.lt_of_lt_of_le (twoPow_pos _) hlow)
      have hge : 53 + e ≤ (num / den).log2 := (Nat.le_log2 hne).2 hlow
      have hlt : (num / den).log2 < 53 + (e + 1) := (Nat.log2_lt hne).2 hhigh
      unfold lostBits
      omega
    have hpos : 0 < den * twoPow (e + 1) := Nat.mul_pos hden (twoPow_pos _)
    have hodd : (twoPow 53 - 1) % 2 = 1 := by decide
    have hkept : roundHalfEven num (den * twoPow (e + 1)) ≤ twoPow 53 - 1 ↔ _ :=
      roundHalfEven_le_iff hpos hodd
    unfold roundedUnits
    rw [hlost, twoPow_add 53, Nat.mul_lt_mul_right (twoPow_pos _)]
    have hside : (2 * (twoPow 53 - 1) + 1) * (den * twoPow (e + 1)) =
        2 * (topHalves * twoPow e * den) := by
      rw [twoPow_succ e, topHalves]
      ring
    rw [hside] at hkept
    omega
  · -- the quotient has reached it, and no rounding leads back
    have hlarge : topHalves * twoPow e * den ≤ num := by
      refine Nat.le_trans ?_ ((Nat.le_div_iff_mul_le hden).1 hhigh)
      rw [twoPow_add, twoPow_succ e, ← Nat.mul_assoc]
      exact Nat.mul_le_mul_right den (Nat.mul_le_mul_right _ (by decide))
    exact iff_of_false (Nat.not_lt.2 (twoPow_le_roundedUnits hhigh)) (Nat.not_lt.2 hlarge)

/-! ## Reading -/

/-- **A magnitude is found** for a quotient below the limit, and for no other. -/
theorem isSome_round?_iff {num den : Nat} (hden : 0 < den) :
    (Magnitude.round? num den).isSome = true ↔ num < topHalves * twoPow 2044 * den := by
  rw [← roundedUnits_lt_iff hden]
  unfold Magnitude.round?
  split
  · next hbound => exact iff_of_true rfl hbound
  · next hbound => exact iff_of_false Bool.false_ne_true hbound

/-- The limit in units is a whole number, so it can be compared without fractions. -/
theorem overflowValue_eq_units : overflowValue * unitsPerOne = (topHalves * twoPow 2044 : Nat) := by
  have hcast : ∀ n, ((twoPow n : Nat) : ℚ) = 2 ^ n := fun n => Nat.cast_pow 2 n
  have hhalves : ((topHalves : Nat) : ℚ) = 2 ^ 54 - 1 := by
    unfold topHalves twoPow
    norm_num
  have hlimit : (2 : ℚ) ^ 1024 = 2 ^ 54 * 2 ^ 970 := pow_add 2 54 970
  have hunits : (2 : ℚ) ^ 2044 = 2 ^ 970 * 2 ^ 1074 := pow_add 2 970 1074
  rw [overflowValue, unitsPerOne, unitExponent, Nat.cast_mul, hhalves, hcast, hcast, hlimit, hunits,
    ← mul_assoc, sub_one_mul]

namespace Number

/-- **A decimal is read as a finite number** exactly where it is below the limit. -/
theorem isFinite_ofDecimal_iff (negative : Bool) (d : Decimal) :
    (ofDecimal negative d).isFinite = true ↔ d.value < overflowValue := by
  have hfinite : (ofDecimal negative d).isFinite =
      (Magnitude.round? (d.ratio.1 * unitsPerOne) d.ratio.2).isSome := by
    unfold ofDecimal ofRatio ofUnits
    cases Magnitude.round? (d.ratio.1 * unitsPerOne) d.ratio.2 <;> rfl
  have hpos : (0 : ℚ) < d.fraction.2 := Nat.cast_pos.2 d.fraction_pos
  have hunits : (0 : ℚ) < unitsPerOne := Nat.cast_pos.2 unitsPerOne_pos
  rw [hfinite, Decimal.round?_ratio, isSome_round?_iff d.fraction_pos, d.value_eq_fraction,
    div_lt_iff₀ hpos, ← mul_lt_mul_iff_left₀ hunits, mul_right_comm overflowValue,
    overflowValue_eq_units, ← Nat.cast_mul, ← Nat.cast_mul, Nat.cast_lt]

end Number

end AnchorLayout
