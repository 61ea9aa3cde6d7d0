import AnchorLayout.Number.Reader
import AnchorLayout.Number.Text
import AnchorLayout.Proofs.Number.Rounding
/-!
# Numerals are read back

  1. **Specification** — `Magnitude.Spelt`: digits before and after the point that are read as a
     magnitude.
  2. **Digits** — the value of the digits of a number is that number, whatever zeros are put at
     either end.
  3. **Shortest (`reads_shortest`)** — the shortest numeral reads back, because every candidate
     was tried and the exact expansion reads back by itself.
  4. **The crux (`exists_spelling`)** — the wire text of a finite number is a sign and such digits;
     a zero loses its sign, and nothing else is lost.
-/

namespace AnchorLayout

/-! ## Digits -/

/-- The value of digits is that of the library, so its lemmas serve. -/
theorem digitsValue_eq (cs : List Char) : digitsValue cs = Nat.ofDigitChars 10 cs 0 := rfl

theorem digitsValue_toDigits (n : Nat) : digitsValue (Nat.toDigits 10 n) = n :=
  Nat.ofDigitChars_ten_toDigits

/-- Zeros behind the digits multiply by ten. -/
theorem digitsValue_append_zeros (cs : List Char) (n : Nat) :
    digitsValue (cs ++ List.replicate n '0') = digitsValue cs * 10 ^ n := by
  rw [digitsValue_eq, Nat.ofDigitChars_append, Nat.ofDigitChars_replicate_zero, Nat.mul_comm]
  rfl

/-- Zeros in front of them do nothing. -/
theorem digitsValue_zeros_append (n : Nat) (cs : List Char) :
    digitsValue (List.replicate n '0' ++ cs) = digitsValue cs := by
  rw [digitsValue_eq, Nat.ofDigitChars_append, Nat.ofDigitChars_replicate_zero, Nat.mul_zero]
  rfl

theorem isDigit_of_mem_digitText {d : Decimal} {c : Char} (h : c ∈ d.digitText) :
    c.isDigit = true :=
  Nat.isDigit_of_mem_toDigits (by decide) (by decide) h

theorem isDigit_of_mem_zeros {n : Nat} {c : Char} (h : c ∈ List.replicate n '0') :
    c.isDigit = true := by
  rw [List.eq_of_mem_replicate h]
  decide

/-- The leading digits of a text are all of its first part, where the second one does not begin
with a digit. -/
theorem leadingDigits_append {cs rest : List Char} (h : ∀ c ∈ cs, c.isDigit = true)
    (hrest : leadingDigits rest = []) : leadingDigits (cs ++ rest) = cs := by
  have hall : leadingDigits (cs ++ rest) = cs ++ leadingDigits rest :=
    List.takeWhile_append_of_pos h
  rw [hall, hrest, List.append_nil]

/-- The digits end where something else begins. -/
theorem pastDigits_append {cs rest : List Char} (h : ∀ c ∈ cs, c.isDigit = true)
    (hrest : leadingDigits rest = []) : pastDigits (cs ++ rest) = rest := by
  have hsplit := leadingDigits_append_pastDigits (cs ++ rest)
  rw [leadingDigits_append h hrest] at hsplit
  exact List.append_cancel_left hsplit

theorem leadingDigits_of_digits {cs : List Char} (h : ∀ c ∈ cs, c.isDigit = true) :
    leadingDigits cs = cs := by
  have hcs : leadingDigits (cs ++ []) = cs := leadingDigits_append h rfl
  rwa [List.append_nil] at hcs

theorem pastDigits_of_digits {cs : List Char} (h : ∀ c ∈ cs, c.isDigit = true) :
    pastDigits cs = [] := by
  have hcs : pastDigits (cs ++ []) = [] := pastDigits_append h rfl
  rwa [List.append_nil] at hcs

/-! ## The shortest numeral -/

namespace Decimal

/-- Trailing zeros may be moved into the exponent. -/
theorem value_trimZeros (fuel : Nat) (d : Decimal) : (d.trimZeros fuel).value = d.value := by
  induction fuel generalizing d with
  | zero => rfl
  | succ fuel ih =>
    unfold trimZeros
    split
    · next h =>
      rw [ih]
      have hdigits : (d.digits : ℚ) = ((d.digits / 10 : Nat) : ℚ) * 10 := by
        have hnat : d.digits = d.digits / 10 * 10 := by omega
        exact_mod_cast hnat
      have hten : (10 : ℚ) ^ (d.exponent + 1) = 10 ^ d.exponent * 10 :=
        zpow_add_one₀ (by norm_num) d.exponent
      show ((d.digits / 10 : Nat) : ℚ) * 10 ^ (d.exponent + 1) = d.digits * 10 ^ d.exponent
      rw [hdigits, hten, mul_comm (10 ^ d.exponent) (10 : ℚ), mul_assoc]
    · rfl

/-- The normal form of a decimal has its value. -/
theorem value_normal (d : Decimal) : d.normal.value = d.value := by
  unfold normal
  split
  · next h =>
    unfold value
    rw [h, Nat.cast_zero, zero_mul, zero_mul]
  · exact value_trimZeros _ d

end Decimal

namespace Magnitude

variable {x : Magnitude}

/-- A count of units, written out in base ten, is rounded to itself. -/
theorem round?_expansion (x : Magnitude) {n : Nat} (hn : 0 < n) :
    round? ((Decimal.fraction ⟨x.units * Nat.pow 5 n, -(n : Int)⟩).1 * twoPow n)
      (Decimal.fraction ⟨x.units * Nat.pow 5 n, -(n : Int)⟩).2 = some x := by
  have hfraction : Decimal.fraction ⟨x.units * Nat.pow 5 n, -(n : Int)⟩ =
      (x.units * Nat.pow 5 n, Nat.pow 10 n) := by
    unfold Decimal.fraction
    rw [if_pos (by simp only; omega), Int.natAbs_neg, Int.natAbs_natCast]
  have hten : Nat.pow 10 n = Nat.pow 5 n * twoPow n := Nat.mul_pow 5 2 n
  have hpos : 0 < Nat.pow 10 n := Nat.pow_pos (by decide)
  have hcross : x.units * Nat.pow 5 n * twoPow n = x.units * Nat.pow 10 n := by
    rw [hten, Nat.mul_assoc]
  rw [hfraction]
  exact round?_of_cross hpos x hcross

/-- The exact expansion is read back: in units, it is the count itself. -/
theorem reads_exactDecimal (x : Magnitude) : x.Reads x.exactDecimal := by
  have hn : 0 < unitExponent := by decide
  unfold Reads
  rw [Decimal.round?_ratio]
  exact x.round?_expansion hn

/-- **The shortest numeral is read back**, whichever way ties are broken: a candidate is taken only if
it is, and the exact expansion if none of them is. -/
theorem reads_shortest (tie : TieRule) (x : Magnitude) : x.Reads (x.shortest tie) := by
  have hvalue := Decimal.value_normal
    (((List.range' 1 17).findSome? (x.withDigits? tie)).getD x.exactDecimal)
  refine (reads_iff_of_value_eq hvalue).2 ?_
  cases h : (List.range' 1 17).findSome? (x.withDigits? tie) with
  | none => exact x.reads_exactDecimal
  | some d =>
    obtain ⟨count, -, hcount⟩ := List.exists_of_findSome?_eq_some h
    exact reads_of_neighbour? hcount

/-! ## Spelling -/

/-- The digits of a fraction with their point; a numeral without a fraction has no point. -/
def pointed : List Char → List Char
  | [] => []
  | c :: cs => '.' :: c :: cs

/-- **Spelt**: digits before the point, and perhaps digits after it, that are read as the
magnitude. -/
structure Spelt (x : Magnitude) (whole fraction : List Char) : Prop where
  whole_ne : whole ≠ []
  whole_digits : ∀ c ∈ whole, c.isDigit = true
  fraction_digits : ∀ c ∈ fraction, c.isDigit = true
  reads : x.Reads ⟨digitsValue (whole ++ fraction), -(fraction.length : Int)⟩

/-- A fraction begins with its point, so the digits in front of it end there. -/
theorem leadingDigits_pointed (fraction : List Char) : leadingDigits (pointed fraction) = [] := by
  cases fraction <;> rfl

/-- Where the exponent is not negative, zeros are added to the digits. -/
theorem spelt_scaled {d : Decimal} (h : x.Reads d) (hexp : 0 ≤ d.exponent) :
    x.Spelt (d.digitText ++ List.replicate d.exponent.natAbs '0') [] where
  whole_ne := by
    intro hnil
    exact Nat.toDigits_ne_nil (List.append_eq_nil_iff.1 hnil).1
  whole_digits := by
    intro c hc
    rcases List.mem_append.1 hc with hc | hc
    · exact isDigit_of_mem_digitText hc
    · exact isDigit_of_mem_zeros hc
  fraction_digits := fun c hc => absurd hc List.not_mem_nil
  reads := by
    refine (reads_iff_of_value_eq ?_).2 h
    rw [List.append_nil, digitsValue_append_zeros]
    have hdigits : digitsValue d.digitText = d.digits := digitsValue_toDigits d.digits
    have hnat : d.exponent = (d.exponent.natAbs : Int) := by omega
    unfold Decimal.value
    rw [hdigits, Nat.cast_mul, Nat.cast_pow]
    show (d.digits : ℚ) * 10 ^ d.exponent.natAbs * 10 ^ (-(0 : Int)) = d.digits * 10 ^ d.exponent
    rw [neg_zero, zpow_zero, mul_one]
    conv => rhs; rw [hnat, zpow_natCast]

/-- Where it is negative, the point is put among digits of which there are enough. -/
theorem spelt_padded {d : Decimal} (h : x.Reads d) (hexp : ¬ 0 ≤ d.exponent) {padded : List Char}
    (hlen : d.exponent.natAbs < padded.length) (hdigits : ∀ c ∈ padded, c.isDigit = true)
    (hvalue : digitsValue padded = d.digits) :
    x.Spelt (padded.take (padded.length - d.exponent.natAbs))
      (padded.drop (padded.length - d.exponent.natAbs)) where
  whole_ne := by
    intro hnil
    have hnone := congrArg List.length hnil
    rw [List.length_take, List.length_nil] at hnone
    omega
  whole_digits := fun c hc => hdigits c (List.mem_of_mem_take hc)
  fraction_digits := fun c hc => hdigits c (List.mem_of_mem_drop hc)
  reads := by
    have hexponent : -((padded.length - (padded.length - d.exponent.natAbs) : Nat) : Int) =
        d.exponent := by omega
    rw [List.take_append_drop, hvalue, List.length_drop, hexponent]
    exact h

/-- **Positional notation is read back.** -/
theorem exists_spelt_positional {d : Decimal} (h : x.Reads d) : ∃ whole fraction,
    (d.positional false).toList = whole ++ pointed fraction ∧ x.Spelt whole fraction := by
  unfold Decimal.positional
  by_cases hexp : 0 ≤ d.exponent
  · rw [if_pos hexp]
    refine ⟨_, [], ?_, spelt_scaled h hexp⟩
    simp [pointed]
  · rw [if_neg hexp]
    -- at least one digit stands before the point
    have hlen : d.exponent.natAbs <
        (List.replicate (d.exponent.natAbs + 1 - d.digitText.length) '0' ++
          d.digitText).length := by
      simp only [List.length_append, List.length_replicate]
      omega
    have hdigits : ∀ c ∈ List.replicate (d.exponent.natAbs + 1 - d.digitText.length) '0' ++
        d.digitText, c.isDigit = true := by
      intro c hc
      rcases List.mem_append.1 hc with hc | hc
      · exact isDigit_of_mem_zeros hc
      · exact isDigit_of_mem_digitText hc
    have hvalue : digitsValue (List.replicate (d.exponent.natAbs + 1 - d.digitText.length) '0' ++
        d.digitText) = d.digits := by
      rw [digitsValue_zeros_append]
      exact digitsValue_toDigits d.digits
    simp only
    generalize List.replicate (d.exponent.natAbs + 1 - d.digitText.length) '0' ++ d.digitText =
      padded at hlen hdigits hvalue ⊢
    refine ⟨_, _, ?_, spelt_padded h hexp hlen hdigits hvalue⟩
    cases hfraction : padded.drop (padded.length - d.exponent.natAbs) with
    | nil =>
      have hnone := congrArg List.length hfraction
      rw [List.length_drop, List.length_nil] at hnone
      omega
    | cons c cs => simp [pointed]

/-- A whole number is spelt by its digits. -/
theorem spelt_whole {n : Nat} (h : x.units = n * unitsPerOne) :
    x.Spelt (Nat.toDigits 10 n) [] where
  whole_ne := Nat.toDigits_ne_nil
  whole_digits := fun c hc => Nat.isDigit_of_mem_toDigits (by decide) (by decide) hc
  fraction_digits := nofun
  reads := by
    unfold Reads
    rw [Decimal.round?_ratio]
    have hfraction : Decimal.fraction ⟨digitsValue (Nat.toDigits 10 n ++ []),
        -(([] : List Char).length : Int)⟩ = (n, 1) := by
      rw [List.append_nil, digitsValue_toDigits]
      unfold Decimal.fraction
      simp
    rw [hfraction]
    exact round?_of_cross Nat.one_pos x (by rw [h, Nat.mul_one])

end Magnitude

/-! ## Numbers -/

namespace Number

/-- The sign in front of a number. -/
def signChars (negative : Bool) : List Char := if negative then ['-'] else []

/-- A finite number equals itself; the one that does not is not finite. -/
theorem same_self_of_isFinite {x : Number} (h : x.isFinite = true) : x.same x = true := by
  cases x with
  | finite negative x => simp [same]
  | infinite | nan => cases h

/-- A whole number is a multiple of one. -/
theorem units_of_whole? {negative : Bool} {m : Magnitude} {n : Int}
    (h : (finite negative m).whole? = some n) :
    ∃ k : Nat, m.units = k * unitsPerOne ∧ n = if negative then -(k : Int) else k := by
  have hwhole : (if m.units % unitsPerOne = 0 ∧ m.units < 1000000000000000 * unitsPerOne then
      some (if negative then -((m.units / unitsPerOne : Nat) : Int)
        else ((m.units / unitsPerOne : Nat) : Int)) else none) = some n := h
  split at hwhole
  · next hdvd =>
    refine ⟨m.units / unitsPerOne, ?_, (Option.some.inj hwhole).symm⟩
    exact (Nat.div_mul_cancel (Nat.dvd_of_mod_eq_zero hdvd.1)).symm
  · cases hwhole

/-- A negative integer is a sign and digits. -/
theorem toList_toString_neg {k : Nat} (hk : k ≠ 0) :
    (toString (-(k : Int))).toList = '-' :: Nat.toDigits 10 k := by
  obtain ⟨j, rfl⟩ := Nat.exists_eq_succ_of_ne_zero hk
  show ("-" ++ Nat.repr (j + 1)).toList = _
  rw [String.toList_append, Nat.toList_repr]
  rfl

/-- Where the format writes positions, the numeral is the positional text. -/
theorem numeral_of_positional {format : Format} {x : Magnitude}
    (h : format.positional (x.shortest format.tie).leadingExponent = true) :
    format.numeral x = (x.shortest format.tie).positional format.pointZero := by
  unfold Format.numeral
  simp only [h, if_true]

/-- The text of a finite number: its sign and its numeral. -/
theorem toList_write {format : Format} (negative : Bool) (x : Magnitude) :
    (format.write (finite negative x)).toList = signChars negative ++ (format.numeral x).toList := by
  unfold Format.write signChars
  rw [String.toList_append]
  split <;> rfl

theorem toList_plain (negative : Bool) (x : Magnitude) : (finite negative x).plain.toList =
    signChars negative ++ ((x.shortest .up).positional false).toList := by
  unfold plain
  rw [toList_write, numeral_of_positional rfl]
  rfl

/-- The text of a whole number; zero has no sign. -/
theorem exists_spelling_of_whole {negative : Bool} {m : Magnitude} {n : Int}
    (h : (finite negative m).whole? = some n) : ∃ negative' whole,
      (toString n).toList = signChars negative' ++ whole ∧ m.Spelt whole [] ∧
        (finite negative m).same (finite negative' m) = true := by
  obtain ⟨k, hunits, rfl⟩ := units_of_whole? h
  have hspelt := Magnitude.spelt_whole hunits
  cases negative with
  | false => exact ⟨false, _, Nat.toList_repr, hspelt, same_self_of_isFinite rfl⟩
  | true =>
    by_cases hk : k = 0
    · subst hk
      rw [Nat.zero_mul] at hunits
      exact ⟨false, _, Nat.toList_repr, hspelt, by simp [same, hunits]⟩
    · refine ⟨true, _, ?_, hspelt, same_self_of_isFinite rfl⟩
      rw [if_pos rfl, toList_toString_neg hk]
      rfl

/-- **The wire text of a finite number**: a sign, and digits that are read as its magnitude.  A
zero of either sign is written without one. -/
theorem exists_spelling {x : Number} (h : x.isFinite = true) : ∃ negative m whole fraction,
    x.text.toList = signChars negative ++ (whole ++ Magnitude.pointed fraction) ∧
      m.Spelt whole fraction ∧ x.same (finite negative m) = true := by
  cases x with
  | infinite | nan => cases h
  | finite negative m =>
    cases hwhole : (finite negative m).whole? with
    | none =>
      obtain ⟨whole, fraction, htext, hspelt⟩ :=
        Magnitude.exists_spelt_positional (m.reads_shortest .up)
      refine ⟨negative, m, whole, fraction, ?_, hspelt, same_self_of_isFinite rfl⟩
      rw [← htext, text, hwhole]
      exact toList_plain negative m
    | some n =>
      obtain ⟨negative', whole, htext, hspelt, hsame⟩ := exists_spelling_of_whole hwhole
      refine ⟨negative', m, whole, [], ?_, hspelt, hsame⟩
      rw [text, hwhole, Magnitude.pointed, List.append_nil]
      exact htext

/-- Digits that spell a magnitude are read as it, with any sign. -/
theorem ofDigits_of_spelt {m : Magnitude} {whole fraction : List Char} (h : m.Spelt whole fraction)
    (negative : Bool) : ofDigits negative whole fraction 0 = finite negative m := by
  unfold ofDigits
  rw [Int.zero_sub]
  exact ofDecimal_of_reads h.reads negative

/-- **A numeral**: digits on at least one side of the point. -/
structure IsNumeral (whole fraction : List Char) : Prop where
  whole_digits : ∀ c ∈ whole, c.isDigit = true
  fraction_digits : ∀ c ∈ fraction, c.isDigit = true
  some_digit : whole ≠ [] ∨ fraction ≠ []

theorem isNumeral_of_spelt {m : Magnitude} {whole fraction : List Char}
    (h : m.Spelt whole fraction) : IsNumeral whole fraction :=
  ⟨h.whole_digits, h.fraction_digits, Or.inl h.whole_ne⟩

/-- A numeral is read as the decimal of its digits. -/
theorem decimal?_of_isNumeral {whole fraction : List Char} (h : IsNumeral whole fraction)
    (negative : Bool) : decimal? negative (whole ++ Magnitude.pointed fraction) =
      some (ofDigits negative whole fraction 0) := by
  unfold decimal?
  have hpoint := Magnitude.leadingDigits_pointed fraction
  simp only [leadingDigits_append h.whole_digits hpoint, pastDigits_append h.whole_digits hpoint]
  have hfraction : fractionDigits (Magnitude.pointed fraction) = fraction := by
    cases fraction with
    | nil => rfl
    | cons c cs => exact leadingDigits_of_digits h.fraction_digits
  have hpast : pastFraction (Magnitude.pointed fraction) = [] := by
    cases fraction with
    | nil => rfl
    | cons c cs => exact pastDigits_of_digits h.fraction_digits
  rw [hfraction, hpast, if_neg (fun hnil => h.some_digit.elim (· hnil.1) (· hnil.2))]
  rfl

theorem toLower_of_isDigit {c : Char} (h : c.isDigit = true) : c.toLower = c := by
  have hupper : ¬ (c.val ≥ 'A'.val ∧ c.val ≤ 'Z'.val) := by
    rintro ⟨hA, -⟩
    simp only [Char.isDigit, Bool.and_eq_true, decide_eq_true_eq] at h
    have h9 := UInt32.le_iff_toNat_le.1 h.2
    have h65 := UInt32.le_iff_toNat_le.1 hA
    have hgap : '9'.val.toNat < 'A'.val.toNat := by decide
    omega
  exact dif_neg hupper

/-- A numeral begins with a digit or with the point. -/
theorem head_of_isNumeral {whole fraction : List Char} (h : IsNumeral whole fraction) :
    ∃ c cs, whole ++ Magnitude.pointed fraction = c :: cs ∧ (c.isDigit = true ∨ c = '.') := by
  cases whole with
  | cons c cs => exact ⟨c, _, rfl, Or.inl (h.whole_digits c List.mem_cons_self)⟩
  | nil =>
    cases fraction with
    | nil => exact absurd rfl (h.some_digit.resolve_left (· rfl))
    | cons d ds => exact ⟨'.', _, rfl, Or.inr rfl⟩

/-- A numeral is not one of the words. -/
theorem unsigned?_of_isNumeral {whole fraction : List Char} (h : IsNumeral whole fraction)
    (negative : Bool) : unsigned? negative (whole ++ Magnitude.pointed fraction) =
      some (ofDigits negative whole fraction 0) := by
  obtain ⟨c, cs, hcs, hc⟩ := head_of_isNumeral h
  have hlower : c.toLower = c := by
    rcases hc with hc | rfl
    · exact toLower_of_isDigit hc
    · rfl
  have hword : ∀ (w : String) (l : Char), w.toList.head? = some l → l.isDigit = false → l ≠ '.' →
      String.ofList ((whole ++ Magnitude.pointed fraction).map Char.toLower) ≠ w := by
    rintro w l hl hdigit hdot rfl
    rw [String.toList_ofList, hcs, List.map_cons, List.head?_cons, Option.some.injEq,
      hlower] at hl
    subst hl
    rcases hc with hc | hc
    · rw [hdigit] at hc
      cases hc
    · exact hdot hc
  unfold unsigned?
  simp only
  rw [if_neg, if_neg (hword "nan" 'n' rfl rfl (by decide))]
  · exact decimal?_of_isNumeral h negative
  · rintro (hw | hw)
    · exact hword "inf" 'i' rfl rfl (by decide) hw
    · exact hword "infinity" 'i' rfl rfl (by decide) hw

/-- **A numeral is read** as the number of its digits. -/
theorem parse?_of_isNumeral {whole fraction : List Char} (h : IsNumeral whole fraction) :
    parse? (String.ofList (whole ++ Magnitude.pointed fraction)) =
      some (ofDigits false whole fraction 0) := by
  obtain ⟨c, cs, hcs, hc⟩ := head_of_isNumeral h
  have hsign : ∀ d, d.isDigit = false → d ≠ '.' → c ≠ d := by
    rintro d hdigit hdot rfl
    rcases hc with hc | hc
    · rw [hdigit] at hc
      cases hc
    · exact hdot hc
  unfold parse?
  rw [String.toList_ofList]
  split
  · next heq =>
    rw [hcs] at heq
    exact absurd (List.cons.inj heq).1 (hsign '-' rfl (by decide))
  · next heq =>
    rw [hcs] at heq
    exact absurd (List.cons.inj heq).1 (hsign '+' rfl (by decide))
  · exact unsigned?_of_isNumeral h false

/-- **A finite number is read back**, up to the sign of a zero. -/
theorem parse?_text {x : Number} (h : x.isFinite = true) :
    ∃ y, parse? x.text = some y ∧ x.same y = true := by
  obtain ⟨negative, m, whole, fraction, htext, hspelt, hsame⟩ := exists_spelling h
  have hnumeral := isNumeral_of_spelt hspelt
  refine ⟨finite negative m, ?_, hsame⟩
  rw [← ofDigits_of_spelt hspelt negative]
  cases negative with
  | true =>
    unfold parse?
    rw [htext]
    exact unsigned?_of_isNumeral hnumeral true
  | false =>
    rw [← parse?_of_isNumeral hnumeral]
    exact congrArg parse? (String.toList_inj.1 (htext.trans String.toList_ofList.symm))

end Number

end AnchorLayout
