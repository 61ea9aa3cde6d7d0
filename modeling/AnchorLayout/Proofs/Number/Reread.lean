import AnchorLayout.Proofs.Number.Numeral
import Mathlib.Data.List.TakeWhile
/-!
# Numbers are written alike once read

  1. **Program** — `Number.text` writes a number, `Number.parse?` reads one.
  2. **Specification** — a number need not be what it was read from, as `nan` is not: `Number.text`
     of both is what agrees.
  3. **Characters (`leftParen_notMem_of_parse?`)** — no parenthesis is in a number.
  4. **The crux (`text_eq_of_same`)** — a zero is written without its sign, so numbers of one value
     have one text.
-/

namespace AnchorLayout

namespace Number

/-! ## Values and texts -/

/-- **Equal numbers are written alike**, the two zeros included. -/
theorem text_eq_of_same {x y : Number} (h : x.same y = true) : x.text = y.text := by
  cases x with
  | finite negative a =>
    cases y with
    | finite negative' b =>
      simp only [same, Bool.and_eq_true, beq_iff_eq, Bool.or_eq_true] at h
      obtain ⟨hunits, hsign⟩ := h
      obtain rfl := Magnitude.ext hunits
      rcases hsign with rfl | hzero
      · rfl
      · have hwhole : ∀ negative, (finite negative a).whole? = some 0 := by
          intro negative
          cases negative <;> simp [whole?, hzero, unitsPerOne_pos]
        rw [text, text, hwhole, hwhole]
    | infinite | nan => cases h
  | infinite negative =>
    cases y with
    | infinite negative' => rw [beq_iff_eq.1 h]
    | finite | nan => cases h
  | nan => cases y <;> cases h

/-- **Any number is read again from its text** as one of the same text; a finite one is read as its
value. -/
theorem exists_reread (x : Number) : ∃ y, parse? x.text = some y ∧ y.text = x.text ∧
    (x.isFinite = true → x.same y = true) := by
  cases x with
  | finite negative a =>
    obtain ⟨y, hparse, hsame⟩ := parse?_text (x := finite negative a) rfl
    exact ⟨y, hparse, (text_eq_of_same hsame).symm, fun _ => hsame⟩
  | infinite negative =>
    refine ⟨infinite negative, ?_, rfl, fun h => absurd h Bool.false_ne_true⟩
    cases negative <;> decide
  | nan => exact ⟨nan, by decide, rfl, fun h => absurd h Bool.false_ne_true⟩

/-! ## Characters of a number -/

section

variable {cs : List Char}

theorem leftParen_notMem_of_digits (h : ∀ c ∈ cs, c.isDigit = true) : '(' ∉ cs := fun hmem =>
  absurd (h '(' hmem) (by decide)

theorem leftParen_notMem_of_natural? {n : Nat} (h : natural? cs = some n) : '(' ∉ cs := by
  unfold natural? at h
  split at h
  · next hdigits => exact leftParen_notMem_of_digits (List.all_eq_true.1 hdigits.2)
  · cases h

/-- The parts of a number, from the inside out: digits, an exponent, a decimal, a number without its
sign. -/
theorem leftParen_notMem_of_exponent? {e : Int} (h : exponent? cs = some e) : '(' ∉ cs := by
  have hdigits : ∀ digits, natural? digits ≠ none → '(' ∉ digits := fun digits hsome => by
    obtain ⟨n, hn⟩ := Option.ne_none_iff_exists'.1 hsome
    exact leftParen_notMem_of_natural? hn
  unfold exponent? at h
  split at h
  · exact List.not_mem_nil
  · next mark rest =>
    split at h
    · next hmark =>
      have hrest : '(' ∉ rest := by
        split at h
        · next digits =>
          simpa using hdigits digits fun hnone => by simp [hnone] at h
        · next digits =>
          simpa using hdigits digits fun hnone => by simp [hnone] at h
        · exact hdigits rest fun hnone => by simp [hnone] at h
      rcases hmark with rfl | rfl <;> simpa using hrest
    · cases h

theorem leftParen_notMem_of_decimal? {negative : Bool} {x : Number}
    (h : decimal? negative cs = some x) : '(' ∉ cs := by
  have hleading : ∀ cs, '(' ∉ leadingDigits cs := fun cs =>
    leftParen_notMem_of_digits fun _ hc => List.mem_takeWhile_imp hc
  unfold decimal? at h
  simp only at h
  split at h
  · cases h
  · obtain ⟨e, hexponent, -⟩ := Option.map_eq_some_iff.1 h
    have hpast := leftParen_notMem_of_exponent? hexponent
    rw [← leadingDigits_append_pastDigits cs, List.mem_append]
    rintro (hmem | hmem)
    · exact hleading cs hmem
    · -- behind the digits there is a point with its digits, or the exponent
      generalize pastDigits cs = rest at hpast hmem
      unfold pastFraction at hpast
      split at hpast
      · next rest =>
        rw [List.mem_cons, ← leadingDigits_append_pastDigits rest, List.mem_append] at hmem
        rcases hmem with hmem | hmem | hmem
        · exact absurd hmem (by decide)
        · exact hleading rest hmem
        · exact hpast hmem
      · exact hpast hmem

theorem leftParen_notMem_of_unsigned? {negative : Bool} {x : Number}
    (h : unsigned? negative cs = some x) : '(' ∉ cs := by
  have hword : ∀ word : String, '(' ∉ word.toList → String.ofList (cs.map Char.toLower) = word →
      '(' ∉ cs := by
    rintro word hnot rfl hmem
    rw [String.toList_ofList] at hnot
    exact hnot (List.mem_map.2 ⟨'(', hmem, rfl⟩)
  unfold unsigned? at h
  simp only at h
  split at h
  · next hinf =>
    rcases hinf with hinf | hinf
    · exact hword _ (by decide) hinf
    · exact hword _ (by decide) hinf
  · split at h
    · next hnan => exact hword _ (by decide) hnan
    · exact leftParen_notMem_of_decimal? h

end

/-- **No parenthesis is in a number.** -/
theorem leftParen_notMem_of_parse? {text : String} {x : Number} (h : parse? text = some x) :
    '(' ∉ text.toList := by
  unfold parse? at h
  split at h
  · next rest heq =>
    rw [heq]
    simpa using leftParen_notMem_of_unsigned? h
  · next rest heq =>
    rw [heq]
    simpa using leftParen_notMem_of_unsigned? h
  · exact leftParen_notMem_of_unsigned? h

end Number

end AnchorLayout
