import AnchorLayout.Proofs.Clause.ItemList
import AnchorLayout.Proofs.Number.Reread
/-!
# Items are taken for what they write

  1. **Program** — `Animation.items`, and `TimingSoFar.addItem?`, which tells the items apart by
     their content and the times by their order.
  2. **Specification** — `Animation.IsSound` (what has a text that can be read),
     `Animation.written` (the times that are filled in, and the standard timing functions by name),
     `IsEasing` (what is taken for a timing function).
  3. **Items** — each kind of item is one item to the reader, and is taken for what it is; of any
     number as much is read as is written.
  4. **The crux (`exists_fold_items`)** — a delay brings every earlier time with it, so the order of
     the times is the order in which the reader fills them in.
-/

namespace AnchorLayout

open Reading

/-! ## Specifications -/

namespace Animation

/-- **Sound**: finite times and counts, and no timing function that could be taken for another
item. -/
structure IsSound (a : Animation) : Prop where
  times : ∀ x, a.duration = some x ∨ a.startDelay = some x ∨ a.endDelay = some x →
    x.isFinite = true
  counts : ∀ x, a.iterations = some (.count x) → x.isFinite = true
  ease : ∀ text, a.ease = some (.custom text) → IsTimingFunction text

/-- **As written**: with the times that the text fills in, and a standard timing function under its
name. -/
def written (a : Animation) : Animation where
  duration := a.writtenDuration
  ease := a.ease.map fun e => Ease.ofCssName e.cssName
  startDelay := a.writtenStartDelay
  endDelay := a.endDelay
  direction := a.direction
  iterations := a.iterations

end Animation

/-! ## Every kind of item -/

/-- A word by itself is an item: it has no comma and no parenthesis in it. -/
theorem isBare_word {text : String} (h : isName text.toList = true) : IsBare text := by
  refine ⟨_, Lexes.lone_word h, bare_nil.name, List.cons_ne_nil _ _, ?_⟩
  intro p hp
  cases hp
  rfl

/-- A minus sign in front of an item leaves it one; negative times and counts are written so. -/
theorem isBare_minus {text : String} {cs : List Char} {ps : List Piece}
    (htext : text.toList = '-' :: cs) (hlex : Lexes cs ps) (hbare : Bare ps) : IsBare text := by
  refine ⟨_, ?_, hbare.minus, List.cons_ne_nil _ _, ?_⟩
  · rw [htext]
    exact Lexes.sign rfl (by decide) hlex
  · intro p hp
    cases hp
    rfl

/-- **Any number is one item**, and so is a number with its unit. -/
theorem isBare_number (x : Number) {text : String} {unit : List Char}
    (htext : text.toList = x.text.toList ++ unit) (hunit : unit = [] ∨ unit = ['s']) :
    IsBare text := by
  -- a word with the unit behind it is a word
  have hword : ∀ word : String, isName word.toList = true →
      isName (word.toList ++ unit) = true := by
    intro word hname
    rcases hunit with rfl | rfl
    · rwa [List.append_nil]
    · cases hcs : word.toList with
      | nil => rw [hcs] at hname; cases hname
      | cons c cs =>
        rw [hcs] at hname
        simp only [isName, Bool.and_eq_true, List.all_eq_true, List.cons_append,
          List.mem_append, List.mem_singleton] at hname ⊢
        refine ⟨hname.1, ?_⟩
        rintro d (hd | rfl)
        · exact hname.2 d hd
        · decide
  cases x with
  | finite negative m =>
    obtain ⟨negative, m, whole, fraction, hspelling, hspelt, -⟩ :=
      Number.exists_spelling (x := .finite negative m) rfl
    obtain ⟨qs, hlex, hbare⟩ : ∃ qs, Lexes unit qs ∧ Bare qs := by
      rcases hunit with rfl | rfl
      · exact ⟨[], Lexes.done, bare_nil⟩
      · exact ⟨_, Lexes.lone_word (by decide), bare_nil.name⟩
    have hends : ∀ c, unit.head? = some c → c.isDigit = false ∧ c ≠ '.' := by
      rcases hunit with rfl | rfl
      · intro c hc
        cases hc
      · intro c hc
        cases hc
        decide
    have hnumber := Lexes.number hspelt hends hlex
    rw [hspelling, List.append_assoc] at htext
    cases negative with
    | false =>
      refine ⟨_, htext ▸ hnumber, hbare.number, List.cons_ne_nil _ _, ?_⟩
      intro p hp
      cases hp
      rfl
    | true => exact isBare_minus htext hnumber hbare.number
  | infinite negative =>
    cases negative with
    | false => exact isBare_word (htext ▸ hword "inf" (by decide))
    | true => exact isBare_minus htext (Lexes.lone_word (hword "inf" (by decide))) bare_nil.name
  | nan => exact isBare_word (htext ▸ hword "NaN" (by decide))

/-- A time is written as its number with an `s` behind it. -/
theorem toList_timeText (x : Number) : (Animation.timeText x).toList = x.text.toList ++ ['s'] := by
  unfold Animation.timeText
  rw [String.toList_append]
  rfl

/-- A time is one item, since its number is. -/
theorem isBare_timeText (x : Number) : IsBare (Animation.timeText x) :=
  isBare_number x (toList_timeText x) (Or.inr rfl)

/-- **A hyphen cuts a name**: `ease-in` is a name, a minus sign and a name, which is why an item is
read from the text of its tokens and not from the tokens. -/
theorem lexes_hyphenated {cs rest : List Char} {qs : List Piece} (hcs : isName cs = true)
    (h : Lexes rest qs) :
    Lexes (cs ++ '-' :: rest) (Piece.ofName cs :: Piece.ofSign .minus '-' :: qs) :=
  (Lexes.lone_word hcs).append rfl (by decide) h

/-- What has to be checked of the text of a custom timing function; for a given one all of it is
decided. -/
theorem isTimingFunction_of_lexes {text : String} {ps : List Piece} (hlex : Lexes text.toList ps)
    (h : text ≠ "" ∧ trimBlank text = text ∧ isUnmarked text.toList = true ∧
      isEnclosed 0 text.toList = true ∧ Number.parse? text = none ∧ seconds? text = none ∧
        Direction.ofCssName? text = none) : IsTimingFunction text := by
  obtain ⟨tokens, htokens, -⟩ := tokens_of_lexes hlex 0
  obtain ⟨hne, htrimmed, hunmarked, henclosed, hnumber, htime, hdirection⟩ := h
  exact ⟨hne, ⟨tokens, htokens⟩, htrimmed, hunmarked, henclosed, hnumber, htime, hdirection⟩

/-- The names of the standard timing functions are timing functions too. -/
theorem isTimingFunction_cssName {e : Ease} (h : ∀ text, e = .custom text → IsTimingFunction text) :
    IsTimingFunction e.cssName := by
  have hin : Lexes "in".toList [Piece.ofName "in".toList] := Lexes.lone_word (by decide)
  have hout : Lexes "out".toList [Piece.ofName "out".toList] := Lexes.lone_word (by decide)
  have hease : isName "ease".toList = true := by decide
  cases e with
  | custom text => exact h text rfl
  | linear => exact isTimingFunction_of_lexes (Lexes.lone_word (by decide)) (by decide)
  | ease => exact isTimingFunction_of_lexes (Lexes.lone_word hease) (by decide)
  | easeIn => exact isTimingFunction_of_lexes (lexes_hyphenated hease hin) (by decide)
  | easeOut => exact isTimingFunction_of_lexes (lexes_hyphenated hease hout) (by decide)
  | easeInOut =>
    have hinOut : Lexes ("in".toList ++ '-' :: "out".toList) _ :=
      lexes_hyphenated (by decide) hout
    exact isTimingFunction_of_lexes (lexes_hyphenated hease hinOut) (by decide)

/-- Every direction is one item, the hyphenated ones too. -/
theorem isBare_direction (d : Direction) : IsBare d.cssName := by
  cases d with
  | normal | reverse | alternate => exact isBare_word (by decide)
  | alternateReverse =>
    have hreverse : Lexes "reverse".toList [Piece.ofName "reverse".toList] :=
      Lexes.lone_word (by decide)
    have hlex : Lexes ("alternate".toList ++ '-' :: "reverse".toList) _ :=
      lexes_hyphenated (by decide) hreverse
    refine ⟨_, hlex, bare_nil.name.minus.name, List.cons_ne_nil _ _, ?_⟩
    intro p hp
    cases hp
    rfl

/-- A count is one item, and so is the word for no end. -/
theorem isBare_iterations (i : Iterations) : IsBare i.text := by
  cases i with
  | infinite => exact isBare_word (by decide)
  | count x => exact isBare_number x (List.append_nil _).symm (Or.inl rfl)

/-! ## What an item is taken for -/

/-- **Taken for a timing function**: neither a number nor a time nor a direction. -/
structure IsEasing (text : String) : Prop where
  no_number : Number.parse? text = none
  no_time : seconds? text = none
  no_direction : Direction.ofCssName? text = none

/-- A sound timing function is one that the text can carry. -/
theorem IsTimingFunction.isEasing {text : String} (h : IsTimingFunction text) : IsEasing text :=
  ⟨h.no_number, h.no_time, h.no_direction⟩

namespace Reading.TimingSoFar

variable {text : String} (t : TimingSoFar)

/-- **A time is read as the time it is**: a duration or a delay, by how many times came before.  The
number that is read is written alike, and is the same one if it is finite. -/
theorem addItem?_time (x : Number) :
    ∃ y, y.text = x.text ∧ (x.isFinite = true → x.same y = true) ∧
      ∀ t : TimingSoFar, t.addItem? (Animation.timeText x) = t.addTime? y := by
  obtain ⟨y, hparse, htext, hsame⟩ := x.exists_reread
  refine ⟨y, htext, hsame, fun t => ?_⟩
  have hseconds : seconds? (Animation.timeText x) = some y := by
    unfold seconds?
    rw [toList_timeText, List.getLast?_concat, if_pos rfl, List.dropLast_concat,
      String.ofList_toList, hparse]
  unfold addItem?
  rw [hseconds]

/-- Whatever is nothing else is a timing function. -/
theorem addItem?_ease (h : IsEasing text) : t.addItem? text =
    some { t with animation := { t.animation with ease := some (.ofCssName text) } } := by
  have hinf : text ≠ "inf" := by
    rintro rfl
    have hnumber := h.no_number
    revert hnumber
    decide
  unfold addItem?
  rw [h.no_time, h.no_number, h.no_direction]
  exact if_neg hinf

/-- A direction is told from a timing function by its name. -/
theorem addItem?_direction (d : Direction) : t.addItem? d.cssName =
    some { t with animation := { t.animation with direction := some d } } := by
  cases d <;> rfl

/-- A number is no time, because it does not end in `s`. -/
theorem seconds?_text (x : Number) : seconds? x.text = none := by
  cases hx : x.isFinite with
  | false =>
    cases x with
    | finite => cases hx
    | infinite negative => cases negative <;> decide
    | nan => decide
  | true =>
    obtain ⟨negative, m, whole, fraction, htext, hspelt, -⟩ := Number.exists_spelling hx
    refine if_neg fun hlast => ?_
    have hmem : 's' ∈ x.text.toList := List.mem_of_getLast? hlast
    rw [htext] at hmem
    -- no sign, digit or point is the unit of seconds
    rcases List.mem_append.1 hmem with hmem | hmem
    · cases negative with
      | false => exact absurd hmem List.not_mem_nil
      | true => exact absurd (List.mem_singleton.1 hmem) (by decide)
    · rcases List.mem_append.1 hmem with hmem | hmem
      · exact absurd (hspelt.whole_digits _ hmem) (by decide)
      · cases fraction with
        | nil => exact absurd hmem List.not_mem_nil
        | cons c cs =>
          rcases List.mem_cons.1 hmem with hpoint | hmem
          · exact absurd hpoint (by decide)
          · exact absurd (hspelt.fraction_digits _ hmem) (by decide)

/-- A count is told from a time because it does not end in `s`, and from a timing function because
it is a number. -/
theorem addItem?_iterations (i : Iterations) :
    ∃ j, j.text = i.text ∧ ((∀ x, i = .count x → x.isFinite = true) → i.same j = true) ∧
      ∀ t : TimingSoFar, t.addItem? i.text =
        some { t with animation := { t.animation with iterations := some j } } := by
  cases i with
  | infinite => exact ⟨.infinite, rfl, fun _ => rfl, fun _ => rfl⟩
  | count x =>
    obtain ⟨y, hparse, htext, hsame⟩ := x.exists_reread
    by_cases hinf : x.text = "inf"
    · -- a count without end is read as the word for it
      have hword : Number.parse? "inf" = some (.infinite false) := by decide
      rw [hinf, hword] at hparse
      cases hparse
      refine ⟨.infinite, hinf.symm, fun hfinite => ?_, fun t => congrArg t.addItem? hinf⟩
      have hx := hsame (hfinite x rfl)
      cases x with
      | finite | nan => cases hx
      | infinite => cases hfinite _ rfl
    · refine ⟨.count y, htext, fun hfinite => hsame (hfinite x rfl), fun t => ?_⟩
      show t.addItem? x.text = _
      unfold addItem?
      rw [seconds?_text x, hparse]
      exact if_neg hinf

end Reading.TimingSoFar

/-! ## All items of a timing -/

namespace Animation

variable {a : Animation}

/-- The times that the text fills in are finite if the own ones are, so a sound timing is written
soundly. -/
theorem isFinite_writtenStartDelay (h : a.IsSound) :
    ∀ x, a.writtenStartDelay = some x → x.isFinite = true := by
  intro x hx
  unfold writtenStartDelay at hx
  cases hstart : a.startDelay with
  | some y =>
    rw [hstart] at hx
    cases hx
    exact h.times x (Or.inr (Or.inl hstart))
  | none =>
    rw [hstart] at hx
    cases hend : a.endDelay with
    | none => rw [hend] at hx; cases hx
    | some y =>
      rw [hend] at hx
      have hzero : Number.zero = x := Option.some.inj hx
      rw [← hzero]
      rfl

theorem isFinite_defaultDuration : defaultDuration.isFinite = true := by decide +kernel

theorem isFinite_writtenDuration (h : a.IsSound) :
    ∀ x, a.writtenDuration = some x → x.isFinite = true := by
  intro x hx
  unfold writtenDuration at hx
  cases hduration : a.duration with
  | some y =>
    rw [hduration] at hx
    cases hx
    exact h.times x (Or.inl hduration)
  | none =>
    rw [hduration] at hx
    cases hstart : a.writtenStartDelay with
    | none => rw [hstart] at hx; cases hx
    | some y =>
      rw [hstart] at hx
      have hdefault : defaultDuration = x := Option.some.inj hx
      rw [← hdefault]
      exact isFinite_defaultDuration

/-- **A delay brings every earlier time with it.** -/
theorem isSome_writtenStartDelay (h : a.endDelay.isSome = true) :
    a.writtenStartDelay.isSome = true := by
  unfold writtenStartDelay
  cases a.startDelay <;> cases hend : a.endDelay <;> simp_all

/-- A duration is written wherever a delay is, because times are told apart by their order only. -/
theorem isSome_writtenDuration (h : a.writtenStartDelay.isSome = true) :
    a.writtenDuration.isSome = true := by
  unfold writtenDuration
  cases a.duration <;> cases hstart : a.writtenStartDelay <;> simp_all

/-- A timing that has the earlier times of its delays is written with its own times. -/
theorem writtenStartDelay_eq (h : a.endDelay.isSome = true → a.startDelay.isSome = true) :
    a.writtenStartDelay = a.startDelay := by
  unfold writtenStartDelay
  cases hstart : a.startDelay <;> cases hend : a.endDelay <;> simp_all

/-- The duration in its turn is the own one where there is one. -/
theorem writtenDuration_eq (h : a.writtenStartDelay.isSome = true → a.duration.isSome = true) :
    a.writtenDuration = a.duration := by
  unfold writtenDuration
  cases hduration : a.duration <;> cases hstart : a.writtenStartDelay <;> simp_all

/-- The timing function of a sound timing can be told from other items, be it a standard one or
not. -/
theorem isTimingFunction_of_ease (h : a.IsSound) {e : Ease} (he : a.ease = some e) :
    IsTimingFunction e.cssName :=
  isTimingFunction_cssName fun text htext => h.ease text (htext ▸ he)

/-- The items behind the timing function. -/
def laterItems (a : Animation) : List String :=
  (a.direction.map Direction.cssName).toList ++ (a.writtenStartDelay.map timeText).toList ++
    (a.endDelay.map timeText).toList ++ (a.iterations.map Iterations.text).toList

/-- **The items in three parts**: the duration, the timing function, and what comes behind it. -/
theorem items_eq (a : Animation) : a.items = (a.writtenDuration.map timeText).toList ++
    ((a.ease.map Ease.cssName).toList ++ a.laterItems) := by
  simp only [items, laterItems, List.append_assoc]

/-- Only a timing function can be more than one word or number; everything behind it is bare. -/
theorem isBare_of_mem_laterItems : ∀ text ∈ a.laterItems, IsBare text := by
  intro text h
  simp only [laterItems, List.mem_append, Option.mem_toList, Option.map_eq_some_iff] at h
  rcases h with ((h | h) | h) | h
  · obtain ⟨d, -, rfl⟩ := h
    exact isBare_direction d
  · obtain ⟨x, -, rfl⟩ := h
    exact isBare_timeText x
  · obtain ⟨x, -, rfl⟩ := h
    exact isBare_timeText x
  · obtain ⟨i, -, rfl⟩ := h
    exact isBare_iterations i

end Animation

/-- The times of a timing are read in their order. -/
theorem exists_fold_time (o : Option Number) :
    ∃ o', o'.map Animation.timeText = o.map Animation.timeText ∧
      ((∀ x, o = some x → x.isFinite = true) → sameOption Number.same o o' = true) ∧
      ∀ t : TimingSoFar, (o.map Animation.timeText).toList.foldlM TimingSoFar.addItem? t =
        o'.toList.foldlM TimingSoFar.addTime? t := by
  cases o with
  | none => exact ⟨none, rfl, fun _ => rfl, fun _ => rfl⟩
  | some x =>
    obtain ⟨y, htext, hsame, hread⟩ := TimingSoFar.addItem?_time x
    refine ⟨some y, congrArg (fun text => some (text ++ "s")) htext,
      fun hfinite => hsame (hfinite x rfl), fun t => ?_⟩
    show (t.addItem? (Animation.timeText x) >>= pure) = (t.addTime? y >>= pure)
    rw [hread]

/-- A timing function that is missing is not written, and then nothing is read for it. -/
theorem fold_ease {o : Option Ease} (h : ∀ e, o = some e → IsEasing e.cssName)
    (t : TimingSoFar) : (o.map Ease.cssName).toList.foldlM TimingSoFar.addItem? t =
      some { t with animation := { t.animation with
        ease := (o.map fun e => Ease.ofCssName e.cssName).or t.animation.ease } } := by
  cases o with
  | none => rfl
  | some e =>
    show (t.addItem? e.cssName >>= pure) = _
    rw [t.addItem?_ease (h e rfl)]
    rfl

/-- The same for the direction. -/
theorem fold_direction (o : Option Direction) (t : TimingSoFar) :
    (o.map Direction.cssName).toList.foldlM TimingSoFar.addItem? t =
      some { t with animation := { t.animation with
        direction := o.or t.animation.direction } } := by
  cases o with
  | none => rfl
  | some d =>
    show (t.addItem? d.cssName >>= pure) = _
    rw [t.addItem?_direction d]
    rfl

/-- The same for the count, up to how the number in it is written. -/
theorem exists_fold_iterations (o : Option Iterations) :
    ∃ o', o'.map Iterations.text = o.map Iterations.text ∧
      ((∀ x, o = some (.count x) → x.isFinite = true) →
        sameOption Iterations.same o o' = true) ∧
      ∀ t : TimingSoFar, (o.map Iterations.text).toList.foldlM TimingSoFar.addItem? t =
        some { t with animation := { t.animation with
          iterations := o'.or t.animation.iterations } } := by
  cases o with
  | none => exact ⟨none, rfl, fun _ => rfl, fun _ => rfl⟩
  | some i =>
    obtain ⟨j, htext, hsame, hread⟩ := TimingSoFar.addItem?_iterations i
    refine ⟨some j, congrArg some htext,
      fun hfinite => hsame fun x hx => hfinite x (congrArg some hx), fun t => ?_⟩
    show (t.addItem? i.text >>= pure) = _
    rw [hread]
    rfl

/-- **All items together** are read as a timing that is written alike, and as the one that they
write if it is sound. -/
theorem exists_fold_items {a : Animation} (h : ∀ e, a.ease = some e → IsEasing e.cssName) :
    ∃ a' n, a'.items = a.items ∧ (a.IsSound → a.written.same a' = true) ∧
      a.items.foldlM TimingSoFar.addItem? ⟨∅, 0⟩ = some ⟨a', n⟩ := by
  obtain ⟨duration, htextd, hsamed, hd⟩ := exists_fold_time a.writtenDuration
  obtain ⟨startDelay, htexts, hsames, hs⟩ := exists_fold_time a.writtenStartDelay
  obtain ⟨endDelay, htexte, hsamee, he⟩ := exists_fold_time a.endDelay
  obtain ⟨iterations, htexti, hsamei, hi⟩ := exists_fold_iterations a.iterations
  have hease := fold_ease h
  have hends := Animation.isSome_writtenStartDelay (a := a)
  have hstarts := Animation.isSome_writtenDuration (a := a)
  have hsomed : duration.isSome = a.writtenDuration.isSome := by
    simpa using congrArg Option.isSome htextd
  have hsomes : startDelay.isSome = a.writtenStartDelay.isSome := by
    simpa using congrArg Option.isSome htexts
  have hsomee : endDelay.isSome = a.endDelay.isSome := by
    simpa using congrArg Option.isSome htexte
  rw [← hsomee, ← hsomes] at hends
  rw [← hsomes, ← hsomed] at hstarts
  refine ⟨⟨duration, a.ease.map fun e => Ease.ofCssName e.cssName, startDelay, endDelay,
    a.direction, iterations⟩,
    duration.toList.length + startDelay.toList.length + endDelay.toList.length, ?_, ?_, ?_⟩
  · unfold Animation.items
    rw [Animation.writtenDuration_eq, Animation.writtenStartDelay_eq hends]
    · simp only [htextd, htexts, htexte, htexti, Option.map_map]
      simp only [Function.comp_def, Ease.cssName_ofCssName]
    · rw [Animation.writtenStartDelay_eq hends]
      exact hstarts
  · intro hsound
    simp only [Animation.same, Animation.written, hsamed (Animation.isFinite_writtenDuration hsound),
      hsames (Animation.isFinite_writtenStartDelay hsound),
      hsamee fun x hx => hsound.times x (Or.inr (Or.inr hx)), hsamei hsound.counts,
      beq_self_eq_true, Bool.and_self]
  · have hempty : (∅ : Animation) = ⟨none, none, none, none, none, none⟩ := rfl
    simp only [Animation.items, List.foldlM_append, hd, hs, he, hi, hease, fold_direction, hempty]
    -- of the eight shapes four have no gap before their last time
    cases duration with
    | none =>
      cases startDelay with
      | some y => cases hstarts rfl
      | none =>
        cases endDelay with
        | some z => cases hends rfl
        | none => simp
    | some x =>
      cases startDelay with
      | none =>
        cases endDelay with
        | some z => cases hends rfl
        | none => simp [TimingSoFar.addTime?]
      | some y => cases endDelay <;> simp [TimingSoFar.addTime?]

end AnchorLayout
