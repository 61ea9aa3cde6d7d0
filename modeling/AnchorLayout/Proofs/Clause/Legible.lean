import AnchorLayout.Proofs.Clause.Timing
/-!
# Timings are read back

  1. **Program** — `Animation.text` writes a timing, `timing` reads one.
  2. **Specification** — `Animation.IsLegible`: the timing function is an item, perhaps one that
     leaves a parenthesis open; such a timing is read as one of the same text.
  3. **Closed (`exists_spelt_closed`)** — what is written is read item by item, and a sound timing
     is read as it was written.
  4. **The crux (`exists_spelt_open`)** — behind an open parenthesis everything is read as one
     function, which is no longer the timing that was written, but is written as the same text.
-/

namespace AnchorLayout

open Reading

/-! ## Specification -/

/-- **Legible**: the timing function, if there is one, is an item, perhaps left open, and is taken
for what it is. -/
def Animation.IsLegible (guarded : Bool) (a : Animation) : Prop :=
  ∀ e, a.ease = some e → IsEasing e.cssName ∧ ∃ ps depth, ReadsItem guarded e.cssName ps depth

/-- A sound timing has a function that is closed, which is an item. -/
theorem Animation.IsSound.isLegible {a : Animation} (h : a.IsSound) (guarded : Bool) :
    a.IsLegible guarded := by
  intro e he
  have htiming := Animation.isTimingFunction_of_ease h he
  obtain ⟨ps, hitem⟩ := readsItem_of_isTimingFunction guarded htiming
  exact ⟨htiming.isEasing, ps, 0, hitem⟩

section

variable {guarded : Bool} {a : Animation}

/-! ## Functions that are closed -/

/-- A timing whose function leaves no parenthesis open is read item by item. -/
theorem exists_spelt_closed (heasing : ∀ e, a.ease = some e → IsEasing e.cssName)
    (hclosed : ∀ e, a.ease = some e → ∃ ps, ReadsItem guarded e.cssName ps 0) (hne : a.items ≠ []) :
    ∃ a' ps, a'.text = a.text ∧ (a.IsSound → a.written.same a' = true) ∧
      SpellsTiming guarded a.text a' ps := by
  have hitems : ∀ text ∈ a.items, ∃ ps, ReadsItem guarded text ps 0 := by
    have hbare : ∀ text, IsBare text → ∃ ps, ReadsItem guarded text ps 0 := fun text h => by
      obtain ⟨ps, hitem, -⟩ := h.exists_readsItem guarded
      exact ⟨ps, hitem⟩
    intro text htext
    rw [a.items_eq] at htext
    simp only [List.mem_append, Option.mem_toList, Option.map_eq_some_iff] at htext
    rcases htext with ⟨x, -, rfl⟩ | ⟨e, he, rfl⟩ | htext
    · exact hbare _ (isBare_timeText x)
    · exact hclosed e he
    · exact hbare text (Animation.isBare_of_mem_laterItems text htext)
  obtain ⟨ps, hare⟩ := exists_areItems hne hitems
  obtain ⟨a', n, htext, hsame, hfold⟩ := exists_fold_items heasing
  exact ⟨a', ps, congrArg (",".intercalate ·) htext, hsame, hare.spellsTiming hfold⟩

/-! ## Functions that are left open -/

/-- A text with a parenthesis is neither a time nor a direction, so it is taken for a function. -/
theorem leftParen_notMem_of_seconds? {text : String} {x : Number} (h : seconds? text = some x) :
    '(' ∉ text.toList := by
  unfold seconds? at h
  split at h
  · next hlast =>
    have hnot := Number.leftParen_notMem_of_parse? h
    obtain ⟨front, hfront⟩ := List.getLast?_eq_some_iff.1 hlast
    rw [String.toList_ofList, hfront, List.dropLast_concat] at hnot
    rw [hfront, List.mem_append, List.mem_singleton]
    exact not_or.2 ⟨hnot, by decide⟩
  · cases h

theorem leftParen_notMem_of_ofCssName? {text : String} {d : Direction}
    (h : Direction.ofCssName? text = some d) : '(' ∉ text.toList := by
  have hname : d.cssName = text := by
    unfold Direction.ofCssName? at h
    simpa using List.find?_some h
  rw [← hname]
  cases d <;> decide

/-- A text in which a parenthesis stands is taken for a timing function. -/
theorem isEasing_of_leftParen {text : String} (h : '(' ∈ text.toList) : IsEasing text where
  no_number := Option.eq_none_iff_forall_not_mem.2 fun _ hx =>
    Number.leftParen_notMem_of_parse? hx h
  no_time := Option.eq_none_iff_forall_not_mem.2 fun _ hx => leftParen_notMem_of_seconds? hx h
  no_direction := Option.eq_none_iff_forall_not_mem.2 fun _ hd =>
    leftParen_notMem_of_ofCssName? hd h

/-- A timing whose function leaves a parenthesis open is read as that function and what stands
behind it. -/
theorem exists_spelt_open {e : Ease} (he : a.ease = some e) {ps : List Piece} {depth : Nat}
    (hitem : ReadsItem guarded e.cssName ps depth) (hopen : depth ≠ 0) :
    ∃ a' qs, a'.text = a.text ∧ SpellsTiming guarded a.text a' qs := by
  obtain ⟨qs, hjoined⟩ := hitem.extend hopen a.isBare_of_mem_laterItems
  have heasing := isEasing_of_leftParen (hjoined.leftParen_mem hopen)
  generalize hfunction : ",".intercalate (e.cssName :: a.laterItems) = function at hjoined heasing
  have hitems : a.items = (a.writtenDuration.map Animation.timeText).toList ++
      e.cssName :: a.laterItems := by
    rw [a.items_eq, he]
    rfl
  -- only the duration stands before the function
  have htext : a.text = ",".intercalate
      ((a.writtenDuration.map Animation.timeText).toList ++ [function]) := by
    unfold Animation.text
    rw [hitems, ← hfunction]
    cases a.writtenDuration <;>
      simp [String.intercalate_cons_of_ne_nil, String.intercalate_singleton]
  obtain ⟨o, htime, -, hfold⟩ := exists_fold_time a.writtenDuration
  obtain ⟨rs, hare⟩ : ∃ rs, AreItems guarded
      ((a.writtenDuration.map Animation.timeText).toList ++ [function]) rs := by
    cases a.writtenDuration with
    | none => exact ⟨qs, .last hjoined⟩
    | some x =>
      obtain ⟨ts, hduration, -⟩ := (isBare_timeText x).exists_readsItem guarded
      exact ⟨_, .cons hduration (.last hjoined)⟩
  have hread : ((a.writtenDuration.map Animation.timeText).toList ++ [function]).foldlM
      TimingSoFar.addItem? ⟨∅, 0⟩ =
        some ⟨⟨o, some (.ofCssName function), none, none, none, none⟩, o.toList.length⟩ := by
    have hempty : (∅ : Animation) = ⟨none, none, none, none, none, none⟩ := rfl
    rw [List.foldlM_append, hfold, hempty]
    cases o <;> simp [TimingSoFar.addTime?, TimingSoFar.addItem?_ease _ heasing]
  refine ⟨_, rs, ?_, htext ▸ hare.spellsTiming hread⟩
  rw [htext, ← htime]
  simp [Animation.text, Animation.items, Animation.writtenDuration, Animation.writtenStartDelay,
    Ease.cssName_ofCssName]

/-! ## All legible timings -/

/-- **Any legible timing is read back** as one that is written alike, and a sound one as it was
written, unless there is nothing to write. -/
theorem exists_spelt_timing (h : a.IsLegible guarded) (hne : a.items ≠ []) :
    ∃ a' ps, a'.text = a.text ∧ (a.IsSound → a.written.same a' = true) ∧
      SpellsTiming guarded a.text a' ps := by
  by_cases hclosed : ∀ e, a.ease = some e → ∃ ps, ReadsItem guarded e.cssName ps 0
  · exact exists_spelt_closed (fun e he => (h e he).1) hclosed hne
  · push Not at hclosed
    obtain ⟨e, he, hnone⟩ := hclosed
    obtain ⟨-, ps, depth, hitem⟩ := h e he
    have hopen : depth ≠ 0 := by
      rintro rfl
      exact hnone ps hitem
    obtain ⟨a', qs, htext, hspelt⟩ := exists_spelt_open he hitem hopen
    refine ⟨a', qs, htext, fun hsound => ?_, hspelt⟩
    obtain ⟨rs, hrs⟩ :=
      readsItem_of_isTimingFunction guarded (Animation.isTimingFunction_of_ease hsound he)
    exact absurd hrs (hnone rs)

end

end AnchorLayout
