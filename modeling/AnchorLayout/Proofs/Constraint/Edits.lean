import AnchorLayout.Proofs.Constraint.Orderly
/-!
# The rules of a view over its life

  The rules of a view change by assignments, by clearing an attribute, by releasing the view and by
  renaming anchors.

  1. **Program** — `ConstraintStore.edit`, one change of a store, and `afterEdits`, a run of them.
  2. **Specification** — `history`, the rules in the order in which they were written, and
     `Assignment.Leaves`, what one more assignment does.
  3. **Run lemma (`holds_afterEdits`)** — the store is orderly and holds what was written.
-/

namespace AnchorLayout

/-- One change to the rules of a view. -/
inductive StoreEdit where
  | assign (a : Assignment)
  | clear (attr : Attribute)
  | release
  | rename (f : Anchor → Anchor)

/-- The rules of a batch that its own later equalities do not replace. -/
def entered : List Constraint → List Constraint
  | [] => []
  | c :: rest =>
    if c.comparison = .equal ∧
        c.slot ∈ (rest.filter fun d => d.comparison = .equal).map Constraint.slot then
      entered rest
    else c :: entered rest

/-- The rules in the order of writing, one edit later. -/
def StoreEdit.record (rules : List Constraint) : StoreEdit → List Constraint
  | .assign a =>
    (rules.filter fun c =>
        c.comparison = .equal → a.Keeps (rules.filter fun d => d.comparison = .equal) c) ++
      entered a.batch
  | .clear attr => rules.filter fun c => c.target ≠ attr
  | .release => []
  | .rename f => rules.map fun c => c.mapAnchors f

/-- **The rules in the order of writing**, whatever their comparison. -/
def history (edits : List StoreEdit) : List Constraint := edits.foldl StoreEdit.record []

namespace ConstraintStore

/-- The store after one edit. -/
def edit (s : ConstraintStore) : StoreEdit → ConstraintStore
  | .assign a => (s.assign a.target a.batch).1
  | .clear attr => s.clear attr
  | .release => ∅
  | .rename f => s.mapAnchors f

/-- The store after some edits, from the empty one. -/
def afterEdits (edits : List StoreEdit) : ConstraintStore := edits.foldl edit ∅

variable {s : ConstraintStore}

/-- **One edit** keeps a store orderly. -/
theorem Orderly.edit (h : s.Orderly) (e : StoreEdit) : (s.edit e).Orderly := by
  cases e with
  | assign a => exact h.assign a
  | clear attr => exact h.clear attr
  | release => exact orderly_empty
  | rename f => exact h.mapAnchors f

/-! ## The order of writing -/

theorem filter_entered_equal (batch : List Constraint) :
    (entered batch).filter (fun c => c.comparison = .equal) =
      lasting (batch.filter fun c => c.comparison = .equal) := by
  induction batch with
  | nil => rfl
  | cons c rest ih =>
    rw [entered]
    by_cases hequal : c.comparison = .equal
    · rw [List.filter_cons_of_pos (by simpa using hequal), lasting, ← ih]
      by_cases hlater : c.slot ∈ (rest.filter fun d => d.comparison = .equal).map Constraint.slot
      · rw [if_pos ⟨hequal, hlater⟩, if_pos hlater]
      · rw [if_neg fun hboth => hlater hboth.2, if_neg hlater,
          List.filter_cons_of_pos (by simpa using hequal)]
    · rw [if_neg fun hboth => hequal hboth.1, List.filter_cons_of_neg (by simpa using hequal),
        List.filter_cons_of_neg (by simpa using hequal), ih]

theorem filter_entered_bound (batch : List Constraint) :
    (entered batch).filter (fun c => c.comparison ≠ .equal) =
      batch.filter fun c => c.comparison ≠ .equal := by
  induction batch with
  | nil => rfl
  | cons c rest ih =>
    rw [entered]
    by_cases hequal : c.comparison = .equal
    · rw [List.filter_cons_of_neg (by simpa using hequal)]
      split
      · exact ih
      · rw [List.filter_cons_of_neg (by simpa using hequal), ih]
    · rw [if_neg fun hboth => hequal hboth.1, List.filter_cons_of_pos (by simpa using hequal),
        List.filter_cons_of_pos (by simpa using hequal), ih]

/-- A store holds rules that were written in this order. -/
structure Holds (s : ConstraintStore) (rules : List Constraint) : Prop where
  equalities : s.equalities.values = rules.filter fun c => c.comparison = .equal
  bounds : s.bounds = rules.filter fun c => c.comparison ≠ .equal

/-- **One edit** changes what a store holds as it changes the record. -/
theorem Holds.edit {rules : List Constraint} (holds : s.Holds rules) (h : s.Orderly)
    (e : StoreEdit) : (s.edit e).Holds (e.record rules) := by
  obtain ⟨hequalities, hbounds⟩ := holds
  cases e with
  | assign a =>
    constructor
    · show (s.assign a.target a.batch).1.equalities.values = List.filter _ (_ ++ _)
      -- the record keeps one list and the store two, so the filters of the two are exchanged
      rw [values_assign h, List.filter_append, filter_entered_equal, hequalities,
        List.filter_filter, List.filter_filter]
      congr 1
      apply List.filter_congr
      intro c _
      by_cases hequal : c.comparison = .equal <;> simp [hequal]
    · show (s.assign a.target a.batch).1.bounds = List.filter _ (_ ++ _)
      rw [bounds_assign, List.filter_append, filter_entered_bound, hbounds, List.filter_filter]
      congr 1
      apply List.filter_congr
      intro c _
      by_cases hequal : c.comparison = .equal <;> simp [hequal]
  | clear attr =>
    constructor
    · show (s.clear attr).equalities.values = List.filter _ (List.filter _ _)
      rw [values_clear h, hequalities, List.filter_filter, List.filter_filter]
      exact List.filter_congr fun c _ => Bool.and_comm _ _
    · show s.bounds.filter _ = List.filter _ (List.filter _ _)
      rw [hbounds, List.filter_filter, List.filter_filter]
      exact List.filter_congr fun c _ => Bool.and_comm _ _
  | release => exact ⟨rfl, rfl⟩
  | rename f =>
    constructor
    · show (s.equalities.mapValues _).values = List.filter _ (List.map _ _)
      rw [OrderedMap.values_mapValues, hequalities, List.filter_map]
      rfl
    · show s.bounds.map _ = List.filter _ (List.map _ _)
      rw [hbounds, List.filter_map]
      rfl

/-- **The run lemma**: after any edits the store is orderly and holds what was written. -/
theorem holds_afterEdits (edits : List StoreEdit) :
    (afterEdits edits).Orderly ∧ (afterEdits edits).Holds (history edits) := by
  have hrun (edits : List StoreEdit) (s : ConstraintStore) (rules : List Constraint)
      (h : s.Orderly) (holds : s.Holds rules) :
      (edits.foldl edit s).Orderly ∧
        (edits.foldl edit s).Holds (edits.foldl StoreEdit.record rules) := by
    induction edits generalizing s rules with
    | nil => exact ⟨h, holds⟩
    | cons e rest ih => exact ih (s.edit e) (e.record rules) (h.edit e) (holds.edit h e)
  exact hrun edits ∅ [] orderly_empty ⟨rfl, rfl⟩

/-! ## Listing -/

theorem Holds.toList_eq {rules : List Constraint} (holds : s.Holds rules) :
    s.toList = (rules.filter fun c => c.comparison = .equal) ++
      (rules.filter fun c => c.comparison = .less) ++
      (rules.filter fun c => c.comparison = .greater) := by
  have hside (side : Comparison) (hside : side ≠ .equal) :
      s.boundsWith side = rules.filter fun c => c.comparison = side := by
    rw [boundsWith, holds.bounds, List.filter_filter]
    apply List.filter_congr
    intro c _
    by_cases hc : c.comparison = side
    · simp [hc, hside]
    · simp [hc]
  rw [toList, holds.equalities, hside .less (by decide), hside .greater (by decide)]

end ConstraintStore

/-- **What one assignment leaves** of a store, and what it reports as dropped. -/
structure Assignment.Leaves (a : Assignment) (s s' : ConstraintStore) (reported : List Attribute) :
    Prop where
  /-- Every earlier equality that is kept is as it was and where it was; the new ones come last. -/
  equalities : s'.equalities.values =
    s.equalities.values.filter (a.Keeps s.equalities.values) ++ lasting a.equalities
  /-- With an equality in the batch, the target has the last one of every guard and no other. -/
  target : a.equalities ≠ [] → ∀ guard, s'.equalities.get? ⟨a.target, guard⟩ =
    (a.equalities.filter fun c => c.guardText = guard).getLast?
  /-- The best rival in a guard group is left, and no other. -/
  survivor : ∀ d ∈ s.equalities.values, a.Rivals d → ∃ c ∈ s.equalities.values,
    c ∈ s'.equalities.values ∧ a.Rivals c ∧ c.guardText = d.guardText ∧
      c.target.rank ≤ d.target.rank ∧
      ∀ e ∈ s'.equalities.values, a.Rivals e → e.guardText = d.guardText → e = c
  /-- What is reported is what pruning took away. -/
  dropped : reported.Perm
    ((s.equalities.values.filter (a.Outranks s.equalities.values)).map Constraint.target)
  /-- Without an equality in the batch the equalities stay, and nothing is reported. -/
  untouched : a.equalities = [] → s'.equalities = s.equalities ∧ reported = []
  /-- Bounds accumulate. -/
  bounds : s'.bounds = s.bounds ++ a.bounds

namespace ConstraintStore

/-- **The rules of a view**, after any edits: equalities, then upper bounds, then lower bounds are
listed, each in the order of writing and every rule once; there is one equality at most in a slot,
and two at most of an axis in a guard group; and one more assignment leaves what it should. -/
theorem rules_of_edits (edits : List StoreEdit) :
    (afterEdits edits).toList =
      ((history edits).filter fun c => c.comparison = .equal) ++
        ((history edits).filter fun c => c.comparison = .less) ++
        ((history edits).filter fun c => c.comparison = .greater) ∧
    (afterEdits edits).toList.Perm
      ((afterEdits edits).equalities.values ++ (afterEdits edits).bounds) ∧
    (((afterEdits edits).toList.filter fun c => c.comparison = .equal).map Constraint.slot).Nodup ∧
    (∀ axis guard, (((afterEdits edits).toList.filter fun c => c.comparison = .equal).filter
      fun c => c.target.axis = axis ∧ c.guardText = guard).length ≤ 2) ∧
    ∀ a : Assignment, a.Leaves (afterEdits edits)
      ((afterEdits edits).assign a.target a.batch).1
      ((afterEdits edits).assign a.target a.batch).2 := by
  obtain ⟨horderly, hholds⟩ := holds_afterEdits edits
  rw [filter_equal_toList horderly]
  refine ⟨hholds.toList_eq, toList_perm horderly, horderly.nodup_slots, horderly.length_group_le,
    ?_⟩
  intro a
  exact
    { equalities := values_assign horderly a
      target := get?_target_assign horderly a
      survivor := fun d hd rival => exists_survivor horderly a hd rival
      dropped := dropped_perm horderly a
      untouched := assign_of_no_equality horderly a
      bounds := bounds_assign _ a }

end ConstraintStore

end AnchorLayout
