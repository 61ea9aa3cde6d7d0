import AnchorLayout.Constraint.Store
import Mathlib.Data.List.Nodup
/-!
# What one assignment leaves

  An assignment brings a batch of rules for one attribute.  Its equalities replace those of the
  attribute, and in every guard group that they are written to some other equalities of the axis may
  have to give way.

  1. **Program** — `ConstraintStore.assign`, which adds the rules one after the other and then
     prunes the groups one after the other.
  2. **Specification** — `Assignment.Keeps`, which says of every earlier equality whether it is
     left, and `lasting`, the equalities of the batch that are left.
  3. **Pruning (`prune_eq`, `assign_eq`)** — pruning takes slots away, and what it takes away in one
     group does not depend on the other groups.
  4. **The crux (`mem_outranked_iff`)** — the attributes that give way are all but the first of a
     list that is sorted by rank, so they are those that have a better one beside them.
-/

namespace AnchorLayout

/-- The place of an attribute among those of its axis, the one that outlives the others first. -/
def Attribute.rank (attr : Attribute) : Nat := attr.axis.priority.idxOf attr

/-- The list of priorities is in the order of the ranks, so a comparison of ranks is a comparison of
places in it. -/
theorem Axis.pairwise_priority (axis : Axis) :
    axis.priority.Pairwise fun a b => a.rank < b.rank := by
  cases axis <;> decide

/-- On one axis the rank tells the attributes that may be given apart. -/
theorem Attribute.eq_of_rank_eq {a b : Attribute} (axis : a.axis = b.axis)
    (ha : a.isSettable = true) (hb : b.isSettable = true) (rank : a.rank = b.rank) : a = b := by
  have hall : ∀ a ∈ Attribute.all, ∀ b ∈ Attribute.all, a.axis = b.axis → a.isSettable = true →
      b.isSettable = true → a.rank = b.rank → a = b := by decide
  exact hall a (mem_all a) b (mem_all b) axis ha hb rank

/-- Rules for one attribute that may be given, stored at once. -/
structure Assignment where
  target : Attribute
  batch : List Constraint
  settable : target.isSettable = true
  on_target : ∀ c ∈ batch, c.target = target

/-- The equalities that no later one of the same slot replaces. -/
def lasting : List Constraint → List Constraint
  | [] => []
  | c :: rest => if c.slot ∈ rest.map Constraint.slot then lasting rest else c :: lasting rest

namespace Assignment

/-- The equalities of the batch. -/
def equalities (a : Assignment) : List Constraint :=
  a.batch.filter fun c => c.comparison = .equal

/-- The bounds of the batch. -/
def bounds (a : Assignment) : List Constraint := a.batch.filter fun c => c.comparison ≠ .equal

/-- **A rival**: a rule for another attribute of the axis, under a guard of one of the
equalities. -/
def Rivals (a : Assignment) (c : Constraint) : Prop :=
  c.target ≠ a.target ∧ c.target.axis = a.target.axis ∧
    c.guardText ∈ a.equalities.map Constraint.guardText

/-- **Outranked** among some rules: a rival with a better rival in its guard group. -/
def Outranks (a : Assignment) (rules : List Constraint) (c : Constraint) : Prop :=
  a.Rivals c ∧ ∃ d ∈ rules, a.Rivals d ∧ d.guardText = c.guardText ∧ d.target.rank < c.target.rank

/-- What an assignment keeps of earlier equalities: those of its target only where it brings no
equality itself, and no outranked ones. -/
def Keeps (a : Assignment) (rules : List Constraint) (c : Constraint) : Prop :=
  (c.target = a.target → a.equalities = []) ∧ ¬ a.Outranks rules c

variable (a : Assignment) (rules : List Constraint) (c : Constraint)

instance : Decidable (a.Rivals c) := inferInstanceAs (Decidable (_ ∧ _ ∧ _))

instance : Decidable (a.Outranks rules c) := inferInstanceAs (Decidable (_ ∧ ∃ d ∈ rules, _))

instance : Decidable (a.Keeps rules c) := inferInstanceAs (Decidable ((_ → _) ∧ ¬ _))

end Assignment

/-! ## Lasting equalities -/

/-- No slot is lost when only its last equality is kept. -/
theorem mem_map_slot_lasting {slot : Slot} {rules : List Constraint} :
    slot ∈ (lasting rules).map Constraint.slot ↔ slot ∈ rules.map Constraint.slot := by
  induction rules with
  | nil => rfl
  | cons c rest ih =>
    rw [lasting]
    split
    · next hlater =>
      rw [ih, List.map_cons, List.mem_cons]
      constructor
      · exact Or.inr
      · rintro (rfl | h)
        · exact hlater
        · exact h
    · rw [List.map_cons, List.map_cons, List.mem_cons, List.mem_cons, ih]

/-- What lasts is part of the batch, in its order. -/
theorem lasting_sublist (rules : List Constraint) : (lasting rules).Sublist rules := by
  induction rules with
  | nil => exact List.Sublist.slnil
  | cons c rest ih =>
    rw [lasting]
    split
    · exact ih.cons c
    · exact ih.cons_cons c

/-- The lasting one of a slot is the last one. -/
theorem find?_lasting (slot : Slot) (rules : List Constraint) :
    (lasting rules).find? (·.slot = slot) = rules.reverse.find? (·.slot = slot) := by
  induction rules with
  | nil => rfl
  | cons c rest ih =>
    rw [lasting, List.reverse_cons, List.find?_append, ← ih]
    split
    · next hlater =>
      cases hfind : (lasting rest).find? (·.slot = slot) with
      | some d => rfl
      | none =>
        -- the slot of `c` is the slot of a later rule, so it is not this one
        have hne : c.slot ≠ slot := by
          rintro rfl
          obtain ⟨d, hd, hslot⟩ := List.mem_map.1 (mem_map_slot_lasting.2 hlater)
          exact absurd (decide_eq_true hslot) (List.find?_eq_none.1 hfind d hd)
        simp [hne]
    · next hlater =>
      by_cases hslot : c.slot = slot
      · have hnone : (lasting rest).find? (·.slot = slot) = none := by
          rw [List.find?_eq_none]
          intro d hd hdslot
          refine hlater (mem_map_slot_lasting.1 (List.mem_map.2 ⟨d, hd, ?_⟩))
          rw [hslot]
          exact of_decide_eq_true hdslot
        rw [hnone]
        simp [hslot]
      · simp [hslot]

namespace ConstraintStore

variable {s : ConstraintStore} {target : Attribute} {guard : Option String}

/-! ## Slots taken away -/

/-- The store without the equalities of some slots. -/
def withoutSlots (s : ConstraintStore) (slots : List Slot) : ConstraintStore :=
  { s with equalities := s.equalities.filter fun slot _ => slot ∉ slots }

/-- **What is left** when some slots are taken away are the others. -/
theorem contains_withoutSlots (s : ConstraintStore) (slots : List Slot) (slot : Slot) :
    (s.withoutSlots slots).equalities.contains slot =
      (s.equalities.contains slot && decide (slot ∉ slots)) := by
  have hfind := OrderedMap.find?_filter_fst (fun x => decide (x ∉ slots)) slot s.equalities.entries
  show (OrderedMap.find? slot (s.equalities.entries.filter _)).isSome = _
  rw [hfind]
  by_cases h : slot ∈ slots
  · simp [h]
  · simp [h, OrderedMap.contains, OrderedMap.get?]

/-- A store is its entries and its bounds, so two of them are compared by both. -/
theorem eq_of_entries {s s' : ConstraintStore}
    (equalities : s.equalities.entries = s'.equalities.entries) (bounds : s.bounds = s'.bounds) :
    s = s' := by
  cases s
  cases s'
  obtain rfl : _ = _ := bounds
  obtain rfl : _ = _ := OrderedMap.ext equalities
  rfl

/-- Slots are taken away together or one lot after another. -/
theorem withoutSlots_append (s : ConstraintStore) (slots more : List Slot) :
    (s.withoutSlots slots).withoutSlots more = s.withoutSlots (slots ++ more) := by
  refine eq_of_entries ?_ rfl
  show (s.equalities.entries.filter _).filter _ = s.equalities.entries.filter _
  rw [List.filter_filter]
  apply List.filter_congr
  intro e _
  simp [not_or, Bool.and_comm]

theorem withoutSlots_nil (s : ConstraintStore) : s.withoutSlots [] = s := by
  refine eq_of_entries ?_ rfl
  show s.equalities.entries.filter _ = s.equalities.entries
  simp

/-! ## Pruning -/

/-- The slots of a guard group that give way. -/
def yielding (s : ConstraintStore) (target : Attribute) (guard : Option String) : List Slot :=
  (s.givingWay target guard).map fun attr => ⟨attr, guard⟩

/-- **Pruning a group** takes slots of the group away. -/
theorem prune_eq (s : ConstraintStore) (target : Attribute) (guard : Option String) :
    s.prune target guard =
      (s.withoutSlots (s.yielding target guard), s.givingWay target guard) := by
  have hfold (attrs : List Attribute) (s : ConstraintStore) (dropped : List Attribute) :
      attrs.foldl (fun pruned attr =>
          ({ pruned.1 with equalities := pruned.1.equalities.erase ⟨attr, guard⟩ },
            pruned.2 ++ [attr])) (s, dropped) =
      (s.withoutSlots (attrs.map fun attr => ⟨attr, guard⟩), dropped ++ attrs) := by
    induction attrs generalizing s dropped with
    | nil => rw [List.map_nil, withoutSlots_nil, List.append_nil]; rfl
    | cons attr rest ih =>
      have herase : ({ s with equalities := s.equalities.erase ⟨attr, guard⟩ } : ConstraintStore) =
          s.withoutSlots [⟨attr, guard⟩] := by
        refine eq_of_entries ?_ rfl
        show s.equalities.entries.filter _ = s.equalities.entries.filter _
        simp
      rw [List.foldl_cons, ih, herase, withoutSlots_append, List.append_assoc]
      rfl
  exact hfold _ s []

/-- Who is in a group depends on the group alone. -/
theorem present_congr {s s' : ConstraintStore}
    (h : ∀ attr, s'.equalities.contains ⟨attr, guard⟩ = s.equalities.contains ⟨attr, guard⟩)
    (axis : Axis) : s'.present axis guard = s.present axis guard := by
  apply List.filter_congr
  intro attr _
  exact h attr

/-- So does who gives way in it. -/
theorem givingWay_congr {s s' : ConstraintStore}
    (h : ∀ attr, s'.equalities.contains ⟨attr, guard⟩ = s.equalities.contains ⟨attr, guard⟩) :
    s'.givingWay target guard = s.givingWay target guard := by
  rw [givingWay, givingWay, present_congr h]

/-- The slots of some guard groups that give way. -/
def outranked (s : ConstraintStore) (target : Attribute) (guards : List (Option String)) :
    List Slot :=
  guards.flatMap (s.yielding target)

/-- **Pruning several groups**: none sees what is taken away in another. -/
theorem foldl_prune (guards : List (Option String)) (distinct : guards.Nodup)
    (s : ConstraintStore) (dropped : List Attribute) :
    guards.foldl (fun (s, dropped) guard =>
        let (s, more) := s.prune target guard
        (s, dropped ++ more))
      (s, dropped) =
    (s.withoutSlots (s.outranked target guards),
      dropped ++ (s.outranked target guards).map Slot.attr) := by
  induction guards generalizing s dropped with
  | nil =>
    show (s, dropped) = (s.withoutSlots [], dropped ++ [])
    rw [withoutSlots_nil, List.append_nil]
  | cons guard rest ih =>
    obtain ⟨hguard, hrest⟩ := List.nodup_cons.1 distinct
    -- what one group loses is in that group, so the other groups are as they were found
    have hapart (g : Option String) (hg : g ∈ rest) :
        (s.withoutSlots (s.yielding target guard)).yielding target g = s.yielding target g := by
      have hne : guard ≠ g := by
        rintro rfl
        exact hguard hg
      have hcontains (attr : Attribute) :
          (s.withoutSlots (s.yielding target guard)).equalities.contains ⟨attr, g⟩ =
            s.equalities.contains ⟨attr, g⟩ := by
        have hslot : (⟨attr, g⟩ : Slot) ∉ s.yielding target guard := by
          intro hmem
          obtain ⟨attr', -, heq⟩ := List.mem_map.1 hmem
          exact hne (congrArg Slot.guard heq)
        rw [contains_withoutSlots, decide_eq_true hslot, Bool.and_true]
      exact congrArg (List.map fun attr => (⟨attr, g⟩ : Slot)) (givingWay_congr hcontains)
    have houtranked : (s.withoutSlots (s.yielding target guard)).outranked target rest =
        s.outranked target rest := List.flatMap_congr hapart
    have hcons : s.outranked target (guard :: rest) =
        s.yielding target guard ++ s.outranked target rest := List.flatMap_cons
    have hdropped : (s.yielding target guard).map Slot.attr = s.givingWay target guard := by
      rw [yielding, List.map_map]
      exact List.map_id _
    rw [List.foldl_cons]
    show rest.foldl _ ((s.prune target guard).1, dropped ++ (s.prune target guard).2) = _
    rw [prune_eq, ih hrest, houtranked, withoutSlots_append, hcons, List.map_append, hdropped,
      List.append_assoc]

/-! ## Adding -/

/-- The groups that are pruned are those in which the batch has an equality. -/
theorem mem_guardsOf_iff {batch : List Constraint} :
    guard ∈ guardsOf batch ↔ ∃ c ∈ batch, c.comparison = .equal ∧ c.guardText = guard := by
  -- the fold has collected guards already, and adds a new one only once
  have hfold (batch : List Constraint) (guards : List (Option String)) :
      guard ∈ batch.foldl (fun guards c =>
        if c.comparison = .equal ∧ c.guardText ∉ guards then guards ++ [c.guardText] else guards)
          guards ↔
      guard ∈ guards ∨ ∃ c ∈ batch, c.comparison = .equal ∧ c.guardText = guard := by
    induction batch generalizing guards with
    | nil => simp
    | cons c rest ih =>
      rw [List.foldl_cons, ih]
      split
      · next h =>
        simp only [List.mem_append, List.mem_singleton, List.exists_mem_cons_iff, or_assoc, h.1,
          true_and, eq_comm (a := guard)]
      · next h =>
        simp only [List.exists_mem_cons_iff]
        constructor
        · rintro (hg | hrest)
          · exact Or.inl hg
          · exact Or.inr (Or.inr hrest)
        · rintro (hg | ⟨hequal, rfl⟩ | hrest)
          · exact Or.inl hg
          · refine Or.inl (Classical.byContradiction fun hnew => h ⟨hequal, hnew⟩)
          · exact Or.inr hrest
  rw [guardsOf, hfold]
  simp

/-- Each of them is pruned once. -/
theorem nodup_guardsOf (batch : List Constraint) : (guardsOf batch).Nodup := by
  have hfold (batch : List Constraint) (guards : List (Option String)) (h : guards.Nodup) :
      (batch.foldl (fun guards c =>
        if c.comparison = .equal ∧ c.guardText ∉ guards then guards ++ [c.guardText] else guards)
          guards).Nodup := by
    induction batch generalizing guards with
    | nil => exact h
    | cons c rest ih =>
      rw [List.foldl_cons]
      apply ih
      split
      · next hnew =>
        refine List.nodup_append.2 ⟨h, List.nodup_singleton _, ?_⟩
        rintro g hg g' hg' rfl
        rw [List.mem_singleton.1 hg'] at hg
        exact hnew.2 hg
      · exact h
  exact hfold batch [] List.nodup_nil

/-- Bounds are added at the end; nothing replaces a bound. -/
theorem bounds_foldl_add (batch : List Constraint) (s : ConstraintStore) :
    (batch.foldl add s).bounds = s.bounds ++ batch.filter fun c => c.comparison ≠ .equal := by
  induction batch generalizing s with
  | nil => simp
  | cons c rest ih =>
    rw [List.foldl_cons, ih, add]
    by_cases h : c.comparison = .equal <;> simp [h]

/-- **Adding rules**: the equalities come to the end, one of each slot, in the order in which each
slot was written last. -/
theorem entries_foldl_add (batch : List Constraint) (s : ConstraintStore) :
    (batch.foldl add s).equalities.entries =
      (s.equalities.entries.filter fun e =>
        e.1 ∉ (batch.filter fun c => c.comparison = .equal).map Constraint.slot) ++
      (lasting (batch.filter fun c => c.comparison = .equal)).map fun c => (c.slot, c) := by
  induction batch generalizing s with
  | nil => simp [lasting]
  | cons c rest ih =>
    rw [List.foldl_cons, ih, add]
    by_cases h : c.comparison = .equal
    · rw [if_pos h, List.filter_cons_of_pos (by simpa using h), lasting, List.map_cons]
      generalize rest.filter (fun c => decide (c.comparison = .equal)) = later
      have hnew : c.slot ∉ (s.equalities.erase c.slot).keys := by
        rw [OrderedMap.keys_erase]
        simp
      have hentries : (s.equalities.erase c.slot).entries =
          s.equalities.entries.filter fun e => e.1 ≠ c.slot := rfl
      have hkept : ((s.equalities.entries.filter fun e => e.1 ≠ c.slot).filter
            fun e => e.1 ∉ later.map Constraint.slot) =
          s.equalities.entries.filter fun e => e.1 ∉ c.slot :: later.map Constraint.slot := by
        rw [List.filter_filter]
        apply List.filter_congr
        intro e _
        simp [Bool.and_comm]
      show ((s.equalities.erase c.slot).insert c.slot c).entries.filter _ ++ _ = _
      rw [OrderedMap.entries_insert_of_not_mem c hnew, hentries, List.filter_append, hkept,
        List.append_assoc]
      congr 1
      -- the rule itself is left where no later one of the batch takes its slot
      by_cases hlater : c.slot ∈ later.map Constraint.slot
      · rw [if_pos hlater, List.filter_cons_of_neg (by simpa using hlater)]
        rfl
      · rw [if_neg hlater, List.filter_cons_of_pos (by simpa using hlater)]
        rfl
    · rw [if_neg h, List.filter_cons_of_neg (by simpa using h)]

/-- **An assignment** adds the rules and takes away the slots that give way. -/
theorem assign_eq (s : ConstraintStore) (target : Attribute) (batch : List Constraint) :
    s.assign target batch =
      ((s.addAll target batch).withoutSlots
          ((s.addAll target batch).outranked target (guardsOf batch)),
        ((s.addAll target batch).outranked target (guardsOf batch)).map Slot.attr) := by
  rw [assign, foldl_prune _ (nodup_guardsOf batch), List.nil_append]

/-! ## Which rules there are -/

/-- All rules of a store, equalities first. -/
def rules (s : ConstraintStore) : List Constraint := s.equalities.values ++ s.bounds

variable {c : Constraint} {batch : List Constraint}

/-- An equality after an assignment was there before, or is one of the batch. -/
theorem mem_values_of_assign (h : c ∈ (s.assign target batch).1.equalities.values) :
    c ∈ s.equalities.values ∨ c ∈ batch := by
  rw [assign_eq] at h
  obtain ⟨⟨slot, d⟩, hentry, rfl⟩ := List.mem_map.1 h
  have hadded := (List.mem_filter.1 hentry).1
  rw [addAll, entries_foldl_add] at hadded
  rcases List.mem_append.1 hadded with hold | hnew
  · refine Or.inl ?_
    have hbase := (List.mem_filter.1 hold).1
    split at hbase
    · exact List.mem_map_of_mem (List.mem_filter.1 hbase).1
    · exact List.mem_map_of_mem hbase
  · obtain ⟨d, hd, hpair⟩ := List.mem_map.1 hnew
    cases hpair
    exact Or.inr (List.mem_filter.1 ((lasting_sublist _).subset hd)).1

/-- The same for bounds. -/
theorem mem_bounds_of_assign (h : c ∈ (s.assign target batch).1.bounds) :
    c ∈ s.bounds ∨ c ∈ batch := by
  rw [assign_eq] at h
  change c ∈ (s.addAll target batch).bounds at h
  rw [addAll, bounds_foldl_add] at h
  rcases List.mem_append.1 h with hold | hnew
  · refine Or.inl ?_
    split at hold
    · exact hold
    · exact hold
  · exact Or.inr (List.mem_filter.1 hnew).1

/-- **A rule after an assignment** was there before, or is one of the batch. -/
theorem mem_rules_of_assign (h : c ∈ (s.assign target batch).1.rules) : c ∈ s.rules ∨ c ∈ batch := by
  rw [rules, List.mem_append]
  rcases List.mem_append.1 h with hequality | hbound
  · exact (mem_values_of_assign hequality).imp_left Or.inl
  · exact (mem_bounds_of_assign hbound).imp_left Or.inr

/-- Clearing an attribute adds nothing. -/
theorem mem_rules_of_clear {attr : Attribute} (h : c ∈ (s.clear attr).rules) : c ∈ s.rules := by
  rw [rules, List.mem_append]
  rcases List.mem_append.1 h with hequality | hbound
  · obtain ⟨e, he, rfl⟩ := List.mem_map.1 hequality
    exact Or.inl (List.mem_map_of_mem (List.mem_filter.1 he).1)
  · exact Or.inr (List.mem_filter.1 hbound).1

/-! ## Who gives way -/

/-- In a list that is sorted by a measure, all but the first have a smaller one beside them. -/
theorem mem_tail_iff_of_pairwise {α : Type} {measure : α → Nat} {l : List α}
    (sorted : l.Pairwise fun x y => measure x < measure y) {x : α} :
    x ∈ l.tail ↔ x ∈ l ∧ ∃ y ∈ l, measure y < measure x := by
  cases l with
  | nil => simp
  | cons first rest =>
    obtain ⟨hfirst, -⟩ := List.pairwise_cons.1 sorted
    rw [List.tail_cons]
    constructor
    · intro hx
      exact ⟨List.mem_cons_of_mem _ hx, first, List.mem_cons_self, hfirst x hx⟩
    · rintro ⟨hx, y, hy, hlt⟩
      rcases List.mem_cons.1 hx with rfl | hx
      · rcases List.mem_cons.1 hy with rfl | hy
        · omega
        · have := hfirst y hy
          omega
      · exact hx

/-- The members of a group come in the order of their ranks, which is what decides who gives
way. -/
theorem pairwise_present (s : ConstraintStore) (axis : Axis) (guard : Option String) :
    (s.present axis guard).Pairwise fun a b => a.rank < b.rank :=
  axis.pairwise_priority.filter _

theorem nodup_present (s : ConstraintStore) (axis : Axis) (guard : Option String) :
    (s.present axis guard).Nodup := by
  refine (s.pairwise_present axis guard).imp ?_
  rintro a b hlt rfl
  omega

/-- Who is in a group: the attributes of the axis that have an equality in it. -/
theorem mem_present_iff {axis : Axis} {attr : Attribute} : attr ∈ s.present axis guard ↔
    (attr.axis = axis ∧ attr.isSettable = true) ∧ s.equalities.contains ⟨attr, guard⟩ = true := by
  rw [present, List.mem_filter, Axis.mem_priority_iff]

/-- The attributes that give way are all others but the best, the worst first. -/
theorem givingWay_eq (settable : target.isSettable = true)
    (written : s.equalities.contains ⟨target, guard⟩ = true) :
    s.givingWay target guard =
      ((s.present target.axis guard).filter fun attr => attr ≠ target).tail.reverse := by
  have htarget : target ∈ s.present target.axis guard :=
    mem_present_iff.2 ⟨⟨rfl, settable⟩, written⟩
  have herase := (s.nodup_present target.axis guard).erase_eq_filter target
  have hothers : (s.present target.axis guard).filter (fun attr => attr ≠ target) =
      (s.present target.axis guard).erase target := by
    rw [herase]
    apply List.filter_congr
    intro attr _
    rw [Bool.eq_iff_iff, decide_eq_true_iff, bne_iff_ne]
  have hlength := List.length_erase_of_mem htarget
  rw [← hothers] at hlength
  have hpositive := List.length_pos_of_mem htarget
  rw [givingWay]
  -- the target is among those present, so taking all but two of them is taking all but the best
  -- other
  generalize (s.present target.axis guard).filter (fun attr => attr ≠ target) = others at hlength ⊢
  cases others with
  | nil =>
    rw [List.length_nil] at hlength
    rw [if_pos (by omega)]
    rfl
  | cons best rest =>
    rw [List.length_cons] at hlength
    rw [List.tail_cons]
    split
    · have hrest : rest = [] := List.eq_nil_of_length_eq_zero (by omega)
      rw [hrest]
      rfl
    · have hcount : (s.present target.axis guard).length - 2 = rest.reverse.length := by
        rw [List.length_reverse]
        omega
      rw [hcount, List.reverse_cons, List.take_left']
      rfl

/-- **Who gives way**: the attributes beside the target that have a better one beside them. -/
theorem mem_outranked_iff {guards : List (Option String)} (settable : target.isSettable = true)
    (written : ∀ guard ∈ guards, s.equalities.contains ⟨target, guard⟩ = true) {slot : Slot} :
    slot ∈ s.outranked target guards ↔
      slot.guard ∈ guards ∧ slot.attr ≠ target ∧ slot.attr ∈ s.present target.axis slot.guard ∧
        ∃ attr ∈ s.present target.axis slot.guard, attr ≠ target ∧ attr.rank < slot.attr.rank := by
  have hgroup (guard : Option String) (hguard : guard ∈ guards) (attr : Attribute) :
      attr ∈ s.givingWay target guard ↔
        (attr ∈ s.present target.axis guard ∧ attr ≠ target) ∧
          ∃ other ∈ s.present target.axis guard, other ≠ target ∧ other.rank < attr.rank := by
    have hsorted : ((s.present target.axis guard).filter fun attr => attr ≠ target).Pairwise
        fun a b => a.rank < b.rank := (s.pairwise_present target.axis guard).filter _
    rw [givingWay_eq settable (written guard hguard), List.mem_reverse,
      mem_tail_iff_of_pairwise hsorted]
    simp only [List.mem_filter, decide_eq_true_iff, and_assoc]
  rw [outranked, List.mem_flatMap]
  constructor
  · rintro ⟨guard, hguard, hslot⟩
    obtain ⟨attr, hattr, rfl⟩ := List.mem_map.1 hslot
    obtain ⟨⟨hpresent, hne⟩, hbetter⟩ := (hgroup guard hguard attr).1 hattr
    exact ⟨hguard, hne, hpresent, hbetter⟩
  · rintro ⟨hguard, hne, hpresent, hbetter⟩
    have hattr := (hgroup slot.guard hguard slot.attr).2 ⟨⟨hpresent, hne⟩, hbetter⟩
    exact ⟨slot.guard, hguard, List.mem_map.2 ⟨slot.attr, hattr, rfl⟩⟩

/-- No slot is reported twice, although groups are pruned one by one. -/
theorem nodup_outranked {guards : List (Option String)} (distinct : guards.Nodup)
    (settable : target.isSettable = true)
    (written : ∀ guard ∈ guards, s.equalities.contains ⟨target, guard⟩ = true) :
    (s.outranked target guards).Nodup := by
  rw [outranked, List.nodup_flatMap]
  constructor
  · intro guard hguard
    have hattrs : (s.givingWay target guard).Nodup := by
      rw [givingWay_eq settable (written guard hguard), List.nodup_reverse]
      exact ((s.nodup_present target.axis guard).filter _).tail
    refine hattrs.map ?_
    intro a b heq
    exact congrArg Slot.attr heq
  · refine distinct.imp ?_
    intro g g' hne slot hslot hslot'
    obtain ⟨attr, -, rfl⟩ := List.mem_map.1 hslot
    obtain ⟨attr', -, heq⟩ := List.mem_map.1 hslot'
    exact hne (congrArg Slot.guard heq).symm

end ConstraintStore

end AnchorLayout
