import AnchorLayout.Proofs.Constraint.Assignment
import Mathlib.Data.List.Perm.Subperm
/-!
# Orderly stores

  1. **Program** — `ConstraintStore.assign`, `clear`, `mapAnchors` and `toList`.
  2. **Specification** — `Orderly`: every equality lies in its own slot, and no guard group has more
     than two of one axis.
  3. **One assignment (`entries_assign`, `dropped_perm`)** — in an orderly store the equalities that
     are left are those that the assignment keeps, and behind them the new ones; what is reported is
     what pruning took away.
  4. **The groups (`pairs_assign`)** — two rivals that are both left would have one rank.
-/

namespace AnchorLayout

namespace ConstraintStore

/-- **Orderly**: equalities of settable attributes in their own slots, no more than two of an axis
in a guard group, and bounds that are no equalities. -/
structure Orderly (s : ConstraintStore) : Prop where
  placed : ∀ e ∈ s.equalities.entries, e.1 = e.2.slot
  equal : ∀ c ∈ s.equalities.values, c.comparison = .equal
  settable : ∀ c ∈ s.equalities.values, c.target.isSettable = true
  bound : ∀ c ∈ s.bounds, c.comparison ≠ .equal
  pairs : ∀ axis guard, (s.present axis guard).length ≤ 2

variable {s : ConstraintStore} {slot : Slot} {c : Constraint}

namespace Orderly

/-- In an orderly store the entries can be told from the rules, so the rules are all that has to be
tracked. -/
theorem entries_eq (h : s.Orderly) :
    s.equalities.entries = s.equalities.values.map fun c => (c.slot, c) := by
  have hself : s.equalities.entries.map (fun e => (e.2.slot, e.2)) =
      s.equalities.entries.map id := by
    apply List.map_congr_left
    intro e he
    rw [← h.placed e he]
    rfl
  rw [List.map_id] at hself
  rw [OrderedMap.values, List.map_map]
  exact hself.symm

theorem slots_eq (h : s.Orderly) : s.equalities.values.map Constraint.slot = s.equalities.keys := by
  rw [OrderedMap.keys, h.entries_eq, List.map_map]
  rfl

/-- No two equalities share a slot. -/
theorem nodup_slots (h : s.Orderly) : (s.equalities.values.map Constraint.slot).Nodup := by
  rw [h.slots_eq]
  exact s.equalities.nodup_keys

/-- What is found in a slot is the rule of the slot. -/
theorem get?_eq_some_iff (h : s.Orderly) :
    s.equalities.get? slot = some c ↔ c ∈ s.equalities.values ∧ c.slot = slot := by
  rw [OrderedMap.get?_eq_some_iff, h.entries_eq, List.mem_map]
  constructor
  · rintro ⟨d, hd, heq⟩
    obtain ⟨hslot, rfl⟩ := Prod.mk.inj heq
    exact ⟨hd, hslot⟩
  · rintro ⟨hc, rfl⟩
    exact ⟨c, hc, rfl⟩

/-- A slot is taken if a rule is in it. -/
theorem contains_iff (h : s.Orderly) :
    s.equalities.contains slot = true ↔ ∃ c ∈ s.equalities.values, c.slot = slot := by
  rw [OrderedMap.contains_iff_mem_keys, ← h.slots_eq, List.mem_map]

/-- The members of a group are the attributes of its rules. -/
theorem mem_present_iff (h : s.Orderly) {axis : Axis} {guard : Option String} {attr : Attribute} :
    attr ∈ s.present axis guard ↔
      attr.axis = axis ∧ ∃ c ∈ s.equalities.values, c.slot = ⟨attr, guard⟩ := by
  rw [ConstraintStore.mem_present_iff, h.contains_iff]
  constructor
  · rintro ⟨⟨haxis, -⟩, hfound⟩
    exact ⟨haxis, hfound⟩
  · rintro ⟨haxis, c, hc, hslot⟩
    have htarget : c.target = attr := congrArg Slot.attr hslot
    exact ⟨⟨haxis, htarget ▸ h.settable c hc⟩, c, hc, hslot⟩

end Orderly

/-! ## Edits that only take away or rename -/

/-- A view begins without rules. -/
theorem orderly_empty : (∅ : ConstraintStore).Orderly where
  placed := by rintro e ⟨⟩
  equal := by rintro c ⟨⟩
  settable := by rintro c ⟨⟩
  bound := by rintro c ⟨⟩
  pairs := by
    intro axis guard
    cases axis <;> exact Nat.zero_le 2

/-- A store with fewer rules stays orderly. -/
theorem Orderly.mono {s' : ConstraintStore} (h : s.Orderly)
    (entries : s'.equalities.entries ⊆ s.equalities.entries) (bounds : s'.bounds ⊆ s.bounds) :
    s'.Orderly where
  placed := fun e he => h.placed e (entries he)
  equal := fun c hc => h.equal c (List.map_subset _ entries hc)
  settable := fun c hc => h.settable c (List.map_subset _ entries hc)
  bound := fun c hc => h.bound c (bounds hc)
  pairs := by
    intro axis guard
    have hsubset : s'.present axis guard ⊆ s.present axis guard := by
      intro attr hattr
      obtain ⟨hplace, hkey⟩ := ConstraintStore.mem_present_iff.1 hattr
      rw [OrderedMap.contains_iff_mem_keys] at hkey
      have hkey' := OrderedMap.contains_iff_mem_keys.2 (List.map_subset _ entries hkey)
      exact ConstraintStore.mem_present_iff.2 ⟨hplace, hkey'⟩
    have hcount := (List.subperm_of_subset (s'.nodup_present axis guard) hsubset).length_le
    have hpairs := h.pairs axis guard
    omega

theorem Orderly.clear (h : s.Orderly) (attr : Attribute) : (s.clear attr).Orderly :=
  h.mono (List.filter_subset_self _) (List.filter_subset_self _)

/-- Clearing an attribute takes its equalities away, in all of its groups. -/
theorem values_clear (h : s.Orderly) (attr : Attribute) :
    (s.clear attr).equalities.values = s.equalities.values.filter fun c => c.target ≠ attr := by
  show (s.equalities.entries.filter _).map Prod.snd = _
  conv_lhs => rw [h.entries_eq, List.filter_map, List.map_map]
  exact List.map_id _

/-- Renaming anchors changes no slot. -/
theorem Orderly.mapAnchors (h : s.Orderly) (f : Anchor → Anchor) : (s.mapAnchors f).Orderly where
  placed := by
    intro e he
    obtain ⟨e', he', rfl⟩ := List.mem_map.1 he
    exact h.placed e' he'
  equal := by
    intro c hc
    rw [ConstraintStore.mapAnchors, OrderedMap.values_mapValues] at hc
    obtain ⟨c', hc', rfl⟩ := List.mem_map.1 hc
    exact h.equal c' hc'
  settable := by
    intro c hc
    rw [ConstraintStore.mapAnchors, OrderedMap.values_mapValues] at hc
    obtain ⟨c', hc', rfl⟩ := List.mem_map.1 hc
    exact h.settable c' hc'
  bound := by
    intro c hc
    obtain ⟨c', hc', rfl⟩ := List.mem_map.1 hc
    exact h.bound c' hc'
  pairs := by
    intro axis guard
    -- a group is told by its slots, which a renaming leaves alone
    have hpresent : (s.mapAnchors f).present axis guard = s.present axis guard := by
      apply present_congr
      intro attr
      rw [OrderedMap.contains, ConstraintStore.mapAnchors, OrderedMap.get?_mapValues,
        Option.isSome_map]
      rfl
    rw [hpresent]
    exact h.pairs axis guard

/-! ## One assignment -/

variable {a : Assignment}

/-- The groups that an assignment prunes are those of its equalities. -/
theorem mem_guardsOf_batch {guard : Option String} :
    guard ∈ guardsOf a.batch ↔ guard ∈ a.equalities.map Constraint.guardText := by
  rw [mem_guardsOf_iff, List.mem_map]
  simp only [Assignment.equalities, List.mem_filter, decide_eq_true_iff, and_assoc]

theorem target_of_mem_equalities (hc : c ∈ a.equalities) : c.target = a.target :=
  a.on_target c (List.mem_filter.1 hc).1

/-- The equalities before pruning: what the assignment does not replace, and the new ones. -/
theorem entries_addAll (s : ConstraintStore) (a : Assignment) :
    (s.addAll a.target a.batch).equalities.entries =
      (s.equalities.entries.filter fun e => e.1.attr = a.target → a.equalities = []) ++
        (lasting a.equalities).map fun c => (c.slot, c) := by
  rw [addAll, entries_foldl_add]
  show _ ++ (lasting a.equalities).map _ = _
  congr 1
  show List.filter
    (fun e : Slot × Constraint => decide (e.1 ∉ a.equalities.map Constraint.slot)) _ = _
  by_cases hnone : a.equalities = []
  · have hany : (a.batch.any fun c => c.comparison == .equal) = false := by
      rw [List.any_eq_false]
      intro c hc hequal
      exact List.filter_eq_nil_iff.1 hnone c hc (decide_eq_true (beq_iff_eq.1 hequal))
    rw [hany]
    simp [hnone]
  · have hany : (a.batch.any fun c => c.comparison == .equal) = true := by
      obtain ⟨c, hc⟩ := List.exists_mem_of_ne_nil _ hnone
      obtain ⟨hmem, hequal⟩ := List.mem_filter.1 hc
      exact List.any_eq_true.2 ⟨c, hmem, beq_iff_eq.2 (of_decide_eq_true hequal)⟩
    rw [hany, if_pos rfl]
    show (s.equalities.entries.filter _).filter _ = s.equalities.entries.filter _
    rw [List.filter_filter]
    apply List.filter_congr
    intro e _
    -- a slot that the batch writes is a slot of the target
    have hslot : e.1 ∈ a.equalities.map Constraint.slot → e.1.attr = a.target := by
      intro hmem
      obtain ⟨c, hc, heq⟩ := List.mem_map.1 hmem
      rw [← heq]
      exact target_of_mem_equalities hc
    by_cases htarget : e.1.attr = a.target
    · simp [htarget, hnone]
    · simp [htarget, mt hslot htarget]

/-- The new equalities before pruning. -/
theorem contains_addAll_target {guard : Option String} (hguard : guard ∈ guardsOf a.batch) :
    (s.addAll a.target a.batch).equalities.contains ⟨a.target, guard⟩ = true := by
  obtain ⟨c, hc, rfl⟩ := List.mem_map.1 (mem_guardsOf_batch.1 hguard)
  have hslot : (⟨a.target, c.guardText⟩ : Slot) = c.slot := by
    rw [Constraint.slot, target_of_mem_equalities hc]
  have hlast : c.slot ∈ (lasting a.equalities).map Constraint.slot :=
    mem_map_slot_lasting.2 (List.mem_map_of_mem hc)
  rw [hslot, OrderedMap.contains_iff_mem_keys, OrderedMap.keys, entries_addAll, List.map_append,
    List.map_map]
  exact List.mem_append_right _ hlast

/-- The other attributes before pruning. -/
theorem contains_addAll_of_ne {attr : Attribute} {guard : Option String} (hne : attr ≠ a.target) :
    (s.addAll a.target a.batch).equalities.contains ⟨attr, guard⟩ =
      s.equalities.contains ⟨attr, guard⟩ := by
  rw [Bool.eq_iff_iff, OrderedMap.contains_iff_mem_keys, OrderedMap.contains_iff_mem_keys,
    OrderedMap.keys, OrderedMap.keys, entries_addAll, List.map_append, List.mem_append]
  constructor
  · rintro (hold | hnew)
    · exact List.map_subset _ (List.filter_subset_self _) hold
    · obtain ⟨e, he, heq⟩ := List.mem_map.1 hnew
      obtain ⟨c, hc, rfl⟩ := List.mem_map.1 he
      have htarget := target_of_mem_equalities ((lasting_sublist _).subset hc)
      exact absurd ((congrArg Slot.attr heq).symm.trans htarget) hne
  · intro hold
    obtain ⟨e, he, heq⟩ := List.mem_map.1 hold
    refine Or.inl (List.mem_map.2 ⟨e, List.mem_filter.2 ⟨he, decide_eq_true ?_⟩, heq⟩)
    intro htarget
    rw [heq] at htarget
    exact absurd htarget hne

/-- **The slots taken away** are those of the outranked rules. -/
theorem mem_outranked_addAll_iff (h : s.Orderly) :
    slot ∈ (s.addAll a.target a.batch).outranked a.target (guardsOf a.batch) ↔
      ∃ c ∈ s.equalities.values, c.slot = slot ∧ a.Outranks s.equalities.values c := by
  have hbeside (attr : Attribute) (guard : Option String) (hne : attr ≠ a.target) :
      attr ∈ (s.addAll a.target a.batch).present a.target.axis guard ↔
        attr.axis = a.target.axis ∧ ∃ c ∈ s.equalities.values, c.slot = ⟨attr, guard⟩ := by
    rw [← h.mem_present_iff, ConstraintStore.mem_present_iff, ConstraintStore.mem_present_iff,
      contains_addAll_of_ne hne]
  rw [mem_outranked_iff a.settable fun guard hguard => contains_addAll_target hguard,
    mem_guardsOf_batch]
  constructor
  · rintro ⟨hguard, hne, hpresent, attr, hattr, hattrne, hrank⟩
    obtain ⟨haxis, c, hc, hslot⟩ := (hbeside _ _ hne).1 hpresent
    obtain rfl : c.slot = slot := hslot
    obtain ⟨haxis', d, hd, hdslot⟩ := (hbeside _ _ hattrne).1 hattr
    have hdtarget : d.target = attr := congrArg Slot.attr hdslot
    have hdguard : d.guardText = c.guardText := congrArg Slot.guard hdslot
    subst hdtarget
    exact ⟨c, hc, rfl, ⟨hne, haxis, hguard⟩, d, hd, ⟨hattrne, haxis', hdguard ▸ hguard⟩, hdguard,
      hrank⟩
  · rintro ⟨c, hc, rfl, ⟨hne, haxis, hguard⟩, d, hd, ⟨hdne, hdaxis, -⟩, hdguard, hrank⟩
    have hdslot : d.slot = ⟨d.target, c.guardText⟩ := by rw [Constraint.slot, hdguard]
    exact ⟨hguard, hne, (hbeside _ _ hne).2 ⟨haxis, c, hc, rfl⟩, d.target,
      (hbeside _ _ hdne).2 ⟨hdaxis, d, hd, hdslot⟩, hdne, hrank⟩

/-- **The equalities after an assignment**: those that it keeps, then the new ones. -/
theorem entries_assign (h : s.Orderly) (a : Assignment) :
    (s.assign a.target a.batch).1.equalities.entries =
      (s.equalities.values.filter (a.Keeps s.equalities.values) ++ lasting a.equalities).map
        fun c => (c.slot, c) := by
  rw [assign_eq]
  show ((s.addAll a.target a.batch).equalities.entries.filter _) = _
  rw [entries_addAll, List.filter_append, List.filter_filter, List.map_append]
  congr 1
  · conv_lhs => rw [h.entries_eq, List.filter_map]
    congr 1
    apply List.filter_congr
    intro c hc
    -- a slot belongs to one rule, so the slot is taken away exactly if the rule is outranked
    have hyields : c.slot ∈ (s.addAll a.target a.batch).outranked a.target (guardsOf a.batch) ↔
        a.Outranks s.equalities.values c := by
      rw [mem_outranked_addAll_iff h]
      constructor
      · rintro ⟨d, hd, hslot, houtranked⟩
        obtain rfl := List.inj_on_of_nodup_map h.nodup_slots hd hc hslot
        exact houtranked
      · exact fun houtranked => ⟨c, hc, rfl, houtranked⟩
    show (decide _ && decide _) = decide _
    rw [← Bool.decide_and, decide_eq_decide, hyields, Assignment.Keeps, and_comm]
    rfl
  · rw [List.filter_eq_self]
    intro e he
    obtain ⟨c, hc, rfl⟩ := List.mem_map.1 he
    refine decide_eq_true fun hmem => ?_
    obtain ⟨d, -, hslot, ⟨hne, -⟩, -⟩ := (mem_outranked_addAll_iff h).1 hmem
    have htarget := target_of_mem_equalities ((lasting_sublist _).subset hc)
    exact hne ((congrArg Slot.attr hslot).trans htarget)

/-- The same for the rules themselves: what the assignment keeps, and its own lasting equalities
behind them. -/
theorem values_assign (h : s.Orderly) (a : Assignment) :
    (s.assign a.target a.batch).1.equalities.values =
      s.equalities.values.filter (a.Keeps s.equalities.values) ++ lasting a.equalities := by
  rw [OrderedMap.values, entries_assign h, List.map_map]
  exact List.map_id _

/-- Bounds stay and are added to, whatever is pruned. -/
theorem bounds_assign (s : ConstraintStore) (a : Assignment) :
    (s.assign a.target a.batch).1.bounds = s.bounds ++ a.bounds := by
  rw [assign_eq]
  show (s.addAll a.target a.batch).bounds = _
  rw [addAll, bounds_foldl_add]
  split <;> rfl

/-- **The dropped attributes** are those of the outranked rules. -/
theorem dropped_perm (h : s.Orderly) (a : Assignment) :
    (s.assign a.target a.batch).2.Perm
      ((s.equalities.values.filter (a.Outranks s.equalities.values)).map Constraint.target) := by
  have hslots : ((s.addAll a.target a.batch).outranked a.target (guardsOf a.batch)).Perm
      ((s.equalities.values.filter (a.Outranks s.equalities.values)).map Constraint.slot) := by
    rw [List.perm_ext_iff_of_nodup
      (nodup_outranked (nodup_guardsOf _) a.settable fun guard hg => contains_addAll_target hg)
      (h.nodup_slots.sublist (List.filter_sublist.map _))]
    intro slot
    rw [mem_outranked_addAll_iff h, List.mem_map]
    simp only [List.mem_filter, decide_eq_true_iff, and_assoc, and_comm (a := Constraint.slot _ = _)]
  have hattrs := hslots.map Slot.attr
  rw [List.map_map] at hattrs
  rw [assign_eq]
  exact hattrs

/-! ## The groups after an assignment -/

/-- In a guard group one rival at most is not outranked. -/
theorem Orderly.eq_of_not_outranks {d : Constraint} (h : s.Orderly) (hc : c ∈ s.equalities.values)
    (hd : d ∈ s.equalities.values) (guards : c.guardText = d.guardText) (rival : a.Rivals c)
    (rival' : a.Rivals d) (best : ¬ a.Outranks s.equalities.values c)
    (best' : ¬ a.Outranks s.equalities.values d) : c = d := by
  have hcd : ¬ d.target.rank < c.target.rank := fun hlt =>
    best ⟨rival, d, hd, rival', guards.symm, hlt⟩
  have hdc : ¬ c.target.rank < d.target.rank := fun hlt =>
    best' ⟨rival', c, hc, rival, guards, hlt⟩
  have htargets : c.target = d.target :=
    Attribute.eq_of_rank_eq (rival.2.1.trans rival'.2.1.symm) (h.settable c hc) (h.settable d hd)
      (by omega)
  refine List.inj_on_of_nodup_map h.nodup_slots hc hd ?_
  rw [Constraint.slot, Constraint.slot, htargets, guards]

/-- Where an equality after an assignment comes from. -/
theorem mem_values_assign (h : s.Orderly)
    (hc : c ∈ (s.assign a.target a.batch).1.equalities.values) :
    (c ∈ s.equalities.values ∧ a.Keeps s.equalities.values c) ∨ c ∈ a.equalities := by
  rw [values_assign h, List.mem_append, List.mem_filter, decide_eq_true_iff] at hc
  exact hc.imp_right fun hnew => (lasting_sublist _).subset hnew

/-- Where the attributes of a group come from. -/
theorem mem_present_assign (h : s.Orderly) {axis : Axis} {guard : Option String} {attr : Attribute}
    (hattr : attr ∈ (s.assign a.target a.batch).1.present axis guard) :
    attr.axis = axis ∧ ∃ c, c.slot = ⟨attr, guard⟩ ∧
      ((c ∈ s.equalities.values ∧ a.Keeps s.equalities.values c) ∨ c ∈ a.equalities) := by
  obtain ⟨⟨haxis, -⟩, hkey⟩ := ConstraintStore.mem_present_iff.1 hattr
  rw [OrderedMap.contains_iff_mem_keys, OrderedMap.keys, entries_assign h, List.map_map,
    ← values_assign h] at hkey
  obtain ⟨c, hc, hslot⟩ := List.mem_map.1 hkey
  exact ⟨haxis, c, hslot, mem_values_assign h hc⟩

/-- Without repetition and with one other member at most besides `x`, a list has two members at
most. -/
theorem length_le_two {α : Type} {l : List α} {x : α} (distinct : l.Nodup)
    (other : ∀ y ∈ l, ∀ z ∈ l, y ≠ x → z ≠ x → y = z) : l.length ≤ 2 := by
  by_cases hother : ∃ y ∈ l, y ≠ x
  · obtain ⟨y, hy, hyx⟩ := hother
    have hsubset : l ⊆ [x, y] := by
      intro z hz
      by_cases hzx : z = x
      · exact hzx ▸ List.mem_cons_self
      · rw [other z hz y hy hzx hyx]
        exact List.mem_cons_of_mem _ List.mem_cons_self
    exact (List.subperm_of_subset distinct hsubset).length_le
  · have hsubset : l ⊆ [x] := by
      intro z hz
      have hzx : z = x := Classical.byContradiction fun hne => hother ⟨z, hz, hne⟩
      exact hzx ▸ List.mem_cons_self
    have hcount := (List.subperm_of_subset distinct hsubset).length_le
    rw [List.length_singleton] at hcount
    omega

/-- A group that the assignment writes has the target and one other at most; in the other groups
nothing is new. -/
theorem pairs_assign (h : s.Orderly) (a : Assignment) (axis : Axis) (guard : Option String) :
    ((s.assign a.target a.batch).1.present axis guard).length ≤ 2 := by
  have hnodup := (s.assign a.target a.batch).1.nodup_present axis guard
  by_cases hwritten : axis = a.target.axis ∧ guard ∈ a.equalities.map Constraint.guardText
  · obtain ⟨rfl, hguard⟩ := hwritten
    -- beside the target a group has only rivals that are not outranked, and of them one at most
    have hrival : ∀ attr ∈ (s.assign a.target a.batch).1.present a.target.axis guard,
        attr ≠ a.target → ∃ c ∈ s.equalities.values, c.slot = ⟨attr, guard⟩ ∧ a.Rivals c ∧
          ¬ a.Outranks s.equalities.values c := by
      intro attr hattr hne
      obtain ⟨haxis, c, hslot, hfrom⟩ := mem_present_assign h hattr
      have htarget : c.target = attr := congrArg Slot.attr hslot
      have hcguard : c.guardText = guard := congrArg Slot.guard hslot
      subst htarget hcguard
      rcases hfrom with ⟨hold, hkept⟩ | hnew
      · exact ⟨c, hold, rfl, ⟨hne, haxis, hguard⟩, hkept.2⟩
      · exact absurd (target_of_mem_equalities hnew) hne
    refine length_le_two (x := a.target) hnodup ?_
    intro x hx y hy hxne hyne
    obtain ⟨c, hc, hcslot, hcrival, hcbest⟩ := hrival x hx hxne
    obtain ⟨d, hd, hdslot, hdrival, hdbest⟩ := hrival y hy hyne
    have hguards : c.guardText = d.guardText :=
      (congrArg Slot.guard hcslot).trans (congrArg Slot.guard hdslot).symm
    obtain rfl := h.eq_of_not_outranks hc hd hguards hcrival hdrival hcbest hdbest
    exact congrArg Slot.attr (hcslot.symm.trans hdslot)
  -- in a group that is not written there is nothing that was not there before
  · have hsubset : (s.assign a.target a.batch).1.present axis guard ⊆ s.present axis guard := by
      intro attr hattr
      obtain ⟨haxis, c, hslot, ⟨hold, -⟩ | hnew⟩ := mem_present_assign h hattr
      · exact h.mem_present_iff.2 ⟨haxis, c, hold, hslot⟩
      · have htarget : attr = a.target :=
          (congrArg Slot.attr hslot).symm.trans (target_of_mem_equalities hnew)
        have hguard : guard ∈ a.equalities.map Constraint.guardText :=
          List.mem_map.2 ⟨c, hnew, congrArg Slot.guard hslot⟩
        exact absurd ⟨haxis ▸ htarget ▸ rfl, hguard⟩ hwritten
    have hcount := (List.subperm_of_subset hnodup hsubset).length_le
    have hpairs := h.pairs axis guard
    omega

/-- **An assignment leaves an orderly store.** Only the groups that it writes need an argument: in
each of them the target and one rival are left at most. -/
theorem Orderly.assign (h : s.Orderly) (a : Assignment) :
    (s.assign a.target a.batch).1.Orderly where
  placed := by
    intro e he
    rw [entries_assign h] at he
    obtain ⟨c, -, rfl⟩ := List.mem_map.1 he
    rfl
  equal := by
    intro c hc
    rcases mem_values_assign h hc with ⟨hold, -⟩ | hnew
    · exact h.equal c hold
    · exact of_decide_eq_true (List.mem_filter.1 hnew).2
  settable := by
    intro c hc
    rcases mem_values_assign h hc with ⟨hold, -⟩ | hnew
    · exact h.settable c hold
    · rw [target_of_mem_equalities hnew]
      exact a.settable
  bound := by
    intro c hc
    rw [bounds_assign] at hc
    rcases List.mem_append.1 hc with hold | hnew
    · exact h.bound c hold
    · exact of_decide_eq_true (List.mem_filter.1 hnew).2
  pairs := pairs_assign h a

/-! ## Listing -/

/-- **Every rule is listed once.** -/
theorem toList_perm (h : s.Orderly) : s.toList.Perm (s.equalities.values ++ s.bounds) := by
  have hgreater : s.boundsWith .greater =
      s.bounds.filter fun c => !(c.comparison == .less) := by
    apply List.filter_congr
    intro c hc
    have hbound := h.bound c hc
    cases hside : c.comparison with
    | equal => exact absurd hside hbound
    | less => rfl
    | greater => rfl
  rw [toList, List.append_assoc, hgreater]
  exact (List.filter_append_perm _ s.bounds).append_left _

/-- The equalities of the listing are those of the store, in their order. -/
theorem filter_equal_toList (h : s.Orderly) :
    s.toList.filter (fun c => c.comparison = .equal) = s.equalities.values := by
  have hequalities : s.equalities.values.filter (fun c => c.comparison = .equal) =
      s.equalities.values := List.filter_eq_self.2 fun c hc => decide_eq_true (h.equal c hc)
  have hbounds (side : Comparison) :
      (s.boundsWith side).filter (fun c => c.comparison = .equal) = [] := by
    rw [List.filter_eq_nil_iff]
    intro c hc hequal
    exact h.bound c (List.mem_filter.1 hc).1 (of_decide_eq_true hequal)
  rw [toList, List.filter_append, List.filter_append, hequalities, hbounds, hbounds, List.append_nil,
    List.append_nil]

/-- No guard group has more than two equalities of an axis. -/
theorem Orderly.length_group_le (h : s.Orderly) (axis : Axis) (guard : Option String) :
    (s.equalities.values.filter fun c =>
      c.target.axis = axis ∧ c.guardText = guard).length ≤ 2 := by
  have hnodup : ((s.equalities.values.filter fun c =>
      c.target.axis = axis ∧ c.guardText = guard).map Constraint.target).Nodup := by
    refine List.Nodup.map_on ?_ ((List.Nodup.of_map _ h.nodup_slots).filter _)
    intro c hc d hd htargets
    rw [List.mem_filter, decide_eq_true_iff] at hc hd
    refine List.inj_on_of_nodup_map h.nodup_slots hc.1 hd.1 ?_
    rw [Constraint.slot, Constraint.slot, htargets, hc.2.2, hd.2.2]
  have hsubset : (s.equalities.values.filter fun c =>
      c.target.axis = axis ∧ c.guardText = guard).map Constraint.target ⊆ s.present axis guard := by
    intro attr hattr
    obtain ⟨c, hc, rfl⟩ := List.mem_map.1 hattr
    rw [List.mem_filter, decide_eq_true_iff] at hc
    refine h.mem_present_iff.2 ⟨hc.2.1, c, hc.1, ?_⟩
    rw [Constraint.slot, hc.2.2]
  have hcount := (List.subperm_of_subset hnodup hsubset).length_le
  rw [List.length_map] at hcount
  have hpairs := h.pairs axis guard
  omega

/-! ## What one assignment leaves -/

/-- In an orderly store a slot is looked up among the values. -/
theorem Orderly.get?_eq (h : s.Orderly) (slot : Slot) :
    s.equalities.get? slot = s.equalities.values.find? fun c => c.slot = slot := by
  cases hfind : s.equalities.values.find? fun c => c.slot = slot with
  | some c =>
    have hslot := List.find?_some hfind
    exact h.get?_eq_some_iff.2 ⟨List.mem_of_find?_eq_some hfind, of_decide_eq_true hslot⟩
  | none =>
    rw [← Option.not_isSome_iff_eq_none]
    intro hfound
    obtain ⟨c, hc, hslot⟩ := h.contains_iff.1 hfound
    exact List.find?_eq_none.1 hfind c hc (decide_eq_true hslot)

/-- **The target** has the last equality of the batch in every guard group, and no other. -/
theorem get?_target_assign (h : s.Orderly) (a : Assignment) (written : a.equalities ≠ [])
    (guard : Option String) :
    (s.assign a.target a.batch).1.equalities.get? ⟨a.target, guard⟩ =
      (a.equalities.filter fun c => c.guardText = guard).getLast? := by
  have hreplaced : (s.equalities.values.filter (a.Keeps s.equalities.values)).find?
      (fun c => c.slot = ⟨a.target, guard⟩) = none := by
    rw [List.find?_eq_none]
    intro c hc hslot
    have hkept := of_decide_eq_true (List.mem_filter.1 hc).2
    exact written (hkept.1 (congrArg Slot.attr (of_decide_eq_true hslot)))
  have hguards : a.equalities.filter (fun c => c.slot = ⟨a.target, guard⟩) =
      a.equalities.filter fun c => c.guardText = guard := by
    apply List.filter_congr
    intro c hc
    rw [decide_eq_decide, Constraint.slot, target_of_mem_equalities hc, Slot.mk.injEq]
    exact and_iff_right rfl
  rw [(h.assign a).get?_eq, values_assign h, List.find?_append, hreplaced, Option.none_or,
    find?_lasting, ← hguards, ← List.head?_filter, List.filter_reverse, List.head?_reverse]

/-- **The best rival** in a guard group is the one that is left. -/
theorem exists_survivor (h : s.Orderly) (a : Assignment) {d : Constraint}
    (hd : d ∈ s.equalities.values) (rival : a.Rivals d) :
    ∃ c ∈ s.equalities.values, c ∈ (s.assign a.target a.batch).1.equalities.values ∧
      a.Rivals c ∧ c.guardText = d.guardText ∧ c.target.rank ≤ d.target.rank ∧
      ∀ e ∈ (s.assign a.target a.batch).1.equalities.values,
        a.Rivals e → e.guardText = d.guardText → e = c := by
  induction hrank : d.target.rank using Nat.strongRecOn generalizing d with
  | _ n ih =>
    subst hrank
    by_cases hbetter : a.Outranks s.equalities.values d
    · obtain ⟨-, e, he, hrival, hguard, hlt⟩ := hbetter
      obtain ⟨c, hc, hleft, hcrival, hcguard, hcrank, honly⟩ := ih _ hlt he hrival rfl
      exact ⟨c, hc, hleft, hcrival, hcguard.trans hguard, by omega, hguard ▸ honly⟩
    · have hleft : d ∈ (s.assign a.target a.batch).1.equalities.values := by
        rw [values_assign h]
        refine List.mem_append_left _ (List.mem_filter.2 ⟨hd, decide_eq_true ?_⟩)
        exact ⟨fun htarget => absurd htarget rival.1, hbetter⟩
      refine ⟨d, hd, hleft, rival, rfl, Nat.le_refl _, ?_⟩
      intro e he hrival hguard
      rcases mem_values_assign h he with ⟨hold, hkept⟩ | hnew
      · exact h.eq_of_not_outranks hold hd hguard hrival rival hkept.2 hbetter
      · exact absurd (target_of_mem_equalities hnew) hrival.1

/-- Without an equality in the batch the equalities stay as they are. -/
theorem assign_of_no_equality (h : s.Orderly) (a : Assignment) (none : a.equalities = []) :
    (s.assign a.target a.batch).1.equalities = s.equalities ∧
      (s.assign a.target a.batch).2 = [] := by
  have hoverlooks : ∀ c, ¬ a.Outranks s.equalities.values c := by
    rintro c ⟨⟨-, -, hguard⟩, -⟩
    rw [none] at hguard
    exact absurd hguard (List.not_mem_nil)
  constructor
  · apply OrderedMap.ext
    have hkept : s.equalities.values.filter (a.Keeps s.equalities.values) = s.equalities.values :=
      List.filter_eq_self.2 fun c _ => decide_eq_true ⟨fun _ => none, hoverlooks c⟩
    rw [entries_assign h, hkept, none, h.entries_eq]
    exact congrArg _ (List.append_nil _)
  · have hdropped := dropped_perm h a
    rw [List.filter_eq_nil_iff.2 fun c _ houtranked =>
      hoverlooks c (of_decide_eq_true houtranked)] at hdropped
    exact hdropped.eq_nil

end ConstraintStore

end AnchorLayout
