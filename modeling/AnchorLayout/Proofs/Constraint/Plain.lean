import AnchorLayout.Proofs.Constraint.Orderly
import AnchorLayout.Proofs.Constraint.Renaming
/-!
# Unguarded equalities

  One more unguarded equality leaves one other of its axis at most, the best one by priority.  Which
  of the others has been given last makes no difference, so of two that are given together the first
  may give way to one that was there before.

  1. **Program** — `ConstraintStore.give`, the assignment of one rule, and `giveAll`, of several.
  2. **Specification** — `plain?`, the unguarded equality of an attribute; `best?`, the attribute
     that stays beside a new one.
  3. **One equality (`plain?_give`)** — the new one is there, the best of the others stays, and the
     other axis stays as it is.
  4. **The crux (`plain?_give_give`)** — after the first of two equalities the best of the others
     may be one from before.
-/

namespace AnchorLayout

/-- An unguarded equality for an attribute that may be given. -/
structure Constraint.IsPlain (c : Constraint) : Prop where
  equal : c.comparison = .equal
  unguarded : c.condition = none
  settable : c.target.isSettable = true

namespace ConstraintStore

/-- **The unguarded equality** of an attribute. -/
def plain? (s : ConstraintStore) (attr : Attribute) : Option Constraint :=
  s.toList.find? fun c => c.target = attr ∧ c.comparison = .equal ∧ c.condition = none

/-- **The attribute that stays** beside a new equality: the first in priority of the others on the
axis that have an unguarded equality. -/
def best? (s : ConstraintStore) (attr : Attribute) : Option Attribute :=
  attr.axis.priority.find? fun other => other ≠ attr ∧ (s.plain? other).isSome

/-- The store with one more rule, assigned to its target. -/
def give (s : ConstraintStore) (c : Constraint) : ConstraintStore := (s.assign c.target [c]).1

/-- The store with some more rules, one after the other. -/
def giveAll (s : ConstraintStore) (rules : List Constraint) : ConstraintStore := rules.foldl give s

variable {s s' : ConstraintStore} {c d : Constraint} {attr : Attribute} {axis : Axis}

/-! ## Where it is found -/

theorem guardText_eq_none_iff : c.guardText = none ↔ c.condition = none := Option.map_eq_none_iff

/-- In an orderly store it is in the slot of the attribute. -/
theorem Orderly.plain?_eq (h : s.Orderly) (attr : Attribute) :
    s.plain? attr = s.equalities.get? ⟨attr, none⟩ := by
  have hplain : ∀ c ∈ s.equalities.values,
      (c.target = attr ∧ c.comparison = .equal ∧ c.condition = none ↔ c.slot = ⟨attr, none⟩) := by
    intro c hc
    rw [Constraint.slot, Slot.mk.injEq, guardText_eq_none_iff]
    exact and_congr_right fun _ => and_iff_right (h.equal c hc)
  have hbounds (side : Comparison) : (s.boundsWith side).find? (fun c =>
      c.target = attr ∧ c.comparison = .equal ∧ c.condition = none) = none := by
    rw [List.find?_eq_none]
    intro c hc hfound
    exact h.bound c (List.mem_filter.1 hc).1 (of_decide_eq_true hfound).2.1
  rw [plain?, h.get?_eq, toList, List.find?_append, List.find?_append, hbounds, hbounds,
    Option.or_none, Option.or_none, ← List.head?_filter, ← List.head?_filter]
  congr 1
  exact List.filter_congr fun c hc => decide_eq_decide.2 (hplain c hc)

/-- The unguarded equality is the rule in that slot, and no other. -/
theorem Orderly.plain?_eq_some_iff (h : s.Orderly) :
    s.plain? attr = some c ↔ c ∈ s.equalities.values ∧ c.slot = ⟨attr, none⟩ := by
  rw [h.plain?_eq, h.get?_eq_some_iff]

/-- Renaming anchors leaves it where it is. -/
theorem Orderly.plain?_mapAnchors (h : s.Orderly) (f : Anchor → Anchor) (attr : Attribute) :
    (s.mapAnchors f).plain? attr = (s.plain? attr).map fun c => c.mapAnchors f := by
  rw [(h.mapAnchors f).plain?_eq, h.plain?_eq]
  exact OrderedMap.get?_mapValues s.equalities _ _

/-! ## The best one -/

/-- What is found first in a sorted list is the least. -/
theorem find?_eq_some_iff_of_pairwise {α : Type} {rank : α → Nat} {p : α → Bool} {l : List α}
    {a : α} (sorted : l.Pairwise fun a b => rank a < rank b) :
    l.find? p = some a ↔ a ∈ l ∧ p a = true ∧ ∀ b ∈ l, p b = true → rank a ≤ rank b := by
  induction l with
  | nil => simp
  | cons x rest ih =>
    obtain ⟨hx, hrest⟩ := List.pairwise_cons.1 sorted
    by_cases hp : p x = true
    · rw [List.find?_cons_of_pos hp]
      constructor
      · rintro ⟨⟩
        exact ⟨List.mem_cons_self, hp, List.forall_mem_cons.2
          ⟨fun _ => Nat.le_refl _, fun b hb _ => Nat.le_of_lt (hx b hb)⟩⟩
      · rintro ⟨ha, -, hleast⟩
        rcases List.mem_cons.1 ha with rfl | ha
        · rfl
        · exact absurd (hx a ha) (Nat.not_lt.2 (hleast x List.mem_cons_self hp))
    · rw [List.find?_cons_of_neg hp, ih hrest, List.forall_mem_cons, List.mem_cons]
      constructor
      · rintro ⟨ha, hpa, hleast⟩
        exact ⟨Or.inr ha, hpa, fun h => absurd h hp, hleast⟩
      · rintro ⟨rfl | ha, hpa, -, hleast⟩
        · exact absurd hpa hp
        · exact ⟨ha, hpa, hleast⟩

/-- The best one is the attribute of least rank among those of the axis that have an unguarded
equality. -/
theorem best?_eq_some_iff {best : Attribute} : s.best? attr = some best ↔
    best ∈ attr.axis.priority ∧ (best ≠ attr ∧ (s.plain? best).isSome = true) ∧
      ∀ other ∈ attr.axis.priority, other ≠ attr ∧ (s.plain? other).isSome = true →
        best.rank ≤ other.rank := by
  rw [best?, find?_eq_some_iff_of_pairwise attr.axis.pairwise_priority]
  simp only [decide_eq_true_iff]

/-- It is about the equalities of one axis. -/
theorem best?_congr (same : ∀ other, other.axis = attr.axis →
    (s'.plain? other).isSome = (s.plain? other).isSome) : s'.best? attr = s.best? attr := by
  rw [best?, best?, ← List.head?_filter, ← List.head?_filter]
  congr 1
  refine List.filter_congr fun other hother => ?_
  rw [same other (Axis.mem_priority_iff.1 hother).1]

/-- Who is best is a matter of slots, not of anchors. -/
theorem Orderly.best?_mapAnchors (h : s.Orderly) (f : Anchor → Anchor) (attr : Attribute) :
    (s.mapAnchors f).best? attr = s.best? attr :=
  best?_congr fun other _ => by rw [h.plain?_mapAnchors, Option.isSome_map]

/-! ## One equality -/

/-- The assignment of one equality. -/
def assignmentOf (hc : c.IsPlain) : Assignment :=
  ⟨c.target, [c], hc.settable, List.forall_mem_singleton.2 rfl⟩

/-- One equality is all that such an assignment brings. -/
theorem equalities_assignmentOf (hc : c.IsPlain) : (assignmentOf hc).equalities = [c] :=
  List.filter_cons_of_pos (decide_eq_true hc.equal)

/-- One more rule leaves an orderly store, as any assignment does. -/
theorem Orderly.give (h : s.Orderly) (hc : c.IsPlain) : (s.give c).Orderly :=
  h.assign (assignmentOf hc)

/-- **Outranked** by one more equality are those on its axis that are not the best of the others. -/
theorem Orderly.outranks_iff (h : s.Orderly) (hc : c.IsPlain) (hd : d ∈ s.equalities.values)
    (hslot : d.slot = ⟨attr, none⟩) (hne : attr ≠ c.target) :
    (assignmentOf hc).Outranks s.equalities.values d ↔
      attr.axis = c.target.axis ∧ s.best? c.target ≠ some attr := by
  obtain ⟨htarget, hguard⟩ := Slot.mk.inj hslot
  have hwritten : none ∈ (assignmentOf hc).equalities.map Constraint.guardText := by
    rw [equalities_assignmentOf, List.map_singleton, guardText_eq_none_iff.2 hc.unguarded]
    exact List.mem_singleton_self none
  have hpriority {e : Constraint} (he : e ∈ s.equalities.values)
      (haxis : e.target.axis = c.target.axis) : e.target ∈ c.target.axis.priority :=
    Axis.mem_priority_iff.2 ⟨haxis, h.settable e he⟩
  constructor
  -- the rival with the better rank would have been found first
  · rintro ⟨⟨-, haxis, -⟩, e, he, ⟨hene, heaxis, -⟩, heguard, hlt⟩
    refine ⟨htarget ▸ haxis, fun hbest => ?_⟩
    have hplain : s.plain? e.target = some e :=
      h.plain?_eq_some_iff.2 ⟨he, by rw [Constraint.slot, heguard, hguard]⟩
    have hle := (best?_eq_some_iff.1 hbest).2.2 e.target (hpriority he heaxis)
      ⟨hene, Option.isSome_of_eq_some hplain⟩
    rw [htarget] at hlt
    omega
  · rintro ⟨haxis, hbest⟩
    have hrival : (assignmentOf hc).Rivals d :=
      ⟨htarget ▸ hne, htarget ▸ haxis, hguard ▸ hwritten⟩
    refine ⟨hrival, Classical.byContradiction fun hnone => hbest ?_⟩
    have hplain : s.plain? attr = some d := h.plain?_eq_some_iff.2 ⟨hd, hslot⟩
    refine best?_eq_some_iff.2 ⟨htarget ▸ hpriority hd (htarget ▸ haxis),
      ⟨hne, Option.isSome_of_eq_some hplain⟩, fun other hother hfound => ?_⟩
    obtain ⟨e, he⟩ := Option.isSome_iff_exists.1 hfound.2
    obtain ⟨hmem, heslot⟩ := h.plain?_eq_some_iff.1 he
    obtain ⟨rfl, heguard⟩ := Slot.mk.inj heslot
    -- one of lesser rank would be a rival that outranks it
    refine Nat.not_lt.1 fun hlt => hnone ⟨e, hmem, ⟨hfound.1, ?_, heguard ▸ hwritten⟩,
      heguard.trans hguard.symm, htarget ▸ hlt⟩
    exact (Axis.mem_priority_iff.1 hother).1

/-- **One more equality** is there, and of the others on its axis the best one stays. -/
theorem Orderly.plain?_give (h : s.Orderly) (hc : c.IsPlain) (attr : Attribute) :
    (s.give c).plain? attr =
      if attr = c.target then some c
      else if attr.axis = c.target.axis ∧ s.best? c.target ≠ some attr then none
      else s.plain? attr := by
  by_cases hattr : attr = c.target
  · subst hattr
    rw [if_pos rfl, (h.give hc).plain?_eq]
    have hgroup : [c].filter (fun c => c.guardText = none) = [c] :=
      List.filter_cons_of_pos (decide_eq_true (guardText_eq_none_iff.2 hc.unguarded))
    refine (get?_target_assign h (assignmentOf hc) ?_ none).trans ?_
    · rw [equalities_assignmentOf]
      exact List.cons_ne_nil c []
    · rw [equalities_assignmentOf, hgroup]
      rfl
  · rw [if_neg hattr]
    have hvalues : (s.give c).equalities.values =
        s.equalities.values.filter ((assignmentOf hc).Keeps s.equalities.values) ++ [c] := by
      rw [ConstraintStore.give]
      refine (values_assign h (assignmentOf hc)).trans ?_
      rw [equalities_assignmentOf]
      rfl
    -- what is found afterwards was found before, and is not outranked
    have hkept (d : Constraint) : (s.give c).plain? attr = some d ↔ s.plain? attr = some d ∧
        ¬ (attr.axis = c.target.axis ∧ s.best? c.target ≠ some attr) := by
      rw [(h.give hc).plain?_eq_some_iff, h.plain?_eq_some_iff, hvalues, List.mem_append,
        List.mem_filter, List.mem_singleton, decide_eq_true_iff]
      constructor
      · rintro ⟨⟨hd, -, hbest⟩ | rfl, hslot⟩
        · exact ⟨⟨hd, hslot⟩, fun h' => hbest ((h.outranks_iff hc hd hslot hattr).2 h')⟩
        · exact absurd (congrArg Slot.attr hslot).symm hattr
      · rintro ⟨⟨hd, hslot⟩, hbest⟩
        refine ⟨Or.inl ⟨hd, fun htarget => ?_, fun h' => ?_⟩, hslot⟩
        · exact absurd ((congrArg Slot.attr hslot).symm.trans htarget) hattr
        · exact hbest ((h.outranks_iff hc hd hslot hattr).1 h')
    refine Option.ext fun d => ?_
    rw [hkept]
    split
    · next hout => exact ⟨fun h' => absurd hout h'.2, nofun⟩
    · next hin => exact and_iff_left hin

/-- **What an axis has** after one more equality. -/
theorem Orderly.isSome_plain?_give (h : s.Orderly) (hc : c.IsPlain)
    (haxis : attr.axis = c.target.axis) :
    ((s.give c).plain? attr).isSome = true ↔ attr = c.target ∨ s.best? c.target = some attr := by
  rw [h.plain?_give hc]
  by_cases hattr : attr = c.target
  · rw [if_pos hattr]
    exact ⟨fun _ => Or.inl hattr, fun _ => rfl⟩
  · rw [if_neg hattr]
    split
    · next hout => exact ⟨nofun, fun hor => absurd (hor.resolve_left hattr) hout.2⟩
    · next hin =>
      have hbest : s.best? c.target = some attr :=
        Classical.byContradiction fun hne => hin ⟨haxis, hne⟩
      exact ⟨fun _ => Or.inr hbest, fun _ => (best?_eq_some_iff.1 hbest).2.1.2⟩

/-! ## Two equalities -/

/-- **An attribute gives way** when another one of its axis is given after it: there is one from
before that is better, and it is not the one that is given. -/
def GivesWay (s : ConstraintStore) (attr last : Attribute) : Prop :=
  ∃ best, s.best? attr = some best ∧ best ≠ last ∧ best.rank < attr.rank

instance (s : ConstraintStore) (attr last : Attribute) : Decidable (s.GivesWay attr last) :=
  decidable_of_iff ((s.best? attr).any fun best => best ≠ last ∧ best.rank < attr.rank) <| by
    simp only [Option.any_eq_true, decide_eq_true_iff, GivesWay]

/-- Renaming anchors makes no difference to that. -/
theorem Orderly.givesWay_mapAnchors (h : s.Orderly) (f : Anchor → Anchor) (attr last : Attribute) :
    (s.mapAnchors f).GivesWay attr last ↔ s.GivesWay attr last := by
  rw [GivesWay, GivesWay, h.best?_mapAnchors]

/-- **Two equalities on one axis**: the first one is still there after the second, unless it has
given way to one from before. -/
theorem Orderly.plain?_give_give (h : s.Orderly) (hc : c.IsPlain) (hd : d.IsPlain)
    (haxis : c.target.axis = d.target.axis) (hne : c.target ≠ d.target) :
    ((s.give c).give d).plain? c.target =
      if s.GivesWay c.target d.target then none else some c := by
  have hbest : (s.give c).best? d.target = some c.target ↔ ¬ s.GivesWay c.target d.target := by
    rw [best?_eq_some_iff, ← haxis]
    constructor
    · rintro ⟨-, -, hleast⟩ ⟨best, hbest, hlast, hlt⟩
      have hpriority := (best?_eq_some_iff.1 hbest).1
      have hon := (Axis.mem_priority_iff.1 hpriority).1
      have hfound := (h.isSome_plain?_give hc hon).2 (Or.inr hbest)
      exact absurd hlt (Nat.not_lt.2 (hleast best hpriority ⟨hlast, hfound⟩))
    · intro hstays
      have hfound := (h.isSome_plain?_give hc rfl).2 (Or.inl rfl)
      refine ⟨Axis.mem_priority_iff.2 ⟨rfl, hc.settable⟩, ⟨hne, hfound⟩, ?_⟩
      rintro other hother ⟨hlast, hplain⟩
      rcases (h.isSome_plain?_give hc (Axis.mem_priority_iff.1 hother).1).1 hplain with rfl | hold
      · exact Nat.le_refl _
      · exact Nat.not_lt.1 fun hlt => hstays ⟨other, hold, hlast, hlt⟩
  rw [(h.give hc).plain?_give hd, if_neg hne, h.plain?_give hc, if_pos rfl]
  by_cases hgives : s.GivesWay c.target d.target
  · rw [if_pos hgives, if_pos ⟨haxis, fun heq => hbest.1 heq hgives⟩]
  · rw [if_neg hgives, if_neg fun hout => hout.2 (hbest.2 hgives)]

/-! ## Several equalities -/

/-- Two stores with the same unguarded equalities on an axis. -/
def SamePlain (axis : Axis) (s s' : ConstraintStore) : Prop :=
  ∀ attr, attr.axis = axis → s'.plain? attr = s.plain? attr

/-- **Another axis** stays as it is. -/
theorem Orderly.samePlain_give (h : s.Orderly) (hc : c.IsPlain) (haxis : c.target.axis ≠ axis) :
    SamePlain axis s (s.give c) := by
  intro attr hattr
  have hne : attr ≠ c.target := fun heq => haxis (heq ▸ hattr)
  rw [h.plain?_give hc, if_neg hne, if_neg fun hout => haxis (hout.1.symm.trans hattr)]

/-- What one more equality does to its axis depends on what is there on the axis. -/
theorem SamePlain.give (same : SamePlain axis s s') (h : s.Orderly) (h' : s'.Orderly)
    (hc : c.IsPlain) (haxis : c.target.axis = axis) : SamePlain axis (s.give c) (s'.give c) := by
  intro attr hattr
  have hbest : s'.best? c.target = s.best? c.target :=
    best?_congr fun other hother => by rw [same other (hother.trans haxis)]
  rw [h'.plain?_give hc, h.plain?_give hc, hbest, same attr hattr]

/-- **Only the rules of its axis** matter to an attribute. -/
theorem Orderly.plain?_giveAll (h : s.Orderly) {rules : List Constraint}
    (plain : ∀ c ∈ rules, c.IsPlain) (attr : Attribute) :
    (s.giveAll rules).plain? attr =
      (s.giveAll (rules.filter fun c => c.target.axis = attr.axis)).plain? attr := by
  have hrun (s s' : ConstraintStore) (h : s.Orderly) (h' : s'.Orderly)
      (same : SamePlain attr.axis s' s) : SamePlain attr.axis
        (s'.giveAll (rules.filter fun c => c.target.axis = attr.axis)) (s.giveAll rules) := by
    induction rules generalizing s s' with
    | nil => exact same
    | cons c rest ih =>
      obtain ⟨hc, hrest⟩ := List.forall_mem_cons.1 plain
      by_cases haxis : c.target.axis = attr.axis
      · rw [List.filter_cons_of_pos (by simpa using haxis)]
        exact ih hrest (s.give c) (s'.give c) (h.give hc) (h'.give hc) (same.give h' h hc haxis)
      · rw [List.filter_cons_of_neg (by simpa using haxis)]
        refine ih hrest (s.give c) s' (h.give hc) h' fun other hother => ?_
        exact (h.samePlain_give hc haxis other hother).trans (same other hother)
  exact hrun s s h h (fun _ _ => rfl) attr rfl

end ConstraintStore

end AnchorLayout
