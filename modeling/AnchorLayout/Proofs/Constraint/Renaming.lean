import AnchorLayout.Proofs.Constraint.Assignment
/-!
# Renamed anchors

  A view that moves takes its rules along: their anchors on what the view has been rendered under are
  renamed, and so are those of rules that are assigned to it.

  1. **Program** — `Term.mapAnchors`, `ConstraintStore.mapAnchors`.
  2. **Specification** — `Anchor.between`: the renaming from one view to another one, and none where
     one of them is missing.
  3. **Laws** — `mapAnchors_mapAnchors` and `mapAnchors_congr`, for expressions, rules and stores.
  4. **The crux (`assign_mapAnchors`)** — a renaming changes no slot, no side of a bound and no
     order, so it makes no difference whether it comes before an assignment or after it.
-/

namespace AnchorLayout

/-! ## Renamings -/

/-- **The renaming between two views**, where both of them are there. -/
def Anchor.between (source target : Option ViewId) : Anchor → Anchor :=
  match source, target with
  | some source, some target => Anchor.rename source target
  | _, _ => id

namespace Anchor

variable {u v : ViewId} {source target : Option ViewId}

/-- A renaming leaves the anchors on other views alone. -/
theorem rename_of_ne {a : Anchor} (h : a.view ≠ u) : a.rename u v = a := if_neg h

/-- A view that takes its own place renames nothing, so a move to where the view is already needs no
case of its own. -/
@[simp] theorem rename_self (u : ViewId) (a : Anchor) : a.rename u u = a := by
  rw [rename]
  split
  · next h => rw [← h]
  · rfl

/-- The same for a parent that stays what it was, be it there or not. -/
@[simp] theorem between_self (source : Option ViewId) : between source source = id := by
  cases source with
  | none => rfl
  | some u => exact funext (rename_self u)

/-- Nothing is on the source of a renaming that leads elsewhere. -/
theorem view_rename_ne (h : u ≠ v) (a : Anchor) : (a.rename u v).view ≠ u := by
  rw [rename]
  split
  · exact fun heq => h heq.symm
  · next hne => exact hne

/-- **A renaming is undone** by the one the other way round, on anchors that are not on its target. -/
theorem between_between {a : Anchor} (h : source = target ∨ target ≠ some a.view) :
    between target source (between source target a) = a := by
  rcases h with rfl | h
  · rw [between_self]
    rfl
  · cases source with
    | none => cases target <;> rfl
    | some u =>
      cases target with
      | none => rfl
      | some v =>
        have hne : a.view ≠ v := fun heq => h (congrArg some heq.symm)
        show (a.rename u v).rename v u = a
        by_cases hu : a.view = u
        · have hrenamed : a.rename u v = { a with view := v } := if_pos hu
          rw [hrenamed, rename, if_pos rfl, ← hu]
        · rw [rename_of_ne hu, rename_of_ne hne]

/-- A renaming that has been undone is done again. -/
theorem between_again (source target : Option ViewId) (a : Anchor) :
    between source target (between target source (between source target a)) =
      between source target a := by
  cases target with
  | none => cases source <;> rfl
  | some v =>
    cases source with
    | none => rfl
    | some u =>
      refine between_between ?_
      by_cases h : u = v
      · exact Or.inl (congrArg some h.symm)
      · exact Or.inr fun heq => view_rename_ne h a (Option.some.inj heq).symm

end Anchor

/-! ## Expressions and rules -/

namespace Term

variable {ν : Type} {f g : Anchor → Anchor} {v : ViewId} {e : Term ν}

/-- What the program asks of an expression before it renames anything: is there an anchor on the
view? -/
theorem mentions_iff : e.mentions v = true ↔ ∃ a ∈ e.anchors, a.view = v := by
  simp only [mentions, List.any_eq_true, beq_iff_eq]

/-- Only what is done to the anchors of an expression matters. -/
theorem mapAnchors_congr (h : ∀ a ∈ e.anchors, f a = g a) : e.mapAnchors f = e.mapAnchors g := by
  induction e using Term.induction with
  | num value => rfl
  | gap => rfl
  | anchor a => exact congrArg Term.anchor (h a List.mem_cons_self)
  | binary op lhs rhs ihl ihr =>
    obtain ⟨hl, hr⟩ := List.forall_mem_append.1 h
    rw [mapAnchors, mapAnchors, ihl hl, ihr hr]
  | call func args ih =>
    rw [mapAnchors, mapAnchors, mapAnchorsOfAll_eq_map, mapAnchorsOfAll_eq_map]
    refine congrArg (call func) (List.map_congr_left fun arg harg => ih arg harg fun a ha => ?_)
    exact h a (mem_anchorsOfAll.2 ⟨arg, harg, ha⟩)

/-- Renaming by nothing is doing nothing; it closes the cases in which a view stays with its
parent. -/
theorem mapAnchors_id (e : Term ν) : e.mapAnchors id = e := by
  induction e using Term.induction with
  | num value => rfl
  | gap => rfl
  | anchor a => rfl
  | binary op lhs rhs ihl ihr => rw [mapAnchors, ihl, ihr]
  | call func args ih =>
    rw [mapAnchors, mapAnchorsOfAll_eq_map, List.map_congr_left ih, List.map_id']

/-- **Two renamings are one**, so that a view moved twice can be compared with a view moved
once. -/
theorem mapAnchors_mapAnchors (f g : Anchor → Anchor) (e : Term ν) :
    (e.mapAnchors f).mapAnchors g = e.mapAnchors (g ∘ f) := by
  induction e using Term.induction with
  | num value => rfl
  | gap => rfl
  | anchor a => rfl
  | binary op lhs rhs ihl ihr => rw [mapAnchors, mapAnchors, mapAnchors, ihl, ihr]
  | call func args ih =>
    rw [mapAnchors, mapAnchors, mapAnchors, mapAnchorsOfAll_eq_map, mapAnchorsOfAll_eq_map,
      mapAnchorsOfAll_eq_map, List.map_map]
    exact congrArg (call func) (List.map_congr_left ih)

/-- An expression that has no anchor on the renamed view is left as it is. -/
theorem mapAnchors_of_fixed (h : ∀ a ∈ e.anchors, f a = a) : e.mapAnchors f = e :=
  (mapAnchors_congr h).trans (mapAnchors_id e)

end Term

namespace Constraint

variable {f g : Anchor → Anchor} {c : Constraint}

/-- For a rule only its value counts: the anchors of a guard are not renamed. -/
theorem mapAnchors_congr (h : ∀ a ∈ c.value.anchors, f a = g a) :
    c.mapAnchors f = c.mapAnchors g := by
  rw [mapAnchors, mapAnchors, Term.mapAnchors_congr h]

/-- A rule whose value is not on the renamed view stays as it is, its guard too. -/
theorem mapAnchors_of_fixed (h : ∀ a ∈ c.value.anchors, f a = a) : c.mapAnchors f = c := by
  rw [mapAnchors, Term.mapAnchors_of_fixed h]

theorem mapAnchors_id (c : Constraint) : c.mapAnchors id = c := mapAnchors_of_fixed fun _ _ => rfl

/-- The rules of a batch that nothing is renamed in, as it is before a first container. -/
theorem map_mapAnchors_id (batch : List Constraint) :
    (batch.map fun c => c.mapAnchors id) = batch := by
  rw [funext mapAnchors_id, List.map_id']

/-- Two renamings of a rule are one, as for its value. -/
theorem mapAnchors_mapAnchors (f g : Anchor → Anchor) (c : Constraint) :
    (c.mapAnchors f).mapAnchors g = c.mapAnchors (g ∘ f) := by
  simp only [mapAnchors, Term.mapAnchors_mapAnchors]

end Constraint

/-! ## Stores -/

namespace ConstraintStore

variable {f g : Anchor → Anchor} {s : ConstraintStore} {v : ViewId}

/-- **The rules of a renamed store** are its rules, renamed, in the order they had.  What follows is
read off this equation. -/
theorem rules_mapAnchors (s : ConstraintStore) (f : Anchor → Anchor) :
    (s.mapAnchors f).rules = s.rules.map fun c => c.mapAnchors f := by
  rw [rules, rules, List.map_append, mapAnchors, OrderedMap.values_mapValues]

/-- Whether the store has an anchor on a view, which decides whether a move marks the view as
changed. -/
theorem mentions_iff : s.mentions v = true ↔ ∃ c ∈ s.rules, ∃ a ∈ c.value.anchors, a.view = v := by
  simp only [mentions, rules, List.any_eq_true, Term.mentions_iff]

/-- The form in which a move that renames nothing uses it. -/
theorem mentions_eq_false_iff :
    s.mentions v = false ↔ ∀ c ∈ s.rules, ∀ a ∈ c.value.anchors, a.view ≠ v := by
  rw [← Bool.not_eq_true, mentions_iff]
  simp only [not_exists, not_and, ne_eq]

/-- On a store only what is done to the anchors of its rules matters. -/
theorem mapAnchors_congr (h : ∀ c ∈ s.rules, ∀ a ∈ c.value.anchors, f a = g a) :
    s.mapAnchors f = s.mapAnchors g := by
  obtain ⟨hequal, hbound⟩ := List.forall_mem_append.1 h
  refine eq_of_entries (List.map_congr_left fun e he => ?_) (List.map_congr_left fun c hc => ?_)
  · exact Prod.ext rfl (Constraint.mapAnchors_congr (hequal e.2 (List.mem_map_of_mem he)))
  · exact Constraint.mapAnchors_congr (hbound c hc)

/-- A store that nothing is renamed in. -/
theorem mapAnchors_id (s : ConstraintStore) : s.mapAnchors id = s := by
  refine eq_of_entries ?_ (Constraint.map_mapAnchors_id s.bounds)
  show s.equalities.entries.map (fun e => (e.1, e.2.mapAnchors id)) = _
  simp only [Constraint.mapAnchors_id]
  exact List.map_id _

/-- A store without an anchor on the renamed view is the same store afterwards. -/
theorem mapAnchors_of_fixed (h : ∀ c ∈ s.rules, ∀ a ∈ c.value.anchors, f a = a) :
    s.mapAnchors f = s := (mapAnchors_congr h).trans (mapAnchors_id s)

/-- Two renamings of a store are one. -/
theorem mapAnchors_mapAnchors (f g : Anchor → Anchor) (s : ConstraintStore) :
    (s.mapAnchors f).mapAnchors g = s.mapAnchors (g ∘ f) := by
  refine eq_of_entries ?_ ?_
  · show (s.equalities.entries.map _).map _ = s.equalities.entries.map _
    rw [List.map_map]
    exact List.map_congr_left fun e _ =>
      Prod.ext rfl (Constraint.mapAnchors_mapAnchors f g e.2)
  · show (s.bounds.map _).map _ = s.bounds.map _
    rw [List.map_map]
    exact List.map_congr_left fun c _ => Constraint.mapAnchors_mapAnchors f g c

/-! ## Assignments -/

variable {target : Attribute} {batch : List Constraint}

/-- **What an assignment looks at is not renamed.** It clears slots, adds rules and counts guards by
attribute, comparison and guard text alone, and each of these steps goes through a renaming. -/
theorem clear_mapAnchors (s : ConstraintStore) (attr : Attribute) (f : Anchor → Anchor) :
    (s.clear attr).mapAnchors f = (s.mapAnchors f).clear attr := by
  have hbounds : (s.bounds.filter fun c => c.target ≠ attr).map (fun c => c.mapAnchors f) =
      (s.bounds.map fun c => c.mapAnchors f).filter fun c => c.target ≠ attr := by
    rw [List.filter_map]
    rfl
  exact eq_of_entries
    (congrArg OrderedMap.entries (OrderedMap.mapValues_filter s.equalities (·.attr ≠ attr) _)) hbounds

/-- Adding a rule looks for its slot, which renaming leaves as it is. -/
theorem add_mapAnchors (s : ConstraintStore) (c : Constraint) (f : Anchor → Anchor) :
    (s.add c).mapAnchors f = (s.mapAnchors f).add (c.mapAnchors f) := by
  have hslot : (c.mapAnchors f).slot = c.slot := rfl
  have hcomparison : (c.mapAnchors f).comparison = c.comparison := rfl
  rw [add, add, hcomparison]
  by_cases h : c.comparison = .equal
  · rw [if_pos h, if_pos h, hslot]
    refine eq_of_entries (congrArg OrderedMap.entries ?_) rfl
    show ((s.equalities.erase c.slot).insert c.slot c).mapValues _ = _
    rw [OrderedMap.mapValues_insert]
    exact congrArg (OrderedMap.insert · c.slot (c.mapAnchors f))
      (OrderedMap.mapValues_filter s.equalities (· ≠ c.slot) _)
  · rw [if_neg h, if_neg h]
    refine eq_of_entries rfl ?_
    show (s.bounds ++ [c]).map _ = _
    rw [List.map_append]
    rfl

/-- By induction on the batch: a replaced rule stands where it stood. -/
theorem addAll_mapAnchors (s : ConstraintStore) (target : Attribute) (batch : List Constraint)
    (f : Anchor → Anchor) : (s.addAll target batch).mapAnchors f =
      (s.mapAnchors f).addAll target (batch.map fun c => c.mapAnchors f) := by
  have hfold (s : ConstraintStore) : (batch.foldl add s).mapAnchors f =
      (batch.map fun c => c.mapAnchors f).foldl add (s.mapAnchors f) := by
    induction batch generalizing s with
    | nil => rfl
    | cons c rest ih => rw [List.foldl_cons, List.map_cons, List.foldl_cons, ih, add_mapAnchors]
  have hwithout : (s.withoutEqualities target).mapAnchors f =
      (s.mapAnchors f).withoutEqualities target :=
    eq_of_entries (congrArg OrderedMap.entries
      (OrderedMap.mapValues_filter s.equalities (·.attr ≠ target) _)) rfl
  have hany : (batch.map fun c => c.mapAnchors f).any (fun c => c.comparison == .equal) =
      batch.any fun c => c.comparison == .equal := by
    rw [List.any_map]
    rfl
  rw [addAll, addAll, hfold, hany]
  split
  · rw [hwithout]
  · rfl

/-- Guards are told apart by their texts, which are not renamed. -/
theorem guardsOf_mapAnchors (batch : List Constraint) (f : Anchor → Anchor) :
    guardsOf (batch.map fun c => c.mapAnchors f) = guardsOf batch := by
  rw [guardsOf, guardsOf, List.foldl_map]
  rfl

/-- Which attributes give way is decided by ranks and guards, so a renamed store prunes the same
ones. -/
theorem outranked_mapAnchors (s : ConstraintStore) (target : Attribute)
    (guards : List (Option String)) (f : Anchor → Anchor) :
    (s.mapAnchors f).outranked target guards = s.outranked target guards := by
  refine List.flatMap_congr fun guard _ => ?_
  exact congrArg (List.map fun attr => (⟨attr, guard⟩ : Slot))
    (givingWay_congr fun attr => OrderedMap.contains_mapValues s.equalities _ _)

/-- Slots are taken out alike before a renaming and after it. -/
theorem withoutSlots_mapAnchors (s : ConstraintStore) (slots : List Slot) (f : Anchor → Anchor) :
    (s.withoutSlots slots).mapAnchors f = (s.mapAnchors f).withoutSlots slots :=
  eq_of_entries
    (congrArg OrderedMap.entries (OrderedMap.mapValues_filter s.equalities (· ∉ slots) _)) rfl

/-- **An assignment, renamed**: the same assignment of renamed rules to the renamed store. -/
theorem assign_mapAnchors (s : ConstraintStore) (target : Attribute) (batch : List Constraint)
    (f : Anchor → Anchor) : (s.assign target batch).1.mapAnchors f =
      ((s.mapAnchors f).assign target (batch.map fun c => c.mapAnchors f)).1 := by
  rw [assign_eq, assign_eq, guardsOf_mapAnchors, ← addAll_mapAnchors, outranked_mapAnchors]
  exact withoutSlots_mapAnchors _ _ f

end ConstraintStore

end AnchorLayout
