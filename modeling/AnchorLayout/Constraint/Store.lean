import AnchorLayout.Collection.OrderedMap
import AnchorLayout.Constraint.Basic
/-!
# The constraints of a view

  Program        `ConstraintStore.assign` (one assignment), `clear`, `mapAnchors`.
  Specification  `ConstraintStore.toList`: equalities, then upper bounds, then lower bounds, each
                 in the order of insertion.
  Crux           an equality lives in the slot of its attribute and guard, so there is one of them
                 at a time; bounds are independent and accumulate.  After an assignment at most
                 two equalities are left on the axis in each guard that was written.
-/

namespace AnchorLayout

/-- The place of an equality: its attribute and the text of its guard. -/
structure Slot where
  attr : Attribute
  guard : Option String
deriving DecidableEq

/-- The slot of a rule. -/
def Constraint.slot (c : Constraint) : Slot := ⟨c.target, c.guardText⟩

/-- The rules of one view. -/
structure ConstraintStore where
  equalities : OrderedMap Slot Constraint
  bounds : List Constraint

namespace ConstraintStore

/-- No rules. -/
def empty : ConstraintStore := ⟨∅, []⟩

instance : EmptyCollection ConstraintStore := ⟨empty⟩

instance : Inhabited ConstraintStore := ⟨empty⟩

/-- Whether there are no rules. -/
def isEmpty (s : ConstraintStore) : Bool := s.equalities.isEmpty && s.bounds.isEmpty

/-- The number of rules. -/
def size (s : ConstraintStore) : Nat := s.equalities.size + s.bounds.length

/-- The bounds on one side. -/
def boundsWith (s : ConstraintStore) (comparison : Comparison) : List Constraint :=
  s.bounds.filter fun c => c.comparison == comparison

/-- **The rules in the order of writing**. -/
def toList (s : ConstraintStore) : List Constraint :=
  s.equalities.values ++ s.boundsWith .less ++ s.boundsWith .greater

/-- The rules of one attribute. -/
def of (s : ConstraintStore) (attr : Attribute) : List Constraint :=
  s.toList.filter fun c => c.target == attr

/-- The attributes that have rules, in the order in which they first appear. -/
def constrained (s : ConstraintStore) : List Attribute :=
  s.toList.foldl (fun seen c => if c.target ∈ seen then seen else seen ++ [c.target]) []

/-- **Wire text** of all rules. -/
def text (s : ConstraintStore) : String := clausesText s.toList

/-! ## Removing -/

/-- The store without the rules of an attribute. -/
def clear (s : ConstraintStore) (attr : Attribute) : ConstraintStore :=
  ⟨s.equalities.filter fun slot _ => slot.attr ≠ attr, s.bounds.filter fun c => c.target ≠ attr⟩

/-! ## Assigning -/

/-- The equalities without those of an attribute. -/
def withoutEqualities (s : ConstraintStore) (attr : Attribute) : ConstraintStore :=
  { s with equalities := s.equalities.filter fun slot _ => slot.attr ≠ attr }

/-- One more rule: an equality at the end of the equalities, in place of an earlier one in its
slot; a bound behind the other bounds. -/
def add (s : ConstraintStore) (c : Constraint) : ConstraintStore :=
  if c.comparison = .equal then
    { s with equalities := (s.equalities.erase c.slot).insert c.slot c }
  else { s with bounds := s.bounds ++ [c] }

/-- The guards of the equalities of a batch, each once, in the order of first use. -/
def guardsOf (batch : List Constraint) : List (Option String) :=
  batch.foldl
    (fun guards c =>
      if c.comparison = .equal ∧ c.guardText ∉ guards then guards ++ [c.guardText] else guards)
    []

/-- The attributes of an axis that have an equality under a guard, by priority. -/
def present (s : ConstraintStore) (axis : Axis) (guard : Option String) : List Attribute :=
  axis.priority.filter fun attr => s.equalities.contains ⟨attr, guard⟩

/-- The attributes that give way to a new equality: all present ones but the new one and the best
of the others. -/
def givingWay (s : ConstraintStore) (justSet : Attribute) (guard : Option String) :
    List Attribute :=
  if (s.present justSet.axis guard).length ≤ 2 then []
  else
    ((s.present justSet.axis guard).filter fun attr => attr ≠ justSet).reverse.take
      ((s.present justSet.axis guard).length - 2)

/-- **Pruning** one guard group after an assignment, with the attributes that were dropped. -/
def prune (s : ConstraintStore) (justSet : Attribute) (guard : Option String) :
    ConstraintStore × List Attribute :=
  (s.givingWay justSet guard).foldl
    (fun (s, dropped) attr =>
      ({ s with equalities := s.equalities.erase ⟨attr, guard⟩ }, dropped ++ [attr]))
    (s, [])

/-- The store with the rules of an assignment, before pruning. -/
def addAll (s : ConstraintStore) (target : Attribute) (batch : List Constraint) :
    ConstraintStore :=
  batch.foldl add
    (if batch.any fun c => c.comparison == .equal then s.withoutEqualities target else s)

/-- **Assignment** of a batch of rules to a target: with an equality among them they replace the
equalities of the target; bounds are added.  The dropped attributes come with the store. -/
def assign (s : ConstraintStore) (target : Attribute) (batch : List Constraint) :
    ConstraintStore × List Attribute :=
  (guardsOf batch).foldl
    (fun (s, dropped) guard =>
      let (s, more) := s.prune target guard
      (s, dropped ++ more))
    (s.addAll target batch, [])

/-! ## Rewriting anchors -/

/-- The rules with the anchors of their values replaced; slots and order stay. -/
def mapAnchors (s : ConstraintStore) (f : Anchor → Anchor) : ConstraintStore :=
  ⟨s.equalities.mapValues fun c => c.mapAnchors f, s.bounds.map fun c => c.mapAnchors f⟩

/-- Whether a value has an anchor on a view. -/
def mentions (s : ConstraintStore) (view : ViewId) : Bool :=
  (s.equalities.values ++ s.bounds).any fun c => c.value.mentions view

end ConstraintStore

end AnchorLayout
