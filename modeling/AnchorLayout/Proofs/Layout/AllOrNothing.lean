import AnchorLayout.Proofs.Hierarchy.Atomic
import AnchorLayout.Proofs.Layout.Accepted
import AnchorLayout.Proofs.Layout.Edited
import AnchorLayout.Proofs.Layout.Written
/-!
# Assignments are all or nothing

  An assignment to several attributes is made of assignments to one, and a frame gives two of them
  on each axis.  All of them are checked before the first is stored, and none of them takes away
  what an earlier one has given.

  1. **Program** — `Session.set`, `setNamed`, `setComposite` and `fit`.
  2. **Specification** — `Operation.Atomic`; `ConstraintInput.equalities`, the equalities that an
     input gives; and the assignments one after the other.
  3. **The parts (`forM_storePart_through`)** — what has been prepared is stored as assignments would
     store it, since no part moves the view or unregisters one (`forM_set`).
  4. **The crux (`Orderly.mem_write_of_outlives`)** — pruning takes an equality away only if a better
     one is beside it that has not just been set.  In a composite the better one is always the one
     that has just been set: an edge comes before a size, and only a size ranks before a leading
     edge.
-/

namespace AnchorLayout

open Operation

/-! ## The equalities of an input -/

namespace ConstraintInput

variable {attr : Attribute} {animation : Option Animation} {input : ConstraintInput}
  {rules : List Constraint}

/-- Guards and values of the equalities of an input that is not a list. -/
def itemEqualities : ConstraintInput → List (Option Condition × Expr)
  | value e => [(none, e)]
  | guarded condition e => [(some condition, e)]
  | bounds b => if b.comparison = .equal then b.values.map fun e => (b.condition, e) else []
  | clear | many _ => []

/-- **The equalities that an input gives**, each with its guard and value. -/
def equalities : ConstraintInput → List (Option Condition × Expr)
  | many items => items.flatMap itemEqualities
  | input => input.itemEqualities

/-- An equality for an attribute. -/
def equality (attr : Attribute) (animation : Option Animation) (given : Option Condition × Expr) :
    Constraint := ⟨attr, .equal, given.2, given.1, animation⟩

/-- Values that pass the check are made into rules one by one. -/
theorem rules_eq_of_mapM {comparison : Comparison} {condition : Option Condition}
    {values : List Expr} (h : values.mapM (rule attr comparison condition animation) = .ok rules) :
    rules = values.map fun e => ⟨attr, comparison, e, condition, animation⟩ := by
  have hall := Session.mapM_eq_ok_iff.1 h
  clear h
  induction hall with
  | nil => rfl
  | cons hrule _ ih => rw [List.map_cons, ← ih, (rule_eq_ok_iff.1 hrule).2]

/-- An item gives one equality for each value, or bounds and no equality. -/
theorem equalities_of_expandItem (h : expandItem attr animation input = .ok rules) :
    rules.filter (fun c => c.comparison = .equal) =
      input.itemEqualities.map (equality attr animation) := by
  have hone {condition : Option Condition} {e : Expr}
      (h : (do return [← rule attr .equal condition animation e]) = Except.ok rules) :
      rules.filter (fun c => c.comparison = .equal) = [equality attr animation (condition, e)] := by
    obtain ⟨d, hrule, hlist⟩ := except_bind_eq_ok.1 h
    cases hlist
    rw [(rule_eq_ok_iff.1 hrule).2]
    rfl
  cases input with
  | clear => cases h
  | value e => exact hone h
  | guarded condition e => exact hone h
  | many items => cases h
  | bounds b =>
    rw [expandItem] at h
    split at h
    · cases h
    · rw [rules_eq_of_mapM h, itemEqualities]
      by_cases hequal : b.comparison = .equal
      · simp [hequal, List.filter_map, Function.comp_def, equality]
      · simp [hequal, List.filter_map, Function.comp_def]

/-- **The equalities among the rules of an input.** -/
theorem equalities_of_expand (h : input.expand attr animation = .ok rules) :
    rules.filter (fun c => c.comparison = .equal) =
      input.equalities.map (equality attr animation) := by
  unfold expand at h
  split at h
  case isFalse => cases h
  case isTrue =>
    cases input with
    | many items =>
      obtain ⟨all, hall, hflat⟩ := except_bind_eq_ok.1 h
      cases hflat
      have hitems := Session.mapM_eq_ok_iff.1 hall
      clear h hall
      show _ = (items.flatMap itemEqualities).map (equality attr animation)
      induction hitems with
      | nil => rfl
      | cons hitem _ ih =>
        rw [List.flatten_cons, List.filter_append, equalities_of_expandItem hitem, ih,
          List.flatMap_cons, List.map_append]
    | _ => exact equalities_of_expandItem h

end ConstraintInput

/-! ## What a later part leaves -/

namespace Attribute

/-- **An attribute outlives another one** that is set after it: nothing but the other one ranks
before it on an axis that they share. -/
def Outlives (a b : Attribute) : Prop :=
  a ≠ b ∧ (a.axis = b.axis → ∀ other ∈ all, other.axis = a.axis → other.rank < a.rank → other = b)

instance (a b : Attribute) : Decidable (a.Outlives b) := inferInstanceAs (Decidable (_ ∧ _))

end Attribute

/-- **The parts of a composite outlive the later ones.** -/
theorem Composite.pairwise_outlives (composite : Composite) :
    composite.attributes.Pairwise Attribute.Outlives := by
  cases composite <;> decide

/-- An equality without a later one of its slot lasts. -/
theorem mem_lasting_of_last {earlier later : List Constraint} {c : Constraint}
    (last : ∀ d ∈ later, d.slot ≠ c.slot) : c ∈ lasting (earlier ++ c :: later) := by
  induction earlier with
  | nil =>
    have hnew : c.slot ∉ later.map Constraint.slot := fun hmem => by
      obtain ⟨d, hd, hslot⟩ := List.mem_map.1 hmem
      exact last d hd hslot
    rw [List.nil_append, lasting, if_neg hnew]
    exact List.mem_cons_self
  | cons d earlier ih =>
    rw [List.cons_append, lasting]
    split
    · exact ih
    · exact List.mem_cons_of_mem _ ih

namespace ConstraintStore

variable {s : ConstraintStore} {part : Attribute × Option (List Constraint)} {f : Anchor → Anchor}
  {c : Constraint}

/-- The rules of a part are for its attribute, and that may be given. -/
def IsPart (part : Attribute × Option (List Constraint)) : Prop :=
  ∀ batch, part.2 = some batch → part.1.isSettable = true ∧ ∀ c ∈ batch, c.target = part.1

/-- A part with rules is an assignment. -/
def assignmentOfPart {batch : List Constraint} (h : IsPart part) (hbatch : part.2 = some batch)
    (f : Anchor → Anchor) : Assignment :=
  ⟨part.1, batch.map fun c => c.mapAnchors f, (h batch hbatch).1,
    List.forall_mem_map.2 fun c hc => (h batch hbatch).2 c hc⟩

/-- A part with rules is written as an assignment. -/
theorem write_of_some {batch : List Constraint} (h : IsPart part) (hbatch : part.2 = some batch) :
    s.write part f = (s.assign part.1 (assignmentOfPart h hbatch f).batch).1 := by
  rw [write, hbatch]
  rfl

/-- One without rules clears. -/
theorem write_of_none (hbatch : part.2 = none) : s.write part f = s.clear part.1 := by
  rw [write, hbatch]

/-- Either way the store stays orderly. -/
theorem Orderly.write (h : s.Orderly) (hpart : IsPart part) (f : Anchor → Anchor) :
    (s.write part f).Orderly := by
  cases hbatch : part.2 with
  | none =>
    rw [write_of_none hbatch]
    exact h.clear part.1
  | some batch =>
    rw [write_of_some hpart hbatch]
    exact h.assign (assignmentOfPart hpart hbatch f)

/-- **What a part gives is there**, but for an equality that it replaces itself. -/
theorem Orderly.mem_write_self {batch : List Constraint} {earlier later : List Constraint}
    (h : s.Orderly) (hpart : IsPart part) (hbatch : part.2 = some batch)
    (hsplit : batch.filter (fun c => c.comparison = .equal) = earlier ++ c :: later)
    (last : ∀ d ∈ later, d.guardText ≠ c.guardText) :
    c.mapAnchors f ∈ (s.write part f).equalities.values := by
  have hequalities : (assignmentOfPart hpart hbatch f).equalities =
      earlier.map (Constraint.mapAnchors f) ++
        c.mapAnchors f :: later.map (Constraint.mapAnchors f) := by
    rw [Assignment.equalities, ← List.map_cons, ← List.map_append, ← hsplit]
    exact List.filter_map
  rw [write_of_some hpart hbatch]
  refine (values_assign h (assignmentOfPart hpart hbatch f)).symm ▸ List.mem_append_right _ ?_
  rw [hequalities]
  refine mem_lasting_of_last (List.forall_mem_map.2 fun d hd hslot => ?_)
  exact last d hd (congrArg Slot.guard hslot)

/-- **A later part takes nothing away** from an attribute that outlives its own. -/
theorem Orderly.mem_write_of_outlives (h : s.Orderly) (hpart : IsPart part)
    (hc : c ∈ s.equalities.values) (outlives : c.target.Outlives part.1) :
    c ∈ (s.write part f).equalities.values := by
  obtain ⟨hne, hbest⟩ := outlives
  cases hbatch : part.2 with
  | none =>
    rw [write_of_none hbatch, values_clear h]
    exact List.mem_filter.2 ⟨hc, decide_eq_true hne⟩
  | some batch =>
    rw [write_of_some hpart hbatch]
    refine (values_assign h (assignmentOfPart hpart hbatch f)).symm ▸ List.mem_append_left _ ?_
    refine List.mem_filter.2 ⟨hc, decide_eq_true ⟨fun htarget => absurd htarget hne, ?_⟩⟩
    rintro ⟨⟨-, haxis, -⟩, d, -, ⟨hother, hdaxis, -⟩, -, hrank⟩
    exact hother (hbest haxis d.target (Attribute.mem_all _) (hdaxis.trans haxis.symm) hrank)

/-- The store with some parts written to it, one after the other. -/
def writeAll (parts : List (Attribute × Option (List Constraint))) (f : Anchor → Anchor)
    (s : ConstraintStore) : ConstraintStore := parts.foldl (fun s part => s.write part f) s

/-- The same for all later parts, one after the other. -/
theorem Orderly.mem_writeAll_of_outlives {parts : List (Attribute × Option (List Constraint))}
    (h : s.Orderly) (hparts : ∀ part ∈ parts, IsPart part) (hc : c ∈ s.equalities.values)
    (outlives : ∀ part ∈ parts, c.target.Outlives part.1) :
    c ∈ (s.writeAll parts f).equalities.values := by
  induction parts generalizing s with
  | nil => exact hc
  | cons part parts ih =>
    obtain ⟨hpart, hrest⟩ := List.forall_mem_cons.1 hparts
    obtain ⟨hfirst, hlater⟩ := List.forall_mem_cons.1 outlives
    exact ih (h.write hpart f) hrest (h.mem_write_of_outlives hpart hc hfirst) hlater

/-- **What some parts give is there after all of them**, if their attributes outlive one another. -/
theorem Orderly.mem_writeAll {parts : List (Attribute × Option (List Constraint))}
    {batch earlier later : List Constraint} (h : s.Orderly)
    (hparts : ∀ part ∈ parts, IsPart part)
    (outlives : (parts.map Prod.fst).Pairwise Attribute.Outlives) (hpart : part ∈ parts)
    (hbatch : part.2 = some batch)
    (hsplit : batch.filter (fun c => c.comparison = .equal) = earlier ++ c :: later)
    (last : ∀ d ∈ later, d.guardText ≠ c.guardText) :
    c.mapAnchors f ∈ (s.writeAll parts f).equalities.values := by
  induction parts generalizing s with
  | nil => exact absurd hpart List.not_mem_nil
  | cons first parts ih =>
    obtain ⟨hfirst, hrest⟩ := List.forall_mem_cons.1 hparts
    obtain ⟨hlater, hpairs⟩ := List.pairwise_cons.1 outlives
    rcases List.mem_cons.1 hpart with rfl | hpart
    · refine (h.write hfirst f).mem_writeAll_of_outlives hrest
        (h.mem_write_self hfirst hbatch hsplit last) fun next hnext => ?_
      have hmem : c ∈ batch.filter (fun c => c.comparison = .equal) := by
        rw [hsplit]
        exact List.mem_append_right _ List.mem_cons_self
      have htarget : (c.mapAnchors f).target = part.1 := (hfirst batch hbatch).2 c
        (List.mem_filter.1 hmem).1
      rw [htarget]
      exact hlater next.1 (List.mem_map_of_mem hnext)
    · exact ih (h.write hfirst f) hrest hpairs hpart

end ConstraintStore

/-! ## Parts that are stored -/

namespace Operation

variable {α β : Type} {s : Session}

/-- **What looks for a view first** changes nothing if it fails. -/
theorem atomic_view {v : ViewId} {next : View → Operation α}
    (h : s.contains v = true → ∀ found, s.views.get? v = some found → (next found).Atomic s) :
    (Session.view v >>= next).Atomic s := by
  rcases Session.view_cases v s with ⟨e, he⟩ | ⟨found, hfound, hok⟩
  · exact atomic_of_error (bind_of_error he next)
  · intro e s' he
    exact h (Session.contains_iff.2 ⟨found, hfound⟩) found hfound e s'
      ((bind_of_ok hok next).symm.trans he)

/-- **What prepares everything first** changes nothing if it fails. -/
theorem atomic_prepared {check : Session → Except Error α} {next : α → Operation β}
    (h : ∀ a, check s = .ok a → (next a).Atomic s) :
    (do next (← ofExcept (check (← get))) : Operation β).Atomic s := by
  cases hcheck : check s with
  | error e => exact atomic_of_error (bind_of_error (ofExcept_of_error hcheck s) next)
  | ok a =>
    intro e s' he
    exact h a hcheck e s' ((bind_of_ok (ofExcept_of_ok hcheck s) next).symm.trans he)

end Operation

namespace Session

variable {s s' : Session} {v : ViewId} {part : Attribute × Option (List Constraint)}
  {parts : List (Attribute × Option (List Constraint))}
  {pairs : List (Attribute × ConstraintInput)}

/-- A part stored on a view that is there. -/
theorem storePart_apply (hv : s.contains v = true)
    (part : Attribute × Option (List Constraint)) :
    storePart v part s = .ok () (s.constrain v (ConstraintStore.write part id)) := by
  have hwrite (f : ConstraintStore → ConstraintStore) :
      (do update v fun view => view.updateConstraints f
          modify fun s => s.markDirty v : Operation Unit) s = .ok () (s.constrain v f) :=
    bind_of_ok ((update_apply v _ s).trans (if_pos hv)) _
  obtain ⟨attr, _ | batch⟩ := part
  · exact hwrite _
  · have hstore : ConstraintStore.write (attr, some batch) id =
        fun store => (store.assign attr batch).1 := by
      funext store
      exact congrArg (fun rules => (store.assign attr rules).1)
        (Constraint.map_mapAnchors_id batch)
    rw [hstore]
    exact hwrite _

/-- **Storing does not fail** on a view that is there. -/
theorem exists_forM_storePart (hv : s.contains v = true)
    (parts : List (Attribute × Option (List Constraint))) :
    ∃ s', (parts.forM (storePart v)) s = .ok () s' := by
  induction parts generalizing s with
  | nil => exact ⟨s, rfl⟩
  | cons part parts ih =>
    obtain ⟨s', hs'⟩ := ih ((contains_constrain (F := ConstraintStore.write part id) s v v).trans hv)
    exact ⟨s', (bind_of_ok (storePart_apply hv part) _).trans hs'⟩

/-! ## Nothing, if it fails -/

/-- **An assignment** prepares its rules before it stores them, and so does each of the three
requests below. -/
theorem atomic_set (s : Session) (v : ViewId) (attr : Attribute) (input : ConstraintInput) :
    (set v attr input).Atomic s := by
  by_cases hv : s.contains v = true
  · cases hpart : s.part? attr input with
    | error e => exact atomic_of_error (by rw [set_eq hv, hpart])
    | ok part => exact atomic_of_ok (by rw [set_eq hv, hpart])
  · exact atomic_view fun hfound => absurd hfound hv

theorem atomic_setComposite (s : Session) (v : ViewId) (composite : Composite)
    (inputs : List ConstraintInput) : (setComposite v composite inputs).Atomic s := by
  unfold setComposite
  split
  · exact atomic_of_error rfl
  · refine atomic_view fun hv _ _ => atomic_prepared fun prepared _ => ?_
    obtain ⟨s', hs'⟩ := exists_forM_storePart hv prepared
    exact atomic_of_ok hs'

theorem atomic_setNamed (s : Session) (v : ViewId) (name : String) (input : ConstraintInput) :
    (setNamed v name input).Atomic s := by
  unfold setNamed
  split
  · exact atomic_of_error rfl
  · exact atomic_set s v _ input
  · split
    · exact atomic_setComposite s v _ _
    · exact atomic_of_error rfl

theorem atomic_fit (s : Session) (v : ViewId) (f : Fit) : (fit v f).Atomic s := by
  refine atomic_view fun hv _ _ => atomic_prepared fun prepared _ => ?_
  obtain ⟨s', hs'⟩ := exists_forM_storePart hv (prepared.map fun p => (p.1, some p.2))
  rw [forM_storePart_some] at hs'
  exact atomic_of_ok hs'

/-! ## Everything, if it does not -/

/-- A part that is written changes no animation and registers no view, so the later parts mean the
same. -/
theorem sameBasis_written (s : Session) (v : ViewId)
    (part : Attribute × Option (List Constraint)) : SameBasis s (s.written v part) :=
  ⟨rfl, contains_constrain s v⟩

/-- The session with some parts written to a view, one after the other. -/
def writtenAll (s : Session) (v : ViewId) (parts : List (Attribute × Option (List Constraint))) :
    Session := parts.foldl (fun s part => s.written v part) s

/-- **The parts of some assignments.** -/
def PartsOf (s : Session) (pairs : List (Attribute × ConstraintInput))
    (parts : List (Attribute × Option (List Constraint))) : Prop :=
  List.Forall₂ (fun p part => s.part? p.1 p.2 = .ok part) pairs parts

/-- **Assignments one after the other** succeed if each of them could be made at the beginning. -/
theorem forM_set (hv : s.contains v = true) (hparts : s.PartsOf pairs parts) :
    (pairs.forM fun p => set v p.1 p.2) s = .ok () (s.writtenAll v parts) := by
  induction pairs generalizing s parts with
  | nil =>
    cases hparts
    rfl
  | cons p pairs ih =>
    obtain ⟨part, parts, hpart, hrest, rfl⟩ := List.forall₂_cons_left_iff.1 hparts
    have hfirst : set v p.1 p.2 s = .ok () (s.written v part) := by rw [set_eq hv, hpart]
    have hbasis := sameBasis_written s v part
    have hlater : (s.written v part).PartsOf pairs parts :=
      hrest.imp fun q part hq => (hbasis.part?_eq q.1 q.2).trans hq
    exact (bind_of_ok hfirst _).trans (ih ((hbasis.contains v).trans hv) hlater)

/-- **Parts prepared together** are stored as they would be written one after the other. -/
theorem forM_storePart_through (hv : s'.contains v = true) (same : s'.through v = s.through v)
    (parts : List (Attribute × Option (List Constraint))) :
    ((parts.map fun part => (part.1, part.2.map (s.throughContainer v))).forM (storePart v)) s' =
      .ok () (s'.writtenAll v parts) := by
  induction parts generalizing s' with
  | nil => rfl
  | cons part parts ih =>
    have hwrite : ConstraintStore.write (part.1, part.2.map (s.throughContainer v)) id =
        ConstraintStore.write part (s'.through v) := by
      obtain ⟨attr, _ | batch⟩ := part
      · rfl
      · funext store
        refine congrArg (fun rules => (store.assign attr rules).1) ?_
        rw [Constraint.map_mapAnchors_id, throughContainer_eq, same]
    have hfirst := storePart_apply hv (part.1, part.2.map (s.throughContainer v))
    rw [hwrite] at hfirst
    refine (bind_of_ok hfirst _).trans (ih ?_ ?_)
    · exact (contains_constrain s' v v).trans hv
    · exact (through_constrain s' v v).trans same

/-- What is prepared for a part are its rules, sent through the container. -/
theorem preparePart?_eq_ok {p : Attribute × ConstraintInput}
    (h : s.preparePart? v p = .ok part) : ∃ before, s.part? p.1 p.2 = .ok before ∧
      part = (before.1, before.2.map (s.throughContainer v)) := by
  obtain ⟨attr, input⟩ := p
  have hrules (input : ConstraintInput)
      (h : (do return (attr, some (← s.prepare? v attr input))) = Except.ok part) :
      ∃ before, (do
          let batch ← input.expand attr s.currentAnimation
          s.checkAnchors batch
          return (attr, some batch)) = Except.ok before ∧
        part = (before.1, before.2.map (s.throughContainer v)) := by
    obtain ⟨stored, hprepare, hpart⟩ := except_bind_eq_ok.1 h
    obtain ⟨batch, hexpand, hrest⟩ := except_bind_eq_ok.1 hprepare
    obtain ⟨_, hcheck, hstored⟩ := except_bind_eq_ok.1 hrest
    cases hpart
    cases hstored
    exact ⟨(attr, some batch), except_bind_eq_ok.2 ⟨batch, hexpand,
      except_bind_eq_ok.2 ⟨_, hcheck, rfl⟩⟩, rfl⟩
  cases input with
  | clear =>
    cases h
    exact ⟨_, rfl, rfl⟩
  | _ => exact hrules _ h

/-- What is prepared together are the parts, one for each assignment. -/
theorem exists_partsOf {prepared : List (Attribute × Option (List Constraint))}
    (h : pairs.mapM (s.preparePart? v) = .ok prepared) : ∃ parts, s.PartsOf pairs parts ∧
      prepared = parts.map fun part => (part.1, part.2.map (s.throughContainer v)) := by
  have hall := mapM_eq_ok_iff.1 h
  clear h
  induction hall with
  | nil => exact ⟨[], .nil, rfl⟩
  | cons hpart _ ih =>
    obtain ⟨parts, hparts, rfl⟩ := ih
    obtain ⟨part, hbefore, rfl⟩ := preparePart?_eq_ok hpart
    exact ⟨part :: parts, .cons hbefore hparts, rfl⟩

/-- **What a composite does when it succeeds**: there is one input for each attribute, and all of
their parts are written. -/
theorem setComposite_eq_ok {composite : Composite} {inputs : List ConstraintInput}
    (h : setComposite v composite inputs s = .ok () s') :
    inputs.length = composite.attributes.length ∧ s.contains v = true ∧
      ∃ parts, s.PartsOf (composite.attributes.zip inputs) parts ∧ s' = s.writtenAll v parts := by
  unfold setComposite at h
  split at h
  case isTrue => cases h
  case isFalse hlength =>
    obtain ⟨found, s₁, hview, hrest⟩ := bind_eq_ok h
    obtain ⟨rfl, hfound⟩ := view_eq_ok hview
    have hv := contains_iff.2 ⟨found, hfound⟩
    obtain ⟨prepared, hprepared, hstored⟩ := prepared_eq_ok hrest
    obtain ⟨parts, hparts, rfl⟩ := exists_partsOf hprepared
    have hwritten := (forM_storePart_through hv rfl parts).symm.trans hstored
    exact ⟨not_not.1 hlength, hv, parts, hparts, (EStateM.Result.ok.inj hwritten).2.symm⟩

/-- Parts written to a view are written to its rules. -/
theorem get?_writtenAll {found : View} (h : s.views.get? v = some found)
    (parts : List (Attribute × Option (List Constraint))) :
    (s.writtenAll v parts).views.get? v = some (found.updateConstraints
      (ConstraintStore.writeAll parts (s.through v))) := by
  induction parts generalizing s found with
  | nil => exact h
  | cons part parts ih =>
    have hfirst : (s.written v part).views.get? v = some (found.updateConstraints
        (ConstraintStore.write part (s.through v))) := by
      rw [written, get?_constrain, if_pos rfl, h]
      rfl
    have hrest := ih hfirst
    rw [written, through_constrain] at hrest
    exact hrest

/-- **What a part is**: rules for its attribute, with the equalities that are given. -/
theorem part?_eq_ok {attr : Attribute} {input : ConstraintInput}
    (h : s.part? attr input = .ok part) : part.1 = attr ∧ ConstraintStore.IsPart part ∧
      (input.equalities ≠ [] → ∃ batch, part.2 = some batch ∧
        batch.filter (fun c => c.comparison = .equal) =
          input.equalities.map (ConstraintInput.equality attr s.currentAnimation)) := by
  have hrules (input : ConstraintInput) (h : (do
      let batch ← input.expand attr s.currentAnimation
      s.checkAnchors batch
      return (attr, some batch)) = Except.ok part) : part.1 = attr ∧ ConstraintStore.IsPart part ∧
        (input.equalities ≠ [] → ∃ batch, part.2 = some batch ∧
          batch.filter (fun c => c.comparison = .equal) =
            input.equalities.map (ConstraintInput.equality attr s.currentAnimation)) := by
    obtain ⟨batch, hexpand, hrest⟩ := except_bind_eq_ok.1 h
    obtain ⟨_, -, hpart⟩ := except_bind_eq_ok.1 hrest
    cases hpart
    refine ⟨rfl, ?_, fun _ => ⟨batch, rfl, ConstraintInput.equalities_of_expand hexpand⟩⟩
    rintro _ ⟨⟩
    exact ⟨(ConstraintInput.made_of_expand hexpand).1, fun c hc =>
      ConstraintInput.target_of_expand hexpand hc⟩
  cases input with
  | clear =>
    cases h
    exact ⟨rfl, nofun, fun hne => absurd rfl hne⟩
  | _ => exact hrules _ h

/-- The parts are for the attributes that were assigned, in their order. -/
theorem PartsOf.attributes (h : s.PartsOf pairs parts) :
    parts.map Prod.fst = pairs.map Prod.fst := by
  induction h with
  | nil => rfl
  | cons hpart _ ih => rw [List.map_cons, List.map_cons, ih, (part?_eq_ok hpart).1]

theorem PartsOf.isPart (h : s.PartsOf pairs parts) :
    ∀ part ∈ parts, ConstraintStore.IsPart part := by
  induction h with
  | nil => exact List.forall_mem_nil _
  | cons hpart _ ih => exact List.forall_mem_cons.2 ⟨(part?_eq_ok hpart).2.1, ih⟩

/-- Every assignment has its part. -/
theorem PartsOf.exists_part (h : s.PartsOf pairs parts) {p : Attribute × ConstraintInput}
    (hp : p ∈ pairs) : ∃ part ∈ parts, s.part? p.1 p.2 = .ok part := by
  induction h with
  | nil => exact absurd hp List.not_mem_nil
  | cons hpart _ ih =>
    rcases List.mem_cons.1 hp with rfl | hp
    · exact ⟨_, List.mem_cons_self, hpart⟩
    · obtain ⟨part, hmem, hfound⟩ := ih hp
      exact ⟨part, List.mem_cons_of_mem _ hmem, hfound⟩

/-- **Every equality of every part is there afterwards**, with its anchors renamed. -/
theorem PartsOf.mem_writeAll {store : ConstraintStore} (h : s.PartsOf pairs parts)
    (orderly : store.Orderly) (outlives : (pairs.map Prod.fst).Pairwise Attribute.Outlives)
    {p : Attribute × ConstraintInput} (hp : p ∈ pairs)
    {earlier later : List (Option Condition × Expr)} {given : Option Condition × Expr}
    (hsplit : p.2.equalities = earlier ++ given :: later)
    (last : ∀ d ∈ later, d.1.map Condition.text ≠ given.1.map Condition.text)
    (f : Anchor → Anchor) :
    (ConstraintInput.equality p.1 s.currentAnimation given).mapAnchors f ∈
      (store.writeAll parts f).equalities.values := by
  obtain ⟨part, hmem, hpart⟩ := h.exists_part hp
  obtain ⟨batch, hbatch, hequalities⟩ := (part?_eq_ok hpart).2.2 (by simp [hsplit])
  rw [hsplit, List.map_append, List.map_cons] at hequalities
  exact orderly.mem_writeAll h.isPart (h.attributes ▸ outlives) hmem hbatch hequalities
    (List.forall_mem_map.2 last)

/-- **Assignments are all or nothing**, after any acts on a new session.  One that fails changes
nothing.  A composite that succeeds is the assignments to its attributes one after the other, all of
which succeed; and every equality of every part is there afterwards, under its guard, taken through
the container and with the animation in force, unless the same part gives a later one under the same
guard. -/
theorem assignments_all_or_nothing (options : Options) (issuer : Issuer) (acts : List Act)
    (v : ViewId) :
    let s := (Session.new options issuer).afterActs acts
    (∀ attr input, (set v attr input).Atomic s) ∧ (∀ name input, (setNamed v name input).Atomic s) ∧
      (∀ composite inputs, (setComposite v composite inputs).Atomic s) ∧
      (∀ f, (fit v f).Atomic s) ∧
      ∀ composite inputs s', setComposite v composite inputs s = .ok () s' →
        inputs.length = composite.attributes.length ∧
        ((composite.attributes.zip inputs).forM fun p => set v p.1 p.2) s = .ok () s' ∧
        ∃ before after, s.views.get? v = some before ∧ s'.views.get? v = some after ∧
          ∀ p ∈ composite.attributes.zip inputs, ∀ earlier guard value later,
            p.2.equalities = earlier ++ (guard, value) :: later →
            (∀ d ∈ later, d.1.map Condition.text ≠ guard.map Condition.text) →
              ⟨p.1, .equal, value.mapAnchors (Anchor.between before.hierarchy.parent
                before.hierarchy.structuralParent), guard, s.currentAnimation⟩ ∈
                  after.constraints.toList := by
  intro s
  refine ⟨atomic_set s v, atomic_setNamed s v, atomic_setComposite s v, atomic_fit s v, ?_⟩
  intro composite inputs s' h
  obtain ⟨hlength, hv, parts, hparts, rfl⟩ := setComposite_eq_ok h
  obtain ⟨before, hbefore⟩ := contains_iff.1 hv
  refine ⟨hlength, forM_set hv hparts, before, _, hbefore, get?_writtenAll hbefore parts, ?_⟩
  intro p hp earlier guard value later hsplit last
  have horderly : before.constraints.Orderly :=
    (edited_of_acts options issuer acts).orderly (by rw [constraints?, hbefore]; rfl)
  have hattributes : (composite.attributes.zip inputs).map Prod.fst = composite.attributes :=
    List.map_fst_zip (Nat.le_of_eq hlength.symm)
  have hmem := hparts.mem_writeAll horderly (hattributes.symm ▸ composite.pairwise_outlives) hp
    hsplit last (s.through v)
  refine ConstraintStore.mem_toList_iff.2 (Or.inl ?_)
  rw [← through_of_get? hbefore]
  exact hmem

/-- A view in a view with a container. -/
def roomWithin : List Call := someRooms ++ [.request 1 (.setParent ⟨5⟩ (some ⟨2⟩))]

/-- A frame whose left edge is given three times, and whose top edge is cleared. -/
def someFrame : List ConstraintInput :=
  [.many [.value (.num (.ofNat 7)), .guarded (.portrait none) (.num (.ofNat 8)),
      .value (.anchor ⟨⟨2⟩, .left⟩)],
    .clear, .value (.num (.ofNat 30)), .guarded (.portrait none) (.num (.ofNat 40))]

/-- The guarded left edge is there, and of the two plain ones the last, renamed for the container. -/
theorem assignments_of_someFrame :
    let s := (Session.new .default "").afterActs ((Session.new .default "").unfolded roomWithin)
    ∃ s' after, setComposite ⟨5⟩ .frame someFrame s = .ok () s' ∧
      ((Composite.frame.attributes.zip someFrame).forM fun p => set ⟨5⟩ p.1 p.2) s = .ok () s' ∧
      s'.views.get? ⟨5⟩ = some after ∧
      ⟨.left, .equal, .num (.ofNat 8), some (.portrait none), s.currentAnimation⟩ ∈
        after.constraints.toList ∧
      ⟨.left, .equal, .anchor ⟨⟨3⟩, .left⟩, none, s.currentAnimation⟩ ∈
        after.constraints.toList := by
  intro s
  have hok : ((setComposite ⟨5⟩ .frame someFrame).answer s).isOk = true := by decide +kernel
  have hplace : s.parents? ⟨5⟩ = some (some ⟨2⟩, some ⟨3⟩) := by decide +kernel
  obtain ⟨_, s', hframe⟩ := Operation.exists_ok_of_isOk hok
  obtain ⟨-, hset, before, after, hbefore, hafter, hgiven⟩ :=
    (assignments_all_or_nothing .default "" _ ⟨5⟩).2.2.2.2 .frame someFrame s' hframe
  have hthrough : s.through ⟨5⟩ = Anchor.rename ⟨2⟩ ⟨3⟩ := through_of_parents hplace
  rw [← through_of_get? hbefore, hthrough] at hgiven
  refine ⟨s', after, hframe, hset, hafter, ?_, ?_⟩
  · exact hgiven (.left, _) List.mem_cons_self [(none, .num (.ofNat 7))] _ (.num (.ofNat 8))
      [(none, .anchor ⟨⟨2⟩, .left⟩)] rfl (List.forall_mem_singleton.2 (by decide))
  · exact hgiven (.left, _) List.mem_cons_self [(none, .num (.ofNat 7)), (some (.portrait none),
      .num (.ofNat 8))] none (.anchor ⟨⟨2⟩, .left⟩) [] rfl (List.forall_mem_nil _)

end Session

end AnchorLayout
