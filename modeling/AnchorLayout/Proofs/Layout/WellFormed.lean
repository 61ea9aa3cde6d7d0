import AnchorLayout.Proofs.Hierarchy.Descent
import AnchorLayout.Session.Layout
/-!
# Well-formed rules

  1. **Program** — `ConstraintInput.expand` and `Session.prepare?`, which make rules of an input.
  2. **Specification** — `Constraint.WellFormed known`: in the value and in the guard every number is
     finite, every call has an argument, and every view that is named is known.
  3. **Expressions (`Expr.wellFormed_iff`)** — what is checked of a value is that it is well formed.
  4. **The crux (`prepare?_eq_ok_iff`, `wellFormed_of_prepare?`)** — guards are not checked, so a rule
     is as good as the guard that it was given; and its anchors are renamed after the check.
-/

namespace AnchorLayout

variable {known : ViewId → Prop}

/-! ## Specification -/

/-- **A well-formed expression.** -/
inductive Expr.WellFormed (known : ViewId → Prop) : Expr → Prop where
  | num {value : Number} (finite : value.isFinite = true) : WellFormed known (.num value)
  | gap : WellFormed known .gap
  | anchor {a : Anchor} (onKnown : known a.view) : WellFormed known (.anchor a)
  | binary {op : BinaryOp} {lhs rhs : Expr} (left : WellFormed known lhs)
      (right : WellFormed known rhs) : WellFormed known (.binary op lhs rhs)
  | call {func : Func} {args : List Expr} (someArgs : args ≠ [])
      (each : ∀ arg ∈ args, WellFormed known arg) : WellFormed known (.call func args)

/-- **A well-formed guard.** -/
inductive Condition.WellFormed (known : ViewId → Prop) : Condition → Prop where
  | portrait {view : Option ViewId} (ofKnown : ∀ v ∈ view, known v) :
      WellFormed known (.portrait view)
  | landscape {view : Option ViewId} (ofKnown : ∀ v ∈ view, known v) :
      WellFormed known (.landscape view)
  | compare {lhs rhs : Expr} {comparison : Comparison} (left : lhs.WellFormed known)
      (right : rhs.WellFormed known) : WellFormed known (.compare lhs comparison rhs)
  | all {parts : List Condition} (each : ∀ part ∈ parts, WellFormed known part) :
      WellFormed known (.all parts)

/-- **A well-formed rule.** -/
structure Constraint.WellFormed (known : ViewId → Prop) (c : Constraint) : Prop where
  value : c.value.WellFormed known
  guard : ∀ g ∈ c.condition, g.WellFormed known

mutual

/-- The guards in an input. -/
def ConstraintInput.guards : ConstraintInput → List Condition
  | .clear => []
  | .value _ => []
  | .guarded condition _ => [condition]
  | .bounds b => b.condition.toList
  | .many items => guardsOfAll items

/-- The guards in several inputs. -/
def ConstraintInput.guardsOfAll : List ConstraintInput → List Condition
  | [] => []
  | input :: rest => input.guards ++ guardsOfAll rest

end

mutual

/-- The values in an input. -/
def ConstraintInput.values : ConstraintInput → List Expr
  | .clear => []
  | .value e => [e]
  | .guarded _ e => [e]
  | .bounds b => b.values
  | .many items => valuesOfAll items

/-- The values in several inputs. -/
def ConstraintInput.valuesOfAll : List ConstraintInput → List Expr
  | [] => []
  | input :: rest => input.values ++ valuesOfAll rest

end

/-! ## Expressions -/

/-- **What is checked of an expression**: that it is sound, and that its anchors are known. -/
theorem Expr.wellFormed_iff {e : Expr} :
    e.WellFormed known ↔ Expr.isSound e = true ∧ ∀ a ∈ e.anchors, known a.view := by
  induction e using Term.induction with
  | num value =>
    refine ⟨fun h => ?_, fun h => .num h.1⟩
    cases h with
    | num finite => exact ⟨finite, by simp [Term.anchors]⟩
  | gap => exact ⟨fun _ => ⟨rfl, by simp [Term.anchors]⟩, fun _ => .gap⟩
  | anchor a =>
    refine ⟨fun h => ?_, fun h => .anchor (h.2 a List.mem_cons_self)⟩
    cases h with
    | anchor onKnown => exact ⟨rfl, by simpa [Term.anchors] using onKnown⟩
  | binary op lhs rhs ihl ihr =>
    rw [Expr.isSound, Bool.and_eq_true, Term.anchors, List.forall_mem_append]
    constructor
    · intro h
      cases h with
      | binary left right =>
        have hl := ihl.1 left
        have hr := ihr.1 right
        exact ⟨⟨hl.1, hr.1⟩, hl.2, hr.2⟩
    · rintro ⟨⟨hl, hr⟩, hla, hra⟩
      exact .binary (ihl.2 ⟨hl, hla⟩) (ihr.2 ⟨hr, hra⟩)
  | call func args ih =>
    rw [Expr.isSound, Bool.and_eq_true, Expr.areSound_iff, Term.anchors]
    constructor
    · intro h
      cases h with
      | call someArgs each =>
        refine ⟨⟨by simpa using someArgs, fun arg harg => ((ih arg harg).1 (each arg harg)).1⟩, ?_⟩
        intro a ha
        obtain ⟨arg, harg, ha⟩ := Term.mem_anchorsOfAll.1 ha
        exact ((ih arg harg).1 (each arg harg)).2 a ha
    · rintro ⟨⟨hsome, hsound⟩, hknown⟩
      refine .call (by simpa using hsome) fun arg harg => (ih arg harg).2 ⟨hsound arg harg, ?_⟩
      exact fun a ha => hknown a (Term.mem_anchorsOfAll.2 ⟨arg, harg, ha⟩)

/-- A well-formed expression is so still with its anchors replaced by known ones. -/
theorem Expr.WellFormed.mapAnchors {f : Anchor → Anchor}
    (keeps : ∀ a, known a.view → known (f a).view) {e : Expr} (h : e.WellFormed known) :
    Expr.WellFormed known (e.mapAnchors f) := by
  induction h with
  | num finite => exact .num finite
  | gap => exact .gap
  | anchor onKnown => exact .anchor (keeps _ onKnown)
  | binary _ _ ihl ihr => exact .binary ihl ihr
  | @call func args someArgs _ ih =>
    have hargs : (Term.mapAnchorsOfAll f args) = args.map (Term.mapAnchors f) :=
      Term.mapAnchorsOfAll_eq_map f args
    rw [Term.mapAnchors, hargs]
    refine .call (by simpa using someArgs) fun arg harg => ?_
    obtain ⟨before, hbefore, rfl⟩ := List.mem_map.1 harg
    exact ih before hbefore

/-- Renaming anchors to known views spoils nothing: guards have no anchors to rename. -/
theorem Constraint.WellFormed.mapAnchors {f : Anchor → Anchor}
    (keeps : ∀ a, known a.view → known (f a).view) {c : Constraint} (h : c.WellFormed known) :
    (c.mapAnchors f).WellFormed known := ⟨h.value.mapAnchors keeps, h.guard⟩

/-! ## Expansion -/

namespace ConstraintInput

variable {attr : Attribute} {animation : Option Animation} {input : ConstraintInput}
  {rules : List Constraint} {c : Constraint}

/-- The guards of a list of inputs are those of its items. -/
theorem mem_guardsOfAll {g : Condition} {items : List ConstraintInput} :
    g ∈ guardsOfAll items ↔ ∃ item ∈ items, g ∈ item.guards := by
  induction items with
  | nil => simp [guardsOfAll]
  | cons item rest ih => simp [guardsOfAll, ih]

/-- So are the values. -/
theorem mem_valuesOfAll {e : Expr} {items : List ConstraintInput} :
    e ∈ valuesOfAll items ↔ ∃ item ∈ items, e ∈ item.values := by
  induction items with
  | nil => simp [valuesOfAll]
  | cons item rest ih => simp [valuesOfAll, ih]

/-- **The check of a rule**: its value is sound, and then the rule is what it was asked to be. -/
theorem rule_eq_ok_iff {comparison : Comparison} {condition : Option Condition} {value : Expr} :
    rule attr comparison condition animation value = .ok c ↔
      Expr.isSound value = true ∧ c = ⟨attr, comparison, value, condition, animation⟩ := by
  rw [rule]
  split
  · next hsound =>
    exact ⟨fun h => ⟨hsound, (Except.ok.inj h).symm⟩, fun h => congrArg Except.ok h.2.symm⟩
  · next hunsound => exact ⟨nofun, fun h => absurd h.1 hunsound⟩

/-- **What a rule of an expansion is**: its value has been checked, and its guard is one of the
input. -/
structure Expands (input : ConstraintInput) (c : Constraint) : Prop where
  sound : Expr.isSound c.value = true
  guard : ∀ g ∈ c.condition, g ∈ input.guards

/-- **Where a rule of an expansion comes from**: its value is one of the input as well. -/
structure Stems (input : ConstraintInput) (c : Constraint) : Prop extends input.Expands c where
  value : c.value ∈ input.values

/-- **What a rule of an expansion is made of**: a value of the input and a guard of it, if any. -/
structure Made (input : ConstraintInput) (attr : Attribute) (animation : Option Animation)
    (c : Constraint) : Prop where
  rule : rule attr c.comparison c.condition animation c.value = .ok c
  guard : ∀ g ∈ c.condition, g ∈ input.guards
  value : c.value ∈ input.values

/-- The rules of an item are made one for each of its values, under the guard of the item. -/
theorem made_of_expandItem (h : expandItem attr animation input = .ok rules) (hc : c ∈ rules) :
    input.Made attr animation c := by
  have hmade {comparison : Comparison} {condition : Option Condition} {value : Expr}
      (hrule : rule attr comparison condition animation value = .ok c)
      (guards : ∀ g ∈ condition, g ∈ input.guards) (values : value ∈ input.values) :
      input.Made attr animation c := by
    obtain ⟨-, rfl⟩ := rule_eq_ok_iff.1 hrule
    exact ⟨hrule, guards, values⟩
  have hone {comparison : Comparison} {condition : Option Condition} {value : Expr}
      (h : (do return [← rule attr comparison condition animation value]) = Except.ok rules)
      (guards : ∀ g ∈ condition, g ∈ input.guards) (values : value ∈ input.values) :
      input.Made attr animation c := by
    obtain ⟨d, hrule, hlist⟩ := except_bind_eq_ok.1 h
    cases hlist
    obtain rfl := List.mem_singleton.1 hc
    exact hmade hrule guards values
  cases input with
  | clear => cases h
  | value e => exact hone h (by simp) (by simp [values])
  | guarded condition e => exact hone h (by simp [guards]) (by simp [values])
  | bounds b =>
    rw [expandItem] at h
    split at h
    · cases h
    · obtain ⟨value, hvalue, hrule⟩ := Session.exists_of_mem_mapM h hc
      exact hmade hrule (fun g hg => by simpa [guards] using hg) hvalue
  | many items => cases h

/-- **A value expands to one rule.** -/
theorem eq_of_expand_value {e : Expr} (h : (value e).expand attr animation = .ok rules) :
    rules = [⟨attr, .equal, e, none, animation⟩] := by
  unfold expand at h
  split at h
  · obtain ⟨d, hrule, hlist⟩ := except_bind_eq_ok.1 h
    cases hlist
    rw [(rule_eq_ok_iff.1 hrule).2]
  · cases h

/-- **What is expanded** is for an attribute that may be given, and every rule is made for it. -/
theorem made_of_expand (h : input.expand attr animation = .ok rules) :
    attr.isSettable = true ∧ ∀ c ∈ rules, input.Made attr animation c := by
  unfold expand at h
  split at h
  · next settable =>
    refine ⟨settable, fun c hc => ?_⟩
    cases input with
    | many items =>
      obtain ⟨all, hall, hflat⟩ := except_bind_eq_ok.1 h
      cases hflat
      obtain ⟨batch, hbatch, hc⟩ := List.mem_flatten.1 hc
      obtain ⟨item, hitem, hexpands⟩ := Session.exists_of_mem_mapM hall hbatch
      have hmade := made_of_expandItem hexpands hc
      exact ⟨hmade.rule, fun g hg => mem_guardsOfAll.2 ⟨item, hitem, hmade.guard g hg⟩,
        mem_valuesOfAll.2 ⟨item, hitem, hmade.value⟩⟩
    | _ => exact made_of_expandItem h hc
  · cases h

/-- **Where the rules of an input come from.** -/
theorem stems_of_expand (h : input.expand attr animation = .ok rules) (hc : c ∈ rules) :
    input.Stems c :=
  have hmade := (made_of_expand h).2 c hc
  ⟨⟨(rule_eq_ok_iff.1 hmade.rule).1, hmade.guard⟩, hmade.value⟩

/-- The rules of an input are for the attribute that it is assigned to. -/
theorem target_of_expand (h : input.expand attr animation = .ok rules) (hc : c ∈ rules) :
    c.target = attr :=
  congrArg Constraint.target (rule_eq_ok_iff.1 ((made_of_expand h).2 c hc).rule).2

theorem Expands.wellFormed (h : input.Expands c) (guards : ∀ g ∈ input.guards, g.WellFormed known)
    (anchors : ∀ a ∈ c.value.anchors, known a.view) : c.WellFormed known :=
  ⟨Expr.wellFormed_iff.2 ⟨h.sound, anchors⟩, fun g hg => guards g (h.guard g hg)⟩

end ConstraintInput

/-! ## Preparing -/

namespace Session

variable {s : Session} {v : ViewId} {attr : Attribute} {input : ConstraintInput}
  {rules batch : List Constraint}

/-- Every view that an expression has an anchor on is registered. -/
def KnowsAnchors (s : Session) (e : Expr) : Prop := ∀ a ∈ e.anchors, s.contains a.view = true

/-- A view that the program asks for is one that is there. -/
theorem view?_eq_ok_iff {found : View} : s.view? v = .ok found ↔ s.views.get? v = some found := by
  rw [view?]
  cases s.views.get? v with
  | none => simp
  | some view => simp

/-- **The check of anchors** passes if every rule of the batch names registered views only. -/
theorem checkAnchors_eq_ok_iff :
    s.checkAnchors rules = .ok () ↔ ∀ c ∈ rules, s.KnowsAnchors c.value := by
  have hall (anchors : List Anchor) :
      (anchors.forM fun a => do let _ ← s.view? a.view : Except Error Unit) = .ok () ↔
        ∀ a ∈ anchors, s.contains a.view = true := by
    induction anchors with
    | nil => exact ⟨fun _ => by simp, fun _ => rfl⟩
    | cons a rest ih =>
      rw [List.forall_mem_cons, ← ih, contains_iff]
      refine except_bind_eq_ok.trans ?_
      simp only [except_bind_eq_ok, view?_eq_ok_iff]
      constructor
      · rintro ⟨_, ⟨found, hfound, -⟩, hrest⟩
        exact ⟨⟨found, hfound⟩, hrest⟩
      · rintro ⟨⟨found, hfound⟩, hrest⟩
        exact ⟨(), ⟨found, hfound, rfl⟩, hrest⟩
  rw [checkAnchors, hall]
  simp only [List.mem_flatMap, KnowsAnchors]
  constructor
  · intro h c hc a ha
    exact h a ⟨c, hc, ha⟩
  · rintro h a ⟨c, hc, ha⟩
    exact h c hc a ha

/-- **What is prepared**: the rules of the input, through the container, where their anchors are
known. -/
theorem prepare?_eq_ok_iff : s.prepare? v attr input = .ok batch ↔
    ∃ rules, input.expand attr s.currentAnimation = .ok rules ∧
      (∀ c ∈ rules, s.KnowsAnchors c.value) ∧ batch = s.throughContainer v rules := by
  rw [prepare?, except_bind_eq_ok]
  refine exists_congr fun rules => and_congr_right fun _ => ?_
  rw [except_bind_eq_ok]
  constructor
  · rintro ⟨_, hchecked, hbatch⟩
    exact ⟨checkAnchors_eq_ok_iff.1 hchecked, (Except.ok.inj hbatch).symm⟩
  · rintro ⟨hknown, rfl⟩
    exact ⟨(), checkAnchors_eq_ok_iff.2 hknown, rfl⟩

/-- **The parent that a view is rendered under** is registered, if there is one. -/
def KnowsPlace (s : Session) (v : ViewId) : Prop :=
  ∀ p, s.structuralParent? v = some p → s.contains p = true

/-- Rules stay well formed on their way through the container. -/
theorem KnowsPlace.throughContainer (place : s.KnowsPlace v) {c : Constraint}
    (wellFormed : ∀ c ∈ rules, c.WellFormed fun u => s.contains u = true)
    (hc : c ∈ s.throughContainer v rules) : c.WellFormed fun u => s.contains u = true := by
  unfold Session.throughContainer at hc
  cases hv : s.views.get? v with
  | none =>
    simp only [hv] at hc
    exact wellFormed c hc
  | some view =>
    simp only [hv] at hc
    split at hc
    · next parent structural hparent hstructural =>
      split at hc
      · obtain ⟨before, hbefore, rfl⟩ := List.mem_map.1 hc
        refine (wellFormed before hbefore).mapAnchors fun a ha => ?_
        rw [Anchor.rename]
        split
        · refine place structural ?_
          rw [structuralParent?, hv]
          exact hstructural
        · exact ha
      · exact wellFormed c hc
    · exact wellFormed c hc

/-- **What is prepared is well formed**, as far as the guards of the input are. -/
theorem wellFormed_of_prepare? (place : s.KnowsPlace v)
    (guards : ∀ g ∈ input.guards, g.WellFormed fun u => s.contains u = true)
    (h : s.prepare? v attr input = .ok batch) :
    ∀ c ∈ batch, c.WellFormed fun u => s.contains u = true := by
  obtain ⟨rules, hexpand, hknown, rfl⟩ := prepare?_eq_ok_iff.1 h
  intro c hc
  refine place.throughContainer (fun c hc => ?_) hc
  exact (ConstraintInput.stems_of_expand hexpand hc).wellFormed guards (hknown c hc)

end Session

end AnchorLayout
