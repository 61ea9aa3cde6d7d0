import AnchorLayout.Session.Basic
import Mathlib.Logic.Relation
import Mathlib.Data.List.Perm.Subperm
/-!
# Lines upwards

  1. **Specification** — `Climb`, one step to the rendered parent; `Under`, one step or more;
     `Below`, any number of steps.  A view has at most one parent, so the views that one view is
     below form a line (`below_total`).
  2. **Program** — `Session.lineage` and `isAncestorOrSelf`, which stop when their fuel does.
  3. **The crux (`lineageFrom_settled`)** — a line that is cut off has as many views in it as the
     fuel allows, all of them registered; without a cycle they are distinct, and then there are
     more of them than views.
-/

namespace AnchorLayout

namespace Session

variable {s : Session} {u v a b p : ViewId}

/-! ## Relations -/

/-- One step up in the rendered tree. -/
def Climb (s : Session) (v p : ViewId) : Prop := s.structuralParent? v = some p

/-- **Properly below**: one step up or more. -/
def Under (s : Session) : ViewId → ViewId → Prop := Relation.TransGen s.Climb

/-- **Below or equal**: any number of steps up. -/
def Below (s : Session) : ViewId → ViewId → Prop := Relation.ReflTransGen s.Climb

/-- No line comes back to where it started. -/
def Acyclic (s : Session) : Prop := ∀ v, ¬ s.Under v v

/-- A view has one parent, so lines do not branch on their way up. -/
theorem climb_unique (h : s.Climb v a) (h' : s.Climb v b) : a = b :=
  Option.some.inj (h.symm.trans h')

/-- No step leads up from a view that hangs nowhere. -/
theorem not_climb_of_none (h : s.structuralParent? v = none) : ¬ s.Climb v p := by
  intro hclimb
  rw [Climb, h] at hclimb
  cases hclimb

theorem contains_iff : s.contains v = true ↔ ∃ view, s.views.get? v = some view :=
  Option.isSome_iff_exists

/-- Being registered, as the lists of views that are walked through say it. -/
theorem contains_iff_mem_keys : s.contains v = true ↔ v ∈ s.views.keys :=
  OrderedMap.contains_iff_mem_keys

/-- A view with a parent is registered. -/
theorem contains_of_climb (h : s.Climb v p) : s.contains v = true := by
  unfold Climb structuralParent? at h
  obtain ⟨view, hview, -⟩ := Option.bind_eq_some_iff.1 h
  exact contains_iff.2 ⟨view, hview⟩

theorem Climb.below (h : s.Climb v p) : s.Below v p := Relation.ReflTransGen.single h

theorem Under.below (h : s.Under v a) : s.Below v a := h.to_reflTransGen

theorem below_refl (s : Session) (v : ViewId) : s.Below v v := Relation.ReflTransGen.refl

/-- Lines are put together. -/
theorem Below.trans (h : s.Below u v) (h' : s.Below v a) : s.Below u a :=
  Relation.ReflTransGen.trans h h'

/-- A line has no step or some. -/
theorem Below.eq_or_under (h : s.Below v a) : a = v ∨ s.Under v a :=
  Relation.reflTransGen_iff_eq_or_transGen.1 h

/-- A line with a step in front of it has at least one. -/
theorem Climb.under_of_below (h : s.Climb v p) (h' : s.Below p a) : s.Under v a :=
  Relation.TransGen.head' h h'

/-- What a view is below, it is itself or its parent is below. -/
theorem below_iff_eq_or_climb : s.Below v a ↔ v = a ∨ ∃ p, s.Climb v p ∧ s.Below p a :=
  Relation.ReflTransGen.cases_head_iff

/-- A proper line, by its first step. -/
theorem under_iff_climb : s.Under v a ↔ ∃ p, s.Climb v p ∧ s.Below p a :=
  Relation.TransGen.head'_iff

/-- A view that is properly below another is registered. -/
theorem contains_of_under (h : s.Under v a) : s.contains v = true := by
  obtain ⟨p, hp, -⟩ := under_iff_climb.1 h
  exact contains_of_climb hp

/-- Of two views that a view is below, one is below the other. -/
theorem below_total (h : s.Below v a) (h' : s.Below v b) : s.Below a b ∨ s.Below b a :=
  Relation.ReflTransGen.total_of_right_unique (fun _ _ _ => climb_unique) h h'

/-- Without cycles, two views that are below each other are one. -/
theorem Below.antisymm (acyclic : s.Acyclic) (h : s.Below v a) (h' : s.Below a v) : v = a := by
  rcases h.eq_or_under with rfl | hu
  · rfl
  · exact absurd (Relation.TransGen.trans_left hu h') (acyclic v)

/-! ## The line of a view -/

/-- What a line lists is what the view is below, whatever the fuel. -/
theorem below_of_mem_lineageFrom {fuel : Nat} (h : a ∈ s.lineageFrom fuel v) : s.Below v a := by
  induction fuel generalizing v with
  | zero => exact absurd h List.not_mem_nil
  | succ fuel ih =>
    rw [lineageFrom, List.mem_cons] at h
    rcases h with rfl | h
    · exact below_refl s a
    · cases hp : s.structuralParent? v with
      | none => rw [hp] at h; exact absurd h List.not_mem_nil
      | some p =>
        rw [hp] at h
        exact (Climb.below hp).trans (ih h)

/-- Without a cycle nothing occurs twice in a line. -/
theorem nodup_lineageFrom (acyclic : s.Acyclic) (fuel : Nat) (v : ViewId) :
    (s.lineageFrom fuel v).Nodup := by
  induction fuel generalizing v with
  | zero => exact List.nodup_nil
  | succ fuel ih =>
    rw [lineageFrom]
    cases hp : s.structuralParent? v with
    | none => exact List.nodup_cons.2 ⟨List.not_mem_nil, List.nodup_nil⟩
    | some p =>
      refine List.nodup_cons.2 ⟨?_, ih p⟩
      intro hv
      exact acyclic v (Climb.under_of_below hp (below_of_mem_lineageFrom hv))

/-- A line ends within its fuel and holds all that the view is below, or it is cut off: then it
takes all of the fuel and its views are registered. -/
theorem lineageFrom_settled (s : Session) (fuel : Nat) (v : ViewId) :
    ((∀ more, s.lineageFrom (fuel + more) v = s.lineageFrom fuel v) ∧
        ∀ a, s.Below v a → a ∈ s.lineageFrom fuel v) ∨
      ((s.lineageFrom fuel v).length = fuel ∧
        ∀ a ∈ s.lineageFrom fuel v, s.contains a = true) := by
  induction fuel generalizing v with
  | zero => exact Or.inr ⟨rfl, fun a ha => absurd ha List.not_mem_nil⟩
  | succ fuel ih =>
    cases hp : s.structuralParent? v with
    | none =>
      refine Or.inl ⟨fun more => ?_, fun a ha => ?_⟩
      · rw [Nat.succ_add, lineageFrom, lineageFrom, hp]
      · rcases below_iff_eq_or_climb.1 ha with rfl | ⟨p, hvp, -⟩
        · rw [lineageFrom]
          exact List.mem_cons_self
        · exact absurd hvp (not_climb_of_none hp)
    | some p =>
      -- the line of the parent decides, with one view less and one step less
      rcases ih p with ⟨hmore, hall⟩ | ⟨hlength, hregistered⟩
      · refine Or.inl ⟨fun more => ?_, fun a ha => ?_⟩
        · rw [Nat.succ_add, lineageFrom, lineageFrom, hp]
          simp only [hmore]
        · rw [lineageFrom, hp]
          rcases below_iff_eq_or_climb.1 ha with rfl | ⟨p', hvp', ha'⟩
          · exact List.mem_cons_self
          · cases climb_unique hp hvp'
            exact List.mem_cons_of_mem _ (hall a ha')
      · refine Or.inr ⟨?_, fun a ha => ?_⟩
        · rw [lineageFrom, hp, List.length_cons, hlength]
        · rw [lineageFrom, hp] at ha
          rcases List.mem_cons.1 ha with rfl | ha
          · exact contains_of_climb hp
          · exact hregistered a ha

/-- Distinct registered views are no more than there are views. -/
theorem length_le_size {views : List ViewId} (distinct : views.Nodup)
    (registered : ∀ v ∈ views, s.contains v = true) : views.length ≤ s.views.size := by
  have hsub : views ⊆ s.views.keys := fun v hv => contains_iff_mem_keys.1 (registered v hv)
  have hle := (distinct.subperm hsub).length_le
  rwa [OrderedMap.keys, List.length_map] at hle

/-- **No line is longer than the number of views**, one unregistered parent at its end left out. -/
theorem lineage_settled (acyclic : s.Acyclic) (v : ViewId) :
    (∀ more, s.lineageFrom (s.views.size + 1 + more) v = s.lineage v) ∧
      ∀ a, s.Below v a → a ∈ s.lineage v := by
  rcases lineageFrom_settled s (s.views.size + 1) v with h | ⟨hlength, hregistered⟩
  · exact h
  · exfalso
    have hle := length_le_size (nodup_lineageFrom acyclic _ v) hregistered
    omega

/-- **The line of a view** holds exactly what it is below, where nothing goes in a circle. -/
theorem mem_lineage_iff (acyclic : s.Acyclic) : a ∈ s.lineage v ↔ s.Below v a :=
  ⟨below_of_mem_lineageFrom, (lineage_settled acyclic v).2 a⟩

/-- So the check against cycles, which looks through a line, is about being below. -/
theorem isAncestorOrSelf_iff (acyclic : s.Acyclic) :
    s.isAncestorOrSelf a v = true ↔ s.Below v a := by
  rw [isAncestorOrSelf, List.contains_iff_mem, mem_lineage_iff acyclic]

end Session

end AnchorLayout
