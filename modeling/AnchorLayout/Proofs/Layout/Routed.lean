import AnchorLayout.Proofs.Layout.Storing
/-!
# Rules name the container

  A view whose parent has a container is rendered inside the container, so its rules are to name the
  container where they were written with the parent.  They may have been stored before the view came
  there or afterwards, and the container may change behind them.

  1. **Program** — every list of calls on a new session, with all that handlers do.
  2. **Specification** — `Session.Routed`: no rule of a view names the parent of the view, unless that
     is what the view is rendered under.
  3. **Storing (`RoutedAt.suits`, `Routed.edit`)** — what is stored has gone through the container.
  4. **The crux (`routed_setParent`)** — a move renames the anchors from the old container to the old
     parent, and then from the new parent to the new container; whatever they were before, none is
     left on the new parent.
-/

namespace AnchorLayout

open Operation

namespace Session

variable {s s' : Session} {u v p child target : ViewId} {batch : List Constraint}

/-! ## Routed rules -/

/-- **No rule of a view names its parent**, unless the view is rendered there; and a view that has a
parent is rendered somewhere. -/
structure RoutedAt (s : Session) (v : ViewId) : Prop where
  rendered : ∀ view p, s.views.get? v = some view → view.hierarchy.parent = some p →
    ∃ q, view.hierarchy.structuralParent = some q
  free : ∀ view p, s.views.get? v = some view → view.hierarchy.parent = some p →
    view.hierarchy.structuralParent ≠ some p → view.constraints.mentions p = false

/-- **Every anchor on a parent with a container names the container.** -/
def Routed (s : Session) : Prop := ∀ v, s.RoutedAt v

/-- It is about the view alone. -/
theorem RoutedAt.congr (same : s'.views.get? v = s.views.get? v) (h : s.RoutedAt v) :
    s'.RoutedAt v :=
  ⟨fun view p hv => h.rendered view p (same ▸ hv), fun view p hv => h.free view p (same ▸ hv)⟩

/-- A change of a view that leaves its parents and its rules alone leaves it routed. -/
theorem RoutedAt.modifyView {f : View → View} (h : s.RoutedAt v)
    (parent : ∀ view, (f view).hierarchy.parent = view.hierarchy.parent)
    (structural : ∀ view, (f view).hierarchy.structuralParent = view.hierarchy.structuralParent)
    (constraints : ∀ view, (f view).constraints = view.constraints) :
    (s.modifyView u f).RoutedAt v := by
  by_cases huv : u = v
  · subst huv
    have hbefore {view : View} (hview : (s.modifyView u f).views.get? u = some view) :
        ∃ before, s.views.get? u = some before ∧ f before = view := by
      rw [get?_modifyView, if_pos rfl] at hview
      exact Option.map_eq_some_iff.1 hview
    constructor
    · intro view p hview hparent
      obtain ⟨before, hbefore, rfl⟩ := hbefore hview
      obtain ⟨q, hq⟩ := h.rendered before p hbefore (parent before ▸ hparent)
      exact ⟨q, (structural before).trans hq⟩
    · intro view p hview hparent hstructural
      obtain ⟨before, hbefore, rfl⟩ := hbefore hview
      rw [constraints]
      exact h.free before p hbefore (parent before ▸ hparent) (structural before ▸ hstructural)
  · exact h.congr (by rw [get?_modifyView, if_neg huv])

/-- A view without a parent is free to name anything. -/
theorem routedAt_of_noParent (h : ∀ place, s.place? v = some place → place.parent = none) :
    s.RoutedAt v := by
  have hnone {view : View} {p : ViewId} (hview : s.views.get? v = some view)
      (hparent : view.hierarchy.parent = some p) : False := by
    rw [h view.hierarchy (by rw [place?, hview]; rfl)] at hparent
    cases hparent
  exact ⟨fun view p hview hparent => (hnone hview hparent).elim,
    fun view p hview hparent => (hnone hview hparent).elim⟩

/-- The only view of a new session has no parent. -/
theorem routed_new (options : Options) (issuer : Issuer) : (Session.new options issuer).Routed := by
  intro v
  refine routedAt_of_noParent fun place h => ?_
  rw [place?_new] at h
  split at h
  · cases h
    rfl
  · cases h

/-- Neither has a view that has just been registered. -/
theorem Routed.register (h : s.Routed) (tag : String) : (s.register tag).Routed := by
  intro v
  by_cases hv : s.nextId = v
  · refine routedAt_of_noParent fun place hplace => ?_
    rw [place?_register, if_pos hv] at hplace
    cases hplace
    rfl
  · exact (h v).congr (OrderedMap.get?_insert_of_ne s.views _ hv)

/-- What is left of the views is routed. -/
theorem Routed.sub (h : s.Routed)
    (sub : ∀ v view, s'.views.get? v = some view → s.views.get? v = some view) : s'.Routed :=
  fun v => ⟨fun view p hv => (h v).rendered view p (sub v view hv),
    fun view p hv => (h v).free view p (sub v view hv)⟩

/-! ## Moves -/

/-- A view that has been taken out is under nothing, but its rules and its parent are still what
they were. -/
theorem RoutedAt.detach (h : s.RoutedAt v) (child : ViewId) : (s.detach child).RoutedAt v := by
  by_cases hv : child = v
  · subst hv
    unfold Session.detach
    cases hold : s.structuralParent? child with
    | none => exact h
    | some old =>
      refine routedAt_of_noParent fun place hplace => ?_
      simp only [place?_markDirty, place?_modifyView, if_true] at hplace
      obtain ⟨before, -, rfl⟩ := Option.map_eq_some_iff.1 hplace
      rfl
  · unfold Session.detach
    cases s.structuralParent? child with
    | none => exact h
    | some old =>
      have hunheld : (s.modifyView old fun view => view.updateHierarchy fun h =>
          { h with children := h.children.filter (· ≠ child) }).RoutedAt v :=
        h.modifyView (fun _ => rfl) (fun _ => rfl) fun _ => rfl
      refine hunheld.congr ?_
      show ((Session.modifyView _ child _).views.get? v) = _
      rw [get?_modifyView, if_neg hv]

/-- **A move** leaves no rule of the view on its new parent, unless the view is rendered there. -/
theorem routed_setParent (h : s.Routed) (child : ViewId) (parent : Option ViewId) :
    ((setParent child parent).after s).Routed := by
  have hdetached : (s.detach child).Routed := fun v => (h v).detach child
  rcases setParent_cases s child parent with hsame | ⟨-, hleft⟩ | ⟨before, -, hleft⟩ |
    ⟨before, p, target, -, -, -, hleft⟩
  · rwa [hsame]
  · rwa [hleft]
  · rw [hleft]
    intro v
    by_cases hv : child = v
    · subst hv
      -- the child has no parent any more
      refine routedAt_of_noParent fun place hplace => ?_
      rw [place?_settled, unlink, place?_modifyView, if_pos rfl] at hplace
      obtain ⟨found, -, rfl⟩ := Option.map_eq_some_iff.1 hplace
      rfl
    · refine (hdetached v).congr ?_
      rw [get?_settled, if_neg hv, unlink, get?_modifyView, if_neg hv]
  · rw [hleft]
    intro v
    by_cases hv : child = v
    · subst hv
      -- the child: its anchors have gone back to the old parent, and then from the new one to its
      -- place
      have hfound {view : View} (hview : (((s.detach child).attach child target p).settled child before
          (some p) (some target)).views.get? child = some view) : ∃ found : View,
            view = (found.updateHierarchy (·.linked p target)).updateConstraints fun store =>
              (store.mapAnchors (Anchor.between before.structuralParent before.parent)).mapAnchors
                (Anchor.rename p target) := by
        rw [get?_settled, if_pos rfl, attach, get?_modifyView, if_pos rfl] at hview
        obtain ⟨attached, hattached, rfl⟩ := Option.map_eq_some_iff.1 hview
        obtain ⟨found, -, rfl⟩ := Option.map_eq_some_iff.1 hattached
        exact ⟨found, rfl⟩
      refine ⟨fun view q hview _ => ?_, fun view q hview hparent hstructural => ?_⟩
      · obtain ⟨found, rfl⟩ := hfound hview
        exact ⟨target, rfl⟩
      obtain ⟨found, rfl⟩ := hfound hview
      obtain rfl : p = q := Option.some.inj hparent
      have hne : p ≠ target := fun heq => hstructural (congrArg some heq.symm)
      refine ConstraintStore.mentions_eq_false_iff.2 fun c hc a ha => ?_
      change c ∈ ((found.constraints.mapAnchors _).mapAnchors _).rules at hc
      rw [ConstraintStore.rules_mapAnchors] at hc
      obtain ⟨d, -, rfl⟩ := List.mem_map.1 hc
      change a ∈ (d.value.mapAnchors _).anchors at ha
      rw [Term.anchors_mapAnchors] at ha
      obtain ⟨b, -, rfl⟩ := List.mem_map.1 ha
      exact Anchor.view_rename_ne hne b
    -- any other view has the parents and the rules that it had
    · have hheld : ((s.detach child).modifyView target fun view =>
          view.updateHierarchy (·.holding child)).RoutedAt v :=
        (hdetached v).modifyView (fun _ => rfl) (fun _ => rfl) fun _ => rfl
      refine hheld.congr ?_
      rw [get?_settled, if_neg hv, attach, get?_modifyView, if_neg hv]
      rfl

/-! ## Rules that are stored -/

/-- **Rules that suit a view**: none of them names the parent of the view, unless the view is rendered
there. -/
def Suits (s : Session) (v : ViewId) (batch : List Constraint) : Prop :=
  ∀ view p, s.views.get? v = some view → view.hierarchy.parent = some p →
    view.hierarchy.structuralParent ≠ some p → ∀ c ∈ batch, ∀ a ∈ c.value.anchors, a.view ≠ p

/-- **What has gone through the container** suits the view. -/
theorem RoutedAt.suits (h : s.RoutedAt v) (batch : List Constraint) :
    s.Suits v (s.throughContainer v batch) := by
  intro view p hview hparent hstructural c hc a ha
  obtain ⟨q, hq⟩ := h.rendered view p hview hparent
  have hne : p ≠ q := fun heq => hstructural (heq ▸ hq)
  rw [throughContainer_eq, through_of_get? hview] at hc
  obtain ⟨d, -, rfl⟩ := List.mem_map.1 hc
  change a ∈ (d.value.mapAnchors _).anchors at ha
  rw [hparent, hq, Term.anchors_mapAnchors] at ha
  obtain ⟨b, -, rfl⟩ := List.mem_map.1 ha
  exact Anchor.view_rename_ne hne b

/-- **An edit** that brings nothing but suitable rules. -/
theorem Routed.constrain (h : s.Routed) (v : ViewId) (batch : List Constraint)
    {f : ConstraintStore → ConstraintStore} (suits : s.Suits v batch)
    (edit : ∀ store, ∀ c ∈ (f store).rules, c ∈ store.rules ∨ c ∈ batch) :
    (s.constrain v f).Routed := by
  intro u
  by_cases huv : v = u
  · subst huv
    have hbefore {view : View} (hview : (s.constrain v f).views.get? v = some view) :
        ∃ before, s.views.get? v = some before ∧ before.updateConstraints f = view := by
      rw [get?_constrain, if_pos rfl] at hview
      exact Option.map_eq_some_iff.1 hview
    constructor
    · intro view p hview hparent
      obtain ⟨before, hbefore, rfl⟩ := hbefore hview
      exact (h v).rendered before p hbefore hparent
    · intro view p hview hparent hstructural
      obtain ⟨before, hbefore, rfl⟩ := hbefore hview
      have hfree := (h v).free before p hbefore hparent hstructural
      rw [ConstraintStore.mentions_eq_false_iff] at hfree ⊢
      intro c hc
      rcases edit before.constraints c hc with hold | hnew
      · exact hfree c hold
      · exact suits before p hbefore hparent hstructural c hnew
  · exact (h u).congr (by rw [get?_constrain, if_neg huv])

/-- **An edit that a request makes** keeps all rules routed. -/
theorem Routed.edit (h : s.Routed) (v : ViewId) (e : StoreEdit) (passes : s.Passes v e) :
    (s.constrain v fun store => store.edit e).Routed := by
  have nothing : s.Suits v [] := fun _ _ _ _ _ _ hc => absurd hc List.not_mem_nil
  cases e with
  | assign a =>
    obtain ⟨rules, hrules⟩ := passes
    refine h.constrain v a.batch ?_ fun store c hc => ConstraintStore.mem_rules_of_assign hc
    exact hrules ▸ (h v).suits rules
  | clear attr =>
    exact h.constrain v [] nothing fun store c hc => Or.inl (ConstraintStore.mem_rules_of_clear hc)
  | release => exact h.constrain v [] nothing fun store c hc => absurd hc List.not_mem_nil
  | rename f => exact passes.elim

/-! ## Every list of acts -/

/-- **Each step keeps the rules routed**, so every list of acts does. -/
theorem ruleInvariant_routed : RuleInvariant Routed where
  sub := fun h sub => h.sub sub
  register := fun tag h => h.register tag
  touch := fun _ _ h place constraints w =>
    (h w).modifyView (fun view => congrArg Hierarchy.parent (place view))
      (fun view => congrArg Hierarchy.structuralParent (place view)) constraints
  reshape := fun _ _ h links w =>
    (h w).modifyView (fun view => congrArg Prod.fst (links view.hierarchy))
      (fun view => congrArg (fun l => l.2.1) (links view.hierarchy)) fun _ => rfl
  move := fun child parent h => routed_setParent h child parent
  edit := fun v e h passes => h.edit v e passes

theorem Routed.afterActs (h : s.Routed) (acts : List Act) : (s.afterActs acts).Routed :=
  ruleInvariant_routed.afterActs h acts

/-! ## Every list of calls -/

/-- **Rules name the container**: after every list of calls on a new session, no value of a rule of a
view has an anchor on the parent of the view, unless the view is rendered there. -/
theorem rules_name_container_of_calls (options : Options) (issuer : Issuer) (calls : List Call) :
    ∀ v view p, ((Session.new options issuer).afterCalls calls).views.get? v = some view →
      view.hierarchy.parent = some p → view.hierarchy.structuralParent ≠ some p →
        ∀ rule ∈ view.constraints.rules, ∀ a ∈ rule.value.anchors, a.view ≠ p := by
  intro v view p hview hparent hstructural
  have hrouted := (routed_new options issuer).afterActs ((Session.new options issuer).unfolded calls)
  rw [afterActs_unfolded] at hrouted
  exact ConstraintStore.mentions_eq_false_iff.1 ((hrouted v).free view p hview hparent hstructural)

/-- A rule on the parent stored before the container comes, and one stored after it. -/
def someTenant : List Call :=
  [.request 1 (.createChild ⟨1⟩), .request 1 (.create "div"), .request 1 (.createChild ⟨2⟩),
    .request 1 (.set ⟨4⟩ .left (.value (.anchor ⟨⟨2⟩, .left⟩))),
    .request 1 (.setContainer ⟨2⟩ (some ⟨3⟩)),
    .request 1 (.set ⟨4⟩ .right (.value (.anchor ⟨⟨2⟩, .right⟩)))]

/-- Both rules of the tenant name the container: one was renamed when the container came, the other
when it was stored. -/
theorem rules_name_container_of_someTenant :
    ∃ view, ((Session.new .default "").afterCalls someTenant).views.get? ⟨4⟩ = some view ∧
      view.hierarchy.parent = some ⟨2⟩ ∧ view.hierarchy.structuralParent ≠ some ⟨2⟩ ∧
        view.constraints.rules.length = 2 ∧
          ∀ rule ∈ view.constraints.rules, ∀ a ∈ rule.value.anchors, a.view ≠ ⟨2⟩ := by
  have place : (((Session.new .default "").afterCalls someTenant).views.get? ⟨4⟩).map
      (fun view => (view.hierarchy.parent, view.hierarchy.structuralParent,
        view.constraints.rules.length)) = some (some ⟨2⟩, some ⟨3⟩, 2) := by decide +kernel
  obtain ⟨view, hview, hfields⟩ := Option.map_eq_some_iff.1 place
  have hparent : view.hierarchy.parent = some ⟨2⟩ := congrArg Prod.fst hfields
  have hcontainer : view.hierarchy.structuralParent = some ⟨3⟩ := congrArg (·.2.1) hfields
  have hstructural : view.hierarchy.structuralParent ≠ some ⟨2⟩ := by
    rw [hcontainer]
    decide
  exact ⟨view, hview, hparent, hstructural, congrArg (·.2.2) hfields,
    rules_name_container_of_calls .default "" someTenant ⟨4⟩ view ⟨2⟩ hview hparent hstructural⟩

end Session

end AnchorLayout
