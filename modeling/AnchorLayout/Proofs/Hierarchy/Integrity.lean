import AnchorLayout.Proofs.Hierarchy.Placing
/-!
# What keeps everything housed

  Every operation on the hierarchy keeps everything housed, as long as it leaves containers alone:
  it does not move a container away from its view, take it for another view or make it plain.

  1. **Program** — `Session.setContainer`, `setChrome`, `dock`, `addChildren`, `register`, `swept`.
  2. **Specification** — `Housed`, and `Known`, that the parents that were asked for are there.
  3. **The crux (`Housed.placed_recontained`)** — after a change of container a view is the new one, or
     has been moved, or is chrome; what was neither chrome nor under the old container is not a
     child of the view at all.
-/

namespace AnchorLayout

open Operation

namespace Session

variable {s s' : Session} {u v p q c : ViewId} {home outer : Hierarchy} {moved : List ViewId}
  {container : Option ViewId}

/-! ## A change of container -/

/-- Chrome is rendered beside what the container holds, directly under its view. -/
theorem landing_chrome (outer : Hierarchy) (v p : ViewId) : outer.landing v true p = p := by
  rw [Hierarchy.landing]
  cases outer.container <;> simp

/-- What is not chrome lands in the container, if there is one. -/
theorem Housed.landing_plain (h : s.Housed) (hv : s.home? v = some home)
    (plain : home.isChrome = false) (hp : s.home? p = some outer) :
    outer.landing v false p = outer.container.getD p := by
  rw [Hierarchy.landing]
  cases hc : outer.container with
  | none => rfl
  | some c =>
    have hcv : c ≠ v := by
      rintro rfl
      obtain ⟨inner, hinner, hchrome, -⟩ := h.house hp hc
      obtain rfl := Option.some.inj (hinner.symm.trans hv)
      rw [plain] at hchrome
      cases hchrome
    simp [hcv]

/-- The containers are chrome children of their views still. -/
theorem Housed.house_recontained (h : s.Housed) (r : s.Recontained s' p container moved)
    (known : ∀ c, container = some c → s.contains c = true)
    (spared : ∀ c, container = some c → ∀ q ∈ s.owners c, q = p)
    (hq : s'.home? q = some home) (hc : home.container = some c) :
    ∃ inner, s'.home? c = some inner ∧ inner.isChrome = true ∧ inner.parent = some q ∧
      inner.structuralParent = some q := by
  obtain ⟨before, hq', rfl⟩ := r.exists_before hq
  rw [recontained_container] at hc
  by_cases hqp : q = p
  · rw [if_pos hqp] at hc
    subst hqp
    obtain ⟨inner, hinner⟩ := contains_iff_home.1 (known c hc)
    refine ⟨_, r.home?_of_before hinner, ?_⟩
    rcases recontained_cases inner c q container moved rfl with ⟨-, hrest⟩ | ⟨hnot, -⟩ | ⟨hnot, -⟩
    · exact hrest
    · exact absurd hc hnot
    · exact absurd hc hnot
  · rw [if_neg hqp] at hc
    obtain ⟨inner, hinner, hchrome, hparent, hstructural⟩ := h.house hq' hc
    refine ⟨_, r.home?_of_before hinner, ?_⟩
    rcases recontained_cases inner c p container moved rfl with
      ⟨hnew, -⟩ | ⟨-, -, hplain, -⟩ | ⟨-, -, hchrome', hparent', hstructural'⟩
    · exact absurd (spared c hnew q (mem_owners_iff.2 ⟨before, hq', hc⟩)) hqp
    · rw [hchrome] at hplain
      cases hplain
    · rw [hchrome', hparent', hstructural']
      exact ⟨hchrome, hparent, hstructural⟩

/-- Every view is rendered where it belongs now. -/
theorem Housed.placed_recontained (h : s.Housed) (f : s.Forest)
    (hmoved : s.visualChildren? p = .ok moved) (r : s.Recontained s' p container moved)
    (hv : s'.home? v = some home) (hvq : home.parent = some q) (hq : s'.home? q = some outer) :
    home.structuralParent = some (outer.landing v home.isChrome q) := by
  obtain ⟨before, hv', hnow⟩ := r.exists_before hv
  obtain ⟨around, hq', rfl⟩ := r.exists_before hq
  have hcontainer := recontained_container around q p container moved
  rcases recontained_cases before v p container moved hnow with
    ⟨hnew, -, hparent, hstructural⟩ | ⟨hnot, -, -, hplain, hparent, hstructural⟩ |
      ⟨hnot, hwhen, hchrome, hparent, hstructural⟩
  · obtain rfl : p = q := Option.some.inj (hparent.symm.trans hvq)
    rw [if_pos rfl] at hcontainer
    rw [hstructural, landing_self (hcontainer.trans hnew)]
  · obtain rfl : p = q := Option.some.inj (hparent.symm.trans hvq)
    rw [if_pos rfl] at hcontainer
    rw [hstructural, Hierarchy.landing, hcontainer, hplain]
    cases container with
    | none => rfl
    | some c =>
      have hcv : c ≠ v := fun heq => hnot (congrArg some heq)
      simp [hcv]
  · have hold := h.placed hv' (hparent ▸ hvq) hq'
    rw [hstructural, hchrome, hold]
    by_cases hqp : q = p
    · subst hqp
      cases hkind : before.isChrome with
      | true => rw [landing_chrome, landing_chrome]
      | false =>
        -- a view that is not chrome was there to be moved, and then it has been
        exfalso
        obtain ⟨found, hfound, -, hmem⟩ := h.visualChildren? f hq'
        obtain rfl : moved = found := Except.ok.inj (hmoved.symm.trans hfound)
        have hwaits : v ∈ moved := by
          rw [hkind, h.landing_plain hv' hkind hq'] at hold
          exact (hmem v).2 ⟨before, hv', hparent ▸ hvq, hold⟩
        rcases hwhen hwaits with hchrome' | rfl
        · rw [hkind] at hchrome'
          cases hchrome'
        · exact f.acyclic v (h.under_parent hv' (hparent ▸ hvq) hq')
    · rw [if_neg hqp] at hcontainer
      rw [landing_congr hcontainer]

/-- **A change of container** keeps everything housed, if the new container is no other view's. -/
theorem Housed.recontained (h : s.Housed) (f : s.Forest) (hp : s.home? p = some outer)
    (hmoved : s.visualChildren? p = .ok moved) (r : s.Recontained s' p container moved)
    (known : ∀ c, container = some c → s.contains c = true)
    (spared : ∀ c, container = some c → ∀ q ∈ s.owners c, q = p) :
    s'.Housed ∧ (s.Known → s'.Known) := by
  refine ⟨⟨h.house_recontained r known spared, h.placed_recontained f hmoved r, ?_⟩, ?_⟩
  · intro v q now hv hvq
    rw [r.kept.nextId]
    rcases r.parent_cases hv hvq with rfl | ⟨before, hv', hparent⟩
    · exact f.lt_nextId (contains_of_home hp)
    · exact h.parent_lt_nextId hv' hparent
  · intro k v q now hv hvq
    rw [r.contains_eq]
    rcases r.parent_cases hv hvq with rfl | ⟨before, hv', hparent⟩
    · exact contains_of_home hp
    · exact k v q before hv' hparent

/-! ## The other operations -/

/-- **A change of container** keeps everything housed where the container belongs to no other
view. -/
theorem Housed.setContainer (h : s.Housed) (f : s.Forest) (p : ViewId)
    (spared : ∀ c, container = some c → ∀ q ∈ s.owners c, q = p) :
    ((setContainer p container).after s).Housed ∧
      (s.Known → ((setContainer p container).after s).Known) := by
  rcases setContainer_cases h f p container with
    ⟨e, he⟩ | ⟨outer, moved, s', hp, known, hmoved, hs', hr⟩
  · rw [after_of_error he]
    exact ⟨h, id⟩
  · rw [after_of_ok hs']
    exact h.recontained f hp hmoved hr known spared

/-- **A change of kind** keeps everything housed where no container is made plain. -/
theorem Housed.setChrome (h : s.Housed) (f : s.Forest) (v : ViewId) (isChrome : Bool)
    (spared : isChrome = false → s.owners v = []) :
    ((setChrome v isChrome).after s).Housed ∧
      (s.Known → ((setChrome v isChrome).after s).Known) := by
  rcases setChrome_cases h f v isChrome with
    ⟨e, he⟩ | hsame | ⟨before, now, s', hrehomed, -, hchrome, hparent, hplaced, hend⟩
  · rw [after_of_error he]
    exact ⟨h, id⟩
  · rw [after_of_ok hsame]
    exact ⟨h, id⟩
  · have hafter : (Session.setChrome v isChrome).after s = s' := by
      rcases hend with hok | ⟨e, p, herror, -⟩
      · exact after_of_ok hok
      · exact after_of_error herror
    rw [hafter]
    refine ⟨hrehomed.housed h (fun q hq => ?_) hplaced fun p hp => ?_,
      fun k => hrehomed.known k fun p hp => ?_⟩
    · -- a view that has been made plain is no container
      have hkind : now.isChrome = true := by
        cases isChrome with
        | true => exact hchrome
        | false =>
          rw [spared rfl] at hq
          exact absurd hq List.not_mem_nil
      obtain ⟨outer, hq', hc⟩ := mem_owners_iff.1 hq
      obtain ⟨inner, hinner, -, hq'', -⟩ := h.house hq' hc
      obtain rfl := Option.some.inj (hinner.symm.trans hrehomed.was)
      exact ⟨hkind, hparent.trans hq''⟩
    · exact h.parent_lt_nextId hrehomed.was (hparent ▸ hp)
    · exact k v p before hrehomed.was (hparent ▸ hp)

/-- **Docking** keeps everything housed where a container is docked to a view under its own. -/
theorem Housed.dock (h : s.Housed) (f : s.Forest) (v : ViewId) (target : DockTarget)
    (spared : ∀ q ∈ s.owners v, s.dockedUnder? target = some q) :
    ((dock v target).after s).Housed ∧ (s.Known → ((dock v target).after s).Known) := by
  rcases dock_cases h v target with
    ⟨e, he⟩ | ⟨parent, moved, s', hunder, hmoved, hs', htree, hhomes⟩
  · rw [after_of_error he]
    exact ⟨h, id⟩
  · rw [hunder] at spared
    have hmove := h.setParent f v spared
    rw [after_of_ok hmoved] at hmove
    rw [after_of_ok hs']
    exact ⟨hmove.1.congr hhomes htree.nextId, fun k => (hmove.2 k).congr hhomes⟩

/-- **Many moves** keep everything housed where each of them does, one after the other. -/
theorem Housed.addChildren (h : s.Housed) (f : s.Forest) (parent : ViewId)
    (children : List ViewId) (spared : ∀ v ∈ children, ∀ q ∈ s.owners v, q = parent) :
    ((addChildren parent children).after s).Housed ∧
      (s.Known → ((addChildren parent children).after s).Known) := by
  induction children generalizing s with
  | nil => exact ⟨h, id⟩
  | cons v rest ih =>
    have hspared : ∀ q ∈ s.owners v, some parent = some q := fun q hq =>
      congrArg some (spared v List.mem_cons_self q hq).symm
    have hfirst := h.setParent f v hspared
    rcases setParent_some_cases fun t ht => h.contains_placement ht with
      ⟨e, he⟩ | ⟨t, moved, hmoved, hplaced, hrelinked⟩
    · have hsame : (Session.addChildren parent (v :: rest)).after s = s :=
        after_of_error (bind_of_error he _)
      rw [hsame]
      exact ⟨h, id⟩
    · have hgo : Session.addChildren parent (v :: rest) s = Session.addChildren parent rest moved :=
        bind_of_ok hmoved _
      have hafter : (Session.addChildren parent (v :: rest)).after s =
          (Session.addChildren parent rest).after moved := by
        rw [Operation.after, Operation.after, hgo]
      rw [hafter]
      rw [after_of_ok hmoved] at hfirst
      -- the containers of all views are what they were
      obtain ⟨home, outer, hhome, -, -⟩ := placement?_eq_ok_iff.1 hplaced
      have hstill : ∀ w ∈ rest, ∀ q ∈ moved.owners w, q = parent := by
        intro w hw q hq
        obtain ⟨around, haround, hc⟩ := mem_owners_iff.1 hq
        obtain ⟨before, hbefore, hsame⟩ := (hrelinked.rehomed hhome).exists_container haround
        exact spared w (List.mem_cons_of_mem _ hw) q
          (mem_owners_iff.2 ⟨before, hbefore, hsame ▸ hc⟩)
      have hrest := ih hfirst.1 (hrelinked.kept.forest f) hstill
      exact ⟨hrest.1, fun k => hrest.2 (hfirst.2 k)⟩

/-! ## Registering and sweeping -/

/-- A new view is nowhere and holds nothing, so it spoils nothing. -/
theorem Housed.register (h : s.Housed) (f : s.Forest) (room : s.Room) (tag : String) :
    (s.register tag).Housed ∧ (s.Known → (s.register tag).Known) := by
  have hnew : s.home? s.nextId = none := by rw [home?, f.place?_nextId]; rfl
  -- a home is that of the new view, which is nowhere, or one of before
  have hold {u : ViewId} {home : Hierarchy} (hu : (s.register tag).home? u = some home) :
      home = Hierarchy.detached ∨ s.home? u = some home := by
    rw [home?_register] at hu
    split at hu
    · exact Or.inl (Option.some.inj hu).symm
    · exact Or.inr hu
  have hstill {u : ViewId} {home : Hierarchy} (hu : s.home? u = some home) :
      (s.register tag).home? u = some home := by
    rw [home?_register, if_neg, hu]
    rintro rfl
    rw [hnew] at hu
    cases hu
  refine ⟨⟨?_, ?_, ?_⟩, ?_⟩
  · intro p c outer hp hc
    rcases hold hp with rfl | hp
    · cases hc
    · obtain ⟨inner, hinner, hrest⟩ := h.house hp hc
      exact ⟨inner, hstill hinner, hrest⟩
  · intro v p home outer hv hvp hp
    rcases hold hv with rfl | hv
    · cases hvp
    · have hne : s.nextId ≠ p := by
        intro heq
        exact ViewId.lt_irrefl _ (heq ▸ h.parent_lt_nextId hv hvp)
      rw [home?_register, if_neg hne] at hp
      exact h.placed hv hvp hp
  · intro v p home hv hvp
    rcases hold hv with rfl | hv
    · cases hvp
    · exact ViewId.lt_trans (h.parent_lt_nextId hv hvp) (nextId_register room tag)
  · intro k v p home hv hvp
    rcases hold hv with rfl | hv
    · cases hvp
    · exact (contains_register s tag p).2 (Or.inr (k v p home hv hvp))

/-- The next view is no container yet. -/
theorem Housed.owners_nextId (h : s.Housed) (f : s.Forest) (tag : String) :
    (s.register tag).owners s.nextId = [] := by
  rw [List.eq_nil_iff_forall_not_mem]
  intro q hq
  obtain ⟨outer, houter, hc⟩ := mem_owners_iff.1 hq
  rw [home?_register] at houter
  split at houter
  · cases houter
    cases hc
  · obtain ⟨inner, hinner, -⟩ := h.house houter hc
    exact ViewId.lt_irrefl _ (f.lt_nextId (contains_of_home hinner))

/-- **A sweep** keeps everything housed: a view below the root has its container, and what that
holds, below the root too.  Who knows its parent knows it still, if the root itself has none. -/
theorem Housed.swept (h : s.Housed) (f : s.Forest) :
    s.swept.Housed ∧ (s.structuralParent? s.root = none → s.Known → s.swept.Known) := by
  refine ⟨⟨?_, ?_, ?_⟩, ?_⟩
  · intro p c outer hp hc
    obtain ⟨hbelow, hp⟩ := f.home?_swept.1 hp
    obtain ⟨inner, hinner, hchrome, hparent, hstructural⟩ := h.house hp hc
    -- the container hangs under a view that is left
    have hclimb := climb_of_home hinner hstructural
    exact ⟨inner, f.home?_swept.2 ⟨hclimb.below.trans hbelow, hinner⟩, hchrome, hparent,
      hstructural⟩
  · intro v p home outer hv hvp hp
    exact h.placed (f.home?_swept.1 hv).2 hvp (f.home?_swept.1 hp).2
  · intro v p home hv hvp
    rw [Session.swept, nextId_forgetAll]
    exact h.parent_lt_nextId (f.home?_swept.1 hv).2 hvp
  · intro unparented k v p home hv hvp
    obtain ⟨hbelow, hv⟩ := f.home?_swept.1 hv
    obtain ⟨outer, hp⟩ := contains_iff_home.1 (k v p home hv hvp)
    have hunder := h.under_parent hv hvp hp
    refine f.contains_swept.2 ⟨?_, contains_of_home hp⟩
    -- the root is above the view, and not below its parent, under which nothing holds it
    rcases below_total hbelow hunder.below with hroot | hroot
    · rcases below_iff_eq_or_climb.1 hroot with heq | ⟨q, hq, -⟩
      · exact heq ▸ below_refl s _
      · exact absurd hq (not_climb_of_none unparented)
    · exact hroot

end Session

end AnchorLayout
