import AnchorLayout.Proofs.Hierarchy.Home
/-!
# Containers

  A view with a container has its children rendered inside the container.  The link to the
  container is written in one place and read in all the others, so it is right as long as nobody
  takes the container away behind its back.

  1. **Specification** — `Session.Housed`: a container is a chrome child of its view, and every view
     is rendered where its parent's container wants it.
  2. **One home (`Rehomed.housed`)** — a view with a new home, if that is where it belongs.
  3. **One move (`Housed.setParent`)** — a view that is no container may go anywhere, and a container
     back to its view.
-/

namespace AnchorLayout

open Operation

namespace Session

variable {s s' : Session} {u v p q c t child : ViewId} {home outer : Hierarchy}

/-- The views that a view is the container of. -/
def owners (s : Session) (c : ViewId) : List ViewId :=
  s.views.keys.filter fun q => (s.home? q).bind Hierarchy.container = some c

/-- Owners are read off the homes, which is where the invariant speaks of containers. -/
theorem mem_owners_iff :
    q ∈ s.owners c ↔ ∃ outer, s.home? q = some outer ∧ outer.container = some c := by
  rw [owners, List.mem_filter, decide_eq_true_iff, Option.bind_eq_some_iff,
    ← contains_iff_mem_keys]
  constructor
  · rintro ⟨-, hq⟩
    exact hq
  · rintro ⟨outer, houter, hc⟩
    exact ⟨contains_of_home houter, outer, houter, hc⟩

/-- **Housed.** -/
structure Housed (s : Session) : Prop where
  /-- A container is a chrome child of the view that it is the container of. -/
  house : ∀ {p c outer}, s.home? p = some outer → outer.container = some c →
    ∃ inner, s.home? c = some inner ∧ inner.isChrome = true ∧ inner.parent = some p ∧
      inner.structuralParent = some p
  /-- Every view is rendered where it belongs. -/
  placed : ∀ {v p home outer}, s.home? v = some home → home.parent = some p →
    s.home? p = some outer → home.structuralParent = some (outer.landing v home.isChrome p)
  parent_lt_nextId : ∀ {v p home}, s.home? v = some home → home.parent = some p → p < s.nextId

/-- Every parent that was asked for is registered. -/
def Known (s : Session) : Prop :=
  ∀ v p home, s.home? v = some home → home.parent = some p → s.contains p = true

/-! ## Changes that leave the homes alone -/

/-- The invariant speaks of homes, and of the counter through the identifiers that are not given out
yet. -/
theorem Housed.congr (h : s.Housed) (homes : ∀ u, s'.home? u = s.home? u)
    (nextId : s'.nextId = s.nextId) : s'.Housed where
  house := by
    intro p c outer houter hc
    rw [homes] at houter
    obtain ⟨inner, hinner, hrest⟩ := h.house houter hc
    exact ⟨inner, (homes c).trans hinner, hrest⟩
  placed := by
    intro v p home outer hhome hp houter
    rw [homes] at hhome houter
    exact h.placed hhome hp houter
  parent_lt_nextId := by
    intro v p home hhome hp
    rw [homes] at hhome
    rw [nextId]
    exact h.parent_lt_nextId hhome hp

/-- So does what is known about the parents that were asked for. -/
theorem Known.congr (k : s.Known) (homes : ∀ u, s'.home? u = s.home? u) : s'.Known := by
  intro v p home hhome hp
  rw [homes] at hhome
  rw [contains_eq_home, homes, ← contains_eq_home]
  exact k v p home hhome hp

/-! ## One home -/

/-- Every place to go to is there. -/
theorem Housed.contains_landing (h : s.Housed) (hp : s.home? p = some outer) (child : ViewId)
    (isChrome : Bool) : s.contains (outer.landing child isChrome p) = true := by
  rw [Hierarchy.landing]
  cases hc : outer.container with
  | none => exact contains_of_home hp
  | some c =>
    obtain ⟨inner, hinner, -⟩ := h.house hp hc
    simp only
    split
    · exact contains_of_home hinner
    · exact contains_of_home hp

/-- A placement that is found is a view that is there, so the last check of a move cannot fail. -/
theorem Housed.contains_placement (h : s.Housed) (placed : s.placement? child p = .ok t) :
    s.contains t = true := by
  obtain ⟨home, outer, -, houter, rfl⟩ := placement?_eq_ok_iff.1 placed
  exact h.contains_landing houter child home.isChrome

/-- A place depends on the container alone. -/
theorem landing_congr {outer' : Hierarchy} (h : outer'.container = outer.container)
    (child : ViewId) (isChrome : Bool) (p : ViewId) :
    outer'.landing child isChrome p = outer.landing child isChrome p := by
  rw [Hierarchy.landing, Hierarchy.landing, h]

/-- A container lands beside what it contains. -/
theorem landing_self (h : outer.container = some c) (isChrome : Bool) (p : ViewId) :
    outer.landing c isChrome p = p := by
  simp [Hierarchy.landing, h]

/-- **One home has changed**, in something other than its container. -/
structure Rehomed (s s' : Session) (v : ViewId) (before now : Hierarchy) : Prop where
  was : s.home? v = some before
  homes : ∀ u, s'.home? u = if v = u then some now else s.home? u
  container : now.container = before.container
  nextId : s'.nextId = s.nextId

/-- A view whose home alone has changed. -/
theorem rehomed_of_map {f : Hierarchy → Hierarchy} (was : s.home? v = some home)
    (homes : ∀ u, s'.home? u = if v = u then (s.home? u).map f else s.home? u)
    (container : (f home).container = home.container) (nextId : s'.nextId = s.nextId) :
    s.Rehomed s' v home (f home) := by
  refine ⟨was, fun u => ?_, container, nextId⟩
  rw [homes]
  split
  · next hu =>
    subst hu
    rw [was]
    rfl
  · rfl

namespace Rehomed

variable {before now : Hierarchy}

theorem contains_eq (r : s.Rehomed s' v before now) (u : ViewId) :
    s'.contains u = s.contains u := by
  rw [contains_eq_home, contains_eq_home, r.homes]
  split
  · next hu =>
    subst hu
    rw [r.was]
    rfl
  · rfl

/-- The containers are what they were. -/
theorem exists_container (r : s.Rehomed s' v before now) (h : s'.home? u = some outer) :
    ∃ around, s.home? u = some around ∧ outer.container = around.container := by
  rw [r.homes] at h
  split at h
  · next hu =>
    subst hu
    cases h
    exact ⟨before, r.was, r.container⟩
  · exact ⟨outer, h, rfl⟩

/-- Everything stays housed if the home is where it belongs, and still with those that the view is
the container of. -/
theorem housed (r : s.Rehomed s' v before now) (h : s.Housed)
    (owned : ∀ q ∈ s.owners v, now.isChrome = true ∧ now.parent = some q)
    (placed : ∀ p outer, now.parent = some p → s.home? p = some outer →
      now.structuralParent = some (outer.landing v now.isChrome p))
    (lt : ∀ p, now.parent = some p → p < s.nextId) : s'.Housed where
  house := by
    intro q c outer houter hc
    obtain ⟨around, haround, hcontainer⟩ := r.exists_container houter
    rw [hcontainer] at hc
    by_cases hv : v = c
    -- the container is the view itself: its new home says that it belongs there
    · subst hv
      obtain ⟨hchrome, hparent⟩ := owned q (mem_owners_iff.2 ⟨around, haround, hc⟩)
      have hstructural := placed q around hparent haround
      rw [landing_self hc] at hstructural
      exact ⟨now, by rw [r.homes, if_pos rfl], hchrome, hparent, hstructural⟩
    · obtain ⟨inner, hinner, hrest⟩ := h.house haround hc
      exact ⟨inner, by rw [r.homes, if_neg hv, hinner], hrest⟩
  placed := by
    intro u q home outer hhome hq houter
    obtain ⟨around, haround, hcontainer⟩ := r.exists_container houter
    rw [landing_congr hcontainer]
    rw [r.homes] at hhome
    split at hhome
    · next hu =>
      subst hu
      cases hhome
      exact placed q around hq haround
    · exact h.placed hhome hq haround
  parent_lt_nextId := by
    intro u q home hhome hq
    rw [r.nextId]
    rw [r.homes] at hhome
    split at hhome
    · cases hhome
      exact lt q hq
    · exact h.parent_lt_nextId hhome hq

/-- A new parent has to be there; the other parents were. -/
theorem known (r : s.Rehomed s' v before now) (k : s.Known)
    (registered : ∀ p, now.parent = some p → s.contains p = true) : s'.Known := by
  intro u q home hhome hq
  rw [r.contains_eq]
  rw [r.homes] at hhome
  split at hhome
  · cases hhome
    exact registered q hq
  · exact k u q home hhome hq

end Rehomed

/-! ## Chrome -/

/-- A session in which a view is chrome, or is not, without a change of its place. -/
def rechromed (s : Session) (v : ViewId) (isChrome : Bool) : Session :=
  s.modifyView v fun view => view.updateHierarchy fun h => { h with isChrome }

/-- The kind of a view is not part of the rendered tree. -/
theorem treeEq_rechromed (s : Session) (v : ViewId) (isChrome : Bool) :
    TreeEq s (s.rechromed v isChrome) := treeEq_modifyView s v fun _ _ => rfl

/-- What has changed is the home of this view, in its kind. -/
theorem rehomed_rechromed (hv : s.home? v = some home) (isChrome : Bool) :
    s.Rehomed (s.rechromed v isChrome) v home { home with isChrome } := by
  have hhomes (u : ViewId) : (s.rechromed v isChrome).home? u =
      if v = u then (s.home? u).map fun h => { h with isChrome } else s.home? u :=
    home?_reshaped s v u fun _ => rfl
  exact rehomed_of_map hv hhomes rfl (treeEq_rechromed s v isChrome).nextId

/-- The first half of a change of kind, on a view that is there. -/
theorem update_rechromed (hv : s.contains v = true) (isChrome : Bool) :
    update v (fun view => view.updateHierarchy fun h => { h with isChrome }) s =
      .ok () (s.rechromed v isChrome) := by
  rw [update_apply, if_pos hv]
  rfl

/-! ## One move -/

/-- The other views are where they were. -/
theorem Relinked.home?_of_ne (r : s.Relinked s' child p t) (h : child ≠ u) :
    s'.home? u = s.home? u := by
  rw [r.homes, if_neg h]

/-- A move changes one home, in its two parents and not in its container. -/
theorem Relinked.rehomed (r : s.Relinked s' child p t) (h : s.home? child = some home) :
    s.Rehomed s' child home (home.linked p t) :=
  rehomed_of_map h r.homes rfl r.kept.nextId

/-- **One move** under a view keeps everything housed, where a container goes to its own view. -/
theorem Housed.relink (h : s.Housed) (f : s.Forest) (r : s.Relinked s' child p t)
    (placed : s.placement? child p = .ok t) (spared : ∀ q ∈ s.owners child, q = p) :
    s'.Housed ∧ (s.Known → s'.Known) := by
  obtain ⟨home, outer, hhome, houter, hlanding⟩ := placement?_eq_ok_iff.1 placed
  have hrehomed := r.rehomed hhome
  refine ⟨hrehomed.housed h ?_ ?_ ?_, fun k => hrehomed.known k ?_⟩
  · intro q hq
    obtain ⟨around, haround, hc⟩ := mem_owners_iff.1 hq
    obtain ⟨inner, hinner, hchrome, -⟩ := h.house haround hc
    obtain rfl : inner = home := Option.some.inj (hinner.symm.trans hhome)
    exact ⟨hchrome, congrArg some (spared q hq).symm⟩
  · intro q around hq haround
    obtain rfl : p = q := Option.some.inj hq
    obtain rfl : around = outer := Option.some.inj (haround.symm.trans houter)
    exact congrArg some hlanding.symm
  · intro q hq
    obtain rfl : p = q := Option.some.inj hq
    exact f.lt_nextId (contains_of_home houter)
  · intro q hq
    obtain rfl : p = q := Option.some.inj hq
    exact contains_of_home houter

/-- A view that is no container may be taken out. -/
theorem Housed.unlink (h : s.Housed) (was : s.home? child = some home)
    (homes : ∀ u, s'.home? u =
      if child = u then (s.home? u).map Hierarchy.unlinked else s.home? u)
    (nextId : s'.nextId = s.nextId) (spared : s.owners child = []) :
    s'.Housed ∧ (s.Known → s'.Known) := by
  have hrehomed : s.Rehomed s' child home home.unlinked := rehomed_of_map was homes rfl nextId
  refine ⟨hrehomed.housed h ?_ (fun p outer hp => ?_) (fun p hp => ?_),
    fun k => hrehomed.known k fun p hp => ?_⟩
  · intro q hq
    rw [spared] at hq
    exact absurd hq List.not_mem_nil
  all_goals cases hp

/-- **A move**, where a view that is a container only goes back to its own view. -/
theorem Housed.setParent (h : s.Housed) (f : s.Forest) (child : ViewId) {parent : Option ViewId}
    (spared : ∀ q ∈ s.owners child, parent = some q) :
    ((setParent child parent).after s).Housed ∧
      (s.Known → ((setParent child parent).after s).Known) := by
  cases parent with
  | none =>
    -- a container may not be taken out, so the view is none
    have hnone : s.owners child = [] := by
      rw [List.eq_nil_iff_forall_not_mem]
      intro q hq
      cases spared q hq
    rcases setParent_none_cases s child with ⟨e, he⟩ | ⟨s', hs', hkept, hhomes⟩
    · rw [after_of_error he]
      exact ⟨h, id⟩
    · rw [after_of_ok hs']
      cases hhome : s.home? child with
      | some home => exact h.unlink hhome hhomes hkept.nextId hnone
      | none =>
        have hsame : ∀ u, s'.home? u = s.home? u := by
          intro u
          rw [hhomes]
          split
          · next hu =>
            subst hu
            rw [hhome]
            rfl
          · rfl
        exact ⟨h.congr hsame hkept.nextId, fun k => k.congr hsame⟩
  | some p =>
    rcases setParent_some_cases fun t ht => h.contains_placement ht with
      ⟨e, he⟩ | ⟨t, s', hs', hplaced, hrelinked⟩
    · rw [after_of_error he]
      exact ⟨h, id⟩
    · rw [after_of_ok hs']
      exact h.relink f hrelinked hplaced fun q hq => (Option.some.inj (spared q hq)).symm

end Session

end AnchorLayout
