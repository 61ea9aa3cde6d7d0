import AnchorLayout.Proofs.Hierarchy.Reachable
/-!
# Homes

  Where a view lives is what its place says apart from its children: its two parents, its container
  and whether it is chrome.  The children are the other side of the rendered parents, so in a forest
  the homes say everything.

  1. **Specification** — `Session.home?`; `Hierarchy.landing`, where a child of a view lands.
  2. **Steps** — `home?_reshaped`, `home?_register`, `Forest.home?_swept`; what is edited in a view
     without a change of its place leaves the homes alone.
  3. **Moves (`setParent_of_placed`)** — a view that has a place to go to and is not above it gets
     there, and nothing else changes its home; `setParent_some_cases` when the places are there.
-/

namespace AnchorLayout

open Operation

/-- A place without the list of its children. -/
def Hierarchy.home (h : Hierarchy) : Hierarchy := { h with children := [] }

/-- Where a child of a view lands, by the home of the view. -/
def Hierarchy.landing (outer : Hierarchy) (child : ViewId) (isChrome : Bool) (p : ViewId) : ViewId :=
  match outer.container with
  | some c => if isChrome = false ∧ c ≠ child then c else p
  | none => p

namespace Session

variable {s s' : Session} {u v p t child : ViewId} {home outer : Hierarchy}

/-- The home of a view. -/
def home? (s : Session) (v : ViewId) : Option Hierarchy := (s.place? v).map Hierarchy.home

/-! ## What is read off a home -/

/-- A home is the place of a view without its children. -/
theorem home?_of_place {place : Hierarchy} (h : s.place? v = some place) :
    s.home? v = some place.home := by
  rw [home?, h]
  rfl

theorem home?_of_get? {found : View} (h : s.views.get? v = some found) :
    s.home? v = some found.hierarchy.home := by
  rw [home?, place?, h]
  rfl

/-- Who has a home is registered, so the homes say who there is. -/
theorem contains_eq_home (s : Session) (v : ViewId) : s.contains v = (s.home? v).isSome := by
  rw [home?, Option.isSome_map]
  exact contains_eq s v

/-- The form in which the home of a registered view is taken out. -/
theorem contains_iff_home : s.contains v = true ↔ ∃ home, s.home? v = some home := by
  rw [contains_eq_home]
  exact Option.isSome_iff_exists

theorem contains_of_home (h : s.home? v = some home) : s.contains v = true :=
  contains_iff_home.2 ⟨home, h⟩

/-- Steps up are read off the homes, so what leaves the homes alone leaves the lines alone. -/
theorem climb_iff_home :
    s.Climb v p ↔ ∃ home, s.home? v = some home ∧ home.structuralParent = some p := by
  rw [climb_iff_place, home?]
  constructor
  · rintro ⟨place, hplace, hp⟩
    rw [hplace]
    exact ⟨place.home, rfl, hp⟩
  · rintro ⟨home, hhome, hp⟩
    obtain ⟨place, hplace, rfl⟩ := Option.map_eq_some_iff.1 hhome
    exact ⟨place, hplace, hp⟩

/-- The step up that a home gives. -/
theorem climb_of_home (h : s.home? v = some home) (hp : home.structuralParent = some p) :
    s.Climb v p := climb_iff_home.2 ⟨home, h, hp⟩

/-- **Placement** is read off the homes of the child and the parent. -/
theorem placement?_eq_ok_iff : s.placement? child p = .ok t ↔
    ∃ home outer, s.home? child = some home ∧ s.home? p = some outer ∧
      outer.landing child home.isChrome p = t := by
  rw [placement?, view?, view?, home?, home?, place?, place?]
  cases s.views.get? child with
  | none => simp [bind, Except.bind]
  | some found =>
    cases s.views.get? p with
    | none => simp [bind, Except.bind]
    | some around =>
      cases hc : around.hierarchy.container <;>
        simp [bind, Except.bind, pure, Except.pure, hc, Hierarchy.home, Hierarchy.landing]

/-! ## Steps -/

/-- A view whose home is changed. -/
theorem home?_reshaped (s : Session) (v u : ViewId) {f : Hierarchy → Hierarchy}
    (commutes : ∀ h, (f h).home = f h.home) :
    (s.modifyView v fun view => view.updateHierarchy f).home? u =
      if v = u then (s.home? u).map f else s.home? u := by
  rw [home?, place?_modifyView]
  split
  · rw [Option.map_map, home?, Option.map_map]
    exact congrFun (congrArg Option.map (funext commutes)) _
  · rfl

/-- A change of a view in other fields leaves every place alone. -/
theorem place?_edit (s : Session) (v u : ViewId) {f : View → View}
    (h : ∀ view, (f view).hierarchy = view.hierarchy) :
    (s.modifyView v f).place? u = s.place? u := by
  rw [place?, get?_modifyView]
  split
  · rw [Option.map_map, place?]
    exact congrFun (congrArg Option.map (funext h)) _
  · rfl

/-- Anchors that follow a move are rules, not places. -/
theorem place?_rebaseBetween (s : Session) (v : ViewId) (source target : Option ViewId)
    (u : ViewId) : (s.rebaseBetween v source target).place? u = s.place? u := by
  unfold rebaseBetween rebaseAnchors
  split
  · split
    · split
      · rfl
      · split
        · exact place?_edit s v u fun _ => rfl
        · rfl
    · rfl
  · rfl

/-- After the links of a move have been made, what is left to do touches no place. -/
theorem place?_settled (s : Session) (child : ViewId) (before : Hierarchy)
    (parent structural : Option ViewId) (u : ViewId) :
    (s.settled child before parent structural).place? u = s.place? u := by
  rw [settled, place?_rebaseBetween, place?_rebaseBetween]

/-- A new view is in its home, which is nowhere, and the others are in theirs. -/
theorem home?_register (s : Session) (tag : String) (u : ViewId) :
    (s.register tag).home? u =
      if s.nextId = u then some Hierarchy.detached else s.home? u := by
  rw [home?, place?_register]
  split <;> rfl

/-- After a sweep the views below the root are where they were, and the others are gone. -/
theorem Forest.home?_swept (f : s.Forest) :
    s.swept.home? u = some home ↔ s.Below u s.root ∧ s.home? u = some home := by
  rw [home?, home?, Option.map_eq_some_iff, Option.map_eq_some_iff]
  constructor
  · rintro ⟨place, hplace, hhome⟩
    obtain ⟨hbelow, hplace⟩ := f.place?_swept.1 hplace
    exact ⟨hbelow, place, hplace, hhome⟩
  · rintro ⟨hbelow, place, hplace, hhome⟩
    exact ⟨place, f.place?_swept.2 ⟨hbelow, hplace⟩, hhome⟩

/-- A view that has been taken out and put under another one. -/
theorem home?_moved (s : Session) (child t p : ViewId) (before : Hierarchy)
    (parent structural : Option ViewId) (u : ViewId) :
    (((s.detach child).attach child t p).settled child before parent structural).home? u =
      if child = u then (s.home? u).map (·.linked p t) else s.home? u := by
  rw [home?, place?_settled, place?_attach, home?]
  cases h : s.structuralParent? child with
  | none =>
    rw [detach_of_none h]
    cases s.place? u with
    | none => simp
    | some place =>
      by_cases hc : child = u <;> by_cases ht : t = u <;>
        simp [hc, ht, Hierarchy.home, Hierarchy.linked, Hierarchy.holding]
  | some old =>
    rw [place?_detach h]
    cases s.place? u with
    | none => simp
    | some place =>
      by_cases hc : child = u <;> by_cases ht : t = u <;> by_cases ho : old = u <;>
        simp [hc, ht, ho, Hierarchy.home, Hierarchy.linked, Hierarchy.holding, Hierarchy.without,
          Hierarchy.unlinked]

/-- A view that has been taken out for good. -/
theorem home?_unlinked (s : Session) (child : ViewId) (before : Hierarchy)
    (parent structural : Option ViewId) (u : ViewId) :
    (((s.detach child).unlink child).settled child before parent structural).home? u =
      if child = u then (s.home? u).map Hierarchy.unlinked else s.home? u := by
  rw [home?, place?_settled, unlink, place?_modifyView, home?]
  cases h : s.structuralParent? child with
  | none =>
    rw [detach_of_none h]
    cases s.place? u with
    | none => simp
    | some place => by_cases hc : child = u <;> simp [hc, Hierarchy.home, Hierarchy.unlinked]
  | some old =>
    rw [place?_detach h]
    cases s.place? u with
    | none => simp
    | some place =>
      by_cases hc : child = u <;> by_cases ho : old = u <;>
        simp [hc, ho, Hierarchy.home, Hierarchy.without, Hierarchy.unlinked]

/-! ## Moves -/

/-- **One view has moved** under another one: its home says so, and the other homes are as they
were. -/
structure Relinked (s s' : Session) (child p t : ViewId) : Prop where
  kept : Kept s s'
  homes : ∀ u, s'.home? u = if child = u then (s.home? u).map (·.linked p t) else s.home? u

/-- **A move that has a place to go to** and goes under nothing of its own succeeds. -/
theorem setParent_of_placed (placed : s.placement? child p = .ok t) (known : s.contains t = true)
    (apart : s.isAncestorOrSelf child t = false) :
    ∃ s', setParent child (some p) s = .ok () s' ∧ s.Relinked s' child p t := by
  obtain ⟨home, outer, hhome, -, -⟩ := placement?_eq_ok_iff.1 placed
  obtain ⟨found, hfound⟩ := contains_iff.1 (contains_of_home hhome)
  have hchecked := checkedPlacement_apply s child p
  simp only [placed, apart, Bool.false_eq_true, if_false] at hchecked
  have hmoved := setParent_some hfound hchecked
  rw [if_pos known] at hmoved
  refine ⟨_, hmoved, ?_, fun u => home?_moved s child t p _ _ _ u⟩
  have hkept := kept_setParent s child (some p)
  rw [after_of_ok hmoved] at hkept
  exact hkept

/-- **How a move under a view ends**, where every place to go to is there: nothing has happened, or
the view is in its place. -/
theorem setParent_some_cases (known : ∀ t, s.placement? child p = .ok t → s.contains t = true) :
    (∃ e, setParent child (some p) s = .error e s) ∨
      ∃ t s', setParent child (some p) s = .ok () s' ∧ s.placement? child p = .ok t ∧
        s.Relinked s' child p t := by
  rcases view_cases child s with ⟨e, he⟩ | ⟨found, -, hview⟩
  · exact Or.inl ⟨e, bind_of_error he _⟩
  · have hchecked := checkedPlacement_apply s child p
    have hrefused {e : Error} (he : checkedPlacement child p s = .error e s) :
        setParent child (some p) s = .error e s := by
      have hplaced : (some <$> checkedPlacement child p) s = .error e s := map_of_error he some
      exact (bind_of_ok hview _).trans (bind_of_error hplaced _)
    cases hplace : s.placement? child p with
    | error e =>
      rw [hplace] at hchecked
      exact Or.inl ⟨e, hrefused hchecked⟩
    | ok t =>
      cases hapart : s.isAncestorOrSelf child t with
      | true =>
        simp only [hplace, hapart, if_true] at hchecked
        exact Or.inl ⟨_, hrefused hchecked⟩
      | false =>
        obtain ⟨s', hmoved, hrelinked⟩ := setParent_of_placed hplace (known t hplace) hapart
        exact Or.inr ⟨t, s', hmoved, rfl, hrelinked⟩

/-- **How a move out of the tree ends.** -/
theorem setParent_none_cases (s : Session) (child : ViewId) :
    (∃ e, setParent child none s = .error e s) ∨
      ∃ s', setParent child none s = .ok () s' ∧ Kept s s' ∧
        ∀ u, s'.home? u = if child = u then (s.home? u).map Hierarchy.unlinked else s.home? u := by
  rcases view_cases child s with ⟨e, he⟩ | ⟨found, hfound, -⟩
  · exact Or.inl ⟨e, bind_of_error he _⟩
  · have hmoved := setParent_none hfound
    have hkept := kept_setParent s child none
    rw [after_of_ok hmoved] at hkept
    exact Or.inr ⟨_, hmoved, hkept, fun u => home?_unlinked s child _ _ _ u⟩

end Session

end AnchorLayout
