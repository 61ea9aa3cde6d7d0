import AnchorLayout.Proofs.Hierarchy.Place
/-!
# Forests

  The rendered tree is kept twice, as the parent of every view and as the children of every view,
  and both are written by hand wherever a view moves.

  1. **Specification** — `Session.Forest`: the two agree, nothing is its own ancestor, and nothing
     but the root can hang under a view that is gone.
  2. **Steps** — a view that is taken out (`Forest.detach`), put under another one
     (`Forest.attach`) or registered (`Forest.register`) leaves a forest.
  3. **The crux (`under_attach`)** — a line in the new tree is a line in the old one, or it passes
     over the new link; a cycle over the new link would have put the target below the view.
-/

namespace AnchorLayout

namespace Session

variable {s s' : Session} {u v p child target parent old : ViewId}

/-- **A forest.** -/
structure Forest (s : Session) : Prop where
  /-- Following rendered parents never comes back. -/
  acyclic : s.Acyclic
  /-- The children of a view are those whose rendered parent it is. -/
  mem_children_iff : ∀ {p u}, s.contains p = true → (u ∈ s.childrenOf p ↔ s.Climb u p)
  /-- Nothing is listed twice. -/
  nodup_children : ∀ p, (s.childrenOf p).Nodup
  /-- A view is rendered under something exactly when it was put under something. -/
  parent_iff : ∀ {v place}, s.place? v = some place →
    (place.parent.isSome = true ↔ place.structuralParent.isSome = true)
  /-- Only the root can hang under a view that is gone. -/
  contains_parent : ∀ {v p}, v ≠ s.root → s.Climb v p → s.contains p = true
  contains_root : s.contains s.root = true
  /-- Identifiers are handed out in ascending order. -/
  lt_nextId : ∀ {v}, s.contains v = true → v < s.nextId
  parent_lt_nextId : ∀ {v p}, s.Climb v p → p < s.nextId

/-- The invariant speaks of the tree alone, so a change of styles, rules, handlers or marks keeps
it. -/
theorem TreeEq.forest (h : TreeEq s s') (f : s.Forest) : s'.Forest where
  acyclic := by
    intro v hv
    rw [Under, h.climb_eq] at hv
    exact f.acyclic v hv
  mem_children_iff := by
    intro p u hp
    rw [h.contains] at hp
    rw [h.childrenOf, h.climb_iff]
    exact f.mem_children_iff hp
  nodup_children := fun p => by rw [h.childrenOf]; exact f.nodup_children p
  parent_iff := by
    intro v place hplace
    -- the two parents of a view are among its links, which are the same
    have hlinks : s.links? v = some place.links := by
      rw [← h.links, links?, hplace]
      rfl
    obtain ⟨before, hbefore, heq⟩ := Option.map_eq_some_iff.1 hlinks
    obtain ⟨hparent, hstructural, -⟩ : before.parent = place.parent ∧
        before.structuralParent = place.structuralParent ∧ before.children = place.children := by
      simpa [Hierarchy.links] using heq
    rw [← hparent, ← hstructural]
    exact f.parent_iff hbefore
  contains_parent := by
    intro v p hv hp
    rw [h.root] at hv
    rw [h.climb_iff] at hp
    rw [h.contains]
    exact f.contains_parent hv hp
  contains_root := by
    rw [h.root, h.contains]
    exact f.contains_root
  lt_nextId := by
    intro v hv
    rw [h.contains] at hv
    rw [h.nextId]
    exact f.lt_nextId hv
  parent_lt_nextId := by
    intro v p hp
    rw [h.climb_iff] at hp
    rw [h.nextId]
    exact f.parent_lt_nextId hp

/-- A child is registered. -/
theorem Forest.contains_child (f : s.Forest) (h : u ∈ s.childrenOf p) : s.contains u = true := by
  by_cases hp : s.contains p = true
  · exact contains_of_climb ((f.mem_children_iff hp).1 h)
  · rw [childrenOf_of_not_contains hp] at h
    exact absurd h List.not_mem_nil

/-- The step up from a child, by the two directions of the links: who is listed as a child hangs
under the view that lists it. -/
theorem Forest.climb_of_mem (f : s.Forest) (h : u ∈ s.childrenOf p) : s.Climb u p := by
  by_cases hp : s.contains p = true
  · exact (f.mem_children_iff hp).1 h
  · rw [childrenOf_of_not_contains hp] at h
    exact absurd h List.not_mem_nil

/-- A view below the root is registered. -/
theorem Forest.contains_of_reachable (f : s.Forest) (h : s.Below v s.root) :
    s.contains v = true := by
  rcases h.eq_or_under with heq | hunder
  · exact heq ▸ f.contains_root
  · exact contains_of_under hunder

/-- Where the root hangs under nothing, everything that a registered view is below is
registered. -/
theorem Forest.contains_of_below (f : s.Forest) (unparented : s.structuralParent? s.root = none)
    (hu : s.contains u = true) (h : s.Below u v) : s.contains v = true := by
  obtain rfl | ⟨w, -, hstep⟩ := Relation.ReflTransGen.cases_tail h
  · exact hu
  · refine f.contains_parent ?_ hstep
    rintro rfl
    exact not_climb_of_none unparented hstep

/-! ## Taking a view out -/

end Session

namespace Hierarchy

/-- A place without one of its children. -/
def without (h : Hierarchy) (child : ViewId) : Hierarchy :=
  { h with children := h.children.filter (· ≠ child) }

/-- A place under nothing. -/
def unlinked (h : Hierarchy) : Hierarchy := { h with parent := none, structuralParent := none }

/-- A place with one more child. -/
def holding (h : Hierarchy) (child : ViewId) : Hierarchy :=
  { h with children := h.children ++ [child] }

/-- A place under a parent that was asked for and a rendered one. -/
def linked (h : Hierarchy) (parent target : ViewId) : Hierarchy :=
  { h with parent := some parent, structuralParent := some target }

end Hierarchy

namespace Session

variable {s s' : Session} {u v p child target parent old : ViewId}

/-- A view that hangs somewhere is taken out: its parent forgets it, it forgets its parent, and the
parent is to be sent again. -/
theorem detach_of_climb (h : s.Climb child old) :
    s.detach child = ((s.modifyView old fun view => view.updateHierarchy (·.without child)).modifyView
      child fun view => view.updateHierarchy Hierarchy.unlinked).markDirty old := by
  rw [detach, h]
  rfl

/-- A view that hangs nowhere is out already. -/
theorem detach_of_none (h : s.structuralParent? child = none) : s.detach child = s := by
  rw [detach, h]

/-- **What taking out does**, view by view.  Everything that follows about `detach` is read off this
equation. -/
theorem place?_detach (h : s.Climb child old) (u : ViewId) :
    (s.detach child).place? u = (s.place? u).map fun h =>
      let h := if old = u then h.without child else h
      if child = u then h.unlinked else h := by
  rw [detach_of_climb h, place?_markDirty, place?_modifyView, place?_modifyView]
  cases s.place? u with
  | none => split <;> split <;> rfl
  | some place => by_cases hc : child = u <;> by_cases ho : old = u <;> simp [hc, ho]

/-- Neither the root nor the counter is moved by it, nor is a view lost. -/
@[simp] theorem root_detach (s : Session) (child : ViewId) : (s.detach child).root = s.root := by
  unfold detach
  split <;> rfl

@[simp] theorem nextId_detach (s : Session) (child : ViewId) :
    (s.detach child).nextId = s.nextId := by
  unfold detach
  split <;> rfl

@[simp] theorem contains_detach (s : Session) (child u : ViewId) :
    (s.detach child).contains u = s.contains u := by
  cases h : s.structuralParent? child with
  | none => rw [detach_of_none h]
  | some old =>
    rw [contains_eq, contains_eq, place?_detach h, Option.isSome_map]

/-- The links that are left when a view is taken out are the other ones. -/
theorem climb_detach : (s.detach child).Climb u p ↔ u ≠ child ∧ s.Climb u p := by
  cases h : s.structuralParent? child with
  | none =>
    rw [detach_of_none h]
    refine ⟨fun hu => ⟨?_, hu⟩, fun hu => hu.2⟩
    rintro rfl
    exact not_climb_of_none h hu
  | some old =>
    rw [climb_iff_place, climb_iff_place, place?_detach h]
    by_cases hc : child = u
    · subst hc
      simp [Hierarchy.unlinked]
    · by_cases ho : old = u <;> simp [hc, ho, Ne.symm hc, Hierarchy.without]

/-- A line in what is left is a line of the old tree, so no cycle comes in. -/
theorem under_of_under_detach (h : (s.detach child).Under u v) : s.Under u v :=
  Relation.TransGen.mono (fun _ _ hc => (climb_detach.1 hc).2) _ _ h

/-- The same for a view and what it is below or equal to. -/
theorem below_of_below_detach (h : (s.detach child).Below u v) : s.Below u v :=
  Relation.ReflTransGen.mono (fun _ _ hc => (climb_detach.1 hc).2) _ _ h

/-- In a forest a child is listed once, so taking it out of one list is taking it out of all of
them. -/
theorem Forest.childrenOf_detach (f : s.Forest) (child p : ViewId) :
    (s.detach child).childrenOf p = (s.childrenOf p).filter (· ≠ child) := by
  have hkeep (hnot : ¬ s.Climb child p) :
      (s.childrenOf p).filter (· ≠ child) = s.childrenOf p := by
    rw [List.filter_eq_self]
    intro c hc
    refine decide_eq_true ?_
    rintro rfl
    exact hnot (f.climb_of_mem hc)
  cases h : s.structuralParent? child with
  | none =>
    rw [detach_of_none h, hkeep (not_climb_of_none h)]
  | some old =>
    by_cases ho : old = p
    · subst ho
      rw [childrenOf_eq, childrenOf_eq, place?_detach h]
      cases s.place? old with
      | none => rfl
      | some place => by_cases hc : child = old <;> simp [hc, Hierarchy.without, Hierarchy.unlinked]
    · rw [hkeep fun hp => ho (climb_unique h hp), childrenOf_eq, childrenOf_eq, place?_detach h]
      cases s.place? p with
      | none => rfl
      | some place => by_cases hc : child = p <;> simp [hc, ho, Hierarchy.unlinked]

/-- **Taking a view out leaves a forest.** The steps that are left are old ones, and each list of
children has lost at most the view. -/
theorem Forest.detach (f : s.Forest) (child : ViewId) : (s.detach child).Forest where
  acyclic := fun v hv => f.acyclic v (under_of_under_detach hv)
  mem_children_iff := by
    intro p u hp
    rw [contains_detach] at hp
    rw [f.childrenOf_detach, List.mem_filter, f.mem_children_iff hp, climb_detach, and_comm]
    simp
  nodup_children := fun p => by
    rw [f.childrenOf_detach]
    exact (f.nodup_children p).filter _
  parent_iff := by
    intro v place hplace
    -- only two views have another place than before, the child and the one that it hung under
    cases h : s.structuralParent? child with
    | none =>
      rw [detach_of_none h] at hplace
      exact f.parent_iff hplace
    | some old =>
      rw [place?_detach h] at hplace
      obtain ⟨before, hbefore, rfl⟩ := Option.map_eq_some_iff.1 hplace
      by_cases hc : child = v
      · simp [hc, Hierarchy.unlinked]
      · have hiff := f.parent_iff hbefore
        by_cases ho : old = v
        · simpa [hc, ho, Hierarchy.without] using hiff
        · simpa [hc, ho] using hiff
  contains_parent := by
    intro v p hv hp
    rw [root_detach] at hv
    rw [contains_detach]
    exact f.contains_parent hv (climb_detach.1 hp).2
  contains_root := by
    rw [root_detach, contains_detach]
    exact f.contains_root
  lt_nextId := by
    intro v hv
    rw [contains_detach] at hv
    rw [nextId_detach]
    exact f.lt_nextId hv
  parent_lt_nextId := by
    intro v p hp
    rw [nextId_detach]
    exact f.parent_lt_nextId (climb_detach.1 hp).2

/-! ## Putting a view under another one -/

/-- A view put at the end of the children of another one, which is marked. -/
def attach (s : Session) (child target parent : ViewId) : Session :=
  ((s.modifyView target fun view => view.updateHierarchy (·.holding child)).markDirty
    target).modifyView child fun view => view.updateHierarchy (·.linked parent target)

/-- **What putting under does**, view by view: the child gets its parents, the target one more child
at the end. -/
theorem place?_attach (s : Session) (child target parent u : ViewId) :
    (s.attach child target parent).place? u = (s.place? u).map fun h =>
      let h := if target = u then h.holding child else h
      if child = u then h.linked parent target else h := by
  rw [attach, place?_modifyView, place?_markDirty, place?_modifyView]
  cases s.place? u with
  | none => split <;> split <;> rfl
  | some place => by_cases hc : child = u <;> by_cases ht : target = u <;> simp [hc, ht]

/-- Nobody is registered or lost. -/
@[simp] theorem contains_attach (s : Session) (child target parent u : ViewId) :
    (s.attach child target parent).contains u = s.contains u := by
  rw [contains_eq, contains_eq, place?_attach, Option.isSome_map]

/-- The steps up are the old ones, but for that of the child, which is new. -/
theorem climb_attach : (s.attach child target parent).Climb u p ↔
    (u = child ∧ p = target ∧ s.contains child = true) ∨ (u ≠ child ∧ s.Climb u p) := by
  rw [climb_iff_place, climb_iff_place, place?_attach]
  by_cases hc : child = u
  · subst hc
    rw [contains_iff_place]
    cases s.place? child with
    | none => simp
    | some place => simp [Hierarchy.linked, eq_comm (a := p)]
  · by_cases ht : target = u <;> simp [hc, ht, Ne.symm hc, Hierarchy.holding]

/-- The lists of children are the old ones, but for that of the target. -/
theorem childrenOf_attach (ht : s.contains target = true) (p : ViewId) :
    (s.attach child target parent).childrenOf p =
      if target = p then s.childrenOf p ++ [child] else s.childrenOf p := by
  rw [childrenOf_eq, childrenOf_eq, place?_attach]
  by_cases hp : target = p
  · subst hp
    obtain ⟨place, hplace⟩ := contains_iff_place.1 ht
    by_cases hc : child = target <;> simp [hplace, hc, Hierarchy.linked, Hierarchy.holding]
  · cases s.place? p with
    | none => simp [hp]
    | some place => by_cases hc : child = p <;> simp [hp, hc, Hierarchy.linked]

/-- A line in the new tree is a line in the old one, or it passes over the new link. -/
theorem below_attach (h : (s.attach child target parent).Below u v) :
    s.Below u v ∨ (s.Below u child ∧ s.Below target v) := by
  induction h with
  | refl => exact Or.inl (below_refl s u)
  | tail _ hstep ih =>
    rcases climb_attach.1 hstep with ⟨rfl, rfl, -⟩ | ⟨-, hold⟩
    · rcases ih with hu | ⟨hu, -⟩
      · exact Or.inr ⟨hu, below_refl s _⟩
      · exact Or.inr ⟨hu, below_refl s _⟩
    · rcases ih with hu | ⟨hu, ht⟩
      · exact Or.inl (hu.trans (Climb.below hold))
      · exact Or.inr ⟨hu, ht.trans (Climb.below hold)⟩

/-- The same for proper lines. -/
theorem under_attach (h : (s.attach child target parent).Under u v) :
    s.Under u v ∨ (s.Below u child ∧ s.Below target v) := by
  obtain ⟨p, hstep, hbelow⟩ := under_iff_climb.1 h
  rcases climb_attach.1 hstep with ⟨rfl, rfl, -⟩ | ⟨-, hold⟩
  · rcases below_attach hbelow with ht | ⟨-, ht⟩
    · exact Or.inr ⟨below_refl s _, ht⟩
    · exact Or.inr ⟨below_refl s _, ht⟩
  · rcases below_attach hbelow with hp | ⟨hp, ht⟩
    · exact Or.inl (Climb.under_of_below hold hp)
    · exact Or.inr ⟨(Climb.below hold).trans hp, ht⟩

/-- **Putting a view under another one leaves a forest**, if it hung nowhere and the other one is
not below it.  The last condition keeps the lines free of cycles: a line that comes back would pass
over the new link once, and what leads back to it would be old. -/
theorem Forest.attach (f : s.Forest) (unlinked : s.structuralParent? child = none)
    (hc : s.contains child = true) (ht : s.contains target = true)
    (apart : ¬ s.Below target child) : (s.attach child target parent).Forest where
  acyclic := by
    intro v hv
    rcases under_attach hv with h | ⟨hvc, htv⟩
    · exact f.acyclic v h
    -- a cycle over the new link is a line from the target down to the child
    · exact apart (htv.trans hvc)
  mem_children_iff := by
    intro p u hp
    rw [contains_attach] at hp
    have hold : s.Climb u p → u ≠ child := by
      rintro h rfl
      exact not_climb_of_none unlinked h
    rw [childrenOf_attach ht, climb_attach]
    split
    · next heq =>
      subst heq
      rw [List.mem_append, f.mem_children_iff hp, List.mem_singleton]
      constructor
      · rintro (h | rfl)
        · exact Or.inr ⟨hold h, h⟩
        · exact Or.inl ⟨rfl, rfl, hc⟩
      · rintro (⟨rfl, -, -⟩ | ⟨-, h⟩)
        · exact Or.inr rfl
        · exact Or.inl h
    · next hne =>
      rw [f.mem_children_iff hp]
      constructor
      · intro h
        exact Or.inr ⟨hold h, h⟩
      · rintro (⟨-, rfl, -⟩ | ⟨-, h⟩)
        · exact absurd rfl hne
        · exact h
  nodup_children := by
    intro p
    rw [childrenOf_attach ht]
    split
    · refine List.nodup_append.2 ⟨f.nodup_children p, by simp, ?_⟩
      rintro u hu w hw rfl
      rw [List.mem_singleton] at hw
      subst hw
      exact not_climb_of_none unlinked (f.climb_of_mem hu)
    · exact f.nodup_children p
  parent_iff := by
    intro v place hplace
    rw [place?_attach] at hplace
    obtain ⟨before, hbefore, rfl⟩ := Option.map_eq_some_iff.1 hplace
    by_cases hv : child = v
    · simp [hv, Hierarchy.linked]
    · have hiff := f.parent_iff hbefore
      by_cases htv : target = v
      · simpa [hv, htv, Hierarchy.holding] using hiff
      · simpa [hv, htv] using hiff
  contains_parent := by
    intro v p hv hp
    rw [contains_attach]
    rcases climb_attach.1 hp with ⟨-, rfl, -⟩ | ⟨-, h⟩
    · exact ht
    · exact f.contains_parent hv h
  contains_root := by
    rw [contains_attach]
    exact f.contains_root
  lt_nextId := by
    intro v hv
    rw [contains_attach] at hv
    exact f.lt_nextId hv
  parent_lt_nextId := by
    intro v p hp
    rcases climb_attach.1 hp with ⟨-, rfl, -⟩ | ⟨-, h⟩
    · exact f.lt_nextId ht
    · exact f.parent_lt_nextId h

/-! ## Registering a view -/

/-- There is another identifier after the next one. -/
def Room (s : Session) : Prop := s.nextId.number.toNat + 1 < UInt32.size

/-- Where there is room the counter does not wrap around, so counting is counting of numbers. -/
theorem Room.toNat_next (room : s.Room) :
    (s.nextId.number + 1).toNat = s.nextId.number.toNat + 1 := by
  unfold Room at room
  rw [UInt32.toNat_add]
  exact Nat.mod_eq_of_lt room

/-- The counter moves on, with room or without: 32 bits that wrap around still change. -/
theorem next_ne (s : Session) : (⟨s.nextId.number + 1⟩ : ViewId) ≠ s.nextId := by
  intro h
  have hnumber : (s.nextId.number + 1).toNat = s.nextId.number.toNat :=
    congrArg (fun v : ViewId => v.number.toNat) h
  have hlt := s.nextId.number.toNat_lt
  rw [UInt32.toNat_add, show (1 : UInt32).toNat = 1 from rfl] at hnumber
  omega

/-- With room the new counter is above the old one, as the invariant asks for. -/
theorem nextId_register (room : s.Room) (tag : String) : s.nextId < (s.register tag).nextId := by
  rw [ViewId.lt_iff]
  show s.nextId.number.toNat < (s.nextId.number + 1).toNat
  rw [room.toNat_next]
  omega

/-- The new view has come and no other has gone. -/
theorem contains_register (s : Session) (tag : String) (u : ViewId) :
    (s.register tag).contains u = true ↔ u = s.nextId ∨ s.contains u = true := by
  rw [contains_eq, contains_eq, place?_register]
  split
  · next h => simp [h]
  · next h => simp [Ne.symm h]

/-- The identifier of a new view has not been in use. -/
theorem Forest.place?_nextId (f : s.Forest) : s.place? s.nextId = none := by
  cases h : s.place? s.nextId with
  | none => rfl
  | some place =>
    exact absurd (f.lt_nextId (contains_iff_place.2 ⟨place, h⟩)) (ViewId.lt_irrefl _)

/-- A new view is under nothing. -/
theorem Forest.climb_register (f : s.Forest) (tag : String) :
    (s.register tag).Climb u p ↔ s.Climb u p := by
  rw [climb_iff_place, climb_iff_place, place?_register]
  split
  · next hu =>
    subst hu
    rw [f.place?_nextId]
    simp [Hierarchy.detached]
  · rfl

/-- The new view has no children, and nobody has got it as a child. -/
theorem Forest.childrenOf_register (f : s.Forest) (tag : String) (p : ViewId) :
    (s.register tag).childrenOf p = s.childrenOf p := by
  rw [childrenOf_eq, childrenOf_eq, place?_register]
  split
  · next hp =>
    subst hp
    rw [f.place?_nextId]
    rfl
  · rfl

/-- **Registering a view leaves a forest**, if there is an identifier after its own. -/
theorem Forest.register (f : s.Forest) (room : s.Room) (tag : String) :
    (s.register tag).Forest where
  acyclic := by
    intro v hv
    have heq : (s.register tag).Climb = s.Climb :=
      funext fun _ => funext fun _ => propext (f.climb_register tag)
    rw [Under, heq] at hv
    exact f.acyclic v hv
  mem_children_iff := by
    intro p u hp
    rw [f.childrenOf_register, f.climb_register]
    rcases (contains_register s tag p).1 hp with rfl | hp
    · have hnone : s.childrenOf s.nextId = [] := by
        rw [childrenOf_eq, f.place?_nextId]
        rfl
      rw [hnone]
      refine ⟨fun h => absurd h List.not_mem_nil, fun h => ?_⟩
      -- not even a view that is gone has left a link to the new one behind
      exact absurd (f.parent_lt_nextId h) (ViewId.lt_irrefl _)
    · exact f.mem_children_iff hp
  nodup_children := fun p => by rw [f.childrenOf_register]; exact f.nodup_children p
  parent_iff := by
    intro v place hplace
    rw [place?_register] at hplace
    split at hplace
    · cases hplace
      simp [Hierarchy.detached]
    · exact f.parent_iff hplace
  contains_parent := by
    intro v p hv hp
    rw [contains_register]
    exact Or.inr (f.contains_parent hv ((f.climb_register tag).1 hp))
  contains_root := (contains_register s tag _).2 (Or.inr f.contains_root)
  lt_nextId := by
    intro v hv
    rcases (contains_register s tag v).1 hv with rfl | hv
    · exact nextId_register room tag
    · exact ViewId.lt_trans (f.lt_nextId hv) (nextId_register room tag)
  parent_lt_nextId := by
    intro v p hp
    exact ViewId.lt_trans (f.parent_lt_nextId ((f.climb_register tag).1 hp))
      (nextId_register room tag)

end Session

end AnchorLayout
