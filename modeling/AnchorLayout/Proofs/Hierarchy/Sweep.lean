import AnchorLayout.Proofs.Hierarchy.Descent
import AnchorLayout.Session.Continuation
/-!
# Sweeping

  1. **Program** — `Session.sweep`, which forgets one view after the other.
  2. **Specification** — `Forest.get?_swept` and `Forest.mem_dirty_swept`: in a forest the views that
     are left are those below the root, and they are what they were; so are their dirty marks.
  3. **The crux (`Forest.swept`)** — what is above a view that is left is left too, so no link
     among the views that are left is cut; the root may hang under a view that is gone.
-/

namespace AnchorLayout

namespace Session

variable {s : Session} {u v p : ViewId}

/-! ## Forgetting -/

/-- **What forgetting does**, whatever the order: the doomed views are gone and the others
untouched.  The two facts below say the same of the marks and of what is not about views. -/
theorem get?_forgetAll (s : Session) (doomed : List ViewId) (u : ViewId) :
    (doomed.foldl forget s).views.get? u =
      if u ∈ doomed then none else s.views.get? u := by
  induction doomed generalizing s with
  | nil => rfl
  | cons v rest ih =>
    rw [List.foldl_cons, ih]
    have hone : (s.forget v).views.get? u = if u = v then none else s.views.get? u :=
      OrderedMap.get?_erase s.views v u
    rw [hone]
    by_cases hrest : u ∈ rest
    · simp [hrest]
    · by_cases hv : u = v <;> simp [hrest, hv]

/-- A mark goes with its view. -/
theorem mem_dirty_forgetAll (s : Session) (doomed : List ViewId) (u : ViewId) :
    u ∈ (doomed.foldl forget s).dirty.toList ↔ u ∈ s.dirty.toList ∧ u ∉ doomed := by
  induction doomed generalizing s with
  | nil => simp
  | cons v rest ih =>
    have hone : u ∈ (s.forget v).dirty.toList ↔ u ∈ s.dirty.toList ∧ u ≠ v := ViewSet.mem_erase
    rw [List.foldl_cons, ih, hone, List.mem_cons, not_or, and_assoc]

/-- Forgetting does not move the root, whichever views are doomed. -/
theorem root_forgetAll (s : Session) (doomed : List ViewId) :
    (doomed.foldl forget s).root = s.root := by
  induction doomed generalizing s with
  | nil => rfl
  | cons v rest ih => exact ih (s.forget v)

/-- No identifier becomes free again. -/
theorem nextId_forgetAll (s : Session) (doomed : List ViewId) :
    (doomed.foldl forget s).nextId = s.nextId := by
  induction doomed generalizing s with
  | nil => rfl
  | cons v rest ih => exact ih (s.forget v)

theorem options_forgetAll (s : Session) (doomed : List ViewId) :
    (doomed.foldl forget s).options = s.options := by
  induction doomed generalizing s with
  | nil => rfl
  | cons v rest ih => exact ih (s.forget v)

/-! ## What is left -/

/-- A session after a sweep. -/
def swept (s : Session) : Session := s.unreachable.foldl forget s

/-- **The doomed views**: registered, and not below the root by the links of the rendered tree.  The
program finds them with a traversal from the root, which in a forest meets exactly the views below
it. -/
theorem Forest.mem_unreachable_iff (f : s.Forest) :
    u ∈ s.unreachable ↔ s.contains u = true ∧ ¬ s.Below u s.root := by
  rw [unreachable, List.mem_filter, ← contains_iff_mem_keys, decide_eq_true_iff,
    f.mem_self_descendants_iff f.contains_root]

/-- A view below the root keeps everything that it has, links included. -/
theorem Forest.get?_swept (f : s.Forest) (h : s.Below u s.root) :
    s.swept.views.get? u = s.views.get? u := by
  rw [swept, get?_forgetAll, if_neg]
  exact fun hu => (f.mem_unreachable_iff.1 hu).2 h

/-- A view that is not below the root is gone, or never was there. -/
theorem Forest.get?_swept_of_not_below (f : s.Forest) (h : ¬ s.Below u s.root) :
    s.swept.views.get? u = none := by
  rw [swept, get?_forgetAll]
  split
  · rfl
  · next hu =>
    -- neither doomed nor below the root: it has not been there at all
    cases hget : s.views.get? u with
    | none => rfl
    | some view => exact absurd (f.mem_unreachable_iff.2 ⟨contains_iff.2 ⟨view, hget⟩, h⟩) hu

/-- A view that is left is still to be sent if it was before. -/
theorem Forest.mem_dirty_swept (f : s.Forest) (h : s.Below u s.root) :
    u ∈ s.swept.dirty.toList ↔ u ∈ s.dirty.toList := by
  rw [swept, mem_dirty_forgetAll]
  exact ⟨fun hu => hu.1, fun hu => ⟨hu, fun hdoomed => (f.mem_unreachable_iff.1 hdoomed).2 h⟩⟩

/-- **The views that are left** are those below the root. -/
theorem Forest.place?_swept (f : s.Forest) {place : Hierarchy} :
    s.swept.place? u = some place ↔ s.Below u s.root ∧ s.place? u = some place := by
  rw [place?, place?]
  by_cases h : s.Below u s.root
  · rw [f.get?_swept h]
    exact ⟨fun hplace => ⟨h, hplace⟩, fun hplace => hplace.2⟩
  · rw [f.get?_swept_of_not_below h]
    constructor
    · intro hplace
      cases hplace
    · intro hplace
      exact absurd hplace.1 h

/-- Who is registered after a sweep, as the invariants of the tree ask for it. -/
theorem Forest.contains_swept (f : s.Forest) :
    s.swept.contains u = true ↔ s.Below u s.root ∧ s.contains u = true := by
  rw [contains_iff_place, contains_iff_place]
  simp only [f.place?_swept]
  exact ⟨fun ⟨place, h, hplace⟩ => ⟨h, place, hplace⟩, fun ⟨h, place, hplace⟩ => ⟨place, h, hplace⟩⟩

/-- **No link leads out of what is left**: above a view below the root there are only such views, so
no parent link dangles. -/
theorem Forest.climb_swept (f : s.Forest) :
    s.swept.Climb u p ↔ s.Below u s.root ∧ s.Climb u p := by
  rw [climb_iff_place, climb_iff_place]
  simp only [f.place?_swept]
  exact ⟨fun ⟨place, ⟨h, hplace⟩, hp⟩ => ⟨h, place, hplace, hp⟩,
    fun ⟨h, place, hplace, hp⟩ => ⟨place, ⟨h, hplace⟩, hp⟩⟩

/-- Nor does a child get lost: the children of a view below the root are below it too. -/
theorem Forest.childrenOf_swept (f : s.Forest) (h : s.Below p s.root) :
    s.swept.childrenOf p = s.childrenOf p := by
  rw [childrenOf, childrenOf, f.get?_swept h]

/-- A view that is gone has no children, as any view that is not registered. -/
theorem Forest.childrenOf_swept_of_not_below (f : s.Forest) (h : ¬ s.Below p s.root) :
    s.swept.childrenOf p = [] := by
  rw [childrenOf, f.get?_swept_of_not_below h]
  rfl

/-- **A sweep leaves a forest.** Each law is the law from before, on the views below the root; the
children of a view that is left are left, since they hang below it. -/
theorem Forest.swept (f : s.Forest) : s.swept.Forest where
  acyclic := by
    intro v hv
    exact f.acyclic v (Relation.TransGen.mono (fun _ _ h => (f.climb_swept.1 h).2) _ _ hv)
  mem_children_iff := by
    intro p u hp
    obtain ⟨hbelow, hcontains⟩ := f.contains_swept.1 hp
    rw [f.childrenOf_swept hbelow, f.mem_children_iff hcontains, f.climb_swept]
    exact ⟨fun h => ⟨h.below.trans hbelow, h⟩, fun h => h.2⟩
  nodup_children := by
    intro p
    by_cases h : s.Below p s.root
    · rw [f.childrenOf_swept h]
      exact f.nodup_children p
    · rw [f.childrenOf_swept_of_not_below h]
      exact List.nodup_nil
  parent_iff := fun hplace => f.parent_iff (f.place?_swept.1 hplace).2
  contains_parent := by
    intro v p hv hp
    obtain ⟨hbelow, hclimb⟩ := f.climb_swept.1 hp
    rw [Session.swept, root_forgetAll] at hv
    refine f.contains_swept.2 ⟨?_, f.contains_parent hv hclimb⟩
    -- the line from a view that is left to the root passes its parent
    rcases below_iff_eq_or_climb.1 hbelow with heq | ⟨q, hq, hroot⟩
    · exact absurd heq hv
    · exact climb_unique hq hclimb ▸ hroot
  contains_root := by
    rw [f.contains_swept, Session.swept, root_forgetAll]
    exact ⟨below_refl s _, f.contains_root⟩
  lt_nextId := by
    intro v hv
    rw [Session.swept, nextId_forgetAll]
    exact f.lt_nextId (f.contains_swept.1 hv).2
  parent_lt_nextId := by
    intro v p hp
    rw [Session.swept, nextId_forgetAll]
    exact f.parent_lt_nextId (f.climb_swept.1 hp).2

end Session

end AnchorLayout
