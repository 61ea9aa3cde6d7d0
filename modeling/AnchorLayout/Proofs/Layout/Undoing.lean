import AnchorLayout.Proofs.Hierarchy.Filling
import AnchorLayout.Proofs.Layout.Edited
/-!
# Undoing a container

  A container is put into a view and taken out again.  Two loops move the children of the view, each
  of them out of the list that it came from, and rename their anchors one way and back.

  1. **Program** — `Session.setContainer` twice.
  2. **Specification** — `Session.contents`, what a view holds on its own behalf; `Session.Shifted`,
     exactly what one loop does: links, lists in order, and rules.
  3. **The loop (`Fillable.shift`)** — every move is one of the kind that `shifted_setParent`
     describes, and two of them in a row are one for both views (`Shifted.cons`).
  4. **The crux (`Fits.install`, `Encloses.remove`)** — what is moved back is what the
     container holds, and that is what has been moved into it, in that order.
-/

namespace AnchorLayout

open Operation

/-- The place of a view once some views have been moved from one list to the end of another one. -/
def Hierarchy.shifted (h : Hierarchy) (u p source target : ViewId) (moved : List ViewId) :
    Hierarchy :=
  { h with
    parent := if u ∈ moved then some p else h.parent
    structuralParent := if u ∈ moved then some target else h.structuralParent
    children :=
      if u = source then h.children.filter (· ∉ moved)
      else if u = target then h.children ++ moved else h.children }

/-- A place is compared field by field. -/
theorem Hierarchy.eq_of_fields {h h' : Hierarchy} (parent : h.parent = h'.parent)
    (structural : h.structuralParent = h'.structuralParent) (children : h.children = h'.children)
    (container : h.container = h'.container) (chrome : h.isChrome = h'.isChrome) : h = h' := by
  cases h
  cases h'
  cases parent
  cases structural
  cases children
  cases container
  cases chrome
  rfl

/-- A case split on a list, taken as one on its first member and one on the rest. -/
theorem ite_mem_cons {α β : Type} [DecidableEq α] (u m : α) (rest : List α) (a b : β) :
    (if u ∈ rest then a else if u ∈ [m] then a else b) = if u ∈ m :: rest then a else b := by
  by_cases hm : u = m <;> simp [hm]

/-- **One view after the other** is all of them. -/
theorem Hierarchy.shifted_cons {source target : ViewId} (apart : source ≠ target)
    (h : Hierarchy) (u p m : ViewId) (rest : List ViewId) :
    (h.shifted u p source target [m]).shifted u p source target rest =
      h.shifted u p source target (m :: rest) := by
  refine eq_of_fields (ite_mem_cons ..) (ite_mem_cons ..) ?_ rfl rfl
  simp only [Hierarchy.shifted]
  by_cases hs : u = source
  · simp only [if_pos hs, List.filter_filter]
    exact List.filter_congr fun child _ => by simp [not_or, Bool.and_comm]
  · by_cases ht : u = target
    · simp [ht, Ne.symm apart]
    · simp [hs, ht]

/-- The renaming of a move between a view and its container. -/
def Anchor.shifted (p source target : ViewId) : Anchor → Anchor :=
  Anchor.between (some p) (some target) ∘ Anchor.between (some source) (some p)

namespace Session

variable {s s' : Session} {u v p c m source target : ViewId} {moved rest : List ViewId}
  {place outer inner : Hierarchy}

/-- **Some views have been moved** from under one view to under another one, for the sake of a
parent. -/
structure Shifted (s s' : Session) (p source target : ViewId) (moved : List ViewId) : Prop where
  places : ∀ u, s'.place? u = (s.place? u).map (·.shifted u p source target moved)
  rules : ∀ u, s'.constraints? u = (s.constraints? u).map fun store =>
    if u ∈ moved then store.mapAnchors (Anchor.shifted p source target) else store

/-- Not chrome. -/
def isPlain (s : Session) (u : ViewId) : Bool := (s.place? u).any fun place => !place.isChrome

/-- **What a view holds on its own behalf**: its children that are not chrome and have been put
there, and not into another view that it is the container of. -/
def contents (s : Session) (p : ViewId) : List ViewId :=
  (s.childrenOf p).filter fun u =>
    (s.place? u).any fun place => place.parent = some p ∧ place.isChrome = false

/-! ## One move -/

/-- No view has been moved yet. -/
theorem Shifted.refl (s : Session) (p source target : ViewId) : s.Shifted s p source target [] := by
  refine ⟨fun u => ?_, fun u => ?_⟩
  · cases s.place? u with
    | none => rfl
    | some place => simp [Hierarchy.shifted]
  · cases s.constraints? u with
    | none => rfl
    | some store => simp

/-- **One view after the other.** -/
theorem Shifted.cons {s₁ : Session} (apart : source ≠ target) (fresh : m ∉ rest)
    (h : s.Shifted s₁ p source target [m]) (h' : s₁.Shifted s' p source target rest) :
    s.Shifted s' p source target (m :: rest) := by
  refine ⟨fun u => ?_, fun u => ?_⟩
  · rw [h'.places, h.places, Option.map_map]
    exact congrFun (congrArg Option.map (funext fun place => place.shifted_cons apart u p m rest)) _
  · rw [h'.rules, h.rules, Option.map_map]
    refine congrFun (congrArg Option.map (funext fun store => ?_)) _
    by_cases hu : u = m
    · subst hu
      simp [fresh]
    · simp [hu]

/-- The rules of a view that has moved: first the anchors go back from what it was rendered under to
its old parent, then on to the new place. -/
theorem constraints?_settled_eq (s : Session) (child : ViewId) (before : Hierarchy)
    (parent structural : Option ViewId) (u : ViewId) :
    (s.settled child before parent structural).constraints? u =
      (s.constraints? u).map fun store =>
        if child = u then store.mapAnchors (Anchor.between parent structural ∘
          Anchor.between before.structuralParent before.parent) else store := by
  rw [constraints?, get?_settled, constraints?]
  split
  · rw [Option.map_map, Option.map_map]
    refine congrFun (congrArg Option.map (funext fun view => ?_)) _
    exact ConstraintStore.mapAnchors_mapAnchors _ _ view.constraints
  · rw [Option.map_id']

theorem constraints?_attach (s : Session) (child target p u : ViewId) :
    (s.attach child target p).constraints? u = s.constraints? u := by
  rw [attach, constraints?_replace, constraints?_markDirty, constraints?_replace]

/-- **A move of one view** out of one list and to the end of another one. -/
theorem shifted_setParent (ok : setParent m (some p) s = .ok () s')
    (placed : s.placement? m p = .ok target) (here : s.place? m = some place)
    (parent : place.parent = some p) (structural : place.structuralParent = some source)
    (apart : source ≠ target) (hsource : m ≠ source) (htarget : m ≠ target) :
    s.Shifted s' p source target [m] := by
  obtain ⟨found, lands, hfound, hlands, -, -, rfl⟩ := setParent_some_eq_ok ok
  obtain rfl : lands = target := Except.ok.inj (hlands.symm.trans placed)
  obtain rfl : found.hierarchy = place := by
    rw [place?, hfound] at here
    exact Option.some.inj here
  have hclimb : s.Climb m source := climb_iff_place.2 ⟨_, here, structural⟩
  refine ⟨fun u => ?_, fun u => ?_⟩
  · rw [place?_settled, place?_attach, place?_detach hclimb, Option.map_map]
    refine congrFun (congrArg Option.map (funext fun before => ?_)) _
    -- the view itself, the one that it leaves, the one that it comes to, and all others
    by_cases hm : m = u
    · subst hm
      simp [Hierarchy.shifted, Hierarchy.linked, Hierarchy.unlinked, hsource, htarget,
        Ne.symm hsource, Ne.symm htarget]
    · by_cases hs : source = u
      · subst hs
        simp [Hierarchy.shifted, Hierarchy.without, hm, Ne.symm hm, Ne.symm apart]
      · by_cases ht : lands = u
        · subst ht
          simp [Hierarchy.shifted, Hierarchy.holding, hm, Ne.symm hm, hs, Ne.symm hs]
        · simp [Hierarchy.shifted, hm, hs, ht, Ne.symm hm, Ne.symm hs, Ne.symm ht]
  · rw [constraints?_settled_eq, constraints?_attach, constraints?_detach, parent, structural]
    refine congrFun (congrArg Option.map (funext fun store => if_congr ?_ rfl rfl)) _
    rw [List.mem_singleton, eq_comm]

/-! ## The loop -/

/-- A child that is not the place itself is moved unless it is chrome. -/
theorem moveIntoPlace_apply (hne : m ≠ target) (here : s.place? m = some place) :
    moveIntoPlace p target m s =
      if place.isChrome then .ok () s else setParent m (some p) s := by
  obtain ⟨found, hfound, rfl⟩ := Option.map_eq_some_iff.1 here
  rw [moveIntoPlace, if_pos hne]
  refine (bind_of_ok (view_of_get? hfound) _).trans ?_
  cases found.hierarchy.isChrome <;> rfl

/-- No move makes a view chrome. -/
theorem Shifted.isPlain_eq (h : s.Shifted s' p source target moved) (u : ViewId) :
    s'.isPlain u = s.isPlain u := by
  rw [isPlain, isPlain, h.places]
  cases s.place? u <;> rfl

/-- A view that has been put under a parent, and is rendered under a source. -/
def Waiting (s : Session) (p source : ViewId) (m : ViewId) : Prop :=
  ∃ place, s.place? m = some place ∧ place.parent = some p ∧ place.structuralParent = some source

/-- The views that are still to be moved are where they were. -/
theorem Shifted.waiting {q : ViewId} (h : s.Shifted s' p source target [m]) (hne : q ≠ m)
    (wait : s.Waiting p source q) : s'.Waiting p source q := by
  obtain ⟨place, hplace, hparent, hstructural⟩ := wait
  refine ⟨place.shifted q p source target [m], by rw [h.places, hplace]; rfl, ?_, ?_⟩
  · simp [Hierarchy.shifted, hne, hparent]
  · simp [Hierarchy.shifted, hne, hstructural]

/-- **The whole loop**: all but chrome is moved, in order. -/
theorem Fillable.shift (fill : s.Fillable p target moved) (apart : source ≠ target)
    (waiting : ∀ m ∈ moved, m ≠ target ∧ s.Waiting p source m) :
    ∃ s', moved.forM (moveIntoPlace p target) s = .ok () s' ∧ Kept s s' ∧
      s.Shifted s' p source target (moved.filter s.isPlain) := by
  induction moved generalizing s with
  | nil => exact ⟨s, rfl, keepsForest.refl s, Shifted.refl s p source target⟩
  | cons m rest ih =>
    obtain ⟨⟨hne, place, hplace, hparent, hstructural⟩, hrest⟩ := List.forall_mem_cons.1 waiting
    obtain ⟨s₁, hs₁, hfill, hkept, -⟩ := fill.step
    have hmoved := (moveIntoPlace_apply hne hplace).symm.trans hs₁
    have hnew := (List.nodup_cons.1 fill.distinct).1
    cases hchrome : place.isChrome with
    | true =>
      rw [hchrome, if_pos rfl] at hmoved
      cases hmoved
      obtain ⟨s', hs', hkept', hshift⟩ := ih hfill hrest
      have hskip : (m :: rest).filter s.isPlain = rest.filter s.isPlain :=
        List.filter_cons_of_neg (by simp [isPlain, hplace, hchrome])
      exact ⟨s', (bind_of_ok hs₁ _).trans hs', hkept', hskip ▸ hshift⟩
    | false =>
      rw [hchrome, if_neg Bool.false_ne_true] at hmoved
      -- nothing hangs under itself
      have hsource : m ≠ source := by
        rintro rfl
        have hself : s.Climb m m := climb_iff_place.2 ⟨place, hplace, hstructural⟩
        exact fill.forest.acyclic m (under_iff_climb.2 ⟨m, hself, below_refl s m⟩)
      obtain ⟨hplaced, -⟩ := fill.placed (home?_of_place hplace) hchrome hne
      have hfirst := shifted_setParent hmoved hplaced hplace hparent hstructural apart hsource hne
      have hstill : ∀ q ∈ rest, q ≠ target ∧ s₁.Waiting p source q := fun q hq =>
        ⟨(hrest q hq).1, hfirst.waiting (fun heq => hnew (heq ▸ hq)) (hrest q hq).2⟩
      obtain ⟨s', hs', hkept', hshift⟩ := ih hfill hstill
      -- the first move makes no view chrome, so the others are filtered as before
      have htake : (m :: rest).filter s.isPlain = m :: rest.filter s₁.isPlain := by
        rw [List.filter_cons_of_pos (by simp [isPlain, hplace, hchrome])]
        exact congrArg (m :: ·) (List.filter_congr fun q _ => (hfirst.isPlain_eq q).symm)
      refine ⟨s', (bind_of_ok hs₁ _).trans hs', kept_trans hkept hkept', htake ▸ ?_⟩
      exact hfirst.cons apart (fun hmem => hnew (List.mem_filter.1 hmem).1) hshift

/-- The loop at the end of a change of container. -/
theorem Fillable.fillContainer (fill : s.Fillable p target moved) (apart : source ≠ target)
    (waiting : ∀ m ∈ moved, m ≠ target ∧ s.Waiting p source m) (old : Option ViewId) :
    ∃ s', Session.fillContainer p target moved old s = .ok () s' ∧ Kept s s' ∧
      s.Shifted s' p source target (moved.filter s.isPlain) := by
  obtain ⟨filled, hfilled, hkept, hshift⟩ := fill.shift apart waiting
  cases old with
  | none =>
    exact ⟨filled.markDirty p, bind_of_ok hfilled _,
      kept_trans hkept (treeEq_markDirty _ _).kept, hshift.places, hshift.rules⟩
  | some c =>
    refine ⟨(filled.markDirty c).markDirty p, bind_of_ok hfilled _, kept_trans hkept ?_,
      hshift.places, hshift.rules⟩
    exact ((treeEq_markDirty _ _).trans (treeEq_markDirty _ _)).kept

/-! ## Putting a container in -/

end Session

/-- The place of a view once one view has been put into another as its container. -/
def Hierarchy.enclosed (h : Hierarchy) (u p c : ViewId) : Hierarchy :=
  if u = p then { h with children := h.children ++ [c], container := some c }
  else if u = c then { h with parent := some p, structuralParent := some p, isChrome := true }
  else h

namespace Session

variable {s s' : Session} {u v p c m source target : ViewId} {moved rest : List ViewId}
  {place outer inner : Hierarchy}

/-- **A free view put in as a container**: nothing else changes. -/
theorem installContainer_eq_ok (ok : installContainer p c s = .ok () s')
    (hp : s.place? p = some outer) (free : outer.container = none) (hc : s.place? c = some inner)
    (unplaced : inner.structuralParent = none) (hne : c ≠ p) :
    (∀ u, s'.place? u = (s.place? u).map (·.enclosed u p c)) ∧
      ∀ u, s'.constraints? u = s.constraints? u := by
  have hcontains := contains_iff_place.2 ⟨inner, hc⟩
  have hmarked (u : ViewId) : (s.rechromed c true).place? u =
      if c = u then (s.place? u).map fun h => { h with isChrome := true } else s.place? u :=
    place?_modifyView s c u _
  obtain ⟨_, s₁, hmark, hrest⟩ := bind_eq_ok ok
  cases (update_rechromed hcontains true).symm.trans hmark
  obtain ⟨_, s₂, hlink, hinstall⟩ := bind_eq_ok hrest
  obtain ⟨found, lands, hfound, hlands, -, hknown, rfl⟩ := setParent_some_eq_ok hlink
  -- nothing is in the way of the parent itself
  obtain rfl : lands = p := by
    obtain ⟨home, around, -, haround, rfl⟩ := placement?_eq_ok_iff.1 hlands
    rw [home?, hmarked, if_neg hne, hp] at haround
    cases haround
    rw [Hierarchy.landing]
    simp only [Hierarchy.home, free]
  have hstructural : found.hierarchy.structuralParent = none := by
    have hplace := hmarked c
    rw [place?, hfound, if_pos rfl, hc] at hplace
    exact (congrArg Hierarchy.structuralParent (Option.some.inj hplace)).trans unplaced
  have hnone : (s.rechromed c true).structuralParent? c = none := by
    rw [structuralParent?_eq, place?, hfound]
    exact hstructural
  rw [detach_of_none hnone] at hinstall
  rw [update_apply] at hinstall
  split at hinstall
  case isFalse => cases hinstall
  case isTrue =>
    cases hinstall
    refine ⟨fun u => ?_, fun u => ?_⟩
    · rw [place?_modifyView, place?_settled, place?_attach, hmarked]
      cases s.place? u with
      | none => simp
      | some h =>
        by_cases hu : lands = u
        · subst hu
          simp [Hierarchy.enclosed, Hierarchy.holding, hne]
        · by_cases hcu : c = u
          · subst hcu
            simp [Hierarchy.enclosed, Hierarchy.linked, hu, hne]
          · simp [Hierarchy.enclosed, hu, hcu, Ne.symm hu, Ne.symm hcu]
    · rw [constraints?_replace, constraints?_settled_eq, constraints?_attach, rechromed,
        constraints?_replace, hstructural]
      have hid (store : ConstraintStore) :
          (if c = u then store.mapAnchors (Anchor.between (some lands) (some lands) ∘
            Anchor.between none found.hierarchy.parent) else store) = store := by
        rw [Anchor.between_self]
        exact (ite_congr rfl (fun _ => ConstraintStore.mapAnchors_id store) fun _ => rfl).trans
          (ite_self store)
      simp only [hid, Option.map_id']

/-- The children of a view in what holds them. -/
def heldBy (s : Session) (p holder : ViewId) : List ViewId :=
  (s.childrenOf holder).filter fun u =>
    ((s.views.get? u).bind fun view => view.hierarchy.parent) == some p

/-- What holds the children of a view lists those that give the view as their parent. -/
theorem mem_heldBy_iff (f : s.Forest) {holder : ViewId} (known : s.contains holder = true) :
    u ∈ s.heldBy p holder ↔ s.Waiting p holder u := by
  rw [heldBy, List.mem_filter, f.mem_children_iff known, climb_iff_place, Waiting, place?]
  cases s.views.get? u with
  | none => simp
  | some view => simp [and_comm]

/-- Those that are not chrome are what the view holds. -/
theorem filter_heldBy (s : Session) (p : ViewId) :
    (s.heldBy p p).filter s.isPlain = s.contents p := by
  rw [heldBy, List.filter_filter, contents]
  refine List.filter_congr fun u _ => ?_
  rw [isPlain, place?]
  cases s.views.get? u with
  | none => rfl
  | some view => simp [Bool.and_comm, Bool.decide_and, beq_eq_decide]

/-- The first step of a change of container, on a view that is there. -/
theorem update_emptied (hp : s.contains p = true) :
    update p (fun view => view.updateHierarchy fun h => { h with container := none }) s =
      .ok () (s.emptied p) := by
  rw [update_apply, if_pos hp]
  rfl

/-- Taking a container away that is not there. -/
theorem place?_emptied_of_free (hp : s.place? p = some outer) (free : outer.container = none)
    (u : ViewId) : (s.emptied p).place? u = s.place? u := by
  rw [emptied, place?_modifyView]
  split
  · next hu =>
    subst hu
    rw [hp, ← free]
    rfl
  · rfl

/-- Only the new container has another parent. -/
theorem waiting_enclosed (places : ∀ u, s'.place? u = (s.place? u).map (·.enclosed u p c))
    (hne : m ≠ c) (wait : s.Waiting p source m) : s'.Waiting p source m := by
  obtain ⟨place, hplace, hparent, hstructural⟩ := wait
  refine ⟨place.enclosed m p c, by rw [places, hplace]; rfl, ?_, ?_⟩ <;>
    by_cases hmp : m = p <;> simp [Hierarchy.enclosed, hmp, hne, hparent, hstructural]

/-- Only the new container becomes chrome. -/
theorem isPlain_enclosed (places : ∀ u, s'.place? u = (s.place? u).map (·.enclosed u p c))
    (hne : u ≠ c) : s'.isPlain u = s.isPlain u := by
  rw [isPlain, isPlain, places]
  cases s.place? u with
  | none => rfl
  | some place => by_cases hu : u = p <;> simp [Hierarchy.enclosed, hu, hne]

/-- **What a container does** that is put into a view without one: it hangs behind the children of the
view, and then takes those that the view holds on its own behalf. -/
structure Encloses (s s' : Session) (p c : ViewId) : Prop where
  kept : Kept s s'
  places : ∀ u, s'.place? u =
    (s.place? u).map fun h => (h.enclosed u p c).shifted u p p c (s.contents p)
  rules : ∀ u, s'.constraints? u = (s.constraints? u).map fun store =>
    if u ∈ s.contents p then store.mapAnchors (Anchor.shifted p p c) else store

/-- **A view without a container, and a free one**: it hangs nowhere and holds nothing. -/
structure Fits (s : Session) (p c : ViewId) (outer inner : Hierarchy) : Prop where
  forest : s.Forest
  view : s.place? p = some outer
  uncontained : outer.container = none
  free : s.place? c = some inner
  unplaced : inner.parent = none
  empty : inner.children = []
  apart : c ≠ p

namespace Fits

variable (fits : s.Fits p c outer inner)
include fits

theorem contains_view : s.contains p = true := contains_iff_place.2 ⟨outer, fits.view⟩

theorem contains_free : s.contains c = true := contains_iff_place.2 ⟨inner, fits.free⟩

/-- A free view hangs nowhere. -/
theorem nowhere : inner.structuralParent = none := by
  have hiff := fits.forest.parent_iff fits.free
  rw [fits.unplaced] at hiff
  exact Option.not_isSome_iff_eq_none.1 fun hsome => absurd (hiff.2 hsome) (by simp)

/-- Nothing is below a view without children. -/
theorem isAncestorOrSelf_eq : s.isAncestorOrSelf c p = false := by
  rw [← Bool.not_eq_true, isAncestorOrSelf_iff fits.forest.acyclic]
  intro hbelow
  rcases Relation.ReflTransGen.cases_tail hbelow with heq | ⟨u, -, hu⟩
  · exact fits.apart heq
  · have hmem := (fits.forest.mem_children_iff fits.contains_free).2 hu
    rw [childrenOf_eq, fits.free, Option.map_some, fits.empty] at hmem
    exact List.not_mem_nil hmem

/-- So it is none of the children that are moved. -/
theorem ne_of_waiting (wait : s.Waiting p source m) : m ≠ c := by
  rintro rfl
  obtain ⟨place, hplace, hparent, -⟩ := wait
  cases fits.free.symm.trans hplace
  cases fits.unplaced.symm.trans hparent

/-- **A free view becomes the container.** -/
theorem install : ∃ s', setContainer p (some c) s = .ok () s' ∧ s.Encloses s' p c := by
  have f := fits.forest
  have hknown := fits.contains_view
  have hwaiting (m : ViewId) (hm : m ∈ s.heldBy p p) : s.Waiting p p m :=
    (mem_heldBy_iff f hknown).1 hm
  -- what is moved is found first
  have hmoved : s.visualChildren? p = .ok (s.heldBy p p) := by
    have hheld := visualChildren?_eq fits.view (by rw [fits.uncontained]; exact hknown)
    rw [fits.uncontained] at hheld
    exact hheld
  -- then the old container, which is not there, is taken away, and the new one put in
  have hemptied := recontained_emptied s p
  have htree := treeEq_emptied s p
  have hsame := place?_emptied_of_free fits.view fits.uncontained
  have hhome : (s.emptied p).home? p = some outer.home := by
    rw [home?, hsame, fits.view]
    rfl
  obtain ⟨s₀, hs₀, hkept, hhomes⟩ := installContainer_apply (htree.forest f) hhome fits.uncontained
    ((htree.contains c).trans fits.contains_free) fits.apart
    ((htree.isAncestorOrSelf_eq f c p).trans fits.isAncestorOrSelf_eq)
  obtain ⟨hinstalled, hrules⟩ := installContainer_eq_ok hs₀ ((hsame p).trans fits.view)
    fits.uncontained ((hsame c).trans fits.free) fits.nowhere fits.apart
  have hplaces (u : ViewId) : s₀.place? u = (s.place? u).map (·.enclosed u p c) := by
    rw [hinstalled, hsame]
  -- then the children are moved
  have hfill : s₀.Fillable p c (s.heldBy p p) :=
    (hemptied.install hkept hhomes).fillable f (home?_of_place fits.view)
      (fun _ h => Option.some.inj h ▸ fits.contains_free) (Or.inl rfl)
      (fun m hm => (f.mem_children_iff hknown).1 (List.mem_filter.1 hm).1)
      ((f.nodup_children p).filter _)
  have hother (m : ViewId) (hm : m ∈ s.heldBy p p) : m ≠ c := fits.ne_of_waiting (hwaiting m hm)
  obtain ⟨s', hs', hkept', hshift⟩ := hfill.fillContainer (Ne.symm fits.apart)
    (fun m hm => ⟨hother m hm, waiting_enclosed hplaces (hother m hm) (hwaiting m hm)⟩)
    outer.container
  have hcontents : (s.heldBy p p).filter s₀.isPlain = s.contents p := by
    rw [← filter_heldBy]
    exact List.filter_congr fun m hm => isPlain_enclosed hplaces (hother m hm)
  rw [hcontents] at hshift
  refine ⟨s', ?_, kept_trans htree.kept (kept_trans hkept hkept'), fun u => ?_, fun u => ?_⟩
  · obtain ⟨view, hview, hhierarchy⟩ := Option.map_eq_some_iff.1 fits.view
    obtain ⟨_, hfree, -⟩ := Option.map_eq_some_iff.1 fits.free
    rw [setContainer_eq]
    refine (bind_of_ok (view_of_get? hview) _).trans ((bind_of_ok (view_of_get? hfree) _).trans ?_)
    show (if c = p ∨ s.isAncestorOrSelf c p = true then _ else _ : Operation Unit) s = _
    rw [fits.isAncestorOrSelf_eq, if_neg (by simp [fits.apart])]
    refine (bind_of_ok (ofExcept_of_ok hmoved s) _).trans ?_
    refine (bind_of_ok (view_of_get? hview) _).trans
      ((bind_of_ok (update_emptied hknown) _).trans ((bind_of_ok hs₀ _).trans ?_))
    rw [hhierarchy]
    exact hs'
  · rw [hshift.places, hplaces, Option.map_map]
    rfl
  · rw [hshift.rules, hrules, emptied, constraints?_replace]

end Fits

/-! ## Taking it out again -/

/-- **A container is taken away** from under its own view: what it holds for the view moves back. -/
theorem setContainer_remove (f : s.Forest) (hp : s.place? p = some outer)
    (held : outer.container = some c) (hc : s.Climb c p) (known : s.contains c = true)
    (plain : ∀ m ∈ s.heldBy p c, s.isPlain m = true) :
    ∃ s', setContainer p none s = .ok () s' ∧ (s.emptied p).Shifted s' p c p (s.heldBy p c) := by
  have hknown := contains_iff_place.2 ⟨outer, hp⟩
  have hne : c ≠ p := by
    rintro rfl
    exact f.acyclic c (under_iff_climb.2 ⟨c, hc, below_refl s c⟩)
  -- what the view shows is what its container holds for it
  have hmoved : s.visualChildren? p = .ok (s.heldBy p c) := by
    have hheld := visualChildren?_eq hp (by rw [held]; exact known)
    rw [held] at hheld
    exact hheld
  have hemptied (u : ViewId) : (s.emptied p).place? u =
      if p = u then (s.place? u).map fun h => { h with container := none } else s.place? u :=
    place?_modifyView s p u _
  have hfill : (s.emptied p).Fillable p p (s.heldBy p c) :=
    (recontained_emptied s p).fillable f (home?_of_place hp) (fun _ h => nomatch h) (Or.inr hc)
      (fun m hm => (f.mem_children_iff known).1 (List.mem_filter.1 hm).1)
      ((f.nodup_children c).filter _)
  have hwaiting : ∀ m ∈ s.heldBy p c, m ≠ p ∧ (s.emptied p).Waiting p c m := by
    intro m hm
    obtain ⟨place, hplace, hparent, hstructural⟩ := (mem_heldBy_iff f known).1 hm
    have hmp : m ≠ p := by
      rintro rfl
      have hup : s.Climb m c := climb_iff_place.2 ⟨place, hplace, hstructural⟩
      exact f.acyclic m (under_iff_climb.2 ⟨c, hup, hc.below⟩)
    exact ⟨hmp, place, by rw [hemptied, if_neg (Ne.symm hmp), hplace], hparent, hstructural⟩
  obtain ⟨s', hs', -, hshift⟩ := hfill.fillContainer hne hwaiting outer.container
  -- none of that is chrome, so all of it is moved
  have hall : (s.heldBy p c).filter (s.emptied p).isPlain = s.heldBy p c := by
    refine List.filter_eq_self.2 fun m hm => ?_
    rw [isPlain, hemptied, if_neg (Ne.symm (hwaiting m hm).1)]
    exact plain m hm
  rw [hall] at hshift
  refine ⟨s', ?_, hshift⟩
  obtain ⟨found, hfound, rfl⟩ := Option.map_eq_some_iff.1 hp
  rw [setContainer_eq]
  refine (bind_of_ok (view_of_get? hfound) _).trans ?_
  refine (bind_of_ok (ofExcept_of_ok hmoved s) _).trans ?_
  exact (bind_of_ok (view_of_get? hfound) _).trans ((bind_of_ok (update_emptied hknown) _).trans hs')

/-! ## Both -/

end Session

/-- Moved and moved back, a view is in the place where it was, but for the order in the list. -/
theorem Hierarchy.shifted_back {u p c : ViewId} {moved : List ViewId} {h : Hierarchy}
    (hup : u ≠ p) (huc : u ≠ c)
    (inside : u ∈ moved → h.parent = some p ∧ h.structuralParent = some p) :
    ((h.enclosed u p c).shifted u p p c moved).shifted u p c p moved = h := by
  have henclosed : h.enclosed u p c = h := by rw [enclosed, if_neg hup, if_neg huc]
  rw [henclosed]
  have hback (now between was : Option ViewId) (same : u ∈ moved → was = now) :
      (if u ∈ moved then now else if u ∈ moved then between else was) = was := by
    split
    · next hu => exact (same hu).symm
    · rfl
  refine eq_of_fields (hback _ _ _ fun hu => (inside hu).1) (hback _ _ _ fun hu => (inside hu).2) ?_
    rfl rfl
  simp [shifted, hup, huc]

namespace Session

variable {s s' : Session} {u v p c m source target : ViewId} {moved rest : List ViewId}
  {place outer inner : Hierarchy}

/-- What a view holds on its own behalf, by the places of its children. -/
theorem mem_contents_iff : m ∈ s.contents p ↔ m ∈ s.childrenOf p ∧
    ∃ place, s.place? m = some place ∧ place.parent = some p ∧ place.isChrome = false := by
  rw [contents, List.mem_filter, Option.any_eq_true]
  simp only [decide_eq_true_iff]

/-- **What a view holds on its own behalf** is under it. -/
theorem Forest.waiting_of_mem_contents (f : s.Forest) (hp : s.contains p = true)
    (hm : m ∈ s.contents p) : s.Waiting p p m ∧ m ≠ p := by
  obtain ⟨hchild, place, hplace, hparent, -⟩ := mem_contents_iff.1 hm
  have hclimb := (f.mem_children_iff hp).1 hchild
  obtain ⟨there, hthere, hstructural⟩ := climb_iff_place.1 hclimb
  obtain rfl := Option.some.inj (hplace.symm.trans hthere)
  refine ⟨⟨place, hplace, hparent, hstructural⟩, ?_⟩
  rintro rfl
  exact f.acyclic m (under_iff_climb.2 ⟨m, hclimb, below_refl s m⟩)

/-- Renamed one way and back, the rules are what they were if they did not mention the container. -/
theorem mapAnchors_shifted_back {rules : ConstraintStore} (free : rules.mentions c = false) :
    (rules.mapAnchors (Anchor.shifted p p c)).mapAnchors (Anchor.shifted p c p) = rules := by
  rw [ConstraintStore.mapAnchors_mapAnchors]
  refine ConstraintStore.mapAnchors_of_fixed fun rule hrule a ha => ?_
  have hfree := ConstraintStore.mentions_eq_false_iff.1 free rule hrule a ha
  simp only [Anchor.shifted, Anchor.between_self, Function.comp_apply, id_eq]
  exact Anchor.between_between (Or.inr fun heq => hfree (Option.some.inj heq).symm)

namespace Encloses

variable (h : s.Encloses s' p c) (fits : s.Fits p c outer inner)
include h fits

/-- The view lists what it did, without what has been moved and with the container at the end. -/
theorem place_view : ∃ place, s'.place? p = some place ∧ place.container = some c ∧
    place.children = (s.childrenOf p).filter (· ∉ s.contents p) ++ [c] := by
  have hfresh : c ∉ s.contents p := fun hm =>
    fits.ne_of_waiting (fits.forest.waiting_of_mem_contents fits.contains_view hm).1 rfl
  refine ⟨_, (h.places p).trans (congrArg _ fits.view), ?_, ?_⟩
  · simp [Hierarchy.shifted, Hierarchy.enclosed]
  · rw [childrenOf_eq, fits.view]
    simp [Hierarchy.shifted, Hierarchy.enclosed, List.filter_append, hfresh]

/-- **The container** hangs under its view and holds what has been moved. -/
theorem place_container : s'.Climb c p ∧ s'.contains c = true ∧ s'.childrenOf c = s.contents p := by
  have hfresh : c ∉ s.contents p := fun hm =>
    fits.ne_of_waiting (fits.forest.waiting_of_mem_contents fits.contains_view hm).1 rfl
  have hplace := (h.places c).trans (congrArg _ fits.free)
  refine ⟨climb_iff_place.2 ⟨_, hplace, ?_⟩, contains_iff_place.2 ⟨_, hplace⟩, ?_⟩
  · simp [Hierarchy.shifted, Hierarchy.enclosed, fits.apart, hfresh]
  · rw [childrenOf_eq, hplace]
    simp [Hierarchy.shifted, Hierarchy.enclosed, fits.apart, fits.empty]

/-- What has been moved is still what the view holds on its own behalf. -/
theorem place_moved (hm : m ∈ s.contents p) : ∃ place, s'.place? m = some place ∧
    place.parent = some p ∧ place.isChrome = false := by
  obtain ⟨-, place, hplace, -, hplain⟩ := mem_contents_iff.1 hm
  obtain ⟨hwaiting, hmp⟩ := fits.forest.waiting_of_mem_contents fits.contains_view hm
  refine ⟨_, (h.places m).trans (congrArg _ hplace), if_pos hm, ?_⟩
  simp [Hierarchy.shifted, Hierarchy.enclosed, hmp, fits.ne_of_waiting hwaiting, hplain]

/-- What the container holds for the view is what has been moved, in its order. -/
theorem heldBy_eq : s'.heldBy p c = s.contents p := by
  rw [heldBy, (h.place_container fits).2.2]
  refine List.filter_eq_self.2 fun m hm => ?_
  obtain ⟨place, hplace, hparent, -⟩ := h.place_moved fits hm
  obtain ⟨view, hview, rfl⟩ := Option.map_eq_some_iff.1 hplace
  rw [hview]
  exact beq_iff_eq.2 hparent

/-- Through its container the view shows what has been moved. -/
theorem visualChildren_eq : s'.visualChildren? p = .ok (s.contents p) := by
  obtain ⟨place, hplace, hcontainer, -⟩ := h.place_view fits
  obtain ⟨-, hknown, -⟩ := h.place_container fits
  have hvisual := visualChildren?_eq hplace (by rw [hcontainer]; exact hknown)
  rw [hcontainer] at hvisual
  exact hvisual.trans (congrArg Except.ok (h.heldBy_eq fits))

/-- **The container can be taken away again.** -/
theorem remove : ∃ s'', setContainer p none s' = .ok () s'' ∧
    (s'.emptied p).Shifted s'' p c p (s.contents p) := by
  obtain ⟨place, hplace, hcontainer, -⟩ := h.place_view fits
  obtain ⟨hclimb, hknown, -⟩ := h.place_container fits
  have hheld := h.heldBy_eq fits
  rw [← hheld]
  refine setContainer_remove (h.kept.forest fits.forest) hplace hcontainer hclimb hknown ?_
  intro m hm
  obtain ⟨there, hthere, -, hplain⟩ := h.place_moved fits (hheld ▸ hm)
  simp [isPlain, hthere, hplain]

end Encloses

/-- **A container that is put in and taken away again** leaves every view but its own and itself as
it was, and in between it holds what the view holds on its own behalf. -/
theorem Fits.undone (fits : s.Fits p c outer inner)
    (unmentioned : ∀ m ∈ s.childrenOf p, ∀ rules, s.constraints? m = some rules →
      rules.mentions c = false) :
    ∃ s₁ s₂, setContainer p (some c) s = .ok () s₁ ∧ setContainer p none s₁ = .ok () s₂ ∧
      s₁.childrenOf c = s.contents p ∧ s₁.visualChildren? p = .ok (s.contents p) ∧
      s₂.childrenOf p = (s.childrenOf p).filter (· ∉ s.contents p) ++ c :: s.contents p ∧
      ∀ u, u ≠ p → u ≠ c → s₂.place? u = s.place? u ∧ s₂.constraints? u = s.constraints? u := by
  obtain ⟨s₁, hs₁, h₁⟩ := fits.install
  obtain ⟨s₂, hs₂, h₂⟩ := h₁.remove fits
  refine ⟨s₁, s₂, hs₁, hs₂, (h₁.place_container fits).2.2, h₁.visualChildren_eq fits, ?_,
    fun u hup huc => ⟨?_, ?_⟩⟩
  · obtain ⟨place, hplace, -, hchildren⟩ := h₁.place_view fits
    rw [childrenOf_eq, h₂.places, emptied, place?_modifyView, if_pos rfl, hplace]
    simp [Hierarchy.shifted, Ne.symm fits.apart, hchildren]
  -- a view that was moved is back where it was, and another one has not been touched
  · rw [h₂.places, emptied, place?_modifyView, if_neg (Ne.symm hup), h₁.places]
    cases hu : s.place? u with
    | none => rfl
    | some place =>
      refine congrArg some (Hierarchy.shifted_back hup huc fun hm => ?_)
      obtain ⟨⟨there, hthere, hparents⟩, -⟩ :=
        fits.forest.waiting_of_mem_contents fits.contains_view hm
      exact Option.some.inj (hu.symm.trans hthere) ▸ hparents
  · rw [h₂.rules, emptied, constraints?_replace, h₁.rules]
    cases hu : s.constraints? u with
    | none => rfl
    | some rules =>
      refine congrArg some ?_
      by_cases hm : u ∈ s.contents p
      · simp only [if_pos hm]
        exact mapAnchors_shifted_back (unmentioned u (mem_contents_iff.1 hm).1 rules hu)
      · simp only [if_neg hm]

/-- **A container is undone exactly**, after every list of calls on a new session that registers
fewer views than there are identifiers.  A view without a container gets a free one, which none of
its children mentions, and loses it again: both succeed; in between the container holds, and the
view shows, what the view held on its own behalf; and afterwards this is back under the view with the
rules and in the order that it had, and no other view has changed its place or its rules. -/
theorem container_undone (options : Options) (issuer : Issuer) (calls : List Call)
    (few : 1 + (Session.new options issuer).creations
      ((Session.new options issuer).unfolded calls) < UInt32.size - 1)
    (p c : ViewId) (outer inner : Hierarchy)
    (view : ((Session.new options issuer).afterCalls calls).place? p = some outer)
    (uncontained : outer.container = none)
    (free : ((Session.new options issuer).afterCalls calls).place? c = some inner)
    (unplaced : inner.parent = none) (empty : inner.children = []) (apart : c ≠ p)
    (unmentioned : ∀ m ∈ ((Session.new options issuer).afterCalls calls).childrenOf p, ∀ rules,
      ((Session.new options issuer).afterCalls calls).constraints? m = some rules →
        rules.mentions c = false) :
    let s := (Session.new options issuer).afterCalls calls
    ∃ s₁ s₂, setContainer p (some c) s = .ok () s₁ ∧ setContainer p none s₁ = .ok () s₂ ∧
      s₁.childrenOf c = s.contents p ∧ s₁.visualChildren? p = .ok (s.contents p) ∧
      (∀ m ∈ s.contents p, s₂.constraints? m = s.constraints? m ∧ ∃ place,
        s₂.place? m = some place ∧ place.parent = some p ∧ place.structuralParent = some p) ∧
      (s₂.childrenOf p).filter (· ∈ s.contents p) = s.contents p ∧
      s₂.childrenOf p = (s.childrenOf p).filter (· ∉ s.contents p) ++ c :: s.contents p ∧
      ∀ u, u ≠ p → u ≠ c → s₂.place? u = s.place? u ∧ s₂.constraints? u = s.constraints? u := by
  intro s
  have fits : s.Fits p c outer inner :=
    ⟨forest_of_calls options issuer few, view, uncontained, free, unplaced, empty, apart⟩
  obtain ⟨s₁, s₂, hs₁, hs₂, hheld, hvisual, hchildren, hsame⟩ := fits.undone unmentioned
  have hother (m : ViewId) (hm : m ∈ s.contents p) : m ≠ p ∧ m ≠ c ∧ s.Waiting p p m := by
    obtain ⟨hwaiting, hmp⟩ := fits.forest.waiting_of_mem_contents fits.contains_view hm
    exact ⟨hmp, fits.ne_of_waiting hwaiting, hwaiting⟩
  refine ⟨s₁, s₂, hs₁, hs₂, hheld, hvisual, fun m hm => ?_, ?_, hchildren, hsame⟩
  · obtain ⟨hmp, hmc, place, hplace, hparents⟩ := hother m hm
    obtain ⟨hstill, hrules⟩ := hsame m hmp hmc
    exact ⟨hrules, place, hstill.trans hplace, hparents⟩
  · have hfresh : c ∉ s.contents p := fun hm => (hother c hm).2.1 rfl
    simp [hchildren, List.filter_append, List.filter_filter, hfresh]

/-- A view with three children, the second of them chrome, and a view that hangs nowhere. -/
def freeContainer : List Call :=
  [.request 1 (.createChild ⟨1⟩), .request 1 (.createChild ⟨2⟩), .request 1 (.createChild ⟨2⟩),
    .request 1 (.setChrome ⟨4⟩ true), .request 1 (.createChild ⟨2⟩), .request 1 (.create "div"),
    .request 1 (.set ⟨3⟩ .left (.value (.anchor ⟨⟨2⟩, .left⟩)))]

/-- The second child is chrome and stays; the other two go into the container and come back behind
it. -/
theorem container_undone_of_freeContainer :
    let s := (Session.new .default "").afterCalls freeContainer
    ∃ s₁ s₂, setContainer ⟨2⟩ (some ⟨6⟩) s = .ok () s₁ ∧ setContainer ⟨2⟩ none s₁ = .ok () s₂ ∧
      s₁.childrenOf ⟨6⟩ = [⟨3⟩, ⟨5⟩] ∧ s₂.childrenOf ⟨2⟩ = [⟨4⟩, ⟨6⟩, ⟨3⟩, ⟨5⟩] ∧
      s₂.constraints? ⟨3⟩ = s.constraints? ⟨3⟩ := by
  intro s
  have few : 1 + (Session.new .default "").creations
      ((Session.new .default "").unfolded freeContainer) < UInt32.size - 1 := by decide +kernel
  have hcontents : s.contents ⟨2⟩ = [⟨3⟩, ⟨5⟩] := by decide +kernel
  have hchildren : s.childrenOf ⟨2⟩ = [⟨3⟩, ⟨4⟩, ⟨5⟩] := by decide +kernel
  have hunmentioned : (s.childrenOf ⟨2⟩).all (fun m =>
      (s.constraints? m).all fun rules => !rules.mentions ⟨6⟩) = true := by decide +kernel
  have hview : s.place? ⟨2⟩ = some ⟨some ⟨1⟩, some ⟨1⟩, [⟨3⟩, ⟨4⟩, ⟨5⟩], none, false⟩ := by
    decide +kernel
  have hfree : s.place? ⟨6⟩ = some ⟨none, none, [], none, false⟩ := by decide +kernel
  obtain ⟨s₁, s₂, hs₁, hs₂, hheld, -, hmoved, -, hlist, -⟩ := container_undone .default ""
    freeContainer few ⟨2⟩ ⟨6⟩ _ _ hview rfl hfree rfl rfl (by decide) (by
      intro m hm rules hrules
      have hm' := List.all_eq_true.1 hunmentioned m hm
      rw [hrules] at hm'
      simpa using hm')
  rw [hcontents] at hheld hlist hmoved
  rw [hchildren] at hlist
  exact ⟨s₁, s₂, hs₁, hs₂, hheld, hlist, (hmoved ⟨3⟩ List.mem_cons_self).1⟩

end Session

end AnchorLayout
