import AnchorLayout.Proofs.Constraint.Plain
import AnchorLayout.Proofs.Layout.Commuting
import AnchorLayout.Proofs.Layout.Edited
/-!
# What a dock leaves of its assignments

  A dock gives up to two attributes of an axis, one after the other.  The second one leaves the best
  of the others, and that need not be the first one: it may be one that the view had before.

  1. **Program** — `Session.dock` and `DockTarget.expand`.
  2. **Specification** — `DockTarget.GivesWay`: an attribute of a dock makes room for one that the
     view had before.
  3. **The rules of a dock (`plain?_giveAll_expand`)** — an attribute is the only one of the dock on
     its axis, the last one, or the first of two.
  4. **The crux (`assignments_of_dock`)** — a move renames anchors, so that what the view had before
     the move ranks as high after it.
-/

namespace AnchorLayout

open Operation

/-! ## The rules of a dock -/

namespace DockTarget

variable {t : DockTarget} {s : ConstraintStore} {p : Attribute × Expr}

/-- The assignments of a dock on an axis. -/
def onAxis (t : DockTarget) (axis : Axis) : List (Attribute × Expr) :=
  t.expand.filter fun p => p.1.axis = axis

/-- **An attribute of a dock gives way**: the dock gives another one of its axis after it, and the
view had a better one before. -/
def GivesWay (t : DockTarget) (s : ConstraintStore) (attr : Attribute) : Prop :=
  ∃ last, (t.onAxis attr.axis).getLast? = some last ∧ last.1 ≠ attr ∧ s.GivesWay attr last.1

instance (t : DockTarget) (s : ConstraintStore) (attr : Attribute) :
    Decidable (t.GivesWay s attr) :=
  decidable_of_iff ((t.onAxis attr.axis).getLast?.any fun last =>
      last.1 ≠ attr ∧ s.GivesWay attr last.1) <| by
    simp only [Option.any_eq_true, decide_eq_true_iff, GivesWay]

theorem nodup_expand (t : DockTarget) : (t.expand.map Prod.fst).Nodup := by
  obtain ⟨view, dock, modifier⟩ := t
  cases dock <;> simp [expand, sibling, Dock.parentAttributes]

/-- A dock gives two attributes of an axis at most, so none of its own is pruned for a third
one. -/
theorem length_onAxis_le (t : DockTarget) (axis : Axis) : (t.onAxis axis).length ≤ 2 := by
  obtain ⟨view, dock, modifier⟩ := t
  cases dock <;> cases axis <;>
    simp [onAxis, expand, sibling, Dock.parentAttributes, Attribute.axis]

/-- **The place of an attribute** in a dock: it is the only one on its axis, the last one, or the
first of two. -/
theorem onAxis_cases (hp : p ∈ t.expand) : (∃ before, t.onAxis p.1.axis = before ++ [p] ∧
      before.length ≤ 1) ∨
    ∃ q, q.1 ≠ p.1 ∧ t.onAxis p.1.axis = [p, q] := by
  have hmem : p ∈ t.onAxis p.1.axis := List.mem_filter.2 ⟨hp, decide_eq_true rfl⟩
  have hdistinct : ((t.onAxis p.1.axis).map Prod.fst).Nodup :=
    t.nodup_expand.sublist (List.filter_sublist.map _)
  have hlength := t.length_onAxis_le p.1.axis
  generalize t.onAxis p.1.axis = on at hmem hdistinct hlength
  match on with
  | [q] => exact Or.inl ⟨[], by rw [List.mem_singleton.1 hmem]; rfl, Nat.zero_le 1⟩
  | [q, r] =>
    rcases List.mem_cons.1 hmem with rfl | hmem
    · refine Or.inr ⟨r, fun heq => ?_, rfl⟩
      simp [heq] at hdistinct
    · exact Or.inl ⟨[q], by rw [List.mem_singleton.1 hmem]; rfl, Nat.le_refl 1⟩

/-- **The rules of a dock**, given one after the other: an attribute has its own one, unless it has
given way. -/
theorem plain?_giveAll_expand (h : s.Orderly) (rule : Attribute × Expr → Constraint)
    (plain : ∀ p ∈ t.expand, (rule p).IsPlain) (on_target : ∀ p, (rule p).target = p.1)
    (hp : p ∈ t.expand) : (s.giveAll (t.expand.map rule)).plain? p.1 =
      if t.GivesWay s p.1 then none else some (rule p) := by
  have hrules : (t.expand.map rule).filter (fun c => c.target.axis = p.1.axis) =
      (t.onAxis p.1.axis).map rule := by
    rw [List.filter_map, onAxis]
    simp only [Function.comp_def, on_target]
  rw [h.plain?_giveAll (List.forall_mem_map.2 plain), hrules]
  have hself := on_target p
  have hon {q : Attribute × Expr} (hq : q ∈ t.onAxis p.1.axis) :
      (rule q).IsPlain ∧ q.1.axis = p.1.axis :=
    ⟨plain q (List.mem_filter.1 hq).1, of_decide_eq_true (List.mem_filter.1 hq).2⟩
  rcases onAxis_cases hp with ⟨before, honly, hlength⟩ | ⟨q, hne, hfirst⟩
  -- the last one of its axis has nothing after it to give way to
  · have hstays : ¬ t.GivesWay s p.1 := by
      rintro ⟨last, hlast, hother, -⟩
      rw [honly, List.getLast?_concat] at hlast
      cases hlast
      exact hother rfl
    have hlast (s : ConstraintStore) (h : s.Orderly) :
        (s.give (rule p)).plain? p.1 = some (rule p) := by
      rw [h.plain?_give (plain p hp), if_pos hself.symm]
    rw [if_neg hstays, honly]
    match before with
    | [] => exact hlast s h
    | [q] =>
      have hq : q ∈ t.onAxis p.1.axis := by
        rw [honly]
        exact List.mem_cons_self
      exact hlast (s.give (rule q)) (h.give (hon hq).1)
  · have hmem : q ∈ t.onAxis p.1.axis := by
      rw [hfirst]
      exact List.mem_cons_of_mem p (List.mem_singleton_self q)
    obtain ⟨hq, haxis⟩ := hon hmem
    -- the first of two gives way to the second or does not
    have hgives : t.GivesWay s p.1 ↔ s.GivesWay p.1 q.1 := by
      rw [GivesWay, hfirst]
      refine ⟨?_, fun hgives => ⟨q, rfl, hne, hgives⟩⟩
      rintro ⟨_, ⟨⟩, -, hgives⟩
      exact hgives
    rw [hfirst]
    have hpair := h.plain?_give_give (plain p hp) hq
      (by rw [hself, on_target]; exact haxis.symm) (by rw [hself, on_target]; exact hne.symm)
    rw [hself, on_target] at hpair
    exact hpair.trans (if_congr hgives.symm rfl rfl)

end DockTarget

/-! ## Stored rules -/

namespace Session

variable {s s' : Session} {v parent : ViewId} {target : DockTarget}

/-- **Rules stored through the container** are assigned one after the other. -/
theorem get?_storeThrough {prepared : List (Attribute × List Constraint)}
    (hv : s.contains v = true)
    (stored : (prepared.forM fun p => do store v p.1 ((← get).throughContainer v p.2)) s =
      .ok () s') :
    s'.views.get? v = (s.views.get? v).map fun view => view.updateConstraints fun store =>
      prepared.foldl (fun store p =>
        (store.assign p.1 (p.2.map fun c => c.mapAnchors (s.through v))).1) store := by
  induction prepared generalizing s with
  | nil =>
    cases stored
    exact Option.map_id'.symm
  | cons p rest ih =>
    obtain ⟨_, s₁, hfirst, hrest⟩ := bind_eq_ok stored
    have hstore : store v p.1 (s.throughContainer v p.2) s = .ok () s₁ := hfirst
    have hassigned : s₁ = s.constrain v fun store =>
        (store.assign p.1 (s.throughContainer v p.2)).1 := by
      rw [← after_of_ok hstore]
      exact (after_update_mark s v _).trans (if_pos hv)
    have hv₁ : s₁.contains v = true := by rw [hassigned, contains_constrain, hv]
    rw [ih hv₁ hrest, hassigned, get?_constrain, if_pos rfl, through_constrain, throughContainer_eq,
      Option.map_map]
    rfl

/-- Where a view is that has moved. -/
theorem parents?_of_setParent (moved : setParent v (some parent) s = .ok () s') :
    ∃ structural, s'.parents? v = some (some parent, some structural) := by
  obtain ⟨found, structural, hfound, -, -, -, rfl⟩ := setParent_some_eq_ok moved
  refine ⟨structural, ?_⟩
  rw [parents?_moved, if_pos rfl, parents?_of_get? hfound]
  rfl

/-- **What a dock leaves of its assignments**, after any acts on a new session: every attribute of
the dock has an unguarded equality with its expression, taken through the container of the new place;
but the first of two attributes of an axis has none if the view had a better one before. -/
theorem assignments_of_dock (options : Options) (issuer : Issuer) (acts : List Act)
    (docked : dock v target ((Session.new options issuer).afterActs acts) = .ok () s') :
    let s := (Session.new options issuer).afterActs acts
    ∃ parent structural before after, s.dockedUnder? target = some parent ∧
      s.views.get? v = some before ∧ s'.views.get? v = some after ∧
      after.hierarchy.parent = some parent ∧ after.hierarchy.structuralParent = some structural ∧
      ∀ p ∈ target.expand, after.constraints.plain? p.1 =
        if target.GivesWay before.constraints p.1 then none
        else some ⟨p.1, .equal, p.2.mapAnchors (Anchor.rename parent structural), none,
          s.currentAnimation⟩ := by
  intro s
  obtain ⟨hv, -, parent, prepared, moved, hunder, hprepared, hmoved, hstored⟩ := dock_eq_ok docked
  obtain ⟨rfl, hsettable⟩ := rulesOf?_eq_ok hprepared
  obtain ⟨before, hbefore⟩ := contains_iff.1 hv
  have horderly : before.constraints.Orderly :=
    (edited_of_acts options issuer acts).orderly (by rw [constraints?, hbefore]; rfl)
  -- the move renames the anchors of the rules that the view has
  obtain ⟨f, hrenamed⟩ := constraints?_setParent s v (some parent) v
  rw [after_of_ok hmoved, constraints?, constraints?, hbefore] at hrenamed
  obtain ⟨there, hthere, hrules⟩ := Option.map_eq_some_iff.1 hrenamed
  obtain ⟨structural, hplace⟩ := parents?_of_setParent hmoved
  have hparents := Option.some.inj ((parents?_of_get? hthere).symm.trans hplace)
  -- then the rules of the dock are given, one after the other
  have hafter := get?_storeThrough (contains_iff.2 ⟨there, hthere⟩) hstored
  rw [hthere, through_of_parents hplace] at hafter
  refine ⟨parent, structural, before, _, hunder, hbefore, hafter, congrArg Prod.fst hparents,
    congrArg Prod.snd hparents, fun p hp => ?_⟩
  have hgiven := DockTarget.plain?_giveAll_expand (horderly.mapAnchors f)
    (fun q => (ruleOf s.currentAnimation q).mapAnchors (Anchor.rename parent structural))
    (fun q hq => ⟨rfl, rfl, hsettable q hq⟩) (fun _ => rfl) hp
  rw [ConstraintStore.giveAll, List.foldl_map] at hgiven
  show (List.foldl _ there.constraints (target.expand.map _)).plain? p.1 = _
  rw [hrules, List.foldl_map]
  refine hgiven.trans (if_congr ?_ rfl rfl)
  simp only [DockTarget.GivesWay, horderly.givesWay_mapAnchors]

/-- At the top of a view with a container, where the view that is docked has a width already. -/
def topDock : DockTarget := ⟨⟨2⟩, .top, none⟩

/-- The top and the right edge are there.  The left one has given way, since the view had a width when
the right one came. -/
theorem assignments_of_topDock :
    let s := (Session.new .default "").afterActs ((Session.new .default "").unfolded someRooms)
    ∃ s' after, dock ⟨5⟩ topDock s = .ok () s' ∧ s'.views.get? ⟨5⟩ = some after ∧
      after.constraints.plain? .top =
        some ⟨.top, .equal, .anchor ⟨⟨3⟩, .top⟩, none, s.currentAnimation⟩ ∧
      after.constraints.plain? .left = none ∧
      after.constraints.plain? .right =
        some ⟨.right, .equal, .anchor ⟨⟨3⟩, .right⟩, none, s.currentAnimation⟩ := by
  intro s
  have hok : ((dock ⟨5⟩ topDock).answer s).isOk = true := by decide +kernel
  have hgives : ((s.constraints? ⟨5⟩).map fun rules =>
      [Attribute.top, .left, .right].map fun attr => decide (topDock.GivesWay rules attr)) =
        some [false, true, false] := by decide +kernel
  have hplace : ((((dock ⟨5⟩ topDock).after s).views.get? ⟨5⟩).map fun view =>
      view.hierarchy.structuralParent) = some (some ⟨3⟩) := by decide +kernel
  obtain ⟨_, s', hdock⟩ := Operation.exists_ok_of_isOk hok
  obtain ⟨parent, structural, before, after, hunder, hbefore, hafter, -, hstructural, hrules⟩ :=
    assignments_of_dock .default "" _ hdock
  cases hunder
  rw [after_of_ok hdock, hafter] at hplace
  cases hstructural.symm.trans (Option.some.inj hplace)
  rw [constraints?, show s.views.get? ⟨5⟩ = some before from hbefore] at hgives
  obtain ⟨htop, hleft, hright⟩ : ¬ topDock.GivesWay before.constraints .top ∧
      topDock.GivesWay before.constraints .left ∧
      ¬ topDock.GivesWay before.constraints .right := by
    simpa using hgives
  have hthird : (Attribute.right, topDock.offset .right true) ∈ topDock.expand :=
    List.mem_cons_of_mem _ (List.mem_cons_of_mem _ List.mem_cons_self)
  refine ⟨s', after, hdock, hafter, ?_, ?_, ?_⟩
  · exact (hrules (.top, _) List.mem_cons_self).trans (if_neg htop)
  · exact (hrules (.left, _) (List.mem_cons_of_mem _ List.mem_cons_self)).trans (if_pos hleft)
  · exact (hrules _ hthird).trans (if_neg hright)

/-- A view that has a width. -/
def someWidth : List Call :=
  [.request 1 (.createChild ⟨1⟩), .request 1 (.set ⟨2⟩ .width (.value (.num (.ofNat 20))))]

/-- **Not all assignments of a dock are left**: at the top of its parent, a view that has a width is
given no left edge. -/
theorem left_gives_way_to_width :
    ¬ ∀ (calls : List Call) (v : ViewId) (target : DockTarget) (s' : Session),
      let s := (Session.new .default "").afterCalls calls
      dock v target s = .ok () s' → ∃ parent structural after, s.dockedUnder? target = some parent ∧
        s'.views.get? v = some after ∧ after.hierarchy.structuralParent = some structural ∧
        ∀ p ∈ target.expand, ∃ c ∈ after.constraints.toList, c.target = p.1 ∧
          c.comparison = .equal ∧ c.condition = none ∧
          c.value = p.2.mapAnchors (Anchor.rename parent structural) := by
  intro hall
  have hok : ((dock ⟨2⟩ ⟨⟨1⟩, .top, none⟩).answer
      ((Session.new .default "").afterCalls someWidth)).isOk = true := by decide +kernel
  have hlost : (((dock ⟨2⟩ ⟨⟨1⟩, .top, none⟩).after
      ((Session.new .default "").afterCalls someWidth)).constraints? ⟨2⟩).all (fun rules =>
        rules.toList.all fun c => c.target ≠ .left) = true := by decide +kernel
  obtain ⟨_, s', hdock⟩ := Operation.exists_ok_of_isOk hok
  obtain ⟨parent, structural, after, -, hafter, -, hrules⟩ := hall someWidth _ _ s' hdock
  obtain ⟨c, hc, htarget, -⟩ := hrules (.left, _) (List.mem_cons_of_mem _ List.mem_cons_self)
  rw [after_of_ok hdock, constraints?, hafter] at hlost
  exact of_decide_eq_true (List.all_eq_true.1 hlost c hc) htarget

end Session

end AnchorLayout
