import AnchorLayout.Proofs.Constraint.Assignment
import AnchorLayout.Proofs.Layout.Docking
/-!
# Accepted rules

  Nothing is stored before all of it has been checked, so that a request that is accepted stores
  rules that are well formed.  Guards and the modifier of a dock are not looked through, so this is
  up to whoever gives them; and the anchors on the parent of the root are renamed to the view that
  it is rendered under, which a sweep may have taken away.

  1. **Program** — the requests that constrain a view.
  2. **Specification** — `Session.Stores good v s s'`: from one session to the other some parts have
     been stored on the view, and all of their rules are good.
  3. **One request (`stores_of_set`, `stores_of_dock` and so on)** — the parts are what has been
     prepared; a dock takes its rules through the container of the new place.
  4. **The crux (`Stores.mem_rulesOf`)** — pruning only takes rules away, so what a view has
     afterwards it had before, or it is one of those.
-/

namespace AnchorLayout

open Operation

/-- The view that a request constrains. -/
def Request.constrains? : Request → Option ViewId
  | .set v _ _ | .setNamed v _ _ | .setComposite v _ _ | .fit v _ | .dock v _
  | .dockNamed v _ _ => some v
  | _ => none

/-- The guards in a request. -/
def Request.guards : Request → List Condition
  | .set _ _ input => input.guards
  | .setNamed _ _ input => input.guards
  | .setComposite _ _ inputs => ConstraintInput.guardsOfAll inputs
  | _ => []

/-- The offset in a request. -/
def Request.offset? : Request → Option Expr
  | .dock _ target => target.modifier.map Prod.snd
  | _ => none

/-! ## Rules that are stored -/

namespace ConstraintStore

variable {s : ConstraintStore} {c : Constraint}

/-- The listing has the equalities and the bounds of both directions. -/
theorem mem_toList_iff : c ∈ s.toList ↔
    c ∈ s.equalities.values ∨ (c ∈ s.bounds ∧ (c.comparison = .less ∨ c.comparison = .greater)) := by
  simp only [toList, boundsWith, List.mem_append, List.mem_filter, beq_iff_eq, or_assoc,
    and_or_left]

/-- **A rule after an assignment** was there before, or is one of the batch. -/
theorem mem_assign {target : Attribute} {batch : List Constraint}
    (h : c ∈ (s.assign target batch).1.toList) : c ∈ s.toList ∨ c ∈ batch := by
  rw [mem_toList_iff] at h
  rw [mem_toList_iff]
  rcases h with hequality | ⟨hbound, hside⟩
  · exact (mem_values_of_assign hequality).imp_left Or.inl
  · exact (mem_bounds_of_assign hbound).imp_left fun hold => Or.inr ⟨hold, hside⟩

/-- Clearing an attribute adds no rule. -/
theorem mem_clear {attr : Attribute} (h : c ∈ (s.clear attr).toList) : c ∈ s.toList := by
  rw [mem_toList_iff] at h ⊢
  rcases h with hequality | ⟨hbound, hside⟩
  · obtain ⟨e, he, rfl⟩ := List.mem_map.1 hequality
    exact Or.inl (List.mem_map_of_mem (List.mem_filter.1 he).1)
  · exact Or.inr ⟨(List.mem_filter.1 hbound).1, hside⟩

end ConstraintStore

namespace Session

variable {s s' base : Session} {v u : ViewId} {good : Constraint → Prop} {c : Constraint}

/-- The rules of a view. -/
def rulesOf (s : Session) (v : ViewId) : List Constraint :=
  ((s.views.get? v).map fun view => view.constraints.toList).getD []

/-- A rule of an edited store comes from the store or is good. -/
theorem mem_rulesOf_edited {f : ConstraintStore → ConstraintStore}
    (edit : ∀ store : ConstraintStore, ∀ c ∈ (f store).toList, c ∈ store.toList ∨ good c)
    (hc : c ∈ ((s.modifyView v fun view => view.updateConstraints f).markDirty v).rulesOf u) :
    c ∈ s.rulesOf u ∨ good c := by
  change c ∈ (s.modifyView v fun view => view.updateConstraints f).rulesOf u at hc
  rw [rulesOf, get?_modifyView] at hc
  rw [rulesOf]
  split at hc
  · cases hu : s.views.get? u with
    | none =>
      rw [hu] at hc
      exact absurd hc List.not_mem_nil
    | some view =>
      rw [hu] at hc
      exact edit view.constraints c hc
  · exact Or.inl hc

/-- What a part leaves on the views: old rules, and those that it has brought. -/
theorem mem_rulesOf_storePart {part : Attribute × Option (List Constraint)}
    (stored : storePart v part s = .ok () s')
    (rules : ∀ batch, part.2 = some batch → ∀ c ∈ batch, good c) (hc : c ∈ s'.rulesOf u) :
    c ∈ s.rulesOf u ∨ good c := by
  obtain ⟨attr, prepared⟩ := part
  have hupdated {f : View → View}
      (h : (do update v f; modify fun s => s.markDirty v : Operation Unit) s = .ok () s') :
      s' = (s.modifyView v f).markDirty v := by
    obtain ⟨_, s₁, hupdate, hmark⟩ := bind_eq_ok h
    rw [update_apply] at hupdate
    split at hupdate
    · cases hupdate
      cases hmark
      rfl
    · cases hupdate
  cases prepared with
  | none =>
    rw [hupdated stored] at hc
    exact mem_rulesOf_edited (fun store c hc => Or.inl (ConstraintStore.mem_clear hc)) hc
  | some batch =>
    rw [hupdated stored] at hc
    exact mem_rulesOf_edited
      (fun store c hc => (ConstraintStore.mem_assign hc).imp_right (rules batch rfl c)) hc

/-! ## Parts that are stored -/

/-- **Some parts have been stored on a view**, and all of their rules are good. -/
def Stores (good : Constraint → Prop) (v : ViewId) (s s' : Session) : Prop :=
  ∃ parts : List (Attribute × Option (List Constraint)),
    (parts.forM (storePart v)) s = .ok () s' ∧
      ∀ p ∈ parts, ∀ batch, p.2 = some batch → ∀ c ∈ batch, good c

/-- **A rule of a view afterwards** is one that it had before, or one of those that have been
stored. -/
theorem Stores.mem_rulesOf (h : Stores good v s s') (hc : c ∈ s'.rulesOf u) :
    c ∈ s.rulesOf u ∨ good c := by
  obtain ⟨parts, hstored, hgood⟩ := h
  induction parts generalizing s with
  | nil =>
    cases hstored
    exact Or.inl hc
  | cons part rest ih =>
    obtain ⟨_, s₁, hfirst, hrest⟩ := bind_eq_ok hstored
    rcases ih hrest fun p hp => hgood p (List.mem_cons_of_mem _ hp) with hbefore | hgood'
    · exact mem_rulesOf_storePart hfirst (hgood part List.mem_cons_self) hbefore
    · exact Or.inr hgood'

/-- A part whose rules are good stores good rules. -/
theorem stores_of_storePart {part : Attribute × Option (List Constraint)}
    (stored : storePart v part s = .ok () s')
    (rules : ∀ batch, part.2 = some batch → ∀ c ∈ batch, good c) : Stores good v s s' := by
  refine ⟨[part], bind_of_ok stored _, fun p hp => ?_⟩
  rw [List.mem_singleton.1 hp]
  exact rules

/-! ## One request -/

/-- A rule is well formed, and names registered views only. -/
def WellFormed (s : Session) (c : Constraint) : Prop := c.WellFormed fun u => s.contains u = true

/-- What is well formed depends on who is registered, and on nothing else. -/
theorem wellFormed_congr (same : ∀ u, s'.contains u = s.contains u) :
    s'.WellFormed = s.WellFormed := by
  funext c
  rw [WellFormed, WellFormed]
  simp only [same]

section

variable (place : s.KnowsPlace v)
include place

/-- **An assignment that is accepted** stores rules of which everything has been checked but the
guards. -/
theorem stores_of_set {attr : Attribute} {input : ConstraintInput}
    (guards : ∀ g ∈ input.guards, g.WellFormed fun u => s.contains u = true)
    (accepted : set v attr input s = .ok () s') : Stores s.WellFormed v s s' := by
  obtain ⟨found, s₀, hview, hrest⟩ := bind_eq_ok accepted
  obtain ⟨rfl, -⟩ := view_eq_ok hview
  split at hrest
  · have hcleared : storePart v (attr, none) s₀ = .ok () s' := hrest
    exact stores_of_storePart hcleared (by simp)
  · obtain ⟨batch, hprepared, hstored⟩ := prepared_eq_ok hrest
    have hpart : storePart v (attr, some batch) s₀ = .ok () s' := hstored
    refine stores_of_storePart hpart fun prepared heq => ?_
    cases heq
    exact wellFormed_of_prepare? place guards hprepared

/-- What is prepared for a part of a composite is as well formed. -/
theorem wellFormed_of_preparePart? {part : Attribute × ConstraintInput}
    {prepared : Attribute × Option (List Constraint)} {batch : List Constraint}
    (guards : ∀ g ∈ part.2.guards, g.WellFormed fun u => s.contains u = true)
    (h : s.preparePart? v part = .ok prepared) (hbatch : prepared.2 = some batch) :
    ∀ c ∈ batch, s.WellFormed c := by
  unfold preparePart? at h
  split at h
  · cases h
    cases hbatch
  · obtain ⟨rules, hrules, hpair⟩ := except_bind_eq_ok.1 h
    cases hpair
    cases hbatch
    exact wellFormed_of_prepare? place guards hrules

/-- **A composite** stores its parts, all of them prepared before the first is stored. -/
theorem stores_of_setComposite {composite : Composite} {inputs : List ConstraintInput}
    (guards : ∀ g ∈ ConstraintInput.guardsOfAll inputs, g.WellFormed fun u => s.contains u = true)
    (accepted : setComposite v composite inputs s = .ok () s') : Stores s.WellFormed v s s' := by
  unfold setComposite at accepted
  split at accepted
  · obtain ⟨_, _, hthrow, -⟩ := bind_eq_ok accepted
    cases hthrow
  · obtain ⟨found, s₀, hview, hrest⟩ := bind_eq_ok accepted
    obtain ⟨rfl, -⟩ := view_eq_ok hview
    obtain ⟨prepared, hprepared, hstored⟩ := prepared_eq_ok hrest
    refine ⟨prepared, hstored, fun p hp batch hbatch => ?_⟩
    obtain ⟨part, hpart, hp⟩ := exists_of_mem_mapM hprepared hp
    have hinput : part.2 ∈ inputs := (List.of_mem_zip hpart).2
    refine wellFormed_of_preparePart? place (fun g hg => ?_) hp hbatch
    exact guards g (ConstraintInput.mem_guardsOfAll.2 ⟨part.2, hinput, hg⟩)

/-- A name is one of an attribute or one of a composite. -/
theorem stores_of_setNamed {name : String} {input : ConstraintInput}
    (guards : ∀ g ∈ input.guards, g.WellFormed fun u => s.contains u = true)
    (accepted : setNamed v name input s = .ok () s') : Stores s.WellFormed v s s' := by
  cases hname : Target.ofName? name with
  | none =>
    simp only [setNamed, hname] at accepted
    cases accepted
  | some target =>
    cases target with
    | single attr =>
      simp only [setNamed, hname] at accepted
      exact stores_of_set place guards accepted
    | composite composite =>
      simp only [setNamed, hname] at accepted
      split at accepted
      · exact stores_of_setComposite place guards accepted
      · cases accepted

/-- **A fit** has no anchors and no guards that could be wrong. -/
theorem stores_of_fit {f : Fit} (accepted : fit v f s = .ok () s') : Stores s.WellFormed v s s' := by
  obtain ⟨found, s₀, hview, hrest⟩ := bind_eq_ok accepted
  obtain ⟨rfl, -⟩ := view_eq_ok hview
  obtain ⟨prepared, hprepared, hstored⟩ := prepared_eq_ok hrest
  refine ⟨prepared.map fun p => (p.1, some p.2), ?_, fun p hp batch hbatch => ?_⟩
  · rw [forM_storePart_some]
    exact hstored
  · obtain ⟨q, hq, rfl⟩ := List.mem_map.1 hp
    cases hbatch
    obtain ⟨assignment, -, hassignment⟩ := exists_of_mem_mapM hprepared hq
    obtain ⟨rules, hrules, hpair⟩ := except_bind_eq_ok.1 hassignment
    cases hpair
    exact wellFormed_of_prepare? place (by simp [ConstraintInput.guards]) hrules

end

/-! ## Docks -/

/-- **Where a view is once it has moved** is registered. -/
theorem knowsPlace_of_setParent {parent : ViewId} (moved : setParent v (some parent) s = .ok () s') :
    s'.KnowsPlace v := by
  obtain ⟨found, target, -, -, -, hknown, rfl⟩ := setParent_some_eq_ok moved
  have htree := treeEq_settled ((s.detach v).attach v target parent) v found.hierarchy (some parent)
    (some target)
  intro p hp
  rw [htree.structuralParent?] at hp
  -- the only step up from the view is the one that the move has made
  rcases climb_attach.1 hp with ⟨-, rfl, -⟩ | ⟨hne, -⟩
  · rw [htree.contains, contains_attach, contains_detach]
    exact hknown
  · exact absurd rfl hne

/-- **Prepared rules**, stored through the container one after the other. -/
theorem stores_throughContainer (prepared : List (Attribute × List Constraint))
    (hv : s.contains v = true) (place : s.KnowsPlace v)
    (rules : ∀ p ∈ prepared, ∀ c ∈ p.2, s.WellFormed c)
    (stored : (prepared.forM fun p => do store v p.1 ((← get).throughContainer v p.2)) s =
      .ok () s') : Stores s.WellFormed v s s' := by
  induction prepared generalizing s with
  | nil =>
    cases stored
    exact ⟨[], rfl, by simp⟩
  | cons p rest ih =>
    obtain ⟨_, s₁, hfirst, hrest⟩ := bind_eq_ok stored
    have hstore : store v p.1 (s.throughContainer v p.2) s = .ok () s₁ := hfirst
    have htree : TreeEq s ((store v p.1 (s.throughContainer v p.2)).after s) :=
      steady_sameTree.store v p.1 _ s
    rw [after_of_ok hstore] at htree
    have hknown : s₁.WellFormed = s.WellFormed := wellFormed_congr htree.contains
    obtain ⟨parts, hparts, hgood⟩ := ih ((htree.contains v).trans hv)
      (fun q hq => (htree.contains q).trans (place q ((htree.structuralParent? v).symm.trans hq)))
      (fun q hq c hc => hknown ▸ rules q (List.mem_cons_of_mem _ hq) c hc) hrest
    refine ⟨(p.1, some (s.throughContainer v p.2)) :: parts, ?_, fun q hq batch hbatch => ?_⟩
    · exact (bind_of_ok hstore _).trans hparts
    · rcases List.mem_cons.1 hq with rfl | hq
      · cases hbatch
        exact fun c hc => place.throughContainer (rules p List.mem_cons_self) hc
      · exact fun c hc => hknown ▸ hgood q hq batch hbatch c hc

/-- **A dock** stores its rules at the new place.  Its own anchors are on the reference, which is
there; only those of the offset are not checked. -/
theorem stores_of_dock {target : DockTarget}
    (offset : ∀ op e, target.modifier = some (op, e) → s.KnowsAnchors e)
    (accepted : dock v target s = .ok () s') :
    ∃ parent moved, setParent v (some parent) s = .ok () moved ∧
      Stores s.WellFormed v moved s' := by
  obtain ⟨hv, hreference, parent, prepared, moved, -, hprepared, hmoved, hstored⟩ :=
    dock_eq_ok accepted
  have hbasis : SameBasis s ((setParent v (some parent)).after s) :=
    framing_keepsBasis.setParent v (some parent) s
  rw [after_of_ok hmoved] at hbasis
  have hknown : moved.WellFormed = s.WellFormed := wellFormed_congr hbasis.contains
  have hstores := stores_throughContainer prepared ((hbasis.contains v).trans hv)
    (knowsPlace_of_setParent hmoved) ?_ hstored
  · exact ⟨parent, moved, hmoved, hknown ▸ hstores⟩
  · intro p hp c hc
    obtain ⟨assignment, hassignment, hp⟩ := exists_of_mem_mapM hprepared hp
    obtain ⟨rules, hrules, hpair⟩ := except_bind_eq_ok.1 hp
    cases hpair
    have hanchors := knowsAnchors_of_mem_expand hreference offset hassignment
    rw [hknown]
    refine (ConstraintInput.stems_of_expand hrules hc).wellFormed ?_ ?_
    · simp [ConstraintInput.guards]
    · rw [ConstraintInput.eq_of_expand_value hrules] at hc
      rw [List.mem_singleton.1 hc]
      exact hanchors

/-! ## Every list of calls -/

/-- **What an accepted request stores**, as well formed as its guards and its offset, and as the place
of the view. -/
theorem stores_of_perform {depth : Nat} {request : Request} {answer : Answer}
    (constrains : request.constrains? = some v)
    (place : request.places = false → s.KnowsPlace v)
    (guards : ∀ g ∈ request.guards, g.WellFormed fun u => s.contains u = true)
    (offset : ∀ e ∈ request.offset?, s.KnowsAnchors e)
    (accepted : perform depth request s = .ok answer s') :
    ∃ base, ((request.places = false ∧ base = s) ∨
      (request.places = true ∧ ∃ parent, setParent v (some parent) s = .ok () base)) ∧
        Stores s.WellFormed v base s' := by
  have hdone {operation : Operation Unit}
      (h : (do operation; return .done : Operation Answer) s = .ok answer s') :
      operation s = .ok () s' := by
    obtain ⟨_, s₁, hran, hpure⟩ := bind_eq_ok h
    cases hpure
    exact hran
  -- none of these requests runs a handler, so the depth does not matter
  have hshallow : perform 0 request s = .ok answer s' := by
    rw [← accepted]
    cases depth with
    | zero => rfl
    | succ depth =>
      refine performWith_of_noStage ?_
      cases request <;> first | rfl | cases constrains
  cases request with
  | set w attr input =>
    cases constrains
    exact ⟨s, Or.inl ⟨rfl, rfl⟩, stores_of_set (place rfl) guards (hdone hshallow)⟩
  | setNamed w name input =>
    cases constrains
    exact ⟨s, Or.inl ⟨rfl, rfl⟩, stores_of_setNamed (place rfl) guards (hdone hshallow)⟩
  | setComposite w composite inputs =>
    cases constrains
    exact ⟨s, Or.inl ⟨rfl, rfl⟩, stores_of_setComposite (place rfl) guards (hdone hshallow)⟩
  | fit w f =>
    cases constrains
    exact ⟨s, Or.inl ⟨rfl, rfl⟩, stores_of_fit (place rfl) (hdone hshallow)⟩
  | dock w target =>
    cases constrains
    obtain ⟨parent, moved, hmoved, hstores⟩ := stores_of_dock
      (fun op e hmodifier => offset e (by simp [Request.offset?, hmodifier])) (hdone hshallow)
    exact ⟨moved, Or.inr ⟨rfl, parent, hmoved⟩, hstores⟩
  | dockNamed w reference keyword =>
    cases constrains
    have hnamed : dockNamed v reference keyword s = .ok () s' := hdone hshallow
    cases hd : Dock.ofKeyword? keyword with
    | none =>
      simp only [dockNamed, hd] at hnamed
      cases hnamed
    | some d =>
      simp only [dockNamed, hd] at hnamed
      obtain ⟨parent, moved, hmoved, hstores⟩ := stores_of_dock (by simp) hnamed
      exact ⟨moved, Or.inr ⟨rfl, parent, hmoved⟩, hstores⟩
  | _ => cases constrains

/-- **Accepted rules are well formed**, after every list of calls: what an accepted request has
stored has only finite numbers, calls with arguments and registered views in it, provided that this
is so for the guards in the request, that the modifier of a dock is on registered views, and that the
root, if that is what is constrained, has not lost the view that it is rendered under. -/
theorem accepted_rules_of_calls (options : Options) (issuer : Issuer) (calls : List Call)
    (few : 1 + (Session.new options issuer).creations
      ((Session.new options issuer).unfolded calls) < UInt32.size - 1)
    {depth : Nat} {request : Request} {v : ViewId} {answer : Answer} {s' : Session}
    (constrains : request.constrains? = some v)
    (guards : ∀ g ∈ request.guards,
      g.WellFormed fun u => ((Session.new options issuer).afterCalls calls).contains u = true)
    (offset : ∀ e ∈ request.offset?, ((Session.new options issuer).afterCalls calls).KnowsAnchors e)
    (rooted : v = ((Session.new options issuer).afterCalls calls).root → request.places = false →
      ((Session.new options issuer).afterCalls calls).KnowsPlace v)
    (accepted : perform depth request ((Session.new options issuer).afterCalls calls) =
      .ok answer s') :
    let s := (Session.new options issuer).afterCalls calls
    ∃ base, ((request.places = false ∧ base = s) ∨
        (request.places = true ∧ ∃ parent, setParent v (some parent) s = .ok () base)) ∧
      Stores s.WellFormed v base s' ∧ ∀ u, ∀ c ∈ s'.rulesOf u, c ∈ base.rulesOf u ∨ s.WellFormed c := by
  intro s
  have f : s.Forest := forest_of_calls options issuer few
  have place (still : request.places = false) : s.KnowsPlace v := by
    by_cases hroot : v = s.root
    · exact rooted hroot still
    · exact fun p hp => f.contains_parent hroot hp
  obtain ⟨base, hbase, hstores⟩ := stores_of_perform constrains place guards offset accepted
  exact ⟨base, hbase, hstores, fun u c hc => hstores.mem_rulesOf hc⟩

/-- A left edge at that of the root, as long as the root is upright. -/
def someGuarded : Request :=
  .set ⟨2⟩ .left (.guarded (.portrait (some ⟨1⟩)) (.anchor ⟨⟨1⟩, .left⟩))

/-- The guard names the root, which is there, so the rule that is stored is well formed. -/
theorem accepted_rules_of_someGuarded :
    let s := (Session.new .default "").afterCalls [.request 1 (.createChild ⟨1⟩)]
    ∃ answer s', perform 1 someGuarded s = .ok answer s' ∧ s'.rulesOf ⟨2⟩ ≠ [] ∧
      ∀ c ∈ s'.rulesOf ⟨2⟩, s.WellFormed c := by
  intro s
  have hok : ((perform 1 someGuarded).answer s).isOk = true := by decide +kernel
  have hstored : (((perform 1 someGuarded).after s).rulesOf ⟨2⟩).isEmpty = false := by
    decide +kernel
  have hnone : (s.rulesOf ⟨2⟩).isEmpty = true := by decide +kernel
  obtain ⟨answer, s', hset⟩ := Operation.exists_ok_of_isOk hok
  obtain ⟨base, hbase, -, hrules⟩ := accepted_rules_of_calls .default ""
    [.request 1 (.createChild ⟨1⟩)] (by decide +kernel) (v := ⟨2⟩) rfl
    (fun g hg => by
      rw [List.mem_singleton.1 hg]
      exact .portrait fun u hu => by cases hu; decide +kernel)
    (by nofun) (fun hroot => absurd hroot (by decide +kernel)) hset
  -- the request does not place the view, so its rules are checked in the session that it finds
  rcases hbase with ⟨-, rfl⟩ | ⟨hplaces, -⟩
  · rw [after_of_ok hset] at hstored
    refine ⟨answer, s', hset, List.isEmpty_eq_false_iff.1 hstored, fun c hc => ?_⟩
    rcases hrules ⟨2⟩ c hc with hold | hgood
    · rw [List.isEmpty_iff.1 hnone] at hold
      exact absurd hold List.not_mem_nil
    · exact hgood
  · cases hplaces

/-- **A guard is not checked**: it may name a view that there is not. -/
theorem accepted_guard_on_no_view :
    let s := (Session.new .default "").afterCalls [.request 1 (.createChild ⟨1⟩)]
    ¬ ∀ input answer s', perform 1 (.set ⟨2⟩ .left input) s = .ok answer s' →
      ∀ c ∈ s'.rulesOf ⟨2⟩, s.WellFormed c := by
  intro s hall
  let request : Request :=
    .set ⟨2⟩ .left (.guarded (.portrait (some ⟨99⟩)) (.num (.ofNat 0)))
  have hok : ((perform 1 request).answer s).isOk = true := by decide +kernel
  have hstored : (((perform 1 request).after s).rulesOf ⟨2⟩).any (fun c =>
      c.condition.any fun g => g.same (.portrait (some ⟨99⟩))) = true := by decide +kernel
  have hnone : s.contains ⟨99⟩ = false := by decide +kernel
  obtain ⟨answer, s', hset⟩ := Operation.exists_ok_of_isOk hok
  rw [after_of_ok hset] at hstored
  obtain ⟨c, hc, hguard⟩ := List.any_eq_true.1 hstored
  obtain ⟨g, hg, hsame⟩ := (Option.any_eq_true _ _).1 hguard
  have hwell := (hall _ answer s' hset c hc).guard g hg
  cases hwell with
  | portrait ofKnown =>
    have hknown := ofKnown ⟨99⟩ (by simpa [Condition.same] using hsame)
    rw [hnone] at hknown
    cases hknown
  | _ => simp [Condition.same] at hsame

end Session

end AnchorLayout
