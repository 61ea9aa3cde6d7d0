import AnchorLayout.Proofs.Hierarchy.Reachable
/-!
# Update roots

  1. **Program** — `Session.takeRoots`, the dirty views without a dirty view above them, and
     `renderUpdates`, which sends their subtrees.
  2. **Specification** — the roots are pending views (`Pending`): registered, distinct, and none
     below another; every registered dirty view is below exactly one of them.
  3. **Covering (`exists_topmost`)** — going from a view to a dirty one above it shortens the line
     above, so this ends at a dirty view with none above it.
  4. **The crux (`Forest.nodup_ids_renderUpdates`)** — what is sent is the walk over the roots, and
     a walk over pending views lists nothing twice.
-/

namespace AnchorLayout

open Operation

namespace Session

variable {s : Session} {u v a r : ViewId}

/-! ## Covered views -/

/-- Without cycles nothing is properly below itself. -/
theorem Under.ne (acyclic : s.Acyclic) (h : s.Under v a) : v ≠ a := by
  rintro rfl
  exact acyclic v h

/-- The line of a view without the view is what it is properly below. -/
theorem mem_tail_lineage_iff (acyclic : s.Acyclic) : a ∈ (s.lineage v).tail ↔ s.Under v a := by
  have hnodup := nodup_lineageFrom acyclic (s.views.size + 1) v
  have hmem := mem_lineage_iff (a := a) (v := v) acyclic
  unfold lineage at hmem ⊢
  rw [lineageFrom] at hnodup hmem ⊢
  rw [List.tail_cons]
  rw [List.mem_cons] at hmem
  constructor
  · intro h
    rcases (hmem.1 (Or.inr h)).eq_or_under with rfl | hunder
    · exact absurd h (List.nodup_cons.1 hnodup).1
    · exact hunder
  · intro h
    rcases hmem.2 h.below with rfl | htail
    · exact absurd rfl (h.ne acyclic)
    · exact htail

/-- A view is covered when a view properly above it is dirty. -/
theorem isCovered_iff (acyclic : s.Acyclic) :
    s.isCovered v = true ↔ ∃ a, s.Under v a ∧ a ∈ s.dirty.toList := by
  rw [isCovered_eq_any, List.any_eq_true]
  simp only [mem_tail_lineage_iff acyclic, ViewSet.contains_iff]

/-- **The roots**: dirty, registered and with nothing dirty properly above them. -/
theorem mem_topmostDirty_iff (acyclic : s.Acyclic) : r ∈ s.topmostDirty ↔
    r ∈ s.dirty.toList ∧ s.contains r = true ∧ ∀ a, s.Under r a → a ∉ s.dirty.toList := by
  rw [topmostDirty, List.mem_filter, Bool.and_eq_true, Bool.not_eq_true', ← Bool.not_eq_true,
    isCovered_iff acyclic]
  simp only [not_exists, not_and]

/-- Upwards the lines get shorter. -/
theorem length_lineage_lt (acyclic : s.Acyclic) (h : s.Under v a) :
    (s.lineage a).length < (s.lineage v).length := by
  have hnodup : (v :: s.lineage a).Nodup := by
    refine List.nodup_cons.2 ⟨?_, nodup_lineageFrom acyclic _ a⟩
    intro hv
    exact acyclic v (Relation.TransGen.trans_left h ((mem_lineage_iff acyclic).1 hv))
  have hsub : v :: s.lineage a ⊆ s.lineage v := by
    intro b hb
    rw [mem_lineage_iff acyclic]
    rcases List.mem_cons.1 hb with rfl | hb
    · exact below_refl s b
    · exact h.below.trans ((mem_lineage_iff acyclic).1 hb)
  have hle := (hnodup.subperm hsub).length_le
  rw [List.length_cons] at hle
  omega

/-- **Covering**: a dirty view is below a root. -/
theorem Forest.exists_topmost (f : s.Forest) (unparented : s.structuralParent? s.root = none)
    (hc : s.contains v = true) (hd : v ∈ s.dirty.toList) : ∃ r ∈ s.topmostDirty, s.Below v r := by
  induction hn : (s.lineage v).length using Nat.strongRecOn generalizing v with
  | ind n ih =>
    by_cases hcovered : ∃ a, s.Under v a ∧ a ∈ s.dirty.toList
    -- what is above the dirty view above has a shorter line
    · obtain ⟨a, hva, had⟩ := hcovered
      have hshorter := length_lineage_lt f.acyclic hva
      have hac := f.contains_of_below unparented hc hva.below
      obtain ⟨r, hr, har⟩ := ih _ (hn ▸ hshorter) hac had rfl
      exact ⟨r, hr, hva.below.trans har⟩
    · refine ⟨v, (mem_topmostDirty_iff f.acyclic).2 ⟨hd, hc, ?_⟩, below_refl s v⟩
      intro a hva had
      exact hcovered ⟨a, hva, had⟩

/-- **The roots are pending views.** -/
theorem Forest.pending_topmostDirty (f : s.Forest) : s.Pending s.topmostDirty where
  nodup := by
    have hsorted := s.dirty.ascending
    refine (List.Pairwise.imp ?_ hsorted).filter _
    rintro a b hab rfl
    exact ViewId.lt_irrefl a hab
  registered := fun r hr => ((mem_topmostDirty_iff f.acyclic).1 hr).2.1
  apart := by
    intro r hr q hq hrq
    rcases hrq.eq_or_under with rfl | hunder
    · rfl
    · exact absurd ((mem_topmostDirty_iff f.acyclic).1 hq).1
        (((mem_topmostDirty_iff f.acyclic).1 hr).2.2 q hunder)

/-- Of the roots only one is above a view. -/
theorem Pending.unique {pending : List ViewId} (h : s.Pending pending) {p q : ViewId}
    (hp : p ∈ pending) (hq : q ∈ pending) (hvp : s.Below v p) (hvq : s.Below v q) : p = q := by
  rcases below_total hvp hvq with hpq | hqp
  · exact h.apart p hp q hq hpq
  · exact (h.apart q hq p hp hqp).symm

/-! ## The patch -/

/-- A session in which nothing is dirty. -/
def clean (s : Session) : Session := { s with dirty := ∅ }

/-- Taking the roots leaves everything but the marks. -/
theorem takeRoots_apply (s : Session) : takeRoots s = .ok s.topmostDirty s.clean := rfl

theorem treeEq_clean (s : Session) : TreeEq s s.clean := TreeEq.of_views rfl rfl rfl

/-- Pending views are a matter of the tree. -/
theorem TreeEq.pending {s' : Session} (h : TreeEq s s') {pending : List ViewId}
    (hp : s.Pending pending) : s'.Pending pending where
  nodup := hp.nodup
  registered := fun p hmem => (h.contains p).trans (hp.registered p hmem)
  apart := fun p hmem q hq hbelow => hp.apart p hmem q hq (h.below_iff.1 hbelow)

/-- The flag that the roots of a patch get changes no identifier. -/
theorem idsOfAll_markOutOfBand (rendered : List RenderedView) :
    RenderedView.idsOfAll (rendered.map RenderedView.markOutOfBand) =
      RenderedView.idsOfAll rendered := by
  induction rendered with
  | nil => rfl
  | cons r rest ih =>
    cases r
    rw [List.map_cons, RenderedView.idsOfAll, RenderedView.idsOfAll, ih]
    rfl

/-- **A patch**, given that its roots can be rendered.  The fact below is for when they cannot, and
the next two say the same of the page. -/
theorem renderUpdates_of_ok {rendered : List RenderedView}
    (h : s.topmostDirty.mapM s.clean.renderView? = .ok rendered) :
    renderUpdates s = .ok ⟨rendered.map RenderedView.markOutOfBand, none⟩
      (s.clean.settleAll (RenderedView.idsOfAll rendered)) :=
  (Operation.bind_of_ok (takeRoots_apply s) _).trans
    (Operation.bind_of_ok (Operation.ofExcept_of_ok h s.clean) _)

theorem renderUpdates_of_error {e : Error}
    (h : s.topmostDirty.mapM s.clean.renderView? = .error e) :
    renderUpdates s = .error e s.clean :=
  (Operation.bind_of_ok (takeRoots_apply s) _).trans
    (Operation.bind_of_error (Operation.ofExcept_of_error h s.clean) _)

theorem renderPage_of_ok {page : RenderedView} (h : s.clean.renderView? s.root = .ok page) :
    renderPage s = .ok page (s.clean.settleAll page.ids) :=
  (Operation.bind_of_ok (takeRoots_apply s) _).trans
    (Operation.bind_of_ok (Operation.ofExcept_of_ok h s.clean) _)

theorem renderPage_of_error {e : Error} (h : s.clean.renderView? s.root = .error e) :
    renderPage s = .error e s.clean :=
  (Operation.bind_of_ok (takeRoots_apply s) _).trans
    (Operation.bind_of_error (Operation.ofExcept_of_error h s.clean) _)

/-- **The patch is always there**: the roots are registered, so they can be rendered. -/
theorem Forest.renderUpdates_apply (f : s.Forest) : ∃ rendered,
    s.topmostDirty.mapM s.clean.renderView? = .ok rendered ∧
      renderUpdates s = .ok ⟨rendered.map RenderedView.markOutOfBand, none⟩
        (s.clean.settleAll (RenderedView.idsOfAll rendered)) := by
  have fclean : s.clean.Forest := (treeEq_clean s).forest f
  have hpending := (treeEq_clean s).pending f.pending_topmostDirty
  obtain ⟨rendered, hrendered⟩ := exists_mapM_eq_ok fun r hr =>
    (fclean.renderView?_ok (hpending.registered r hr)).imp fun _ h => h.1
  exact ⟨rendered, hrendered, renderUpdates_of_ok hrendered⟩

/-- What is rendered of pending views is the walk over them. -/
theorem Forest.idsOfAll_eq_walk (f : s.Forest) {pending : List ViewId} (h : s.Pending pending)
    {rendered : List RenderedView} (hr : pending.mapM s.renderView? = .ok rendered) :
    RenderedView.idsOfAll rendered = s.preorder s.views.size pending := by
  have hwalk := preorder_of_rendered s.views.size [] hr
  rw [List.append_nil, Nat.add_comm, (f.walk_settled h).1, preorder_nil, List.append_nil] at hwalk
  exact hwalk.symm

/-- **No view is sent twice** in one patch. -/
theorem Forest.nodup_ids_renderUpdates (f : s.Forest) {p : Patch} {s' : Session}
    (h : renderUpdates s = .ok p s') : (RenderedView.idsOfAll p.roots).Nodup := by
  obtain ⟨rendered, hrendered, happly⟩ := f.renderUpdates_apply
  rw [happly] at h
  cases h
  have fclean : s.clean.Forest := (treeEq_clean s).forest f
  have hpending := (treeEq_clean s).pending f.pending_topmostDirty
  rw [idsOfAll_markOutOfBand, fclean.idsOfAll_eq_walk hpending hrendered]
  exact nodup_preorder fclean hpending

/-! ## Every list of calls -/

/-- **Update roots are disjoint, minimal and covering**, whatever has been marked, in every session
whose root is under nothing and whose identifiers have lasted. -/
theorem update_roots_of_calls (options : Options) (issuer : Issuer) (calls : List Call)
    (few : 1 + (Session.new options issuer).creations
      ((Session.new options issuer).unfolded calls) < UInt32.size - 1)
    (unparented : ((Session.new options issuer).afterCalls calls).structuralParent?
      ((Session.new options issuer).afterCalls calls).root = none) (marked : ViewSet) :
    let s : Session := { (Session.new options issuer).afterCalls calls with dirty := marked }
    ∃ roots s', takeRoots s = .ok roots s' ∧ s'.dirty.toList = [] ∧
      roots.Pairwise (· < ·) ∧
      (∀ r ∈ roots, s.contains r = true ∧ r ∈ marked.toList ∧
        ∀ a, s.Under r a → a ∉ marked.toList) ∧
      (∀ r ∈ roots, ∀ q ∈ roots, ¬ s.Under r q) ∧
      (∀ v ∈ marked.toList, s.contains v = true → ∃! r, r ∈ roots ∧ s.Below v r) ∧
      ∃ p s'', renderUpdates s = .ok p s'' ∧ (RenderedView.idsOfAll p.roots).Nodup := by
  intro s
  have f : s.Forest := by
    have hsame : TreeEq ((Session.new options issuer).afterCalls calls) s :=
      TreeEq.of_views rfl rfl rfl
    exact hsame.forest (forest_of_calls options issuer few)
  have hunparented : s.structuralParent? s.root = none := unparented
  have hmem {r : ViewId} := mem_topmostDirty_iff (r := r) f.acyclic
  refine ⟨s.topmostDirty, s.clean, takeRoots_apply s, rfl, ?_, ?_, ?_, ?_, ?_⟩
  · exact marked.ascending.filter _
  · intro r hr
    obtain ⟨hd, hc, habove⟩ := hmem.1 hr
    exact ⟨hc, hd, habove⟩
  · intro r hr q hq hunder
    exact (hmem.1 hr).2.2 q hunder (hmem.1 hq).1
  · intro v hv hc
    obtain ⟨r, hr, hvr⟩ := f.exists_topmost hunparented hc hv
    refine ⟨r, ⟨hr, hvr⟩, ?_⟩
    rintro q ⟨hq, hvq⟩
    exact f.pending_topmostDirty.unique hq hr hvq hvr
  · obtain ⟨rendered, -, happly⟩ := f.renderUpdates_apply
    exact ⟨_, _, happly, f.nodup_ids_renderUpdates happly⟩

/-- Two views under the root, and one under the first of them. -/
def someViews : List Call :=
  [.request 1 (.createChild ⟨1⟩), .request 1 (.createChild ⟨2⟩), .request 1 (.createChild ⟨1⟩)]

/-- Both views under the root, the one further down and one that is not there. -/
def someMarks : ViewSet := (((ViewSet.empty.insert ⟨9⟩).insert ⟨4⟩).insert ⟨3⟩).insert ⟨2⟩

/-- Of the four marks two are roots: one is covered, and one is of no view. -/
theorem update_roots_of_someViews :
    1 + (Session.new .default "").creations ((Session.new .default "").unfolded someViews) <
        UInt32.size - 1 ∧
      ((Session.new .default "").afterCalls someViews).structuralParent?
        ((Session.new .default "").afterCalls someViews).root = none ∧
      ∃ roots s', takeRoots { (Session.new .default "").afterCalls someViews with
        dirty := someMarks } = .ok roots s' ∧ roots.Pairwise (· < ·) := by
  have few : 1 + (Session.new .default "").creations
      ((Session.new .default "").unfolded someViews) < UInt32.size - 1 := by decide +kernel
  have unparented : ((Session.new .default "").afterCalls someViews).structuralParent?
      ((Session.new .default "").afterCalls someViews).root = none := by decide +kernel
  obtain ⟨roots, s', htake, -, hascending, -⟩ :=
    update_roots_of_calls .default "" someViews few unparented someMarks
  exact ⟨few, unparented, roots, s', htake, hascending⟩

example : { (Session.new .default "").afterCalls someViews with
    dirty := someMarks }.topmostDirty = [⟨2⟩, ⟨4⟩] := by decide +kernel

end Session

end AnchorLayout
