import AnchorLayout.Proofs.Hierarchy.Reachable
/-!
# Marks

  A view is stale when it is not what was last sent of it.  What keeps track of this is the set of
  dirty views: a view that is below a dirty one will be sent with it.

  1. **Specification** — `Marks s s'`: a view below the root that is not below a dirty view was
     below the root before, was not below a dirty view before, and shows what it showed before.
  2. **Steps** — `Marks.of_shorter` for the steps that only take links away, `marks_attach` for the
     one that puts a link in.
  3. **The crux (`Below.of_shorter`)** — lines are unique, so a line to the root that is still there
     passes every view that it passed before; a dirty view on it is on it still.
-/

namespace AnchorLayout

open Operation

/-- What is sent of a view, the continuation that waits for it left out. -/
structure Shown where
  tag : String
  children : List ViewId
  constraints : ConstraintStore
  style : StyleSheet
  bindings : Bindings Handler

/-- What is sent of a view. -/
def View.shown (view : View) : Shown :=
  ⟨view.tag, view.hierarchy.children, view.constraints, view.style, view.bindings⟩

namespace Session

variable {s s' : Session} {u v a p child target : ViewId}

/-- What is sent of a view. -/
def shown? (s : Session) (v : ViewId) : Option Shown := (s.views.get? v).map View.shown

/-- **Covered**: on the way to the root there is a dirty view, the view itself maybe. -/
def Covered (s : Session) (v : ViewId) : Prop :=
  ∃ a ∈ s.dirty.toList, s.Below v a ∧ s.Below a s.root

/-- **Marked**: what is below the root and not covered has been so, and shows what it showed. -/
structure Marks (s s' : Session) : Prop where
  root : s'.root = s.root
  options : s'.options = s.options
  uncovered : ∀ v, s'.Below v s'.root → ¬ s'.Covered v →
    s.Below v s.root ∧ ¬ s.Covered v ∧ s'.shown? v = s.shown? v

theorem Marks.refl (s : Session) : Marks s s := ⟨rfl, rfl, fun _ hv hc => ⟨hv, hc, rfl⟩⟩

/-- Marks are never taken back but by sending, so what was covered is covered. -/
theorem Marks.trans {s₁ s₂ s₃ : Session} (h : Marks s₁ s₂) (h' : Marks s₂ s₃) : Marks s₁ s₃ := by
  refine ⟨h'.root.trans h.root, h'.options.trans h.options, ?_⟩
  intro v hv hc
  obtain ⟨hv₂, hc₂, hshown₂⟩ := h'.uncovered v hv hc
  obtain ⟨hv₁, hc₁, hshown₁⟩ := h.uncovered v hv₂ hc₂
  exact ⟨hv₁, hc₁, hshown₂.trans hshown₁⟩

/-! ## Steps that take links away -/

/-- **A line that is left passes what it passed before.** -/
theorem Below.of_shorter (acyclic : s.Acyclic) (shorter : ∀ u p, s'.Climb u p → s.Climb u p)
    (h : s'.Below v p) (hva : s.Below v a) (hap : s.Below a p) : s'.Below v a ∧ s'.Below a p := by
  induction h using Relation.ReflTransGen.head_induction_on with
  | refl =>
    rw [hap.antisymm acyclic hva]
    exact ⟨below_refl s' _, below_refl s' _⟩
  | head hstep hrest ih =>
    rcases below_iff_eq_or_climb.1 hva with rfl | ⟨q, hq, hqa⟩
    · exact ⟨below_refl s' _, Relation.ReflTransGen.head hstep hrest⟩
    -- both lines take the same first step, because it is the only one
    · cases climb_unique (shorter _ _ hstep) hq
      obtain ⟨hwa, hap'⟩ := ih hqa
      exact ⟨Relation.ReflTransGen.head hstep hwa, hap'⟩

/-- A step that puts no link in, keeps the marks of what is left below the root, and marks what
shows something else. -/
theorem Marks.of_shorter (acyclic : s.Acyclic) (root : s'.root = s.root)
    (options : s'.options = s.options) (shorter : ∀ u p, s'.Climb u p → s.Climb u p)
    (kept : ∀ a ∈ s.dirty.toList, s.Below a s.root → a ∈ s'.dirty.toList)
    (shown : ∀ v, s'.Below v s'.root → v ∉ s'.dirty.toList → s'.shown? v = s.shown? v) :
    Marks s s' := by
  refine ⟨root, options, ?_⟩
  intro v hv hc
  refine ⟨?_, ?_, shown v hv ?_⟩
  · rw [← root]
    exact Relation.ReflTransGen.mono shorter _ _ hv
  · rintro ⟨a, ha, hva, har⟩
    rw [← root] at har
    obtain ⟨hva', har'⟩ := Below.of_shorter acyclic shorter hv hva har
    rw [root] at har
    exact hc ⟨a, kept a ha har, hva', har'⟩
  · intro hdirty
    exact hc ⟨v, hdirty, below_refl s' v, hv⟩

/-- A step that leaves the tree as it is. -/
theorem Marks.of_treeEq (acyclic : s.Acyclic) (tree : TreeEq s s') (options : s'.options = s.options)
    (kept : ∀ a ∈ s.dirty.toList, a ∈ s'.dirty.toList)
    (shown : ∀ v, v ∉ s'.dirty.toList → s'.shown? v = s.shown? v) : Marks s s' :=
  Marks.of_shorter acyclic tree.root options (fun _ _ => tree.climb_iff.1) (fun a ha _ => kept a ha)
    fun v _ => shown v

/-- What leaves the views alone has nothing to mark. -/
theorem marks_background (acyclic : s.Acyclic) (h : SameViews s s') : Marks s s' := by
  refine Marks.of_treeEq acyclic (TreeEq.of_views h.views h.root h.nextId) h.options ?_ ?_
  · intro a ha
    rw [h.dirty]
    exact ha
  · intro v _
    rw [shown?, shown?, h.views]

/-- The new mark, and those that were there. -/
theorem mem_dirty_markDirty : u ∈ (s.markDirty v).dirty.toList ↔ u = v ∨ u ∈ s.dirty.toList :=
  ViewSet.mem_insert

/-- One more mark is never wrong. -/
theorem marks_markDirty (acyclic : s.Acyclic) (v : ViewId) : Marks s (s.markDirty v) :=
  Marks.of_treeEq acyclic (treeEq_markDirty s v) rfl (fun _ ha => mem_dirty_markDirty.2 (Or.inr ha))
    fun _ _ => rfl

/-- A change of one view that does not show is not seen in what is sent. -/
theorem shown?_modifyView (s : Session) (v u : ViewId) {f : View → View}
    (h : v = u → ∀ view, (f view).shown = view.shown) :
    (s.modifyView v f).shown? u = s.shown? u := by
  rw [shown?, get?_modifyView]
  split
  · next hu =>
    rw [Option.map_map, shown?]
    exact congrArg (Option.map · _) (funext (h hu))
  · rfl

/-- An edit is covered by its mark. -/
theorem marks_edit (acyclic : s.Acyclic) (v : ViewId) {f : View → View}
    (h : ∀ view, (f view).hierarchy = view.hierarchy) :
    Marks s ((s.modifyView v f).markDirty v) := by
  refine Marks.of_treeEq acyclic (treeEq_edit s v h) rfl ?_ ?_
  · intro a ha
    exact mem_dirty_markDirty.2 (Or.inr ha)
  · intro u hu
    refine shown?_modifyView s v u ?_
    rintro rfl
    exact absurd (mem_dirty_markDirty.2 (Or.inl rfl)) hu

/-- A change of place that leaves the links alone, as that of a container does, shows in nothing
that is sent. -/
theorem marks_reshape (acyclic : s.Acyclic) (v : ViewId) {f : Hierarchy → Hierarchy}
    (h : ∀ place, (f place).links = place.links) :
    Marks s (s.modifyView v fun view => view.updateHierarchy f) := by
  refine Marks.of_treeEq acyclic (treeEq_modifyView s v fun view _ => h view.hierarchy) rfl
    (fun _ ha => ha) fun u _ => shown?_modifyView s v u ?_
  intro _ view
  have hchildren : (f view.hierarchy).children = view.hierarchy.children :=
    congrArg (fun links => links.2.2) (h view.hierarchy)
  show Shown.mk _ (f view.hierarchy).children _ _ _ = _
  rw [hchildren]
  rfl

/-! ## Moves -/

/-- Anchors that are renamed show, and their view is marked. -/
theorem marks_rebaseBetween (acyclic : s.Acyclic) (v : ViewId) (source target : Option ViewId) :
    Marks s (s.rebaseBetween v source target) := by
  unfold rebaseBetween
  split
  · split
    · unfold rebaseAnchors
      split
      · exact Marks.refl s
      · split
        · exact marks_edit acyclic v fun _ => rfl
        · exact Marks.refl s
    · exact Marks.refl s
  · exact Marks.refl s

/-- So what follows a move marks what it has to. -/
theorem Forest.marks_settled (f : s.Forest) (child : ViewId) (before : Hierarchy)
    (parent structural : Option ViewId) : Marks s (s.settled child before parent structural) := by
  have hfirst := treeEq_rebaseBetween s child before.structuralParent before.parent
  exact (marks_rebaseBetween f.acyclic _ _ _).trans
    (marks_rebaseBetween (hfirst.forest f).acyclic _ _ _)

/-- Taking a view out marks what it was under; nothing else shows it. -/
theorem marks_detach (acyclic : s.Acyclic) (child : ViewId) : Marks s (s.detach child) := by
  cases h : s.structuralParent? child with
  | none =>
    rw [detach_of_none h]
    exact Marks.refl s
  | some old =>
    have hmark : ∀ u, u ∈ (s.detach child).dirty.toList ↔ u = old ∨ u ∈ s.dirty.toList := by
      intro u
      rw [detach_of_climb h]
      exact mem_dirty_markDirty
    refine Marks.of_shorter acyclic (root_detach s child) ?_ (fun _ _ hup => (climb_detach.1 hup).2)
      (fun a ha _ => (hmark a).2 (Or.inr ha)) ?_
    · rw [detach_of_climb h]
      rfl
    · intro v _ hv
      rw [detach_of_climb h]
      refine Eq.trans (shown?_modifyView _ child v ?_) (shown?_modifyView s old v ?_)
      · exact fun _ _ => rfl
      rintro rfl
      exact absurd ((hmark old).2 (Or.inl rfl)) hv

/-- A view that hangs nowhere and is said to hang nowhere shows what it showed. -/
theorem marks_unlink (acyclic : s.Acyclic) (child : ViewId) : Marks s (s.unlink child) := by
  refine Marks.of_shorter acyclic rfl rfl ?_ (fun _ ha _ => ha) fun v _ _ =>
    shown?_modifyView s child v fun _ _ => rfl
  intro u p hup
  rw [climb_iff_place, unlink, place?_modifyView] at hup
  obtain ⟨place, hplace, hp⟩ := hup
  split at hplace
  · obtain ⟨before, -, rfl⟩ := Option.map_eq_some_iff.1 hplace
    cases hp
  · exact climb_iff_place.2 ⟨place, hplace, hp⟩

/-- **Putting a view in place** marks what it is put under, and that covers all that comes with
it. -/
theorem marks_attach (unlinked : s.structuralParent? child = none)
    (hc : s.contains child = true) (parent : ViewId) : Marks s (s.attach child target parent) := by
  have hlonger {u p : ViewId} (h : s.Climb u p) : (s.attach child target parent).Climb u p := by
    refine climb_attach.2 (Or.inr ⟨?_, h⟩)
    rintro rfl
    exact not_climb_of_none unlinked h
  have hbelow {u p : ViewId} (h : s.Below u p) : (s.attach child target parent).Below u p :=
    Relation.ReflTransGen.mono (fun _ _ => hlonger) _ _ h
  have hmark {u : ViewId} : u ∈ (s.attach child target parent).dirty.toList ↔
      u = target ∨ u ∈ s.dirty.toList := mem_dirty_markDirty
  refine ⟨rfl, rfl, ?_⟩
  intro v hv hcovered
  have hold : s.Below v s.root := by
    rcases below_attach hv with hold | ⟨hvc, htr⟩
    · exact hold
    -- what came with the child is covered by the mark of the target
    · refine absurd ⟨target, hmark.2 (Or.inl rfl), ?_, hbelow htr⟩ hcovered
      exact (hbelow hvc).trans (climb_attach.2 (Or.inl ⟨rfl, rfl, hc⟩)).below
  refine ⟨hold, ?_, ?_⟩
  · rintro ⟨a, ha, hva, har⟩
    exact hcovered ⟨a, hmark.2 (Or.inr ha), hbelow hva, hbelow har⟩
  · refine Eq.trans (shown?_modifyView _ child v ?_) (shown?_modifyView s target v ?_)
    · exact fun _ _ => rfl
    rintro rfl
    exact absurd ⟨target, hmark.2 (Or.inl rfl), below_refl _ target, hv⟩ hcovered

/-- **A move marks what it has to**, however it ends. -/
theorem Forest.marks_setParent (f : s.Forest) (child : ViewId) (parent : Option ViewId) :
    Marks s ((Session.setParent child parent).after s) := by
  have hdetach := marks_detach f.acyclic child
  have fdetach := f.detach child
  have hunder := structuralParent?_detach_self s child
  rcases setParent_cases s child parent with
    h | ⟨-, h⟩ | ⟨before, -, h⟩ | ⟨before, p, t, hc, ht, apart, h⟩
  · rw [h]
    exact Marks.refl s
  · rw [h]
    exact hdetach
  · rw [h]
    have funlink := (fdetach.treeEq_unlink hunder).forest fdetach
    exact hdetach.trans ((marks_unlink fdetach.acyclic child).trans (funlink.marks_settled _ _ _ _))
  · rw [h]
    have hattach : Marks (s.detach child) ((s.detach child).attach child t p) := by
      refine marks_attach hunder ?_ p
      rw [contains_detach]
      exact hc
    exact hdetach.trans (hattach.trans ((f.moved hc ht apart p).marks_settled _ _ _ _))

/-! ## Registering and sweeping -/

/-- A new view is not below the root, so the client need not know of it. -/
theorem Forest.marks_register (f : s.Forest) (tag : String) : Marks s (s.register tag) := by
  refine Marks.of_shorter f.acyclic rfl rfl (fun _ _ => (f.climb_register tag).1)
    (fun _ ha _ => ha) ?_
  intro v hv _
  -- nothing is below the root that has just been registered
  have hne : s.nextId ≠ v := by
    rintro rfl
    have hfresh : ¬ s.contains s.nextId = true := by
      rw [contains_eq, f.place?_nextId]
      simp
    rcases below_iff_eq_or_climb.1 hv with heq | ⟨p, hp, -⟩
    · exact hfresh (heq ▸ f.contains_root)
    · exact hfresh (contains_of_climb ((f.climb_register tag).1 hp))
  show ((s.views.insert s.nextId (ViewOf.new tag)).get? v).map _ = _
  rw [OrderedMap.get?_insert_of_ne _ _ hne]
  rfl

/-- What is below the root is left as it was, and nothing is asked of the rest. -/
theorem Forest.marks_swept (f : s.Forest) : Marks s s.swept := by
  refine Marks.of_shorter f.acyclic (root_forgetAll s _) (options_forgetAll s _)
    (fun _ _ hup => (f.climb_swept.1 hup).2) (fun a ha har => (f.mem_dirty_swept har).2 ha) ?_
  intro v hv _
  rw [Session.swept, root_forgetAll] at hv
  have hold : s.Below v s.root :=
    Relation.ReflTransGen.mono (fun _ _ hup => (f.climb_swept.1 hup).2) _ _ hv
  rw [shown?, f.get?_swept hold]
  rfl

/-! ## Ordinary changes -/

/-- The forest is kept, and what has changed is marked. -/
structure Tracked (s s' : Session) : Prop where
  kept : Kept s s'
  marks : s.Forest → Marks s s'

/-- The changes that are tracked by marks. -/
def tracks : Change where
  Allows := Tracked
  refl := fun s => ⟨keepsForest.refl s, fun _ => Marks.refl s⟩
  trans := fun h h' =>
    ⟨keepsForest.trans h.kept h'.kept, fun f => (h.marks f).trans (h'.marks (h.kept.forest f))⟩

/-- **Each ordinary step marks what it has to**, where the tree is a forest. -/
theorem ordinary_tracks : tracks.Ordinary where
  background := fun h =>
    ⟨ordinary_keepsForest.background h, fun f => marks_background f.acyclic h.toSameViews⟩
  suspended := fun c s => ⟨ordinary_keepsForest.suspended c s,
    fun f => marks_background f.acyclic (sameViews_suspend c s)⟩
  mark := fun s v => ⟨ordinary_keepsForest.mark s v, fun f => marks_markDirty f.acyclic v⟩
  edit := fun s v _ h => ⟨ordinary_keepsForest.edit s v h, fun f => marks_edit f.acyclic v h⟩
  reshape := fun s v _ h => ⟨ordinary_keepsForest.reshape s v h, fun f => marks_reshape f.acyclic v h⟩
  move := fun child parent s =>
    ⟨ordinary_keepsForest.move child parent s, fun f => f.marks_setParent child parent⟩

end Session

end AnchorLayout
