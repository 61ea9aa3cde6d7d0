import AnchorLayout.Proofs.Hierarchy.Move
import AnchorLayout.Proofs.Hierarchy.Sweep
import AnchorLayout.Proofs.Session.Outcome
/-!
# The rendered tree of every session

  1. **Program** — every list of calls on a new session, those that fail included.
  2. **Specification** — the tree is a forest, and every walk over it comes to its end before its
     fuel does.
  3. **One act (`Forest.afterAct`)** — by its outcome; an act registers at most one view, which
     takes the next identifier.
  4. **The crux (`Lasts.step`)** — the invariant runs through the acts as long as identifiers last,
     and how many they still have to last for is counted down with the acts.
-/

namespace AnchorLayout

open Operation

namespace Session

variable {s s' : Session} {u v p : ViewId}

/-! ## Where it begins -/

/-- A new session has its root, which hangs nowhere and holds nothing. -/
theorem place?_new (options : Options) (issuer : Issuer) (u : ViewId) :
    (Session.new options issuer).place? u = if ⟨1⟩ = u then some Hierarchy.detached else none := by
  rw [Session.new, place?_markDirty, place?_register]
  rfl

/-- A new session is a forest of one view. -/
theorem forest_new (options : Options) (issuer : Issuer) : (Session.new options issuer).Forest := by
  have hplace {u : ViewId} {place : Hierarchy}
      (h : (Session.new options issuer).place? u = some place) :
      u = ⟨1⟩ ∧ place = Hierarchy.detached := by
    rw [place?_new] at h
    split at h
    · next hu => exact ⟨hu.symm, (Option.some.inj h).symm⟩
    · cases h
  -- there is one view, and it hangs nowhere, so there are no links at all
  have hclimb (u p : ViewId) : ¬ (Session.new options issuer).Climb u p := by
    intro h
    obtain ⟨place, hu, hp⟩ := climb_iff_place.1 h
    rw [(hplace hu).2] at hp
    cases hp
  have hchildren (p : ViewId) : (Session.new options issuer).childrenOf p = [] := by
    rw [childrenOf_eq]
    cases h : (Session.new options issuer).place? p with
    | none => rfl
    | some place =>
      rw [(hplace h).2]
      rfl
  refine ⟨?_, ?_, ?_, ?_, ?_, ?_, ?_, ?_⟩
  · intro v hv
    obtain ⟨p, hp, -⟩ := under_iff_climb.1 hv
    exact hclimb v p hp
  · intro p u _
    rw [hchildren]
    exact ⟨fun h => absurd h List.not_mem_nil, fun h => absurd h (hclimb u p)⟩
  · intro p
    rw [hchildren]
    exact List.nodup_nil
  · intro v place h
    rw [(hplace h).2]
    simp [Hierarchy.detached]
  · intro v p _ h
    exact absurd h (hclimb v p)
  · rw [contains_iff_place]
    exact ⟨_, place?_new options issuer _⟩
  · intro v h
    obtain ⟨place, hv⟩ := contains_iff_place.1 h
    rw [(hplace hv).1]
    show (⟨1⟩ : ViewId) < ⟨2⟩
    decide
  · intro v p h
    exact absurd h (hclimb v p)

end Session

/-! ## Rendering -/

/-- **Rendering is such a change**: nothing is dirty any more, and transitions are settled. -/
structure Change.Renders (change : Change) : Prop where
  clean : Only change Session.takeRoots
  settle : ∀ s v,
    change.Allows s (s.modifyView v fun view => view.updateStyle fun sheet => sheet.settle)

namespace Change.Renders

variable {change : Change} (h : change.Renders)
include h

/-- Settling is done view by view, so the views that are settled do not matter. -/
theorem settleAll (s : Session) (views : List ViewId) : change.Allows s (s.settleAll views) := by
  unfold Session.settleAll
  induction views generalizing s with
  | nil => exact change.refl s
  | cons v rest ih =>
    rw [List.foldl_cons]
    exact change.trans (h.settle s v) (ih _)

/-- Sending what is dirty settles it and clears the marks. -/
theorem renderUpdates : Only change Session.renderUpdates := by
  refine h.clean.bind fun roots => Only.get.bind fun s => (Only.ofExcept _).bind fun rendered => ?_
  exact (Only.modify fun s => h.settleAll s _).bind fun _ => Only.pure _

/-- So does sending everything. -/
theorem renderPage : Only change Session.renderPage := by
  refine h.clean.bind fun roots => Only.get.bind fun s => (Only.ofExcept _).bind fun page => ?_
  exact (Only.modify fun s => h.settleAll s _).bind fun _ => Only.pure _

end Change.Renders

namespace Session

variable {s s' : Session} {u v p : ViewId}

/-- Rendering leaves the tree as it is. -/
theorem sameTree_renders : sameTree.Renders where
  clean := fun _ => TreeEq.of_views rfl rfl rfl
  settle := fun s v => treeEq_modifyView s v fun _ _ => rfl

/-- So does what is done to one view. -/
theorem steady_sameTree : sameTree.Steady where
  mark := fun s v => treeEq_markDirty s v
  edit := fun s v _ h => treeEq_edit s v h

/-! ## One act -/

/-- The act for a sweep leaves what the sweep leaves. -/
theorem afterAct_sweep (s : Session) : s.afterAct (.request .sweep) = s.swept :=
  Operation.after_map _ sweep s

/-- **What an act leaves** where rendering is a change of the kind as well: an allowed change, a new
view, one that has also been put under another one, or what is left by a sweep. -/
inductive Aftermath (change : Change) (s : Session) (a : Act) : Prop where
  | allowed (allowed : change.Allows s (s.afterAct a))
  | created (tag : String) (left : s.afterAct a = s.register tag)
  | adopted (parent : ViewId)
      (left : s.afterAct a = (setParent s.nextId (some parent)).after (s.register "div"))
  | swept (act : a = .request .sweep) (left : s.afterAct a = s.swept)

/-- **From the outcome of an act to what it leaves.**  Whatever sends something ends with rendering,
so only four cases are left for an invariant that does not ask what is sent. -/
theorem Outcome.aftermath {change : Change} {a : Act} (outcome : Outcome change s a)
    (renders : change.Renders) : Aftermath change s a := by
  cases outcome with
  | ordinary allowed _ => exact .allowed allowed
  | created tag left _ => exact .created tag left
  | adopted parent _ left _ => exact .adopted parent left
  | polled act _ =>
    subst act
    exact .allowed (renders.clean.map _ s)
  | updated before allowed left =>
    -- what leads up to the patch is allowed, and so is the patch
    have hrender : change.Allows before (s.afterAct a) := by
      rw [Session.afterAct, Operation.after, left]
      exact renders.renderUpdates.map _ before
    exact .allowed (change.trans allowed hrender)
  | paged act =>
    subst act
    exact .allowed (renders.renderPage.map _ s)
  | swept act _ =>
    subst act
    exact .swept rfl (afterAct_sweep s)

/-- The root and the next identifier stay, and so does the forest. -/
structure Kept (s s' : Session) : Prop where
  root : s'.root = s.root
  nextId : s'.nextId = s.nextId
  forest : s.Forest → s'.Forest

theorem TreeEq.kept (h : TreeEq s s') : Kept s s' := ⟨h.root, h.nextId, h.forest⟩

/-- The changes that keep the forest and register nothing. -/
def keepsForest : Change where
  Allows := Kept
  refl := fun s => (TreeEq.refl s).kept
  trans := fun h h' =>
    ⟨h'.root.trans h.root, h'.nextId.trans h.nextId, fun f => h'.forest (h.forest f)⟩

/-- However a move ends, it leaves the root and the counter alone. -/
theorem frame_setParent (s : Session) (child : ViewId) (parent : Option ViewId) :
    ((setParent child parent).after s).root = s.root ∧
      ((setParent child parent).after s).nextId = s.nextId := by
  have hsettled (s : Session) (before : Hierarchy) (parent structural : Option ViewId) :=
    treeEq_settled s child before parent structural
  rcases setParent_cases s child parent with h | ⟨-, h⟩ | ⟨before, -, h⟩ | ⟨before, p, t, -, -, -, h⟩
  · rw [h]
    exact ⟨rfl, rfl⟩
  · rw [h]
    exact ⟨root_detach s child, nextId_detach s child⟩
  · rw [h, (hsettled _ _ _ _).root, (hsettled _ _ _ _).nextId]
    exact ⟨root_detach s child, nextId_detach s child⟩
  · rw [h, (hsettled _ _ _ _).root, (hsettled _ _ _ _).nextId]
    exact ⟨root_detach s child, nextId_detach s child⟩

/-- **A move** keeps the forest, with or without success. -/
theorem kept_setParent (s : Session) (child : ViewId) (parent : Option ViewId) :
    Kept s ((setParent child parent).after s) :=
  ⟨(frame_setParent s child parent).1, (frame_setParent s child parent).2,
    fun f => f.setParent child parent⟩

theorem SameViews.kept (h : SameViews s s') : Kept s s' :=
  (TreeEq.of_views h.views h.root h.nextId).kept

/-- **The operations that every session has**, but for registering: each of them is a move, a change
of one view, or neither. -/
theorem ordinary_keepsForest : keepsForest.Ordinary where
  background := fun h => SameViews.kept h.toSameViews
  suspended := fun c s => SameViews.kept (sameViews_suspend c s)
  mark := fun s v => (treeEq_markDirty s v).kept
  edit := fun s v _ h => (treeEq_edit s v h).kept
  reshape := fun s v _ h => (treeEq_modifyView s v fun view _ => h view.hierarchy).kept
  move := fun child parent s => kept_setParent s child parent

/-- Rendering leaves the tree alone, and with it the forest. -/
theorem renders_keepsForest : keepsForest.Renders where
  clean := fun s => (sameTree_renders.clean s).kept
  settle := fun s v => (sameTree_renders.settle s v).kept

/-- A sweep keeps the forest, root and counter. -/
theorem kept_swept (s : Session) : Kept s s.swept :=
  ⟨root_forgetAll s _, nextId_forgetAll s _, Forest.swept⟩

/-- One view has been registered, and the forest is kept where there is another identifier after
its own. -/
structure Registered (s s' : Session) : Prop where
  root : s'.root = s.root
  nextId : s'.nextId = ⟨s.nextId.number + 1⟩
  forest : s.Room → s.Forest → s'.Forest

/-- **One act** registers nothing, or one view. -/
theorem afterAct_cases (s : Session) (a : Act) :
    Kept s (s.afterAct a) ∨ Registered s (s.afterAct a) := by
  cases (outcome ordinary_keepsForest s a).aftermath renders_keepsForest with
  | allowed allowed => exact Or.inl allowed
  | created tag left =>
    rw [left]
    exact Or.inr ⟨rfl, rfl, fun room f => f.register room tag⟩
  | adopted parent left =>
    -- the move takes place in a session that has the new view already
    have hmove := kept_setParent (s.register "div") s.nextId (some parent)
    rw [left]
    exact Or.inr ⟨hmove.root, hmove.nextId, fun room f => hmove.forest (f.register room "div")⟩
  | swept _ left =>
    rw [left]
    exact Or.inl (kept_swept s)

/-- An act keeps the forest, as long as there is an identifier after that of a view it
registers. -/
theorem Forest.afterAct (f : s.Forest) {a : Act}
    (room : (s.afterAct a).nextId = s.nextId ∨ s.Room) : (s.afterAct a).Forest := by
  rcases afterAct_cases s a with kept | registered
  · exact kept.forest f
  · rcases room with same | room
    · exact absurd (registered.nextId.symm.trans same) (next_ne s)
    · exact registered.forest room f

/-! ## Every list of acts -/

/-- **Identifiers last** for the views that some acts register: the counter, which has 32 bits, does
not overflow. -/
def Lasts (s : Session) (acts : List Act) : Prop :=
  s.nextId.number.toNat + s.creations acts < UInt32.size

/-- Where identifiers last for a list of acts, one act registers nothing or has room to, and they
last for the rest. -/
theorem Lasts.step {a : Act} {rest : List Act} (h : s.Lasts (a :: rest)) :
    ((s.afterAct a).nextId = s.nextId ∨ s.Room) ∧ (s.afterAct a).Lasts rest := by
  unfold Lasts at h ⊢
  rw [creations] at h
  rcases afterAct_cases s a with kept | registered
  · rw [if_pos kept.nextId, Nat.zero_add] at h
    rw [kept.nextId]
    exact ⟨Or.inl rfl, h⟩
  · rw [if_neg (registered.nextId ▸ next_ne s)] at h
    have room : s.Room := by
      unfold Room
      omega
    have hnext : (s.afterAct a).nextId.number.toNat = s.nextId.number.toNat + 1 := by
      rw [registered.nextId]
      exact room.toNat_next
    exact ⟨Or.inr room, by omega⟩

/-- Views are counted act by act. -/
theorem creations_append (s : Session) (acts more : List Act) :
    s.creations (acts ++ more) = s.creations acts + (s.afterActs acts).creations more := by
  induction acts generalizing s with
  | nil => exact (Nat.zero_add _).symm
  | cons a rest ih =>
    rw [List.cons_append, creations, creations, ih, Nat.add_assoc]
    rfl

/-- What is enough for all acts is enough for the first of them. -/
theorem Lasts.left {acts more : List Act} (h : s.Lasts (acts ++ more)) : s.Lasts acts := by
  unfold Lasts at h ⊢
  rw [creations_append] at h
  omega

/-- **The invariant runs through the acts.** -/
theorem Forest.afterActs (f : s.Forest) {acts : List Act} (lasts : s.Lasts acts) :
    (s.afterActs acts).Forest := by
  induction acts generalizing s with
  | nil => exact f
  | cons a rest ih => exact ih (f.afterAct lasts.step.1) lasts.step.2

/-! ## Every walk ends -/

/-- **Every walk ends** before its fuel does: more of it shows the same. -/
structure WalksEnd (s : Session) : Prop where
  upwards : ∀ v more, s.lineageFrom (s.views.size + 1 + more) v = s.lineage v
  ancestors : ∀ a v, s.isAncestorOrSelf a v = true ↔ s.Below v a
  covered : ∀ v more, s.isCoveredFrom (s.views.size + more) v = s.isCovered v
  downwards : ∀ v more, s.preorder (s.views.size + more) (s.childrenOf v) = s.descendants v
  below : ∀ u v, u ∈ s.descendants v ↔ s.contains v = true ∧ s.Under u v
  rendering : ∀ v more, s.renderFrom? (s.views.size + 1 + more) v = s.renderView? v
  rendered : ∀ v, s.contains v = true → ∃ r, s.renderView? v = .ok r

/-- The look for a marked view further up ends at the top of the line, so more fuel finds nothing
else. -/
theorem Forest.isCovered_settled (f : s.Forest) (v : ViewId) (more : Nat) :
    s.isCoveredFrom (s.views.size + more) v = s.isCovered v := by
  rw [isCovered_eq_any, isCoveredFrom_eq_any, Nat.add_right_comm]
  rw [(lineage_settled f.acyclic v).1]

theorem preorder_nil (fuel : Nat) : s.preorder fuel [] = [] := by
  cases fuel <;> rfl

/-- **In a forest every walk ends**: those up by the length of a line, those down by the number of
views. -/
theorem Forest.walksEnd (f : s.Forest) : s.WalksEnd where
  upwards := fun v => (lineage_settled f.acyclic v).1
  ancestors := fun a v => isAncestorOrSelf_iff f.acyclic
  covered := f.isCovered_settled
  downwards := by
    intro v more
    by_cases hv : s.contains v = true
    · exact (f.walk_settled (f.pending_children hv)).1 more
    · rw [descendants, childrenOf_of_not_contains hv, preorder_nil, preorder_nil]
  below := by
    intro u v
    by_cases hv : s.contains v = true
    · rw [f.mem_descendants_iff hv]
      exact ⟨fun h => ⟨hv, h⟩, fun h => h.2⟩
    · rw [descendants, childrenOf_of_not_contains hv, preorder_nil]
      exact ⟨fun h => absurd h List.not_mem_nil, fun h => absurd h.1 hv⟩
  rendering := by
    intro v more
    by_cases hv : s.contains v = true
    -- a view that is there is rendered, and one that is not fails at once, with any fuel
    · obtain ⟨r, hr, hmore⟩ := f.renderView?_ok hv
      rw [hmore, hr]
    · have hnone : s.views.get? v = none := Option.not_isSome_iff_eq_none.1 hv
      rw [renderView?, Nat.add_right_comm, renderFrom?, renderFrom?, view?, hnone]
      rfl
  rendered := fun v hv => (f.renderView?_ok hv).imp fun _ h => h.1

/-! ## Every list of calls -/

/-- What the program asks for by an operation that may fail is the place of the view. -/
theorem hierarchyOf_eq_ok_iff {place : Hierarchy} :
    s.hierarchyOf v = .ok place ↔ s.place? v = some place := by
  rw [hierarchyOf, view?, place?]
  cases s.views.get? v with
  | none =>
    constructor
    · intro h
      cases h
    · intro h
      cases h
  | some view =>
    constructor
    · intro h
      exact congrArg some (Except.ok.inj h)
    · intro h
      exact congrArg Except.ok (Option.some.inj h)

/-- In a new session one identifier is in use, so the others are left for what is to come. -/
theorem lasts_new (options : Options) (issuer : Issuer) {acts : List Act}
    (few : 1 + (Session.new options issuer).creations acts < UInt32.size - 1) :
    (Session.new options issuer).Lasts acts := by
  show 2 + _ < UInt32.size
  omega

/-- **Every list of calls leaves a forest**, the views that its handlers register included. -/
theorem forest_of_calls (options : Options) (issuer : Issuer) {calls : List Call}
    (few : 1 + (Session.new options issuer).creations
      ((Session.new options issuer).unfolded calls) < UInt32.size - 1) :
    ((Session.new options issuer).afterCalls calls).Forest := by
  rw [← afterActs_unfolded]
  exact (forest_new options issuer).afterActs (lasts_new options issuer few)

/-- **The rendered tree is a forest** after every list of calls on a new session that registers
fewer views than there are identifiers. -/
theorem rendered_tree_of_calls (options : Options) (issuer : Issuer) (calls : List Call)
    (few : 1 + (Session.new options issuer).creations
      ((Session.new options issuer).unfolded calls) < UInt32.size - 1) :
    let s := (Session.new options issuer).afterCalls calls
    (∀ p, s.contains p = true → ∀ u,
      u ∈ s.childrenOf p ↔ s.contains u = true ∧ s.structuralParent? u = some p) ∧
    (∀ p, (s.childrenOf p).Nodup) ∧
    (∀ v, ¬ s.Under v v) ∧ s.WalksEnd ∧
    (∀ v place, s.hierarchyOf v = .ok place →
      (place.parent.isSome = true ↔ place.structuralParent.isSome = true)) ∧
    (∀ v p, v ≠ s.root → s.structuralParent? v = some p → s.contains p = true) ∧
    s.contains s.root = true ∧ (∀ v, s.contains v = true → v < s.nextId) := by
  intro s
  have f : s.Forest := forest_of_calls options issuer few
  refine ⟨?_, f.nodup_children, f.acyclic, f.walksEnd, ?_, ?_, f.contains_root, fun v => f.lt_nextId⟩
  · intro p hp u
    rw [f.mem_children_iff hp]
    exact ⟨fun h => ⟨contains_of_climb h, h⟩, fun h => h.2⟩
  · intro v place h
    exact f.parent_iff (hierarchyOf_eq_ok_iff.1 h)
  · intro v p hv hp
    exact f.contains_parent hv hp

/-- A view put under the root and another one under that, a move that would close a cycle, one out
of the tree, and a sweep. -/
def someMoves : List Call :=
  [.request 1 (.createChild ⟨1⟩), .request 1 (.createChild ⟨2⟩),
    .request 1 (.setParent ⟨2⟩ (some ⟨3⟩)), .request 1 (.setParent ⟨3⟩ none), .request 1 .sweep]

/-- After those moves, one of which has failed, nothing is below itself. -/
theorem rendered_tree_of_someMoves :
    1 + (Session.new .default "").creations ((Session.new .default "").unfolded someMoves) <
        UInt32.size - 1 ∧
      ∀ v, ¬ ((Session.new .default "").afterCalls someMoves).Under v v := by
  have few : 1 + (Session.new .default "").creations
      ((Session.new .default "").unfolded someMoves) < UInt32.size - 1 := by decide +kernel
  exact ⟨few, (rendered_tree_of_calls .default "" someMoves few).2.2.1⟩

end Session

end AnchorLayout
