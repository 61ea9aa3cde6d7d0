import AnchorLayout.Proofs.Hierarchy.Place
import AnchorLayout.Session.Run
/-!
# Ordinary changes

  Nearly every operation is made of a few steps: something outside the views changes, a handler is
  suspended, a view is marked, a view is edited and marked, a place is changed in something other
  than its links, or a view is moved.  A kind of change that holds these allows all that such
  operations do; one that holds the first four allows all that leaves the views where they are.  An
  operation that has nothing to do with handlers gets by without the first two.

  1. **Specification** — `Change.Touching`, `Change.Steady` and `Change.Placing`: the steps of the
     views are changes of that kind; `Change.Plain` and `Change.Ordinary`: so are those outside the
     views.
  2. **Operations** — `Steady.set`, `Placing.dock` and so on: whether they answer or fail.
  3. **The crux** — a view is never edited in one operation and marked in another, so an edit and
     its mark are one step, and a change may rely on the mark.
-/

namespace AnchorLayout

open Session Operation

/-- Two sessions that differ at most in what is suspended, the animations, the clock and the
journal. -/
structure SameViews (s s' : Session) : Prop where
  views : s'.views = s.views
  dirty : s'.dirty = s.dirty
  root : s'.root = s.root
  nextId : s'.nextId = s.nextId
  options : s'.options = s.options

namespace Session

/-- A step that leaves the table alone. -/
structure SameTable (s s' : Session) : Prop where
  options : s'.options = s.options
  issuer : s'.issuer = s.issuer
  issued : s'.issued = s.issued
  continuations : s'.continuations = s.continuations

end Session

/-- Two sessions that differ at most in the animations, the clock and the journal. -/
structure Aside (s s' : Session) : Prop where
  views : SameViews s s'
  table : SameTable s s'

/-- Two sessions that differ at most in the animations, the clock and the journal, and in what is no
longer suspended. -/
structure Background (s s' : Session) : Prop extends SameViews s s' where
  thinned : s'.continuations.entries.Sublist s.continuations.entries
  issuer : s'.issuer = s.issuer
  issued : s'.issued = s.issued

/-- What leaves the table alone leaves it smaller or alike. -/
theorem Aside.background {s s' : Session} (h : Aside s s') : Background s s' :=
  ⟨h.views, by rw [h.table.continuations], h.table.issuer, h.table.issued⟩

/-- Forgetting continuations is a background step, whichever are kept; expiry and eviction are of
this kind. -/
theorem background_keepContinuations (s : Session) (keep : Continuation → Bool) :
    Background s (s.keepContinuations keep) :=
  ⟨⟨rfl, rfl, rfl, rfl, rfl⟩, List.filter_sublist, rfl, rfl⟩

/-- A continuation suspended is a matter of the table alone. -/
theorem sameViews_suspend (c : Continuation) (s : Session) :
    SameViews s ((Session.suspend c).after s) := ⟨rfl, rfl, rfl, rfl, rfl⟩

namespace Session

/-- The children of a view moved into their place, and the views involved marked. -/
def fillContainer (v target : ViewId) (moved : List ViewId) (old : Option ViewId) :
    Operation Unit := do
  moved.forM (moveIntoPlace v target)
  if let some c := old then modify fun s => s.markDirty c
  modify fun s => s.markDirty v

/-- A change of container that nothing speaks against. -/
def changeContainer (v : ViewId) (container : Option ViewId) : Operation Unit := do
  let moved ← Operation.ofExcept ((← get).visualChildren? v)
  let old := (← view v).hierarchy.container
  update v fun view => view.updateHierarchy fun h => { h with container := none }
  match container with
  | some c => do
    installContainer v c
    fillContainer v c moved old
  | none => fillContainer v v moved old

/-- **The request, check by check**: both views are there, and a container is not the view itself
nor above it.  What is left when nothing speaks against it is `changeContainer`. -/
theorem setContainer_eq (v : ViewId) (container : Option ViewId) :
    setContainer v container = (do
      let _ ← view v
      match container with
      | some c => do
        let _ ← view c
        let s ← get
        if c = v ∨ s.isAncestorOrSelf c v then throw (.refused (.ownAncestor c v))
        else changeContainer v container
      | none => changeContainer v container) := by
  cases container with
  | none => rfl
  | some c => rfl

end Session

/-- **A touching kind of change** allows what is done to one view apart from its rules and its
styles. -/
structure Change.Touching (change : Change) : Prop where
  mark : ∀ s v, change.Allows s (s.markDirty v)
  touch : ∀ s v {f : View → View}, (∀ view, (f view).hierarchy = view.hierarchy) →
    (∀ view, (f view).constraints = view.constraints) → (∀ view, (f view).style = view.style) →
      change.Allows s ((s.modifyView v f).markDirty v)

/-- **A styling kind of change** allows what is done to the styles of one view. -/
structure Change.Styling (change : Change) : Prop where
  restyle : ∀ s v (F : StyleSheet → StyleSheet),
    change.Allows s ((s.modifyView v fun view => view.updateStyle F).markDirty v)

/-- **A steady kind of change** allows what is done to one view. -/
structure Change.Steady (change : Change) : Prop where
  mark : ∀ s v, change.Allows s (s.markDirty v)
  edit : ∀ s v {f : View → View}, (∀ view, (f view).hierarchy = view.hierarchy) →
    change.Allows s ((s.modifyView v f).markDirty v)

/-- **An assigning kind of change** allows what is done to the rules of one view. -/
structure Change.Assigning (change : Change) : Prop where
  clear : ∀ v attr, Only change (Session.clear v attr)
  release : ∀ v, Only change (Session.release v)
  set : ∀ v attr input, Only change (Session.set v attr input)
  setComposite : ∀ v composite inputs, Only change (Session.setComposite v composite inputs)
  fit : ∀ v f, Only change (Session.fit v f)

/-- **A moving kind of change** allows what is done to the places of views. -/
structure Change.Moving (change : Change) : Prop extends Change.Touching change where
  reshape : ∀ s v {f : Hierarchy → Hierarchy}, (∀ place, (f place).links = place.links) →
    change.Allows s (s.modifyView v fun view => view.updateHierarchy f)
  move : ∀ child parent, Only change (setParent child parent)

/-- **A placing kind of change** allows what is done to the places of views too. -/
structure Change.Placing (change : Change) : Prop extends Change.Steady change where
  reshape : ∀ s v {f : Hierarchy → Hierarchy}, (∀ place, (f place).links = place.links) →
    change.Allows s (s.modifyView v fun view => view.updateHierarchy f)
  move : ∀ child parent, Only change (setParent child parent)

/-- **A framing kind of change** allows whatever is done to views that are there, and marks. -/
structure Change.Framing (change : Change) : Prop where
  mark : ∀ s v, change.Allows s (s.markDirty v)
  write : ∀ s v f, change.Allows s (s.modifyView v f)

/-- **A quiet kind of change** allows what happens outside the views, and what is done to one view apart
from its rules and its styles. -/
structure Change.Quiet (change : Change) : Prop extends Change.Touching change where
  background : ∀ {s s'}, Background s s' → change.Allows s s'

/-- **A plain kind of change** allows these steps. -/
structure Change.Plain (change : Change) : Prop where
  background : ∀ {s s'}, Background s s' → change.Allows s s'
  suspended : ∀ c, Only change (suspend c)
  mark : ∀ s v, change.Allows s (s.markDirty v)
  edit : ∀ s v {f : View → View}, (∀ view, (f view).hierarchy = view.hierarchy) →
    change.Allows s ((s.modifyView v f).markDirty v)

/-- **An ordinary kind of change** allows these steps too. -/
structure Change.Ordinary (change : Change) : Prop extends Change.Plain change where
  reshape : ∀ s v {f : Hierarchy → Hierarchy}, (∀ place, (f place).links = place.links) →
    change.Allows s (s.modifyView v fun view => view.updateHierarchy f)
  move : ∀ child parent, Only change (setParent child parent)

/-- **An edit** is followed by its mark, or it has not taken place. -/
theorem only_update_mark {change : Change} (v : ViewId) {f : View → View}
    (allowed : ∀ s : Session, change.Allows s ((s.modifyView v f).markDirty v)) :
    Only change (do update v f; modify fun s => s.markDirty v) := by
  intro s
  rw [after_bind, update_apply]
  by_cases hc : s.contains v = true
  · rw [if_pos hc]
    exact allowed s
  · rw [if_neg hc]
    exact change.refl s

namespace Change.Touching

variable {change : Change} (h : change.Touching)
include h

/-! ## Views -/

/-- A mark by itself is the step that every request below ends with. -/
theorem modify_mark (v : ViewId) :
    Only change (modify fun s => s.markDirty v : Operation PUnit) := Only.modify fun s => h.mark s v

/-- The requests about one view: each looks for the view, changes what it changes and marks it, so
that a kind of change needs to allow only the edit with its mark. -/
theorem setProperty (v : ViewId) (name : String) (value : Json) :
    Only change (Session.setProperty v name value) :=
  only_update_mark v fun s => h.touch s v (fun _ => rfl) (fun _ => rfl) fun _ => rfl

theorem on (v : ViewId) (event : EventName) (handler : Handler) (options : BindingOptions) :
    Only change (Session.on v event handler options) :=
  only_update_mark v fun s => h.touch s v (fun _ => rfl) (fun _ => rfl) fun _ => rfl

/-- By name: the name is read first, and a name that is none leaves everything as it was. -/
theorem onNamed (v : ViewId) (event : String) (handler : Handler) (options : BindingOptions) :
    Only change (Session.onNamed v event handler options) := by
  unfold Session.onNamed
  split
  · exact h.on v _ handler options
  · exact Only.throw _

end Change.Touching

namespace Change.Styling

variable {change : Change} (h : change.Styling)
include h

/-- A style is an edit of its own kind, since it is shipped apart from the view. -/
theorem setStyle (v : ViewId) (property : StyleProperty) (value : StyleValue) :
    Only change (Session.setStyle v property value) :=
  (Only.ofExcept _).bind fun _ => Only.get.bind fun _ =>
    only_update_mark v fun s => h.restyle s v _

theorem setStyleNamed (v : ViewId) (name : String) (value : StyleValue) :
    Only change (Session.setStyleNamed v name value) := by
  unfold Session.setStyleNamed
  split
  · exact h.setStyle v _ value
  · exact Only.throw _

end Change.Styling

namespace Change.Steady

variable {change : Change} (h : change.Steady)
include h

/-- **From steps to requests**: what is shown above for a kind of change, request by request, is
what the callers ask for. -/
theorem touching : change.Touching := ⟨h.mark, fun s v _ place _ _ => h.edit s v place⟩

theorem styling : change.Styling := ⟨fun s v _ => h.edit s v fun _ => rfl⟩

/-- An edit that leaves the place of the view alone, marked. -/
theorem update_mark (v : ViewId) {f : View → View}
    (place : ∀ view, (f view).hierarchy = view.hierarchy) :
    Only change (do update v f; modify fun s => s.markDirty v) :=
  only_update_mark v fun s => h.edit s v place

/-! ## Constraints -/

/-- The one step in which rules change: the assignment to one attribute of a view, with its
mark. -/
theorem store (v : ViewId) (attr : Attribute) (batch : List Constraint) :
    Only change (Session.store v attr batch) := h.update_mark v fun _ => rfl

theorem clear (v : ViewId) (attr : Attribute) : Only change (Session.clear v attr) :=
  h.update_mark v fun _ => rfl

theorem release (v : ViewId) : Only change (Session.release v) := h.update_mark v fun _ => rfl

/-- **A rule is expanded before anything is stored**, so there is one step or none. -/
theorem set (v : ViewId) (attr : Attribute) (input : ConstraintInput) :
    Only change (Session.set v attr input) := by
  refine (Only.view v).bind fun _ => ?_
  split
  · exact h.clear v attr
  · exact Only.get.bind fun s => (Only.ofExcept _).bind fun batch => h.store v attr batch

/-- A composite expands all of its parts first; then they are stored one after the other, by
induction on the prepared parts. -/
theorem setComposite (v : ViewId) (composite : Composite) (inputs : List ConstraintInput) :
    Only change (Session.setComposite v composite inputs) := by
  unfold Session.setComposite
  refine Only.ite ((Only.throw _).bind fun _ => ?_) ?_
  all_goals
    refine (Only.view v).bind fun _ => Only.get.bind fun s => (Only.ofExcept _).bind fun prepared => ?_
    refine Only.forM (fun part => ?_) prepared
    unfold storePart
    split
    · exact h.store v _ _
    · exact h.clear v _

/-- Prepared parts are stored one after the other, and nothing happens between two of them. -/
theorem storeAll (v : ViewId) (prepared : List (Attribute × List Constraint)) :
    Only change (Session.storeAll v prepared) := by
  unfold Session.storeAll
  refine Only.forM (fun p => ?_) prepared
  exact h.store v p.1 p.2

theorem fit (v : ViewId) (f : Fit) : Only change (Session.fit v f) :=
  (Only.view v).bind fun _ => Only.get.bind fun _ => (Only.ofExcept _).bind fun prepared =>
    h.storeAll v prepared

theorem assigning : change.Assigning := ⟨h.clear, h.release, h.set, h.setComposite, h.fit⟩

end Change.Steady

/-- By name: a name is an attribute or a composite, or nothing is done. -/
theorem Change.Assigning.setNamed {change : Change} (h : change.Assigning) (v : ViewId)
    (name : String) (input : ConstraintInput) : Only change (Session.setNamed v name input) := by
  unfold Session.setNamed
  split
  · exact Only.throw _
  · exact h.set v _ input
  · split
    · exact h.setComposite v _ _
    · exact Only.throw _

namespace Change.Moving

variable {change : Change} (h : change.Moving)
include h

/-! ## Places -/

/-- A change of kind or container leaves the links of the rendered tree alone. -/
theorem update_reshape (v : ViewId) {f : Hierarchy → Hierarchy}
    (links : ∀ place, (f place).links = place.links) :
    Only change (update v fun view => view.updateHierarchy f) :=
  (Only.view v).bind fun _ => Only.modify fun s => h.reshape s v links

/-- Children are moved one by one, and the first that cannot be moved ends the request. -/
theorem addChildren (parent : ViewId) (children : List ViewId) :
    Only change (Session.addChildren parent children) := by
  unfold Session.addChildren
  exact Only.forM (fun child => h.move child (some parent)) children

/-- Chrome is a kind of view, not a link, but the container stays where it is only if the view is
moved. -/
theorem setChrome (v : ViewId) (isChrome : Bool) : Only change (Session.setChrome v isChrome) := by
  refine (Only.view v).bind fun view => Only.ite ?_ (Only.pure _)
  refine Only.bind (h.update_reshape v fun _ => rfl) fun _ => ?_
  split
  · exact h.move v _
  · exact Only.pure _

/-- The container becomes the first child, and the view remembers it. -/
theorem installContainer (v c : ViewId) : Only change (Session.installContainer v c) := by
  unfold Session.installContainer
  refine Only.bind (h.update_reshape c fun _ => rfl) fun _ => ?_
  refine (h.move c (some v)).bind fun _ => ?_
  exact h.update_reshape v fun _ => rfl

/-- What a container holds is moved below it, or back. -/
theorem moveIntoPlace (v target child : ViewId) :
    Only change (Session.moveIntoPlace v target child) := by
  refine Only.ite ((Only.view child).bind fun view => ?_) (Only.pure _)
  exact Only.ite (Only.pure _) (h.move child (some v))

/-- **The request for a container**, along `setContainer_eq`: out with the old one, in with the new
one, and the children moved into their place.  Each part is a step that a moving kind allows. -/
theorem setContainer (v : ViewId) (container : Option ViewId) :
    Only change (Session.setContainer v container) := by
  have fill (target : ViewId) (moved : List ViewId) (old : Option ViewId) :
      Only change (fillContainer v target moved old) := by
    refine (Only.forM (fun child => h.moveIntoPlace v target child) moved).bind fun _ => ?_
    cases old with
    | none => exact h.modify_mark v
    | some c => exact (h.modify_mark c).bind fun _ => h.modify_mark v
  have change : Only change (changeContainer v container) := by
    refine Only.get.bind fun s => (Only.ofExcept _).bind fun moved => ?_
    refine (Only.view v).bind fun before => ?_
    refine Only.bind (h.update_reshape v fun _ => rfl) fun _ => ?_
    cases container with
    | none => exact fill _ _ _
    | some c => exact (h.installContainer v c).bind fun _ => fill _ _ _
  rw [setContainer_eq]
  refine (Only.view v).bind fun _ => ?_
  cases container with
  | none => exact change
  | some c =>
    refine (Only.view c).bind fun _ => Only.get.bind fun s => Only.ite (Only.throw _) change

/-- A dock moves the view, and stores what has been prepared. -/
theorem dock (v : ViewId) (target : DockTarget)
    (storing : ∀ animation prepared, dockRules? target animation = .ok prepared →
      Only change (prepared.forM fun p => do store v p.1 ((← get).throughContainer v p.2))) :
    Only change (Session.dock v target) := by
  unfold Session.dock
  refine (Only.view v).bind fun _ => ?_
  refine Only.bind ?_ fun parent => Only.get.bind fun s => ?_
  · refine (Only.view _).bind fun reference => Only.ite ?_ (Only.pure _)
    split
    · exact Only.pure _
    · exact Only.throw _
  · refine Only.ite ((Only.throw _).bind fun _ => ?_) ?_
    all_goals
      intro s
      refine allows_prepared s fun prepared hprepared => ?_
      exact ((h.move v _).bind fun _ => storing s.currentAnimation prepared hprepared) s

end Change.Moving

namespace Change.Placing

variable {change : Change} (h : change.Placing)
include h

/-- The requests about places, all of them. -/
theorem moving : change.Moving := ⟨h.touching, h.reshape, h.move⟩

/-- A dock by a kind of change that knows moves and rules. -/
theorem dock (v : ViewId) (target : DockTarget) : Only change (Session.dock v target) :=
  h.moving.dock v target fun _ prepared _ =>
    Only.forM (fun _ => Only.get.bind fun _ => h.store v _ _) prepared

end Change.Placing

/-! ## Frames -/

namespace Change.Framing

variable {change : Change} (h : change.Framing)
include h

theorem update (v : ViewId) (f : View → View) : Only change (Session.update v f) :=
  (Only.view v).bind fun _ => Only.modify fun s => h.write s v f

/-- Frames allow anything done to a view that is there.  Taking a view out touches two places, the
view's and that of its parent. -/
theorem detach (s : Session) (child : ViewId) : change.Allows s (s.detach child) := by
  unfold Session.detach
  split
  · exact change.refl s
  · exact change.trans (change.trans (h.write _ _ _) (h.write _ _ _)) (h.mark _ _)

/-- Anchors are renamed in the rules of one view, or there is nothing to rename. -/
theorem rebaseBetween (s : Session) (v : ViewId) (source target : Option ViewId) :
    change.Allows s (s.rebaseBetween v source target) := by
  unfold Session.rebaseBetween Session.rebaseAnchors
  split
  · split
    · split
      · exact change.refl s
      · split
        · exact change.trans (h.write _ _ _) (h.mark _ _)
        · exact change.refl s
    · exact change.refl s
  · exact change.refl s

/-- **A move is allowed by a frame** step by step: out of the old place, into the new one, anchors
renamed, marks set.  No other view than these is touched, whichever check fails. -/
theorem setParent (child : ViewId) (parent : Option ViewId) :
    Only change (Session.setParent child parent) := by
  -- the checks of a move, what is done to the view, and what is done to the two lists of children
  have checked (p : ViewId) : Only change (checkedPlacement child p) :=
    Only.get.bind fun s => (Only.ofExcept _).bind fun _ => Only.get.bind fun _ =>
      Only.ite ((Only.throw _).bind fun _ => Only.pure _) (Only.pure _)
  have linked (before : Hierarchy) (structural : Option ViewId) : Only change (do
      Session.update child fun view => view.updateHierarchy fun h =>
        { h with parent := parent, structuralParent := structural }
      modify fun s => s.rebaseBetween child before.structuralParent before.parent
      modify fun s => s.rebaseBetween child parent structural) :=
    (h.update child _).bind fun _ =>
      Only.bind (Only.modify fun s => h.rebaseBetween s _ _ _) fun _ =>
        Only.modify fun s => h.rebaseBetween s _ _ _
  have moved (before : Hierarchy) (structural : Option ViewId) : Only change (do
      modify fun s => s.detach child
      if let some target := structural then
        Session.update target fun view => view.updateHierarchy fun h =>
          { h with children := h.children ++ [child] }
        modify fun s => s.markDirty target
      Session.update child fun view => view.updateHierarchy fun h =>
        { h with parent := parent, structuralParent := structural }
      modify fun s => s.rebaseBetween child before.structuralParent before.parent
      modify fun s => s.rebaseBetween child parent structural) := by
    refine Only.bind (Only.modify fun s => h.detach s child) fun _ => ?_
    cases structural with
    | none => exact linked before none
    | some target =>
      exact (h.update target _).bind fun _ =>
        Only.bind (Only.modify fun s => h.mark s target) fun _ => linked before (some target)
  refine (Only.view child).bind fun view => ?_
  cases parent with
  | none => exact (Only.pure none).bind fun structural => moved view.hierarchy structural
  | some p =>
    exact ((checked p).map some).bind fun structural => moved view.hierarchy structural

/-- A kind of change that allows whatever is done to views allows what is done to places. -/
theorem placing : change.Placing where
  mark := h.mark
  edit := fun s v f _ => change.trans (h.write s v f) (h.mark _ v)
  reshape := fun s v _ _ => h.write s v _
  move := h.setParent

end Change.Framing

/-! ## Outside the views -/

section

variable {change : Change}

theorem Change.Plain.steady (h : change.Plain) : change.Steady := ⟨h.mark, h.edit⟩

theorem Change.Ordinary.placing (h : change.Ordinary) : change.Placing :=
  ⟨h.steady, h.reshape, h.move⟩

theorem Change.Plain.quiet (h : change.Plain) : change.Quiet := ⟨h.steady.touching, h.background⟩

/-- What happens outside the views is allowed as it is. -/
theorem Change.Quiet.modify_background (h : change.Quiet) {f : Session → Session}
    (same : ∀ s, Background s (f s)) : Only change (modify f : Operation PUnit) :=
  Only.modify fun s => h.background (same s)

/-- A binding taken off takes its continuation with it, which is a background step, and then marks
its view. -/
theorem Change.Quiet.removeEvent (h : change.Quiet) (v : ViewId) (event : EventName) :
    Only change (Session.removeEvent v event) := by
  refine (Only.view v).bind fun view => Only.ite ?_ (Only.pure _)
  intro s
  -- what comes between the edit and the mark does not touch the views
  have hedit := h.touch s v (f := fun view => view.updateBindings fun b => b.unbind event)
    (fun _ => rfl) (fun _ => rfl) fun _ => rfl
  refine change.trans hedit (h.background ?_)
  exact ⟨⟨rfl, rfl, rfl, rfl, rfl⟩, List.filter_sublist, rfl, rfl⟩

end

end AnchorLayout
