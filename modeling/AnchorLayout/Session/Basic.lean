import AnchorLayout.Event.Script
/-!
# Sessions

  The views of one user, what has changed since the last patch, and the handlers that wait for a
  follow-up request.

  Program        `Session.new`, `Session.register`, `Session.lineage`.
  Specification  an `Operation` answers or fails, and leaves a session behind either way.
  Crux           nothing is undone on failure: that a failed operation has left the session as it
                 was is a fact about the operation.
-/

namespace AnchorLayout

/-- A suspended handler. -/
structure Continuation where
  resume : ResumePoint → Context → Script
  next : ResumePoint
  yielded : Json
  view : ViewId
  event : EventName
  /-- When it was suspended, in nanoseconds. -/
  created : Nat

/-- The state of a session. -/
structure Session where
  options : Options
  views : OrderedMap ViewId View
  /-- The next view to be registered. -/
  nextId : ViewId
  root : ViewId
  /-- The views whose rendering has changed since the last patch. -/
  dirty : ViewSet
  /-- The suspended handlers in the order of suspension. -/
  continuations : OrderedMap ContinuationId Continuation
  /-- The animations in force, innermost first. -/
  animations : List Animation
  /-- Where the continuation identifiers of this session come from. -/
  issuer : Issuer
  /-- The number of continuation identifiers issued. -/
  issued : Nat
  /-- The time, in nanoseconds; it is set from outside. -/
  clock : Nat
  /-- What handlers have written down, latest entry first; only they read it. -/
  journal : List Json

/-- An operation on a session. -/
abbrev Operation := EStateM Error Session

/-- An operation whose failure is an answer. -/
def Operation.attempt {α : Type} (operation : Operation α) : Operation (Except Error α) :=
  fun s =>
    match operation s with
    | .ok a s => .ok (.ok a) s
    | .error e s => .ok (.error e) s

/-- A computation that does not touch the session. -/
def Operation.ofExcept {α : Type} : Except Error α → Operation α
  | .ok a => pure a
  | .error e => throw e

namespace Session

/-! ## Views -/

/-- Whether a view is registered. -/
def contains (s : Session) (v : ViewId) : Bool := s.views.contains v

/-- A registered view. -/
def view? (s : Session) (v : ViewId) : Except Error View :=
  match s.views.get? v with
  | some view => .ok view
  | none => .error (.noView v)

/-- A registered view. -/
def view (v : ViewId) : Operation View := do Operation.ofExcept ((← get).view? v)

/-- A view registered under the next identifier. -/
def register (s : Session) (tag : String) : Session :=
  { s with
    views := s.views.insert s.nextId (.new tag)
    nextId := ⟨s.nextId.number + 1⟩ }

/-- A view changed, if it is registered. -/
def modifyView (s : Session) (v : ViewId) (f : View → View) : Session :=
  { s with views := s.views.modify v f }

/-- A registered view changed. -/
def update (v : ViewId) (f : View → View) : Operation Unit := do
  let _ ← view v
  modify fun s => s.modifyView v f

/-- A view whose rendering has changed; it need not be registered. -/
def markDirty (s : Session) (v : ViewId) : Session := { s with dirty := s.dirty.insert v }

/-- The root alone, registered and dirty, so that the first patch is the whole page. -/
def new (options : Options) (issuer : Issuer) : Session :=
  let first : ViewId := ⟨1⟩
  let s : Session := {
    options
    views := ∅
    nextId := first
    root := first
    dirty := ∅
    continuations := ∅
    animations := []
    issuer
    issued := 0
    clock := 0
    journal := [] }
  (s.register "body").markDirty first

/-- A new view. -/
def create (tag : String) : Operation ViewId := do
  let id := (← get).nextId
  modify fun s => s.register tag
  return id

/-- The registered view of a wire identifier. -/
def lookup (text : String) : Operation ViewId := do
  match ViewId.parse? text with
  | some v =>
    let _ ← view v
    return v
  | none => throw (.unknownView text)

/-! ## The rendered tree -/

/-- The parent of a view in the rendered tree. -/
def structuralParent? (s : Session) (v : ViewId) : Option ViewId :=
  (s.views.get? v).bind fun view => view.hierarchy.structuralParent

/-- The rendered children of a view. -/
def childrenOf (s : Session) (v : ViewId) : List ViewId :=
  ((s.views.get? v).map fun view => view.hierarchy.children).getD []

/-- A view and the views above it, at most as many as the fuel. -/
def lineageFrom (s : Session) : Nat → ViewId → List ViewId
  | 0, _ => []
  | fuel + 1, v =>
    v :: (match s.structuralParent? v with
      | some parent => s.lineageFrom fuel parent
      | none => [])

/-- **A view and all views above it**, upwards; no line is longer than the number of views. -/
def lineage (s : Session) (v : ViewId) : List ViewId := s.lineageFrom (s.views.size + 1) v

/-- Whether a view is the other one or above it. -/
def isAncestorOrSelf (s : Session) (ancestor v : ViewId) : Bool := (s.lineage v).contains ancestor

/-- The views of some subtrees, depth first, at most as many as the fuel. -/
def preorder (s : Session) : Nat → List ViewId → List ViewId
  | 0, _ => []
  | _, [] => []
  | fuel + 1, v :: rest => v :: s.preorder fuel (s.childrenOf v ++ rest)

/-- **The views below a view**, depth first. -/
def descendants (s : Session) (v : ViewId) : List ViewId := s.preorder s.views.size (s.childrenOf v)

/-! ## Properties and animations -/

/-- A property set, or removed by `null`. -/
def setProperty (v : ViewId) (name : String) (value : Json) : Operation Unit := do
  update v fun view => view.setProperty name value
  modify fun s => s.markDirty v

/-- The animation in force. -/
def currentAnimation (s : Session) : Option Animation := s.animations.head?

/-- The animation that a further one amounts to: laid over the one in force, and with the duration
of the session where there is none. -/
def layered (s : Session) (animation : Animation) : Animation :=
  let merged := (s.currentAnimation.map fun outer => outer.merge animation).getD animation
  { merged with duration := merged.duration <|> some s.options.animationDuration }

/-- **Under an animation**: the operation is run with it in force; a failure is an answer. -/
def animate {α : Type} (animation : Animation) (operation : Operation α) :
    Operation (Except Error α) := do
  modify fun s => { s with animations := s.layered animation :: s.animations }
  let result ← operation.attempt
  modify fun s => { s with animations := s.animations.tail }
  return result

/-- A style set: at once, or as a transition under the animation in force. -/
def setStyle (v : ViewId) (property : StyleProperty) (value : StyleValue) : Operation Unit := do
  let declaration ← Operation.ofExcept (property.convert value)
  let animation := (← get).currentAnimation
  update v fun view => view.updateStyle fun sheet =>
    sheet.apply property.cssName declaration animation
  modify fun s => s.markDirty v

/-- A style set by name. -/
def setStyleNamed (v : ViewId) (name : String) (value : StyleValue) : Operation Unit := do
  match StyleProperty.ofName? name with
  | some property => setStyle v property value
  | none => throw (.unknownAttribute name)

end Session

end AnchorLayout
