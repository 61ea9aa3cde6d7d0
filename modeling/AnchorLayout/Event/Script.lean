import AnchorLayout.Constraint.Input
import AnchorLayout.Dock
import AnchorLayout.Options
import AnchorLayout.Patch
import AnchorLayout.View
/-!
# Handlers

  What runs on an event is written as a script: a tree of requests to the session, in which each
  answer selects what comes next.  A script is data, so that a session can hold it and statements
  can be made about all of them.

  Program        `Script.bind` (one script after another), `Handler.ofStages` (stages that suspend
                 in between).
  Specification  `Ending`: done with a value, or suspended at a point with one.
  Crux           a handler keeps nothing between requests but the resume point and the value it
                 yielded.
-/

namespace AnchorLayout

/-! ## Around a handler -/

/-- Where a suspended handler picks up. -/
structure ResumePoint where
  index : Nat
deriving DecidableEq, Inhabited

/-- Where a handler begins. -/
def ResumePoint.start : ResumePoint := ⟨0⟩

/-- What a handler sees when it starts: the value of the event, or the one it yielded last. -/
structure Context where
  view : ViewId
  event : EventName
  value : Json

/-- How a script ends. -/
inductive Ending where
  /-- At its end, with the value it leaves. -/
  | done (value : Json)
  /-- To be taken up again at a point, with the value it yields. -/
  | suspended (next : ResumePoint) (yielded : Json)

/-- Whether a handler can suspend. -/
inductive HandlerKind where
  | once
  | suspendable
deriving DecidableEq

/-- Extra space around the content of a view. -/
inductive Fit where
  | width (extra : Number)
  | height (extra : Number)
  | both (extra : Number)

/-! ## Requests and answers -/

/-- What a session answers. -/
inductive Answer where
  | done
  | view (id : ViewId)
  | optionalView (id : Option ViewId)
  | views (ids : List ViewId)
  | flag (value : Bool)
  | count (n : Nat)
  | constraints (store : ConstraintStore)
  | property (value : Option Json)
  | animation (animation : Option Animation)
  | attributes (attributes : List (String × String))
  | rendered (view : RenderedView)
  | patch (patch : Patch)
  | summary (view : ViewOf HandlerKind)
  | options (options : Options)

mutual

/-- What a session can be asked. -/
inductive Request where
  | create (tag : String)
  | createChild (parent : ViewId)
  | set (view : ViewId) (attr : Attribute) (input : ConstraintInput)
  | setNamed (view : ViewId) (name : String) (input : ConstraintInput)
  | setComposite (view : ViewId) (composite : Composite) (inputs : List ConstraintInput)
  | clear (view : ViewId) (attr : Attribute)
  | release (view : ViewId)
  | dock (view : ViewId) (target : DockTarget)
  | dockNamed (view reference : ViewId) (keyword : String)
  | fit (view : ViewId) (fit : Fit)
  | constraints (view : ViewId)
  | setParent (view : ViewId) (parent : Option ViewId)
  | addChildren (parent : ViewId) (children : List ViewId)
  | setChrome (view : ViewId) (isChrome : Bool)
  | setContainer (view : ViewId) (container : Option ViewId)
  | parent (view : ViewId)
  | structuralParent (view : ViewId)
  | container (view : ViewId)
  | children (view : ViewId)
  | visualChildren (view : ViewId)
  | descendants (view : ViewId)
  | isAncestorOrSelf (ancestor view : ViewId)
  | markDirty (view : ViewId)
  | isDirty (view : ViewId)
  | dirtyViews
  | takeRoots
  | contains (view : ViewId)
  | lookup (id : String)
  | size
  | root
  | options
  | sweep
  | view (view : ViewId)
  | setProperty (view : ViewId) (name : String) (value : Json)
  | property (view : ViewId) (name : String)
  | setStyle (view : ViewId) (property : StyleProperty) (value : StyleValue)
  | setStyleNamed (view : ViewId) (name : String) (value : StyleValue)
  | currentAnimation
  | renderAttributes (view : ViewId)
  | renderView (view : ViewId)
  | renderPage
  | renderUpdates
  | on (view : ViewId) (event : EventName) (handler : Handler) (options : BindingOptions)
  | onNamed (view : ViewId) (event : String) (handler : Handler) (options : BindingOptions)
  | removeEvent (view : ViewId) (event : EventName)
  | pendingContinuations
  | dispatch (view : ViewId) (event : EventName) (value : Json)
  | dispatchWire (view event : String) (value : Json)
  | resume (id : ContinuationId)

/-- A tree of requests. -/
inductive Script where
  | done (value : Json)
  | suspend (next : ResumePoint) (yielded : Json)
  | fail (error : Error)
  /-- A request; what comes next hangs on its answer. -/
  | ask (request : Request) (next : Except Error Answer → Script)
  /-- A script under an animation; its failure is an answer like any other. -/
  | animate (animation : Animation) (body : Script) (next : Except Error Ending → Script)
  /-- An entry in the journal of the session. -/
  | note (entry : Json) (next : Script)
  /-- The journal of the session, latest entry first. -/
  | consult (next : List Json → Script)

/-- A handler of an event. -/
inductive Handler where
  | once (body : Context → Script)
  | suspendable (resume : ResumePoint → Context → Script)

end

instance : Inhabited Script := ⟨.done .null⟩

/-- Whether the handler can suspend. -/
def Handler.kind : Handler → HandlerKind
  | .once _ => .once
  | .suspendable _ => .suspendable

/-- A view as a session holds it. -/
abbrev View := ViewOf Handler

/-! ## Scripts after one another -/

namespace Script

/-- **Sequence**: what comes after a script hangs on how it ends. -/
def bind (script : Script) (next : Except Error Ending → Script) : Script :=
  match script with
  | done value => next (.ok (.done value))
  | suspend point yielded => next (.ok (.suspended point yielded))
  | fail error => next (.error error)
  | ask request rest => ask request fun answer => (rest answer).bind next
  | animate animation body rest => animate animation body fun ending => (rest ending).bind next
  | note entry rest => note entry (rest.bind next)
  | consult rest => consult fun entries => (rest entries).bind next

/-- A request whose failure is the failure of the script. -/
def request (request : Request) (next : Answer → Script) : Script :=
  ask request fun answer =>
    match answer with
    | .ok answer => next answer
    | .error error => fail error

/-- The script that ends as given. -/
def ofEnding : Except Error Ending → Script
  | .ok (.done value) => done value
  | .ok (.suspended next yielded) => suspend next yielded
  | .error error => fail error

end Script

/-! ## Stages -/

/-- One stage of several: it suspends at the next one with the value it leaves, or is the last. -/
def Script.thenSuspend (script : Script) (index count : Nat) : Script :=
  script.bind fun ending =>
    match ending with
    | .ok (.done value) =>
      if index + 1 < count then .suspend ⟨index + 1⟩ value else .done value
    | ending => .ofEnding ending

/-- The stage at a resume point; past the last one there is nothing left to do. -/
def stageAt (stages : List (Context → Script)) (point : ResumePoint) (context : Context) : Script :=
  match stages[point.index]? with
  | some stage => (stage context).thenSuspend point.index stages.length
  | none => .done context.value

/-- **A handler in stages**, one for each request. -/
def Handler.ofStages (stages : List (Context → Script)) : Handler :=
  .suspendable (stageAt stages)

end AnchorLayout
