import AnchorLayout.Session.Continuation
import AnchorLayout.Session.Layout
/-!
# Running scripts

  Program        `Session.perform` (one request), `Script.run` (a tree of them).
  Specification  the answer of every request, in one table.
  Crux           a script is finite, so running it is recursion on the script; handlers that
                 dispatch events run further scripts, and only what never ends reaches the
                 limit of that nesting.
-/

namespace AnchorLayout

/-- **Running a script**, with every request left to `perform`. -/
def Script.run (perform : Request → Operation Answer) : Script → Operation Ending
  | .done value => pure (.done value)
  | .suspend next yielded => pure (.suspended next yielded)
  | .fail error => throw error
  | .ask request next => do
    let answer ← (perform request).attempt
    (next answer).run perform
  | .animate animation body next => do
    let ending ← Session.animate animation (body.run perform)
    (next ending).run perform
  | .note entry next => do
    modify fun s => { s with journal := entry :: s.journal }
    next.run perform
  | .consult next => do
    let s ← get
    (next s.journal).run perform

namespace Session

/-- The answer to a question that changes nothing. -/
def answerWith {α : Type} (answer : α → Answer) (question : Session → Except Error α) :
    Operation Answer := do
  return answer (← Operation.ofExcept (question (← get)))

/-- The hierarchy of a view. -/
def hierarchyOf (s : Session) (v : ViewId) : Except Error Hierarchy :=
  (s.view? v).map fun view => view.hierarchy

/-- A request that runs handlers, for which `run` stands. -/
def performWith (run : Script → Operation Ending) : Request → Operation Answer
  | .create tag => .view <$> create tag
  | .createChild parent => .view <$> createChild parent
  | .set v attr input => do set v attr input; return .done
  | .setNamed v name input => do setNamed v name input; return .done
  | .setComposite v composite inputs => do setComposite v composite inputs; return .done
  | .clear v attr => do clear v attr; return .done
  | .release v => do release v; return .done
  | .dock v target => do dock v target; return .done
  | .dockNamed v reference keyword => do dockNamed v reference keyword; return .done
  | .fit v f => do fit v f; return .done
  | .constraints v => answerWith .constraints fun s => (s.view? v).map fun view => view.constraints
  | .setParent v parent => do setParent v parent; return .done
  | .addChildren parent children => do addChildren parent children; return .done
  | .setChrome v isChrome => do setChrome v isChrome; return .done
  | .setContainer v container => do setContainer v container; return .done
  | .parent v => answerWith .optionalView fun s => (s.hierarchyOf v).map fun h => h.parent
  | .structuralParent v =>
    answerWith .optionalView fun s => (s.hierarchyOf v).map fun h => h.structuralParent
  | .container v => answerWith .optionalView fun s => (s.hierarchyOf v).map fun h => h.container
  | .children v => answerWith .views fun s => (s.hierarchyOf v).map fun h => h.children
  | .visualChildren v => answerWith .views fun s => s.visualChildren? v
  | .descendants v => answerWith .views fun s => .ok (s.descendants v)
  | .isAncestorOrSelf ancestor v => answerWith .flag fun s => .ok (s.isAncestorOrSelf ancestor v)
  | .markDirty v => do modify fun s => s.markDirty v; return .done
  | .isDirty v => answerWith .flag fun s => .ok (s.dirty.contains v)
  | .dirtyViews => answerWith .views fun s => .ok s.dirty.toList
  | .takeRoots => .views <$> takeRoots
  | .contains v => answerWith .flag fun s => .ok (s.contains v)
  | .lookup id => .view <$> lookup id
  | .size => answerWith .count fun s => .ok s.views.size
  | .root => answerWith .view fun s => .ok s.root
  | .options => answerWith .options fun s => .ok s.options
  | .sweep => .count <$> sweep
  | .view v =>
    answerWith .summary fun s => (s.view? v).map fun view => view.mapHandlers Handler.kind
  | .setProperty v name value => do setProperty v name value; return .done
  | .property v name =>
    answerWith .property fun s => (s.view? v).map fun view => view.properties.get? name
  | .setStyle v property value => do setStyle v property value; return .done
  | .setStyleNamed v name value => do setStyleNamed v name value; return .done
  | .currentAnimation => answerWith .animation fun s => .ok s.currentAnimation
  | .renderAttributes v => answerWith .attributes fun s => s.renderAttributes? v
  | .renderView v => answerWith .rendered fun s => s.renderView? v
  | .renderPage => .rendered <$> renderPage
  | .renderUpdates => .patch <$> renderUpdates
  | .on v event handler options => do on v event handler options; return .done
  | .onNamed v event handler options => do onNamed v event handler options; return .done
  | .removeEvent v event => .flag <$> removeEvent v event
  | .pendingContinuations => answerWith .count fun s => .ok s.continuations.size
  | .dispatch v event value => .patch <$> dispatch run v event value
  | .dispatchWire v event value => .patch <$> dispatchWire run v event value
  | .resume id => .patch <$> resume run id

/-- **One request**; handlers may run handlers to the given depth. -/
def perform : Nat → Request → Operation Answer
  | 0 => performWith fun _ => throw .nestedTooDeeply
  | depth + 1 => performWith fun script => script.run (perform depth)

/-- How deeply handlers may run handlers: past anything that a machine has room for, so that only
handlers that run each other without end get there. -/
def nestingLimit : Nat := UInt32.size

/-- **A script at the top level**. -/
def run (script : Script) : Operation Ending := script.run (perform nestingLimit)

end Session

end AnchorLayout
