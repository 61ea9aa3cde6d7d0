import AnchorLayout.Session.Render
/-!
# Suspended handlers

  Program        `Session.dispatch` (an event), `Session.resume` (a follow-up request),
                 `Session.sweep`.
  Specification  the table of continuations in the order of suspension; an entry leaves it when it
                 is resumed, replaced by a later event, discarded with its binding or view, too
                 old, or the oldest of too many.
  Crux           a continuation is taken out of the table before its handler runs, so that it runs
                 at most once.
-/

namespace AnchorLayout

namespace Session

/-! ## The table -/

/-- The continuations that pass a test. -/
def keepContinuations (s : Session) (keep : Continuation → Bool) : Session :=
  { s with continuations := s.continuations.filter fun _ c => keep c }

/-- What a binding has left suspended is forgotten. -/
def discardBinding (s : Session) (v : ViewId) (event : EventName) : Session :=
  s.keepContinuations fun c => !(c.view == v && c.event == event)

/-- What a view has left suspended is forgotten. -/
def discardView (s : Session) (v : ViewId) : Session := s.keepContinuations fun c => c.view ≠ v

/-- What is too old is forgotten. -/
def expire (s : Session) : Session :=
  s.keepContinuations fun c => s.clock - c.created < s.options.lifetime

/-- The continuations without the oldest ones that are too many. -/
def evict (s : Session) : Session :=
  { s with
    continuations := ⟨s.continuations.entries.drop
        (s.continuations.size - s.options.maxContinuations),
      (s.continuations.distinct.sublist ((List.drop_sublist _ _).map Prod.fst))⟩ }

/-- A continuation suspended under a fresh identifier. -/
def suspend (c : Continuation) : Operation ContinuationId := do
  let s ← get
  let id := s.issuer.id s.issued
  modify fun s => { s with issued := s.issued + 1 }
  -- age is checked before the new entry is there, number after
  modify expire
  modify fun s => { s with continuations := s.continuations.insert id c }
  modify evict
  return id

/-- A continuation taken out of the table, unless it is too old. -/
def take (id : ContinuationId) : Operation Continuation := do
  modify expire
  match (← get).continuations.get? id with
  | some c =>
    modify fun s => { s with continuations := s.continuations.erase id }
    return c
  | none => throw (.continuationNotFound id.text)

/-! ## Bindings -/

/-- A handler bound to an event of a view. -/
def on (v : ViewId) (event : EventName) (handler : Handler) (options : BindingOptions) :
    Operation Unit := do
  update v fun view => view.updateBindings fun b => b.bind event ⟨handler, options⟩
  modify fun s => s.markDirty v

/-- A handler bound to an event given by name. -/
def onNamed (v : ViewId) (event : String) (handler : Handler) (options : BindingOptions) :
    Operation Unit := do
  match EventName.ofName? event with
  | some event => on v event handler options
  | none => throw (.unknownEvent event)

/-- The handler of an event removed, with what it left suspended; whether there was one. -/
def removeEvent (v : ViewId) (event : EventName) : Operation Bool := do
  let bound := ((← view v).bindings.get? event).isSome
  if bound then
    modify fun s => s.modifyView v fun view => view.updateBindings fun b => b.unbind event
    modify fun s => s.discardBinding v event
    modify fun s => s.markDirty v
  return bound

/-! ## Running handlers -/

/-- **One step** of a suspendable handler; when it suspends, its continuation is kept. -/
def step (run : Script → Operation Ending) (resume : ResumePoint → Context → Script)
    (v : ViewId) (event : EventName) (point : ResumePoint) (value : Json) :
    Operation (Option ContinuationId) := do
  match (← run (resume point ⟨v, event, value⟩)) with
  | .done _ => return none
  | .suspended next yielded =>
    let id ← suspend ⟨resume, next, yielded, v, event, (← get).clock⟩
    modify fun s => s.markDirty v
    return some id

/-- A handler from its beginning. -/
def runHandler (run : Script → Operation Ending) (handler : Handler) (v : ViewId)
    (event : EventName) (value : Json) : Operation (Option ContinuationId) :=
  match handler with
  | .once body => do
    let _ ← run (body ⟨v, event, value⟩)
    return none
  | .suspendable resume => step run resume v event .start value

/-- **An event** on a view: its handler runs, and what changed is rendered.  What the binding had
left suspended is discarded first. -/
def dispatch (run : Script → Operation Ending) (v : ViewId) (event : EventName) (value : Json) :
    Operation Patch := do
  -- the binding is looked up now: its handler may replace it
  let binding := (← view v).bindings.get? event
  let before := (← get).continuations.size
  modify fun s => s.discardBinding v event
  if (← get).continuations.size < before then modify fun s => s.markDirty v
  match binding with
  | none => renderUpdates
  | some binding =>
    let continuation ← runHandler run binding.handler v event value
    let patch ← renderUpdates
    return { patch with continuation }

/-- An event as it arrives from the client. -/
def dispatchWire (run : Script → Operation Ending) (v event : String) (value : Json) :
    Operation Patch := do
  let v ← lookup v
  match EventName.ofName? event with
  | some event => dispatch run v event value
  | none => throw (.unknownEvent event)

/-- **A follow-up request**: the suspended handler goes on where it left off. -/
def resume (run : Script → Operation Ending) (id : ContinuationId) : Operation Patch := do
  let c ← take id
  let _ ← view c.view
  modify fun s => s.markDirty c.view
  let continuation ← step run c.resume c.view c.event c.next c.yielded
  let patch ← renderUpdates
  return { patch with continuation }

/-! ## Sweeping -/

/-- The views that are not below the root. -/
def unreachable (s : Session) : List ViewId :=
  let reachable := s.root :: s.descendants s.root
  s.views.keys.filter fun v => v ∉ reachable

/-- A view forgotten, with its dirty mark and what it left suspended. -/
def forget (s : Session) (v : ViewId) : Session :=
  { s with views := s.views.erase v, dirty := s.dirty.erase v }.discardView v

/-- **Sweeping**: every view that is not below the root is forgotten; how many there were. -/
def sweep : Operation Nat := do
  let doomed := (← get).unreachable
  modify fun s => doomed.foldl forget s
  return doomed.length

end Session

end AnchorLayout
