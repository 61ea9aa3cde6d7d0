import AnchorLayout.Proofs.Operation
import AnchorLayout.Session.Run
/-!
# Acts

  What happens to a session is a list of acts.  Requests are acts, and so is everything that a
  handler does between two of them; a request that runs a handler is the act that leads up to the
  handler, then the acts of the handler, and then the acts that answer the request.  So a session
  in the middle of a handler is a session after some acts, like any other.

  1. **Program** — `Act.operation`, one act; `Session.afterActs`, a list of them.
  2. **Specification** — `Act.shipped?` (what an act sends to the client), `Session.shippedBy`
     (what a list of acts has sent), `Session.creations` (how many views it registers).
  3. **Unfolding** — `Session.acts`, the acts of a request whose handlers run to their ends, and
     `Script.acts`, those of a script.  That they leave what the request leaves is proved in
     `Proofs/Session/Unfolding`.
-/

namespace AnchorLayout

/-- One thing that happens in a session.  Any list of acts may happen: more than any handler
does. -/
inductive Act where
  /-- A request; a handler that it would run is cut off where it begins. -/
  | request (request : Request)
  /-- A handler has suspended. -/
  | suspend (continuation : Continuation)
  /-- An animation comes into force. -/
  | enter (animation : Animation)
  /-- The innermost animation is over. -/
  | leave
  /-- An entry in the journal. -/
  | note (entry : Json)
  /-- The clock is set. -/
  | tick (clock : Nat)

namespace Act

/-- An act as an operation. -/
def operation : Act → Operation Answer
  | request r => Session.perform 0 r
  | suspend c => (fun _ => .done) <$> Session.suspend c
  | enter a => do
    modify fun s => { s with animations := s.layered a :: s.animations }
    return .done
  | leave => do
    modify fun s => { s with animations := s.animations.tail }
    return .done
  | note entry => do
    modify fun s => { s with journal := entry :: s.journal }
    return .done
  | tick clock => do
    modify fun s => { s with clock }
    return .done

/-- What an act sends to the client: the roots of a patch, or a page. -/
def shipped? (a : Act) (s : Session) : Option (List RenderedView) :=
  match a, a.operation s with
  | _, .ok (.patch p) _ => some p.roots
  | request .renderPage, .ok (.rendered page) _ => some [page]
  | _, _ => none

end Act

namespace Session

/-! ## Lists of acts -/

/-- A session after an act. -/
def afterAct (s : Session) (a : Act) : Session := a.operation.after s

/-- **A session after some acts.** -/
def afterActs (s : Session) (acts : List Act) : Session := acts.foldl afterAct s

/-- The number of views that some acts register. -/
def creations : Session → List Act → Nat
  | _, [] => 0
  | s, a :: rest =>
    (if (s.afterAct a).nextId = s.nextId then 0 else 1) + creations (s.afterAct a) rest

/-- Everything that some acts send to the client, in order. -/
def shippedBy : Session → List Act → List RenderedView
  | _, [] => []
  | s, a :: rest => (a.shipped? s).getD [] ++ shippedBy (s.afterAct a) rest

/-- A property of the session before, between and after some acts. -/
def Along (holds : Session → Prop) : Session → List Act → Prop
  | s, [] => holds s
  | s, a :: rest => holds s ∧ Along holds (s.afterAct a) rest

@[simp] theorem afterActs_nil (s : Session) : s.afterActs [] = s := rfl

@[simp] theorem afterActs_cons (s : Session) (a : Act) (rest : List Act) :
    s.afterActs (a :: rest) = (s.afterAct a).afterActs rest := rfl

@[simp] theorem afterActs_append (s : Session) (acts more : List Act) :
    s.afterActs (acts ++ more) = (s.afterActs acts).afterActs more :=
  List.foldl_append

theorem Along.head {holds : Session → Prop} {s : Session} {acts : List Act}
    (h : Along holds s acts) : holds s := by
  cases acts with
  | nil => exact h
  | cons a rest => exact h.1

theorem along_append {holds : Session → Prop} {s : Session} {acts more : List Act} :
    Along holds s (acts ++ more) ↔ Along holds s acts ∧ Along holds (s.afterActs acts) more := by
  induction acts generalizing s with
  | nil => exact ⟨fun h => ⟨h.head, h⟩, fun h => h.2⟩
  | cons a rest ih =>
    show holds s ∧ Along holds (s.afterAct a) (rest ++ more) ↔ (holds s ∧ _) ∧ _
    rw [ih, and_assoc]
    rfl

instance decidableAlong {holds : Session → Prop} [DecidablePred holds] :
    ∀ (s : Session) (acts : List Act), Decidable (Along holds s acts)
  | s, [] => inferInstanceAs (Decidable (holds s))
  | s, a :: rest =>
    have : Decidable (Along holds (s.afterAct a) rest) := decidableAlong (s.afterAct a) rest
    inferInstanceAs (Decidable (holds s ∧ Along holds (s.afterAct a) rest))

end Session

/-! ## The handler of a request -/

/-- What a request runs: a script, or one step of a handler that can suspend. -/
inductive Stage where
  | once (body : Script)
  | step (resume : ResumePoint → Context → Script) (point : ResumePoint) (context : Context)

namespace Stage

/-- The first stage of a handler. -/
def ofHandler (context : Context) : Handler → Stage
  | .once body => once (body context)
  | .suspendable resume => step resume .start context

/-- The script of a stage. -/
def script : Stage → Script
  | once body => body
  | step resume point context => resume point context

/-- A stage run, for which `run` runs its script. -/
def operation (run : Script → Operation Ending) : Stage → Operation (Option ContinuationId)
  | once body => do
    let _ ← run body
    return none
  | step resume point context =>
    Session.step run resume context.view context.event point context.value

/-- What a stage does once its script has ended: it may suspend. -/
def closingActs : Stage → EStateM.Result Error Session Ending → List Act
  | step resume _ context, .ok (.suspended next yielded) s =>
    [.suspend ⟨resume, next, yielded, context.view, context.event, s.clock⟩,
      .request (.markDirty context.view)]
  | _, _ => []

/-- The acts of a stage, for which `runActs` gives those of its script. -/
def acts (run : Script → Operation Ending) (runActs : Script → Session → List Act) (stage : Stage)
    (s : Session) : List Act :=
  runActs stage.script s ++ stage.closingActs (run stage.script s)

end Stage

namespace Session

/-- What an event on a view runs, if anything. -/
def stageOn? (s : Session) (v : ViewId) (event : EventName) (value : Json) : Option Stage :=
  ((s.views.get? v).bind fun view => view.bindings.get? event).map fun binding =>
    .ofHandler ⟨v, event, value⟩ binding.handler

/-- **The first step of a handler that can suspend** is one of its own event, with the value of the
event. -/
theorem stageOn?_eq_step {s : Session} {v : ViewId} {event : EventName} {value : Json}
    {resume : ResumePoint → Context → Script} {point : ResumePoint} {context : Context}
    (h : s.stageOn? v event value = some (.step resume point context)) :
    point = .start ∧ context = ⟨v, event, value⟩ := by
  obtain ⟨binding, -, hbinding⟩ := Option.map_eq_some_iff.1 h
  cases hhandler : binding.handler with
  | once body =>
    rw [hhandler] at hbinding
    cases hbinding
  | suspendable resume =>
    rw [hhandler] at hbinding
    injection hbinding with _ hpoint hcontext
    exact ⟨hpoint.symm, hcontext.symm⟩

/-- What a continuation runs, if it is there and its view still is. -/
def stageAfter? (s : Session) (id : ContinuationId) : Option Stage :=
  match take id s with
  | .ok c s' =>
    if s'.contains c.view then some (.step c.resume c.next ⟨c.view, c.event, c.yielded⟩) else none
  | .error .. => none

/-- **The handler of a request**, if the request runs one. -/
def stageOf? (s : Session) : Request → Option Stage
  | .dispatch v event value => s.stageOn? v event value
  | .dispatchWire text name value =>
    match lookup text s, EventName.ofName? name with
    | .ok v _, some event => s.stageOn? v event value
    | _, _ => none
  | .resume id => s.stageAfter? id
  | _ => none

/-- What comes after the handler of a request: the patch, unless the handler has failed. -/
def answeringActs : EStateM.Result Error Session (Option ContinuationId) → List Act
  | .ok .. => [.request .renderUpdates]
  | .error .. => []

/-- The acts of a request whose handler is run by `run`, for which `runActs` gives the acts. -/
def actsWith (run : Script → Operation Ending) (runActs : Script → Session → List Act)
    (request : Request) (s : Session) : List Act :=
  .request request :: match s.stageOf? request with
    | none => []
    | some stage =>
      stage.acts run runActs (s.afterAct (.request request)) ++
        answeringActs (stage.operation run (s.afterAct (.request request)))

end Session

/-! ## Unfolding -/

/-- The answer of an operation. -/
def Operation.answer {α : Type} (operation : Operation α) (s : Session) : Except Error α :=
  match operation s with
  | .ok a _ => .ok a
  | .error e _ => .error e

/-- The answer of an operation that succeeds. -/
theorem Operation.answer_of_ok {α : Type} {operation : Operation α} {s s' : Session} {a : α}
    (h : operation s = .ok a s') : operation.answer s = .ok a := by
  rw [answer, h]

/-- The answer of one that fails. -/
theorem Operation.answer_of_error {α : Type} {operation : Operation α} {s s' : Session} {e : Error}
    (h : operation s = .error e s') : operation.answer s = .error e := by
  rw [answer, h]

/-- **An operation whose answer is no error succeeds.**  Whether the answer of a closed run is an
error can be evaluated, and what the run leaves is then named by this lemma. -/
theorem Operation.exists_ok_of_isOk {α : Type} {operation : Operation α} {s : Session}
    (h : (operation.answer s).isOk = true) : ∃ a s', operation s = .ok a s' := by
  cases hrun : operation s with
  | ok a s' => exact ⟨a, s', rfl⟩
  | error e s' =>
    rw [answer_of_error hrun] at h
    cases h

/-- And one whose answer is an error fails. -/
theorem Operation.exists_error_of_isOk {α : Type} {operation : Operation α} {s : Session}
    (h : (operation.answer s).isOk = false) : ∃ e s', operation s = .error e s' := by
  cases hrun : operation s with
  | error e s' => exact ⟨e, s', rfl⟩
  | ok a s' =>
    rw [answer_of_ok hrun] at h
    cases h

/-- **The acts of a script**, for which `requestActs` gives those of a request. -/
def Script.acts (perform : Request → Operation Answer) (requestActs : Request → Session → List Act) :
    Script → Session → List Act
  | .done _, _ => []
  | .suspend _ _, _ => []
  | .fail _, _ => []
  | .ask request next, s =>
    requestActs request s ++
      (next ((perform request).answer s)).acts perform requestActs ((perform request).after s)
  | .animate animation body next, s =>
    .enter animation :: body.acts perform requestActs (s.afterAct (.enter animation)) ++
      .leave :: (next ((body.run perform).answer (s.afterAct (.enter animation)))).acts perform
        requestActs (((body.run perform).after (s.afterAct (.enter animation))).afterAct .leave)
  | .note entry next, s =>
    .note entry :: next.acts perform requestActs (s.afterAct (.note entry))
  | .consult next, s => (next s.journal).acts perform requestActs s

/-- **The acts of a request** whose handlers may run handlers to the given depth. -/
def Session.acts : Nat → Request → Session → List Act
  | 0 => fun request _ => [.request request]
  | depth + 1 => actsWith (fun script => script.run (perform depth))
    fun script => script.acts (perform depth) (acts depth)

end AnchorLayout
