import AnchorLayout.Proofs.Session.Act
/-!
# Requests unfold into acts

  The acts of a request whose handlers run to their ends leave the session that the request leaves,
  and the last of them sends what the request answers.  So whatever holds after every list of acts
  holds after every request, and at every point of every handler that it runs.

  1. **One request (`performWith_of_stageOf?`)** — what leads up to the handler, the handler, and
     the patch; a request without a handler does not depend on how handlers are run.
  2. **Scripts (`afterActs_scriptActs`)** — by induction on the script.
  3. **The crux (`afterActs_acts`)** — by induction on the depth to which handlers run handlers.
-/

namespace AnchorLayout

namespace Session

/-! ## One request -/

/-- A request answered once its handler has run. -/
def answered (handling : Operation (Option ContinuationId)) : Operation Patch := do
  let continuation ← handling
  let patch ← renderUpdates
  return { patch with continuation }

variable {run run' : Script → Operation Ending}

/-- A handler is run as the first of its stages. -/
theorem runHandler_eq (handler : Handler) (v : ViewId) (event : EventName) (value : Json) :
    runHandler run handler v event value =
      (Stage.ofHandler ⟨v, event, value⟩ handler).operation run := by
  cases handler <;> rfl

/-- What leads up to the handler of an event: what the binding has left suspended is discarded. -/
def beginEvent (s : Session) (v : ViewId) (event : EventName) : Session :=
  if (s.discardBinding v event).continuations.size < s.continuations.size then
    (s.discardBinding v event).markDirty v
  else s.discardBinding v event

/-- **An event** on a view that is there: what leads up to the handler, and then the handler. -/
theorem dispatch_apply {v : ViewId} {s : Session} {found : View} (h : s.views.get? v = some found)
    (event : EventName) (value : Json) :
    dispatch run v event value s = (match s.stageOn? v event value with
      | none => renderUpdates
      | some stage => answered (stage.operation run)) (s.beginEvent v event) := by
  have hv : view v s = .ok found s := by rw [view_apply, h]
  have hstage : s.stageOn? v event value = (found.bindings.get? event).map fun binding =>
      Stage.ofHandler ⟨v, event, value⟩ binding.handler := by
    rw [stageOn?, h]
    rfl
  have hrest : dispatch run v event value s = ((found.bindings.get? event).elim renderUpdates
      fun binding => answered (runHandler run binding.handler v event value))
        (s.beginEvent v event) := by
    refine (Operation.bind_of_ok hv _).trans ?_
    unfold beginEvent
    -- the view is marked only if something has been discarded
    by_cases hlt : (s.discardBinding v event).continuations.size < s.continuations.size
    · rw [if_pos hlt]
      show (if _ then _ else _ : Operation Patch) _ = _
      rw [if_pos hlt]
      cases found.bindings.get? event <;> rfl
    · rw [if_neg hlt]
      show (if _ then _ else _ : Operation Patch) _ = _
      rw [if_neg hlt]
      cases found.bindings.get? event <;> rfl
  rw [hrest, hstage]
  cases found.bindings.get? event with
  | none => rfl
  | some binding =>
    show answered _ _ = answered _ _
    rw [runHandler_eq]

/-- An event on a view that is not there fails before anything else. -/
theorem dispatch_of_noView {v : ViewId} {s : Session} (h : s.views.get? v = none)
    (event : EventName) (value : Json) :
    dispatch run v event value s = .error (.noView v) s := by
  have hv : view v s = .error (.noView v) s := by rw [view_apply, h]
  exact Operation.bind_of_error hv _

/-- What leads up to a handler, where running one fails at once. -/
theorem stage_cutOff (stage : Stage) (s : Session) :
    stage.operation (fun _ => throw .nestedTooDeeply) s = .error .nestedTooDeeply s := by
  cases stage <;> rfl

theorem map_congr {α β : Type} (f : α → β) {operation operation' : Operation α} {s s' : Session}
    (h : operation s = operation' s') : (f <$> operation) s = (f <$> operation') s' := by
  show EStateM.map f operation s = EStateM.map f operation' s'
  simp only [EStateM.map, h]

/-- A stage that is cut off where it begins leaves the session as it was, so the act for it is what
leads up to the handler. -/
theorem after_map_answered_cutOff (stage : Stage) (s : Session) :
    Operation.after (Answer.patch <$> answered (stage.operation fun _ => throw .nestedTooDeeply))
      s = s := by
  rw [Operation.after_map]
  exact Operation.after_of_error (Operation.bind_of_error (stage_cutOff stage s) _)

/-- A request that runs a handler, given what it does up to the handler. -/
theorem performWith_of_begin {request : Request} {stage : Stage} {s begun : Session}
    (h : ∀ run, performWith run request s = (Answer.patch <$> answered (stage.operation run)) begun) :
    performWith run request s = (Answer.patch <$> answered (stage.operation run))
      (s.afterAct (.request request)) := by
  have hbegun : s.afterAct (.request request) = begun := by
    show Operation.after (performWith (fun _ => throw .nestedTooDeeply) request) s = begun
    rw [Operation.after, h]
    exact after_map_answered_cutOff stage begun
  rw [hbegun, h]

/-- An event with a handler: what leads up to it, and then its first stage. -/
theorem dispatch_of_stage {v : ViewId} {event : EventName} {value : Json} {stage : Stage}
    {s : Session} (h : s.stageOn? v event value = some stage) :
    dispatch run v event value s = answered (stage.operation run) (s.beginEvent v event) := by
  cases hv : s.views.get? v with
  | none => simp [stageOn?, hv] at h
  | some found => rw [dispatch_apply hv, h]

/-- Without a handler it does not matter how handlers are run. -/
theorem dispatch_of_noStage {v : ViewId} {event : EventName} {value : Json} {s : Session}
    (h : s.stageOn? v event value = none) :
    dispatch run v event value s = dispatch run' v event value s := by
  cases hv : s.views.get? v with
  | none => rw [dispatch_of_noView hv, dispatch_of_noView hv]
  | some found => rw [dispatch_apply hv, dispatch_apply hv, h]

/-- Looking a view up by its text changes nothing, and finds the view that the text names. -/
theorem lookup_eq_ok {text : String} {s s' : Session} {v : ViewId} (h : lookup text s = .ok v s') :
    s' = s ∧ ViewId.parse? text = some v := by
  unfold lookup at h
  cases hp : ViewId.parse? text with
  | none => simp only [hp] at h; cases h
  | some w =>
    simp only [hp] at h
    obtain ⟨found, s₁, hview, hpure⟩ := Operation.bind_eq_ok h
    cases hpure
    exact ⟨(view_eq_ok hview).1, rfl⟩

/-- **An event from the client that runs a stage** names a view and an event, and the stage is the
one of that event on that view. -/
theorem stageOf?_dispatchWire {text name : String} {value : Json} {stage : Stage} {s : Session}
    (h : s.stageOf? (.dispatchWire text name value) = some stage) :
    ∃ v event, lookup text s = .ok v s ∧ ViewId.parse? text = some v ∧
      EventName.ofName? name = some event ∧ s.stageOn? v event value = some stage := by
  simp only [stageOf?] at h
  cases hl : lookup text s with
  | error e s' => simp only [hl] at h; cases h
  | ok v s' =>
    obtain ⟨rfl, hp⟩ := lookup_eq_ok hl
    cases hn : EventName.ofName? name with
    | none => simp only [hl, hn] at h; cases h
    | some event =>
      simp only [hl, hn] at h
      exact ⟨v, event, rfl, hp, rfl, h⟩

/-- **An event from the client**: the view is looked up first, then the event. -/
theorem dispatchWire_apply (text name : String) (value : Json) (s : Session) :
    dispatchWire run text name value s = match lookup text s with
      | .ok v s' => (match EventName.ofName? name with
        | some event => dispatch run v event value s'
        | none => .error (.unknownEvent name) s')
      | .error e s' => .error e s' := by
  cases h : lookup text s with
  | error e s' => exact Operation.bind_of_error h _
  | ok v s' =>
    refine (Operation.bind_of_ok h _).trans ?_
    cases EventName.ofName? name <;> rfl

/-- A follow-up request for what is in the table: it is taken, and then its stage is run. -/
theorem resume_of_stage {id : ContinuationId} {stage : Stage} {s : Session}
    (h : s.stageAfter? id = some stage) : ∃ begun, ∀ run,
      resume run id s = answered (stage.operation run) begun := by
  unfold stageAfter? at h
  cases ht : take id s with
  | error e s' => rw [ht] at h; cases h
  | ok c s' =>
    simp only [ht] at h
    split at h
    · next hc =>
      cases h
      refine ⟨s'.markDirty c.view, fun run => ?_⟩
      obtain ⟨found, hfound⟩ := Option.isSome_iff_exists.1 hc
      have hv : view c.view s' = .ok found s' := by
        rw [view_apply, show s'.views.get? c.view = some found from hfound]
      exact (Operation.bind_of_ok ht _).trans (Operation.bind_of_ok hv _)
    · cases h

/-- One for what is not in the table does not run anything. -/
theorem resume_of_noStage {id : ContinuationId} {s : Session} (h : s.stageAfter? id = none) :
    resume run id s = resume run' id s := by
  unfold stageAfter? at h
  cases ht : take id s with
  | error e s' => rw [resume, resume, Operation.bind_of_error ht, Operation.bind_of_error ht]
  | ok c s' =>
    simp only [ht] at h
    split at h
    · cases h
    · next hc =>
      have hnone : s'.views.get? c.view = none := by
        cases hg : s'.views.get? c.view with
        | none => rfl
        | some _ => exact absurd (by simp [contains, OrderedMap.contains, hg]) hc
      have hv : view c.view s' = .error (.noView c.view) s' := by rw [view_apply, hnone]
      rw [resume, resume, Operation.bind_of_ok ht, Operation.bind_of_ok ht,
        Operation.bind_of_error hv, Operation.bind_of_error hv]

/-- **A request with a handler**: what leads up to the handler, the handler, and the patch. -/
theorem performWith_of_stageOf? {request : Request} {stage : Stage} {s : Session}
    (h : s.stageOf? request = some stage) :
    performWith run request s = (Answer.patch <$> answered (stage.operation run))
      (s.afterAct (.request request)) := by
  cases request with
  | dispatch v event value =>
    exact performWith_of_begin fun run => map_congr _ (dispatch_of_stage h)
  | dispatchWire text name value =>
    obtain ⟨v, event, hl, -, hn, hstage⟩ := stageOf?_dispatchWire h
    -- the view that is looked up does not depend on how handlers are run
    have hbegin : ∀ run, dispatchWire run text name value s =
        answered (stage.operation run) (s.beginEvent v event) := by
      intro run
      rw [dispatchWire_apply, hl]
      simp only [hn]
      exact dispatch_of_stage hstage
    exact performWith_of_begin fun run => map_congr _ (hbegin run)
  | resume id =>
    have hstage : s.stageAfter? id = some stage := h
    obtain ⟨begun, hbegun⟩ := resume_of_stage hstage
    exact performWith_of_begin fun run => map_congr _ (hbegun run)
  | _ => exact absurd h (by simp [stageOf?])

/-- A request without a handler does not depend on how handlers are run. -/
theorem performWith_of_noStage {request : Request} {s : Session} (h : s.stageOf? request = none) :
    performWith run request s = performWith run' request s := by
  cases request with
  | dispatch v event value => exact map_congr _ (dispatch_of_noStage h)
  | dispatchWire text name value =>
    refine map_congr _ ?_
    simp only [stageOf?] at h
    rw [dispatchWire_apply, dispatchWire_apply]
    cases hl : lookup text s with
    | error e s' => rfl
    | ok v s' =>
      cases hn : EventName.ofName? name with
      | none => rfl
      | some event =>
        simp only [hl, hn] at h
        obtain ⟨rfl, -⟩ := lookup_eq_ok hl
        exact dispatch_of_noStage h
  | resume id => exact map_congr _ (resume_of_noStage h)
  | _ => rfl

theorem perform_of_noStage {request : Request} {s : Session} (h : s.stageOf? request = none)
    (depth : Nat) : perform depth request s = perform 0 request s := by
  cases depth with
  | zero => rfl
  | succ depth => exact performWith_of_noStage h

/-! ## Stages and their patch -/

/-- `runActs` gives acts that leave what `run` leaves. -/
def RunsAs (run : Script → Operation Ending) (runActs : Script → Session → List Act) : Prop :=
  ∀ script s, s.afterActs (runActs script s) = (run script).after s

variable {runActs : Script → Session → List Act}

/-- A suspension always succeeds. -/
theorem suspend_apply (c : Continuation) (s : Session) : ∃ id s', suspend c s = .ok id s' :=
  ⟨_, _, rfl⟩

/-- **The acts of a stage** leave what the stage leaves: those of its script, and a suspension and a
mark where it suspends. -/
theorem afterActs_stageActs (h : RunsAs run runActs) (stage : Stage) (s : Session) :
    s.afterActs (stage.acts run runActs s) = (stage.operation run).after s := by
  rw [Stage.acts, afterActs_append, h]
  cases stage with
  | once body =>
    show (run body).after s = _
    rw [Stage.operation, Operation.after_bind]
    cases hr : run body s with
    | ok ending s' => exact Operation.after_of_ok hr
    | error e s' => exact Operation.after_of_error hr
  | step resume point context =>
    simp only [Stage.script]
    rw [Stage.operation, Session.step, Operation.after_bind]
    cases hr : run (resume point context) s with
    | error e s' => exact Operation.after_of_error hr
    | ok ending s' =>
      rw [Operation.after_of_ok hr]
      cases ending with
      | done value => rfl
      | suspended next yielded =>
        -- a suspension cannot fail, so the mark comes right behind it
        obtain ⟨id, s₁, hs⟩ := suspend_apply
          ⟨resume, next, yielded, context.view, context.event, s'.clock⟩ s'
        have hact : s'.afterAct (.suspend
            ⟨resume, next, yielded, context.view, context.event, s'.clock⟩) = s₁ :=
          (Operation.after_map _ _ _).trans (Operation.after_of_ok hs)
        show (s'.afterAct _).afterAct (.request (.markDirty context.view)) = _
        rw [hact]
        symm
        refine Operation.after_of_ok (a := some id) ?_
        show ((suspend _ >>= fun id => do
          modify fun s => s.markDirty context.view
          return some id) : Operation (Option ContinuationId)) s' = _
        rw [Operation.bind_of_ok hs]
        rfl

/-- The act for a patch is the rendering of it. -/
theorem afterAct_renderUpdates (s : Session) :
    s.afterAct (.request .renderUpdates) = renderUpdates.after s :=
  Operation.after_map _ _ _

/-- A handling that has succeeded is followed by the patch, and one that has failed by nothing. -/
theorem afterActs_answeringActs (handling : Operation (Option ContinuationId)) (s : Session) :
    (handling.after s).afterActs (answeringActs (handling s)) = (answered handling).after s := by
  rw [answered, Operation.after_bind]
  cases hh : handling s with
  | error e s' => exact Operation.after_of_error hh
  | ok continuation s' =>
    rw [Operation.after_of_ok hh]
    show s'.afterAct (.request .renderUpdates) =
      Operation.after (renderUpdates >>= fun patch => pure { patch with continuation }) s'
    rw [afterAct_renderUpdates, Operation.after_bind]
    cases hp : renderUpdates s' with
    | ok patch s₁ => exact Operation.after_of_ok hp
    | error e s₁ => exact Operation.after_of_error hp

/-- **The acts of a request** leave what the request leaves. -/
theorem afterActs_actsWith (h : RunsAs run runActs) (request : Request) (s : Session) :
    s.afterActs (actsWith run runActs request s) = (performWith run request).after s := by
  rw [actsWith, afterActs_cons]
  cases hs : s.stageOf? request with
  | none =>
    show s.afterAct (.request request) = _
    rw [Operation.after, performWith_of_noStage hs]
    rfl
  | some stage =>
    -- what leads up to the handler is the act of the request itself
    rw [afterActs_append, afterActs_stageActs h, afterActs_answeringActs,
      ← Operation.after_map Answer.patch, Operation.after, ← performWith_of_stageOf? hs]
    rfl

/-! ## Scripts -/

/-- A script that makes a request goes on from what it has left and answered. -/
theorem after_run_ask (perform : Request → Operation Answer) (request : Request)
    (next : Except Error Answer → Script) (s : Session) :
    ((Script.ask request next).run perform).after s =
      ((next ((perform request).answer s)).run perform).after ((perform request).after s) := by
  rw [Script.run, Operation.after_bind, Operation.attempt_apply]
  rfl

/-- The animation is taken away again whether the body answers or fails. -/
theorem after_run_animate (perform : Request → Operation Answer) (animation : Animation)
    (body : Script) (next : Except Error Ending → Script) (s : Session) :
    ((Script.animate animation body next).run perform).after s =
      ((next ((body.run perform).answer (s.afterAct (.enter animation)))).run perform).after
        (((body.run perform).after (s.afterAct (.enter animation))).afterAct .leave) := by
  have hanimate : animate animation (body.run perform) s =
      .ok ((body.run perform).answer (s.afterAct (.enter animation)))
        (((body.run perform).after (s.afterAct (.enter animation))).afterAct .leave) := by
    refine (Operation.bind_of_ok (Operation.attempt_apply _ _) _).trans ?_
    rfl
  rw [Script.run, Operation.after_bind, hanimate]

/-- **The acts of a script** leave what the script leaves, if those of its requests do. -/
theorem afterActs_scriptActs {perform : Request → Operation Answer}
    {requestActs : Request → Session → List Act}
    (h : ∀ request s, s.afterActs (requestActs request s) = (perform request).after s) :
    ∀ (script : Script) (s : Session),
      s.afterActs (script.acts perform requestActs s) = (script.run perform).after s
  | .done _, _ => rfl
  | .suspend _ _, _ => rfl
  | .fail _, _ => rfl
  | .ask request next, s => by
    rw [Script.acts, afterActs_append, h, afterActs_scriptActs h, after_run_ask]
  | .animate animation body next, s => by
    rw [Script.acts, List.cons_append, afterActs_cons, afterActs_append, afterActs_cons,
      afterActs_scriptActs h body, afterActs_scriptActs h, after_run_animate]
  | .note entry next, s => by
    rw [Script.acts, afterActs_cons, afterActs_scriptActs h]
    rfl
  | .consult next, s => by
    rw [Script.acts, afterActs_scriptActs h]
    rfl

/-! ## Depth -/

/-- **Unfolding**: a request leaves what its acts leave, however deeply its handlers run
handlers. -/
theorem afterActs_acts : ∀ (depth : Nat) (request : Request) (s : Session),
    s.afterActs (acts depth request s) = (perform depth request).after s
  | 0, _, _ => rfl
  | depth + 1, request, s =>
    -- the handlers of this request run their requests one level down
    afterActs_actsWith (fun script s => afterActs_scriptActs (afterActs_acts depth) script s)
      request s

/-! ## What is sent -/

/-- What is made of an answer is made where there is one. -/
theorem map_eq_ok {α β : Type} {f : α → β} {operation : Operation α} {s s' : Session} {b : β}
    (h : (f <$> operation) s = .ok b s') : ∃ a, operation s = .ok a s' ∧ f a = b := by
  replace h : EStateM.map f operation s = .ok b s' := h
  cases ho : operation s with
  | error e s₁ => simp [EStateM.map, ho] at h
  | ok a s₁ =>
    simp only [EStateM.map, ho, EStateM.Result.ok.injEq] at h
    exact ⟨a, by rw [h.2], h.1⟩

theorem shipped?_request_of_patch {request : Request} {s s' : Session} {p : Patch}
    (h : perform 0 request s = .ok (.patch p) s') :
    (Act.request request).shipped? s = some p.roots := by
  simp only [Act.shipped?, Act.operation, h]

/-- The last act of a request that answers with a patch sends the roots of the patch. -/
theorem acts_of_patch {depth : Nat} {request : Request} {s s' : Session} {p : Patch}
    (h : perform depth request s = .ok (.patch p) s') :
    ∃ before a, acts depth request s = before ++ [a] ∧
      a.shipped? (s.afterActs before) = some p.roots := by
  cases depth with
  | zero => exact ⟨[], _, rfl, shipped?_request_of_patch h⟩
  | succ depth =>
    change performWith _ request s = _ at h
    show ∃ before a, actsWith _ _ request s = before ++ [a] ∧ _
    rw [actsWith]
    cases hs : s.stageOf? request with
    | none =>
      have hfirst : perform 0 request s = .ok (.patch p) s' := by
        show performWith _ request s = _
        rw [performWith_of_noStage hs, h]
      exact ⟨[], _, rfl, shipped?_request_of_patch hfirst⟩
    | some stage =>
      rw [performWith_of_stageOf? hs] at h
      obtain ⟨q, hq, hpq⟩ := map_eq_ok h
      obtain ⟨continuation, s₁, hstage, hpatch⟩ := Operation.bind_eq_ok hq
      obtain ⟨r, s₂, hrender, hpure⟩ := Operation.bind_eq_ok hpatch
      cases hpure
      cases hpq
      -- the patch of a request with a handler is rendered by the last of its acts
      refine ⟨.request request :: stage.acts (fun script => script.run (perform depth))
        (fun script => script.acts (perform depth) (acts depth)) (s.afterAct (.request request)),
        .request .renderUpdates, ?_, ?_⟩
      · simp only [hstage, answeringActs, List.cons_append]
      · have hlast : perform 0 .renderUpdates s₁ = .ok (.patch r) s' := by
          show EStateM.map _ renderUpdates s₁ = _
          simp only [EStateM.map, hrender]
        rw [afterActs_cons, afterActs_stageActs fun script s =>
          afterActs_scriptActs (afterActs_acts depth) script s, Operation.after_of_ok hstage]
        rw [shipped?_request_of_patch hlast]

end Session

/-! ## Calls -/

/-- A call: an act, or a request whose handlers may run handlers to the given depth. -/
inductive Call where
  | act (a : Act)
  | request (depth : Nat) (request : Request)

namespace Call

/-- A call as an operation. -/
def operation : Call → Operation Answer
  | act a => a.operation
  | request depth r => Session.perform depth r

/-- The acts of a call. -/
def acts : Call → Session → List Act
  | act a, _ => [a]
  | request depth r, s => Session.acts depth r s

/-- Whether a call suspends a handler that no request has run. -/
def suspends : Call → Bool
  | act (.suspend _) => true
  | _ => false

/-- **A call leaves what its acts leave.** -/
theorem afterActs_acts (call : Call) (s : Session) :
    s.afterActs (call.acts s) = call.operation.after s := by
  cases call with
  | act a => rfl
  | request depth r => exact Session.afterActs_acts depth r s

end Call

namespace Session

/-- **A session after some calls.** -/
def afterCalls (s : Session) (calls : List Call) : Session :=
  calls.foldl (fun s call => call.operation.after s) s

/-- The acts of some calls, one call after the other. -/
def unfolded : Session → List Call → List Act
  | _, [] => []
  | s, call :: rest => call.acts s ++ unfolded (call.operation.after s) rest

/-- **Some calls leave what their acts leave.** -/
theorem afterActs_unfolded (s : Session) (calls : List Call) :
    s.afterActs (s.unfolded calls) = s.afterCalls calls := by
  induction calls generalizing s with
  | nil => rfl
  | cons call rest ih =>
    rw [unfolded, afterActs_append, call.afterActs_acts, ih]
    rfl

end Session

end AnchorLayout
