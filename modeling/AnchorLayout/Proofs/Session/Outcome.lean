import AnchorLayout.Proofs.Session.Ordinary
import AnchorLayout.Proofs.Session.Unfolding
/-!
# What one act can do

  1. **Specification** — `Session.Outcome change s a`: the act is an ordinary change and sends
     nothing, or it registers a view, or it looks for what has changed, or it sends a patch after an
     ordinary change, or it sends the page, or it sweeps.
  2. **Requests** — those that ask, those that answer once something is done, and those with a
     handler, which is cut off where it begins.
  3. **Handlers** — `Change.Handling`: what the few requests that let go of continuations do before
     any handler runs.
  4. **The crux (`outcome`)** — one case for every request and every other act; whatever is to hold
     after all acts is proved from the outcomes, and the requests are not looked at again.
-/

namespace AnchorLayout

open Operation

/-- The requests that may move views which are there already. -/
def Request.places : Request → Bool
  | .dock .. | .dockNamed .. | .setParent .. | .addChildren .. | .setChrome ..
  | .setContainer .. => true
  | _ => false

/-- The requests that change the rules of a view and leave its place alone. -/
def Request.assigns : Request → Bool
  | .set .. | .setNamed .. | .setComposite .. | .clear .. | .release .. | .fit .. => true
  | _ => false

/-- The requests that write a style of a view. -/
def Request.styles : Request → Bool
  | .setStyle .. | .setStyleNamed .. => true
  | _ => false

/-- The requests that can let go of what handlers have left suspended. -/
def Request.handles : Request → Bool
  | .removeEvent .. | .dispatch .. | .dispatchWire .. | .resume .. => true
  | _ => false

/-- **A handling kind of change** allows what these requests do to a session before a handler runs,
and what happens outside the views and the table. -/
structure Change.Handling (change : Change) (s : Session) : Prop
    extends Change.Touching change where
  aside : ∀ {s'}, Aside s s' → change.Allows s s'
  begin : ∀ v event, change.Allows s (s.beginEvent v event)
  unbind : ∀ v event, change.Allows s ((Session.removeEvent v event).after s)
  takeUp : ∀ id, change.Allows s ((Session.resume (fun _ => throw .nestedTooDeeply) id).after s)

namespace Session

/-- **What an act can do**, where `change` is an ordinary kind of change. -/
inductive Outcome (change : Change) (s : Session) (a : Act) : Prop where
  | ordinary (allowed : change.Allows s (s.afterAct a)) (silent : a.shipped? s = none)
  | created (tag : String) (left : s.afterAct a = s.register tag) (silent : a.shipped? s = none)
  /-- A new view goes under another one at once. -/
  | adopted (parent : ViewId) (known : s.contains parent = true)
      (left : s.afterAct a = (setParent s.nextId (some parent)).after (s.register "div"))
      (silent : a.shipped? s = none)
  | polled (act : a = .request .takeRoots) (silent : a.shipped? s = none)
  | updated (before : Session) (allowed : change.Allows s before)
      (left : a.operation s = (Answer.patch <$> renderUpdates) before)
  | paged (act : a = .request .renderPage)
  | swept (act : a = .request .sweep) (silent : a.shipped? s = none)

/-! ## Plain requests -/

variable {change : Change} {α : Type} {request : Request} {answer : α → Answer}

/-- A request that answers with no patch and no page sends nothing. -/
theorem silent_of_quiet {s : Session} (page : request ≠ .renderPage)
    (quiet : ∀ p s', perform 0 request s ≠ .ok (.patch p) s') :
    (Act.request request).shipped? s = none := by
  unfold Act.shipped?
  split
  · next hok => exact absurd hok (quiet _ _)
  · next hact _ =>
    injection hact with hpage
    exact absurd hpage page
  · rfl

/-- A request that answers with what an operation returns. -/
theorem outcome_of_map {operation : Operation α} {s : Session}
    (is : perform 0 request = answer <$> operation) (page : request ≠ .renderPage)
    (quiet : ∀ a p, answer a ≠ .patch p) (allowed : change.Allows s (operation.after s)) :
    Outcome change s (.request request) := by
  refine .ordinary ?_ (silent_of_quiet page fun p s' hok => ?_)
  · show change.Allows s ((perform 0 request).after s)
    rw [is, Operation.after_map]
    exact allowed
  · rw [is] at hok
    obtain ⟨a, -, ha⟩ := map_eq_ok hok
    exact quiet a p ha

/-- A request that answers no more than that it is done, and of which it is known what it does. -/
theorem outcome_of_allowed {operation : Operation Unit} {s : Session}
    (is : perform 0 request = (do operation; return .done)) (page : request ≠ .renderPage)
    (allowed : change.Allows s (s.afterAct (.request request))) :
    Outcome change s (.request request) := by
  refine .ordinary allowed (silent_of_quiet page fun p s' hok => ?_)
  rw [is] at hok
  obtain ⟨_, s₁, -, hdone⟩ := Operation.bind_eq_ok hok
  cases hdone

/-- What is known of an operation is known of the act that runs it. -/
theorem allows_of_done {operation : Operation Unit}
    (is : perform 0 request = (do operation; return .done)) (h : Only change operation)
    (s : Session) : change.Allows s (s.afterAct (.request request)) := by
  show change.Allows s ((perform 0 request).after s)
  rw [is]
  exact (h.bind fun _ => Only.pure _) s

/-- A request that answers no more than that it is done. -/
theorem outcome_of_done {operation : Operation Unit}
    (is : perform 0 request = (do operation; return .done)) (page : request ≠ .renderPage)
    (h : Only change operation) (s : Session) : Outcome change s (.request request) :=
  outcome_of_allowed is page (allows_of_done is h s)

/-- A request that asks something changes nothing. -/
theorem afterAct_of_question {question : Session → Except Error α}
    (is : perform 0 request = answerWith answer question) (s : Session) :
    s.afterAct (.request request) = s := by
  show (perform 0 request).after s = s
  rw [is]
  show after (Operation.ofExcept (question s) >>= fun a => pure (answer a)) s = s
  cases question s with
  | error e => exact after_of_error (bind_of_error (ofExcept_of_error rfl s) _)
  | ok a => exact after_of_ok (bind_of_ok (ofExcept_of_ok rfl s) _)

/-- So a question has the outcome of doing nothing. -/
theorem outcome_of_question {question : Session → Except Error α}
    (is : perform 0 request = answerWith answer question) (page : request ≠ .renderPage)
    (quiet : ∀ a p, answer a ≠ .patch p) (s : Session) : Outcome change s (.request request) := by
  refine .ordinary ?_ (silent_of_quiet page fun p s' hok => ?_)
  · rw [afterAct_of_question is]
    exact change.refl s
  · rw [is] at hok
    obtain ⟨s₀, s₁, -, hrest⟩ := Operation.bind_eq_ok hok
    obtain ⟨a, s₂, -, hanswer⟩ := Operation.bind_eq_ok hrest
    injection hanswer with hpatch
    exact quiet a p hpatch

/-! ## Requests with a handler -/

/-- Looking a view up changes nothing, so it is a change of any kind. -/
theorem only_lookup (text : String) : Only change (lookup text) := by
  unfold lookup
  split
  · exact (Only.view _).bind fun _ => Only.pure _
  · exact Only.throw _

/-- An event whose handler is cut off where it begins: it has led up to the handler, or there is
none and the patch is sent. -/
theorem dispatch_cases {s : Session} {v : ViewId} {event : EventName}
    (begin : change.Allows s (s.beginEvent v event)) (value : Json) :
    (∃ e s', dispatch (fun _ => throw .nestedTooDeeply) v event value s = .error e s' ∧
        change.Allows s s') ∨
      ∃ before, change.Allows s before ∧
        dispatch (fun _ => throw .nestedTooDeeply) v event value s = renderUpdates before := by
  cases hv : s.views.get? v with
  | none => exact Or.inl ⟨_, _, dispatch_of_noView hv event value, change.refl s⟩
  | some found =>
    rw [dispatch_apply hv]
    -- an event that nothing is bound to sends what has changed
    cases s.stageOn? v event value with
    | none => exact Or.inr ⟨_, begin, rfl⟩
    | some stage => exact Or.inl ⟨_, _, Operation.bind_of_error (stage_cutOff stage _) _, begin⟩

/-- The same for an event from the client, which may also name no view or no event. -/
theorem dispatchWire_cases {s : Session}
    (begin : ∀ v event, change.Allows s (s.beginEvent v event)) (text name : String) (value : Json) :
    (∃ e s', dispatchWire (fun _ => throw .nestedTooDeeply) text name value s = .error e s' ∧
        change.Allows s s') ∨
      ∃ before, change.Allows s before ∧
        dispatchWire (fun _ => throw .nestedTooDeeply) text name value s = renderUpdates before := by
  rw [dispatchWire_apply]
  have hlookup : change.Allows s (Operation.after (lookup text) s) := only_lookup text s
  cases hl : lookup text s with
  | error e s' =>
    rw [Operation.after_of_error hl] at hlookup
    exact Or.inl ⟨e, s', rfl, hlookup⟩
  | ok v s' =>
    rw [(lookup_eq_ok hl).1]
    cases EventName.ofName? name with
    | none => exact Or.inl ⟨_, s, rfl, change.refl s⟩
    | some event => exact dispatch_cases (begin v event) value

/-- The outcome of a request that answers with the patch of an operation which fails after an
ordinary change, or goes on to send what has changed. -/
theorem outcome_of_patch {request : Request} {operation : Operation Patch} {s : Session}
    (page : request ≠ .renderPage)
    (hrequest : perform 0 request = (Answer.patch <$> operation))
    (hcases : (∃ e s', operation s = .error e s' ∧ change.Allows s s') ∨
      ∃ before, change.Allows s before ∧ operation s = renderUpdates before) :
    Outcome change s (.request request) := by
  rcases hcases with ⟨e, s', hfail, allowed⟩ | ⟨before, allowed, hrender⟩
  · have hperform : perform 0 request s = .error e s' := by
      rw [hrequest]
      exact map_of_error hfail _
    refine .ordinary ?_ (silent_of_quiet page fun p s'' hok => ?_)
    · rw [show s.afterAct (.request request) = s' from Operation.after_of_error hperform]
      exact allowed
    · rw [hperform] at hok
      cases hok
  · refine .updated before allowed ?_
    show perform 0 request s = _
    rw [hrequest]
    exact map_congr _ hrender

/-- **A follow-up request whose handler is cut off where it begins** fails, once the continuation has
been taken and its view marked. -/
theorem resume_cutOff (id : ContinuationId) (s : Session) :
    ∃ e s', resume (fun _ => throw .nestedTooDeeply) id s = .error e s' ∧
      (take id s = .error e s' ∨ ∃ c s₁, take id s = .ok c s₁ ∧
        s' = if s₁.contains c.view then s₁.markDirty c.view else s₁) := by
  cases ht : take id s with
  | error e s' => exact ⟨e, s', Operation.bind_of_error ht _, Or.inl rfl⟩
  | ok c s₁ =>
    rcases view_cases c.view s₁ with ⟨e, he⟩ | ⟨found, hfound, hview⟩
    · have hc : ¬ s₁.contains c.view = true := by
        intro hc
        obtain ⟨found, hfound⟩ := contains_iff.1 hc
        rw [view_of_get? hfound] at he
        cases he
      refine ⟨e, s₁, (Operation.bind_of_ok ht _).trans (Operation.bind_of_error he _),
        Or.inr ⟨c, s₁, rfl, ?_⟩⟩
      rw [if_neg hc]
    · refine ⟨.nestedTooDeeply, s₁.markDirty c.view, ?_, Or.inr ⟨c, s₁, rfl, ?_⟩⟩
      · exact (Operation.bind_of_ok ht _).trans ((Operation.bind_of_ok hview _).trans rfl)
      · rw [if_pos (contains_iff.2 ⟨found, hfound⟩)]

/-- **The outcome of a request that can let go of a continuation.** -/
theorem outcome_of_handles {s : Session} (h : change.Handling s) {request : Request}
    (handles : request.handles = true) : Outcome change s (.request request) := by
  cases request with
  | removeEvent v event => exact outcome_of_map rfl (by nofun) (by nofun) (h.unbind v event)
  | dispatch v event value =>
    exact outcome_of_patch (by nofun) rfl (dispatch_cases (h.begin v event) value)
  | dispatchWire text name value =>
    exact outcome_of_patch (by nofun) rfl (dispatchWire_cases h.begin text name value)
  | resume id =>
    obtain ⟨e, s', hfail, -⟩ := resume_cutOff id s
    have allowed := h.takeUp id
    rw [Operation.after_of_error hfail] at allowed
    exact outcome_of_patch (by nofun) rfl (Or.inl ⟨e, s', hfail, allowed⟩)
  | _ => exact absurd handles Bool.false_ne_true

/-! ## Registering -/

/-- **A new child** is registered and then put under its parent; the move may still fail. -/
theorem createChild_apply (s : Session) (parent : ViewId) :
    (createChild parent).after s =
      if s.contains parent then (setParent s.nextId (some parent)).after (s.register "div")
      else s := by
  have hview := view_apply parent s
  cases hv : s.views.get? parent with
  | none =>
    have hc : ¬ s.contains parent = true := by simp [contains, OrderedMap.contains, hv]
    rw [hv] at hview
    rw [if_neg hc]
    exact Operation.after_of_error (Operation.bind_of_error hview _)
  | some found =>
    rw [hv] at hview
    rw [if_pos (contains_iff.2 ⟨found, hv⟩)]
    have hcreate : create "div" s = .ok s.nextId (s.register "div") := rfl
    have hrest : createChild parent s = (do
        setParent s.nextId (some parent)
        return s.nextId) (s.register "div") :=
      (Operation.bind_of_ok hview _).trans (Operation.bind_of_ok hcreate _)
    rw [Operation.after, hrest]
    show Operation.after (setParent s.nextId (some parent) >>= fun _ => pure s.nextId) _ = _
    rw [Operation.after_bind]
    cases hmove : setParent s.nextId (some parent) (s.register "div") with
    | ok _ s' => exact (Operation.after_of_ok hmove).symm
    | error e s' => exact (Operation.after_of_error hmove).symm

/-! ## All requests -/

/-- **The outcome of a request**, where those that write styles, change rules or may move views are
known to be changes of the kind, and the outcome of those that can let go of continuations is
known. -/
theorem outcome_request (h : change.Touching) (s : Session) : ∀ request : Request,
    (request.styles = true → change.Allows s (s.afterAct (.request request))) →
    (request.assigns = true → change.Allows s (s.afterAct (.request request))) →
    (request.places = true → change.Allows s (s.afterAct (.request request))) →
    (request.handles = true → Outcome change s (.request request)) →
      Outcome change s (.request request)
  | .create tag, _, _, _, _ => .created tag rfl rfl
  | .createChild parent, _, _, _, _ => by
    have silent : (Act.request (.createChild parent)).shipped? s = none :=
      silent_of_quiet (by simp) fun p s' hok => by
        obtain ⟨a, -, ha⟩ := map_eq_ok hok
        cases ha
    have left : s.afterAct (.request (.createChild parent)) = (createChild parent).after s :=
      Operation.after_map _ _ s
    rw [createChild_apply] at left
    by_cases hc : s.contains parent = true
    · rw [if_pos hc] at left
      exact .adopted parent hc left silent
    · rw [if_neg hc] at left
      refine .ordinary ?_ silent
      rw [left]
      exact change.refl s
  | .set v attr input, _, assigning, _, _ => outcome_of_allowed rfl (by nofun) (assigning rfl)
  | .setNamed v name input, _, assigning, _, _ => outcome_of_allowed rfl (by nofun) (assigning rfl)
  | .setComposite v composite inputs, _, assigning, _, _ =>
    outcome_of_allowed rfl (by nofun) (assigning rfl)
  | .clear v attr, _, assigning, _, _ => outcome_of_allowed rfl (by nofun) (assigning rfl)
  | .release v, _, assigning, _, _ => outcome_of_allowed rfl (by nofun) (assigning rfl)
  | .dock v target, _, _, placing, _ => outcome_of_allowed rfl (by nofun) (placing rfl)
  | .dockNamed v reference keyword, _, _, placing, _ => outcome_of_allowed rfl (by nofun) (placing rfl)
  | .fit v f, _, assigning, _, _ => outcome_of_allowed rfl (by nofun) (assigning rfl)
  | .constraints v, _, _, _, _ => outcome_of_question rfl (by nofun) (by nofun) s
  | .setParent v parent, _, _, placing, _ => outcome_of_allowed rfl (by nofun) (placing rfl)
  | .addChildren parent children, _, _, placing, _ => outcome_of_allowed rfl (by nofun) (placing rfl)
  | .setChrome v isChrome, _, _, placing, _ => outcome_of_allowed rfl (by nofun) (placing rfl)
  | .setContainer v container, _, _, placing, _ => outcome_of_allowed rfl (by nofun) (placing rfl)
  | .parent v, _, _, _, _ => outcome_of_question rfl (by nofun) (by nofun) s
  | .structuralParent v, _, _, _, _ => outcome_of_question rfl (by nofun) (by nofun) s
  | .container v, _, _, _, _ => outcome_of_question rfl (by nofun) (by nofun) s
  | .children v, _, _, _, _ => outcome_of_question rfl (by nofun) (by nofun) s
  | .visualChildren v, _, _, _, _ => outcome_of_question rfl (by nofun) (by nofun) s
  | .descendants v, _, _, _, _ => outcome_of_question rfl (by nofun) (by nofun) s
  | .isAncestorOrSelf ancestor v, _, _, _, _ => outcome_of_question rfl (by nofun) (by nofun) s
  | .markDirty v, _, _, _, _ => outcome_of_done rfl (by nofun) (h.modify_mark v) s
  | .isDirty v, _, _, _, _ => outcome_of_question rfl (by nofun) (by nofun) s
  | .dirtyViews, _, _, _, _ => outcome_of_question rfl (by nofun) (by nofun) s
  | .takeRoots, _, _, _, _ => .polled rfl rfl
  | .contains v, _, _, _, _ => outcome_of_question rfl (by nofun) (by nofun) s
  | .lookup text, _, _, _, _ => outcome_of_map rfl (by nofun) (by nofun) (only_lookup text s)
  | .size, _, _, _, _ => outcome_of_question rfl (by nofun) (by nofun) s
  | .root, _, _, _, _ => outcome_of_question rfl (by nofun) (by nofun) s
  | .options, _, _, _, _ => outcome_of_question rfl (by nofun) (by simp) s
  | .sweep, _, _, _, _ => .swept rfl rfl
  | .view v, _, _, _, _ => outcome_of_question rfl (by nofun) (by nofun) s
  | .setProperty v name value, _, _, _, _ =>
    outcome_of_done rfl (by nofun) (h.setProperty v name value) s
  | .property v name, _, _, _, _ => outcome_of_question rfl (by nofun) (by nofun) s
  | .setStyle v property value, styling, _, _, _ => outcome_of_allowed rfl (by nofun) (styling rfl)
  | .setStyleNamed v name value, styling, _, _, _ => outcome_of_allowed rfl (by nofun) (styling rfl)
  | .currentAnimation, _, _, _, _ => outcome_of_question rfl (by nofun) (by simp) s
  | .renderAttributes v, _, _, _, _ => outcome_of_question rfl (by nofun) (by nofun) s
  | .renderView v, _, _, _, _ => outcome_of_question rfl (by nofun) (by nofun) s
  | .renderPage, _, _, _, _ => .paged rfl
  | .renderUpdates, _, _, _, _ => .updated s (change.refl s) rfl
  | .on v event handler options, _, _, _, _ =>
    outcome_of_done rfl (by nofun) (h.on v event handler options) s
  | .onNamed v event handler options, _, _, _, _ =>
    outcome_of_done rfl (by nofun) (h.onNamed v event handler options) s
  | .removeEvent .., _, _, _, handling => handling rfl
  | .pendingContinuations, _, _, _, _ => outcome_of_question rfl (by nofun) (by nofun) s
  | .dispatch .., _, _, _, handling => handling rfl
  | .dispatchWire .., _, _, _, handling => handling rfl
  | .resume _, _, _, _, handling => handling rfl

/-- **One act**, where a suspension and the requests that write styles, change rules or may move views
are known to be changes of the kind. -/
theorem outcome_of_handling {s : Session} (h : change.Handling s) : ∀ a : Act,
    (∀ c, a = .suspend c → change.Allows s (s.afterAct a)) →
    (∀ request : Request, a = .request request → request.styles = true →
      change.Allows s (s.afterAct a)) →
    (∀ request : Request, a = .request request → request.assigns = true →
      change.Allows s (s.afterAct a)) →
    (∀ request : Request, a = .request request → request.places = true →
      change.Allows s (s.afterAct a)) → Outcome change s a
  | .request request, _, styling, assigning, placing =>
    outcome_request h.toTouching s request (styling request rfl) (assigning request rfl)
      (placing request rfl) (outcome_of_handles h)
  | .suspend c, suspending, _, _, _ => .ordinary (suspending c rfl) rfl
  | .enter _, _, _, _, _ => .ordinary (h.aside ⟨⟨rfl, rfl, rfl, rfl, rfl⟩, ⟨rfl, rfl, rfl, rfl⟩⟩) rfl
  | .leave, _, _, _, _ => .ordinary (h.aside ⟨⟨rfl, rfl, rfl, rfl, rfl⟩, ⟨rfl, rfl, rfl, rfl⟩⟩) rfl
  | .note _, _, _, _, _ => .ordinary (h.aside ⟨⟨rfl, rfl, rfl, rfl, rfl⟩, ⟨rfl, rfl, rfl, rfl⟩⟩) rfl
  | .tick _, _, _, _, _ => .ordinary (h.aside ⟨⟨rfl, rfl, rfl, rfl, rfl⟩, ⟨rfl, rfl, rfl, rfl⟩⟩) rfl

/-! ## Plain and ordinary changes -/

/-- What leads up to a handler discards entries, which a quiet kind of change allows. -/
theorem allows_beginEvent (h : change.Quiet) (s : Session) (v : ViewId) (event : EventName) :
    change.Allows s (s.beginEvent v event) := by
  have hdiscard : change.Allows s (s.discardBinding v event) :=
    h.background (background_keepContinuations s _)
  unfold beginEvent
  split
  · exact change.trans hdiscard (h.mark _ v)
  · exact hdiscard

/-- So does taking one. -/
theorem only_take (h : change.Quiet) (id : ContinuationId) : Only change (take id) := by
  refine Only.bind (h.modify_background fun s => background_keepContinuations s _) fun _ => ?_
  refine Only.get.bind fun s => ?_
  split
  · refine Only.bind (h.modify_background fun _ => ?_) fun _ => Only.pure _
    exact ⟨⟨rfl, rfl, rfl, rfl, rfl⟩, List.filter_sublist, rfl, rfl⟩
  · exact Only.throw _

/-- A quiet kind of change allows whatever is let go of. -/
theorem handling_of_quiet (h : change.Quiet) (s : Session) : change.Handling s where
  toTouching := h.toTouching
  aside := fun same => h.background same.background
  begin := allows_beginEvent h s
  unbind := fun v event => h.removeEvent v event s
  takeUp := fun id => ((only_take h id).bind fun c => (Only.view c.view).bind fun _ =>
    (h.modify_mark c.view).bind fun _ => only_of_after_eq fun _ => rfl) s

/-- A request that writes a style is a styling change. -/
theorem allows_of_styles (h : change.Styling) (s : Session) {request : Request}
    (styles : request.styles = true) : change.Allows s (s.afterAct (.request request)) := by
  cases request with
  | setStyle v property value => exact allows_of_done rfl (h.setStyle v property value) s
  | setStyleNamed v name value => exact allows_of_done rfl (h.setStyleNamed v name value) s
  | _ => exact absurd styles Bool.false_ne_true

/-- A request that changes rules is an assigning change. -/
theorem allows_of_assigns (h : change.Assigning) (s : Session) {request : Request}
    (assigns : request.assigns = true) : change.Allows s (s.afterAct (.request request)) := by
  cases request with
  | set v attr input => exact allows_of_done rfl (h.set v attr input) s
  | setNamed v name input => exact allows_of_done rfl (h.setNamed v name input) s
  | setComposite v composite inputs =>
    exact allows_of_done rfl (h.setComposite v composite inputs) s
  | clear v attr => exact allows_of_done rfl (h.clear v attr) s
  | release v => exact allows_of_done rfl (h.release v) s
  | fit v f => exact allows_of_done rfl (h.fit v f) s
  | _ => exact absurd assigns Bool.false_ne_true

/-- **One act**, where the requests that may move views are known to be changes of the kind. -/
theorem outcome_of_plain (h : change.Plain) (s : Session) (a : Act)
    (placing : ∀ request : Request, a = .request request → request.places = true →
      change.Allows s (s.afterAct a)) : Outcome change s a := by
  refine outcome_of_handling (handling_of_quiet h.quiet s) a ?_ ?_ ?_ placing
  · rintro c rfl
    exact (h.suspended c).map _ s
  · rintro request rfl styles
    exact allows_of_styles h.steady.styling s styles
  · rintro request rfl assigns
    exact allows_of_assigns h.steady.assigning s assigns

/-- A request that may move views is a moving change, if docks are. -/
theorem allows_of_moves (h : change.Moving) (docks : ∀ v target, Only change (dock v target))
    (s : Session) {request : Request} (places : request.places = true) :
    change.Allows s (s.afterAct (.request request)) := by
  cases request with
  | dock v target => exact allows_of_done rfl (docks v target) s
  | dockNamed v reference keyword =>
    have hnamed : Only change (dockNamed v reference keyword) := by
      unfold dockNamed
      split
      · exact docks v _
      · exact Only.throw _
    exact allows_of_done rfl hnamed s
  | setParent v parent => exact allows_of_done rfl (h.move v parent) s
  | addChildren parent children => exact allows_of_done rfl (h.addChildren parent children) s
  | setChrome v isChrome => exact allows_of_done rfl (h.setChrome v isChrome) s
  | setContainer v container => exact allows_of_done rfl (h.setContainer v container) s
  | _ => exact absurd places Bool.false_ne_true

theorem allows_of_places (h : change.Placing) (s : Session) {request : Request}
    (places : request.places = true) : change.Allows s (s.afterAct (.request request)) :=
  allows_of_moves h.moving h.dock s places

/-- **One act that suspends nothing**, where everything that is let go of is a change of the kind. -/
theorem outcome_of_unsuspended {s : Session} {a : Act} (handling : change.Handling s)
    (h : change.Placing) (quiet : ∀ c, a ≠ .suspend c) : Outcome change s a := by
  refine outcome_of_handling handling a (fun c hc => absurd hc (quiet c)) ?_ ?_ ?_
  · rintro request rfl styles
    exact allows_of_styles h.styling s styles
  · rintro request rfl assigns
    exact allows_of_assigns h.toSteady.assigning s assigns
  · rintro request rfl places
    exact allows_of_places h s places

/-- **One act.** -/
theorem outcome (h : change.Ordinary) (s : Session) (a : Act) : Outcome change s a := by
  refine outcome_of_plain h.toPlain s a ?_
  rintro request rfl places
  exact allows_of_places h.placing s places

end Session

end AnchorLayout
