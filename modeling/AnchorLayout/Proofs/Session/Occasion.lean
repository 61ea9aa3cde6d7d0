import AnchorLayout.Proofs.Session.Issuing
/-!
# The requests of a run

  Handlers make requests, and these may run handlers again.  All requests of a run are told in the
  order in which they begin, with the session that each of them finds.

  1. **Program** — `Session.trace`, the requests that some calls make; `Occasion.inner`, those that
     the handler of one request makes.
  2. **Specification** — `Timeline`: the acts of every request are a part of the acts of the run, and
     of two requests the second one is made by the handler of the first, or begins after the end of
     the first.
  3. **The crux (`timeline_scriptOccasions`)** — by induction on the script, and then on the depth to
     which handlers run handlers, beside the acts.
-/

namespace AnchorLayout

/-- **A request as it happens**: the session that it finds, and how deeply its handler may run
handlers. -/
structure Occasion where
  depth : Nat
  request : Request
  before : Session

namespace Occasion

/-- The request as an operation, at its depth. -/
def operation (o : Occasion) : Operation Answer := Session.perform o.depth o.request

/-- The session that the request leaves. -/
def after (o : Occasion) : Session := o.operation.after o.before

/-- What the request answers. -/
def answer (o : Occasion) : Except Error Answer := o.operation.answer o.before

/-- The session once what leads up to the handler has been done. -/
def begun (o : Occasion) : Session := o.before.afterAct (.request o.request)

/-- **What the request runs.**  No handler is run where handlers are nested too deeply. -/
def stage? (o : Occasion) : Option Stage :=
  if o.depth = 0 then none else o.before.stageOf? o.request

/-- What a request runs is the stage that the session has for it. -/
theorem stageOf?_of_stage? {o : Occasion} {stage : Stage} (h : o.stage? = some stage) :
    o.before.stageOf? o.request = some stage := by
  rw [stage?] at h
  split at h
  · cases h
  · exact h

/-- A script run by the handler of the request. -/
def run (o : Occasion) (script : Script) : Operation Ending :=
  script.run (Session.perform (o.depth - 1))

/-- The acts that it leaves behind. -/
def acts (o : Occasion) : List Act := Session.acts o.depth o.request o.before

end Occasion

/-- The requests that a script makes, for which `within` gives those that a request makes. -/
def Script.occasions (perform : Request → Operation Answer)
    (within : Request → Session → List Occasion) : Script → Session → List Occasion
  | .done _, _ => []
  | .suspend _ _, _ => []
  | .fail _, _ => []
  | .ask request next, s =>
    within request s ++
      (next ((perform request).answer s)).occasions perform within ((perform request).after s)
  | .animate animation body next, s =>
    body.occasions perform within (s.afterAct (.enter animation)) ++
      (next ((body.run perform).answer (s.afterAct (.enter animation)))).occasions perform within
        (((body.run perform).after (s.afterAct (.enter animation))).afterAct .leave)
  | .note entry next, s => next.occasions perform within (s.afterAct (.note entry))
  | .consult next, s => (next s.journal).occasions perform within s

namespace Session

/-- **A request and all that its handler makes**, in the order in which they begin. -/
def occasions : Nat → Request → Session → List Occasion
  | 0 => fun request s => [⟨0, request, s⟩]
  | depth + 1 => fun request s =>
    ⟨depth + 1, request, s⟩ :: (s.stageOf? request).elim [] fun stage =>
      stage.script.occasions (perform depth) (occasions depth) (s.afterAct (.request request))

end Session

/-- The requests that the handler of a request makes. -/
def Occasion.inner (o : Occasion) : List Occasion :=
  (Session.occasions o.depth o.request o.before).tail

namespace Call

/-- The requests of a call. -/
def occasions : Call → Session → List Occasion
  | act (.request r), s => Session.occasions 0 r s
  | act _, _ => []
  | request depth r, s => Session.occasions depth r s

end Call

namespace Session

/-- **The requests of some calls**, in the order in which they begin. -/
def trace : Session → List Call → List Occasion
  | _, [] => []
  | s, call :: rest => call.occasions s ++ trace (call.operation.after s) rest

variable {s s₁ : Session} {first more : List Act} {os os' : List Occasion} {o o' : Occasion}

/-! ## One request -/

/-- A request leaves what its acts leave, so what is known of acts applies to it. -/
theorem after_occasion (o : Occasion) : o.after = o.before.afterActs o.acts :=
  (afterActs_acts o.depth o.request o.before).symm

/-- What a request has issued is told stage by stage: up to its handler, during its script, and at
the end. -/
theorem issues_begun (o : Occasion) : Issues o.before o.begun := issues_afterAct _ _

theorem issues_run (o : Occasion) (script : Script) :
    Issues o.begun ((o.run script).after o.begun) := by
  have hacts := afterActs_scriptActs (afterActs_acts (o.depth - 1)) script o.begun
  rw [Occasion.run, ← hacts]
  exact issues_afterActs _ _

theorem issues_ended (o : Occasion) : Issues o.begun o.after := by
  obtain ⟨rest, hrest⟩ : ∃ rest, o.acts = .request o.request :: rest := by
    obtain ⟨depth, request, s⟩ := o
    cases depth with
    | zero => exact ⟨[], rfl⟩
    | succ depth => exact ⟨_, rfl⟩
  rw [after_occasion, hrest, afterActs_cons]
  exact issues_afterActs _ _

/-! ## The timeline -/

/-- **Some requests in the order of time**, with the acts of which they are a part. -/
structure Timeline (s : Session) (all : List Act) (os : List Occasion) : Prop where
  within : ∀ o ∈ os, ∃ pre post, all = pre ++ o.acts ++ post ∧ o.before = s.afterActs pre
  ordered : os.Pairwise fun o o' => o' ∈ o.inner ∨ Issues o.after o'.before

/-- No requests, whatever the acts. -/
theorem Timeline.nil (s : Session) (all : List Act) : Timeline s all [] := by
  refine ⟨?_, List.Pairwise.nil⟩
  intro o ho
  exact absurd ho List.not_mem_nil

/-- What a request finds has come about by issuing and letting go. -/
theorem Timeline.issues_before (t : Timeline s first os) (ho : o ∈ os) : Issues s o.before := by
  obtain ⟨pre, post, -, hbefore⟩ := t.within o ho
  rw [hbefore]
  exact issues_afterActs s pre

/-- So has what is left at the end, from what the request leaves. -/
theorem Timeline.issues_after (t : Timeline s first os) (ho : o ∈ os) :
    Issues o.after (s.afterActs first) := by
  obtain ⟨pre, post, hacts, hbefore⟩ := t.within o ho
  rw [hacts, afterActs_append, afterActs_append, ← hbefore, ← after_occasion]
  exact issues_afterActs _ post

/-- **One stretch after another**: the requests of the second find what the first has left. -/
theorem Timeline.append (t : Timeline s first os) (left : s.afterActs first = s₁)
    (t' : Timeline s₁ more os') : Timeline s (first ++ more) (os ++ os') := by
  subst left
  constructor
  · intro o ho
    rcases List.mem_append.1 ho with ho | ho
    · obtain ⟨pre, post, hacts, hbefore⟩ := t.within o ho
      exact ⟨pre, post ++ more, by rw [hacts, List.append_assoc], hbefore⟩
    · obtain ⟨pre, post, hacts, hbefore⟩ := t'.within o ho
      refine ⟨first ++ pre, post, by rw [hacts]; simp only [List.append_assoc], ?_⟩
      rw [hbefore, afterActs_append]
  · refine List.pairwise_append.2 ⟨t.ordered, t'.ordered, fun o ho o' ho' => ?_⟩
    exact Or.inr ((t.issues_after ho).trans (t'.issues_before ho'))

/-- Acts without requests before and after. -/
theorem Timeline.cons {a : Act} (t : Timeline (s.afterAct a) first os) :
    Timeline s (a :: first) os := (Timeline.nil s [a]).append rfl t

/-- Acts without requests behind the last one. -/
theorem Timeline.extend (t : Timeline s first os) (more : List Act) :
    Timeline s (first ++ more) os := by
  have hmore := t.append rfl (Timeline.nil (s.afterActs first) more)
  rwa [List.append_nil] at hmore

/-- **A request around others**, all of which its handler makes. -/
theorem Timeline.around (o : Occasion) (t : Timeline o.before o.acts o.inner) :
    Timeline o.before o.acts (o :: o.inner) := by
  constructor
  · intro o' ho'
    rcases List.mem_cons.1 ho' with rfl | ho'
    · exact ⟨[], [], by rw [List.nil_append, List.append_nil], rfl⟩
    · exact t.within o' ho'
  · exact List.pairwise_cons.2 ⟨fun o' ho' => Or.inl ho', t.ordered⟩

/-! ## Scripts -/

/-- **The requests of a script** are in order, if those of each of its requests are. -/
theorem timeline_scriptOccasions {perform : Request → Operation Answer}
    {requestActs : Request → Session → List Act} {within : Request → Session → List Occasion}
    (leaves : ∀ request s, s.afterActs (requestActs request s) = (perform request).after s)
    (ordered : ∀ request s, Timeline s (requestActs request s) (within request s)) :
    ∀ (script : Script) (s : Session),
      Timeline s (script.acts perform requestActs s) (script.occasions perform within s)
  | .done _, s => Timeline.nil s _
  | .suspend _ _, s => Timeline.nil s _
  | .fail _, s => Timeline.nil s _
  | .ask request next, s => by
    have hrest := timeline_scriptOccasions leaves ordered (next ((perform request).answer s))
      ((perform request).after s)
    exact (ordered request s).append (leaves request s) hrest
  | .animate animation body next, s => by
    have hbody := timeline_scriptOccasions leaves ordered body (s.afterAct (.enter animation))
    have hrest := timeline_scriptOccasions leaves ordered
      (next ((body.run perform).answer (s.afterAct (.enter animation))))
      (((body.run perform).after (s.afterAct (.enter animation))).afterAct .leave)
    exact (hbody.append (afterActs_scriptActs leaves body _) hrest.cons).cons
  | .note entry next, s => (timeline_scriptOccasions leaves ordered next _).cons
  | .consult next, s => timeline_scriptOccasions leaves ordered (next s.journal) s

/-! ## Depth -/

/-- The acts of a stage are those of its script, and a few more. -/
theorem acts_of_stage {depth : Nat} {request : Request} {stage : Stage} (s : Session)
    (h : s.stageOf? request = some stage) :
    acts (depth + 1) request s = .request request ::
      (stage.acts (fun script => script.run (perform depth))
        (fun script => script.acts (perform depth) (acts depth)) (s.afterAct (.request request)) ++
      answeringActs (stage.operation (fun script => script.run (perform depth))
        (s.afterAct (.request request)))) := by
  show actsWith _ _ request s = _
  rw [actsWith, h]

/-- **A request and all that its handler makes** are in order, by induction on the depth. -/
theorem timeline_occasions : ∀ (depth : Nat) (request : Request) (s : Session),
    Timeline s (acts depth request s) (occasions depth request s)
  | 0, request, s => Timeline.around ⟨0, request, s⟩ (Timeline.nil s _)
  | depth + 1, request, s => by
    refine Timeline.around ⟨depth + 1, request, s⟩ ?_
    show Timeline s (acts (depth + 1) request s) ((s.stageOf? request).elim [] _)
    cases hs : s.stageOf? request with
    | none => exact Timeline.nil s _
    | some stage =>
      -- the handlers of this request make their requests one level down
      have hscript := timeline_scriptOccasions (afterActs_acts depth) (timeline_occasions depth)
        stage.script (s.afterAct (.request request))
      rw [acts_of_stage s hs]
      exact ((hscript.extend _).extend _).cons

/-- **What a handler does comes in between**: after what leads up to it, and before it ends. -/
theorem exists_of_mem_inner (h : o' ∈ o.inner) : ∃ stage, o.stage? = some stage ∧
    Issues o.begun o'.before ∧ Issues o'.after ((o.run stage.script).after o.begun) := by
  obtain ⟨depth, request, s⟩ := o
  cases depth with
  | zero => exact absurd h List.not_mem_nil
  | succ depth =>
    change o' ∈ (s.stageOf? request).elim [] _ at h
    cases hs : s.stageOf? request with
    | none =>
      rw [hs] at h
      exact absurd h List.not_mem_nil
    | some stage =>
      rw [hs] at h
      have hscript := timeline_scriptOccasions (afterActs_acts depth) (timeline_occasions depth)
        stage.script (s.afterAct (.request request))
      have hafter := hscript.issues_after h
      rw [afterActs_scriptActs (afterActs_acts depth)] at hafter
      exact ⟨stage, hs, hscript.issues_before h, hafter⟩

/-- The session in which the script of a stage has ended is one of the run. -/
theorem Timeline.ended_within {all : List Act} (t : s.Timeline all os) (ho : o ∈ os) {stage : Stage}
    (hstage : o.stage? = some stage) :
    ∃ pre post, all = pre ++ post ∧ s.afterActs pre = (o.run stage.script).after o.begun := by
  obtain ⟨pre, post, hall, hbefore⟩ := t.within o ho
  obtain ⟨scripted, rest, hacts, hended⟩ : ∃ scripted rest,
      o.acts = .request o.request :: scripted ++ rest ∧
        o.begun.afterActs scripted = (o.run stage.script).after o.begun := by
    obtain ⟨depth, request, before⟩ := o
    cases depth with
    | zero => cases hstage
    | succ depth =>
      have hacts : acts (depth + 1) request before = _ := acts_of_stage before hstage
      rw [Stage.acts, List.append_assoc] at hacts
      exact ⟨_, _, hacts, afterActs_scriptActs (afterActs_acts depth) stage.script _⟩
  refine ⟨pre ++ (.request o.request :: scripted), rest ++ post, ?_, ?_⟩
  · rw [hall, hacts]
    simp only [List.append_assoc]
  · rw [afterActs_append, ← hbefore, afterActs_cons]
    exact hended

/-- **The requests of a run** are in order. -/
theorem timeline_trace (s : Session) (calls : List Call) :
    Timeline s (s.unfolded calls) (s.trace calls) := by
  induction calls generalizing s with
  | nil => exact Timeline.nil s _
  | cons call rest ih =>
    have hcall : Timeline s (call.acts s) (call.occasions s) := by
      cases call with
      | act a =>
        cases a with
        | request r => exact timeline_occasions 0 r s
        | _ => exact Timeline.nil s _
      | request depth r => exact timeline_occasions depth r s
    exact hcall.append (call.afterActs_acts s) (ih _)

/-- Every request among some calls is one of the run, and finds what the calls before it leave. -/
theorem mem_trace (s : Session) (before after : List Call) (depth : Nat) (request : Request) :
    ⟨depth, request, s.afterCalls before⟩ ∈ s.trace (before ++ .request depth request :: after) := by
  induction before generalizing s with
  | nil =>
    refine List.mem_append_left _ ?_
    cases depth with
    | zero => exact List.mem_singleton_self _
    | succ depth => exact List.mem_cons_self
  | cons call rest ih => exact List.mem_append_right _ (ih (call.operation.after s))

end Session

end AnchorLayout
