import AnchorLayout.Proofs.Session.Occasion
import AnchorLayout.Proofs.Session.Roots
/-!
# What one request takes and hands out

  1. **Program** — `Session.resume`, which takes a continuation out of the table, and
     `Session.step`, which puts one in.
  2. **Specification** — `Occasion.Takes`: the continuation that a request takes; `Occasion.handed?`:
     the identifier that it hands out; `Occasion.Suspends`: how its stage ends.
  3. **Taking (`Takes.gone`)** — a continuation is gone before its stage begins.
  4. **Handing out (`exists_suspends`, `Suspends.handed`)** — an identifier is handed out for a stage
     that has suspended, and for no other.  The patch is rendered in between, which cannot fail.
-/

namespace AnchorLayout

open Operation

namespace Occasion

/-- **The request takes the continuation.** -/
def Takes (o : Occasion) (id : ContinuationId) (c : Continuation) : Prop :=
  o.request = .resume id ∧ ∃ s, Session.take id o.before = .ok c s

/-- **The identifier that the request hands out.** -/
def handed? (o : Occasion) : Option ContinuationId :=
  match o.answer with
  | .ok (.patch p) => p.continuation
  | _ => none

/-- The stage of the request has suspended, and left a session. -/
structure Suspends (o : Occasion) (resume : ResumePoint → Context → Script) (point : ResumePoint)
    (context : Context) (next : ResumePoint) (yielded : Json) (s : Session) : Prop where
  stage : o.stage? = some (.step resume point context)
  ending : o.run (resume point context) o.begun = .ok (.suspended next yielded) s

end Occasion

namespace Session

variable {s s' : Session} {id : ContinuationId} {c : Continuation} {o : Occasion} {stage : Stage}
  {resume : ResumePoint → Context → Script} {point next : ResumePoint} {context : Context}
  {yielded : Json}

/-! ## Taking -/

/-- **Taking**, by what is in the table once the old entries are out of it. -/
theorem take_eq (id : ContinuationId) (s : Session) :
    take id s = match s.expire.continuations.get? id with
      | some c => .ok c { s.expire with continuations := s.expire.continuations.erase id }
      | none => .error (.continuationNotFound id.text) s.expire := by
  have hexpire : (modify expire : Operation PUnit) s = .ok ⟨⟩ s.expire := rfl
  have hget : (get : Operation Session) s.expire = .ok s.expire s.expire := rfl
  rw [take, bind_of_ok hexpire, bind_of_ok hget]
  cases h : s.expire.continuations.get? id <;> simp only <;> rfl

/-- What is in the table when the old entries are out of it was there before. -/
theorem get?_of_expire (h : s.expire.continuations.get? id = some c) :
    s.continuations.get? id = some c := by
  rw [OrderedMap.get?_eq_some_iff] at h ⊢
  exact List.filter_sublist.subset h

/-- **What is taken** was in the table, and is not any more. -/
theorem take_eq_ok (h : take id s = .ok c s') :
    s.continuations.get? id = some c ∧ s'.continuations.get? id = none := by
  rw [take_eq] at h
  cases hc : s.expire.continuations.get? id with
  | none =>
    rw [hc] at h
    cases h
  | some found =>
    rw [hc] at h
    cases h
    exact ⟨get?_of_expire hc, by rw [OrderedMap.get?_erase, if_pos rfl]⟩

/-- The continuation of an identifier that is not in the table is not found. -/
theorem take_of_absent (h : s.continuations.get? id = none) :
    take id s = .error (.continuationNotFound id.text) s.expire := by
  have hnone : s.expire.continuations.get? id = none := by
    refine Option.eq_none_iff_forall_ne_some.2 fun c hc => ?_
    rw [get?_of_expire hc] at h
    cases h
  rw [take_eq, hnone]

/-! ## Suspending -/

/-- A patch by itself hands nothing out. -/
theorem continuation_renderUpdates {p : Patch} (h : renderUpdates s = .ok p s') :
    p.continuation = none := by
  obtain ⟨roots, s₁, -, h⟩ := Operation.bind_eq_ok h
  obtain ⟨found, s₂, -, h⟩ := Operation.bind_eq_ok h
  obtain ⟨rendered, s₃, -, h⟩ := Operation.bind_eq_ok h
  obtain ⟨_, s₄, -, h⟩ := Operation.bind_eq_ok h
  cases h
  rfl

/-- The session in which a stage has suspended. -/
def parked (s : Session) (resume : ResumePoint → Context → Script) (context : Context)
    (next : ResumePoint) (yielded : Json) : Session :=
  ((suspend ⟨resume, next, yielded, context.view, context.event, s.clock⟩).after s).markDirty
    context.view

/-- **A stage that suspends** puts what it has left into the table, under the next identifier, and
ends with that. -/
theorem stage_suspended {run : Script → Operation Ending}
    (h : run (resume point context) s = .ok (.suspended next yielded) s') :
    (Stage.step resume point context).operation run s =
      .ok (some (s'.issuer.id s'.issued)) (s'.parked resume context next yielded) := by
  refine (bind_of_ok h _).trans ?_
  rfl

/-- A handler that suspends whenever it runs. -/
def pausing : Handler := .suspendable fun _ _ => .suspend ⟨1⟩ .null

end Session

namespace Occasion

open Session

variable {s : Session} {id : ContinuationId} {c : Continuation} {o : Occasion} {stage : Stage}
  {resume : ResumePoint → Context → Script} {point next : ResumePoint} {context : Context}
  {yielded : Json}

/-! ## What is taken -/

/-- What is taken was pending when the request came. -/
theorem Takes.pending (h : o.Takes id c) : o.before.continuations.get? id = some c := by
  obtain ⟨-, s, hs⟩ := h
  exact (take_eq_ok hs).1

/-- **A continuation is gone before its stage begins.** -/
theorem Takes.gone (h : o.Takes id c) : o.begun.continuations.get? id = none := by
  obtain ⟨hrequest, s, hs⟩ := h
  have hgone := (take_eq_ok hs).2
  have hbegun : o.begun = (resume (fun _ => throw .nestedTooDeeply) id).after o.before := by
    rw [Occasion.begun, hrequest]
    exact after_map _ _ _
  obtain ⟨e, s', hfail, hleft⟩ := resume_cutOff id o.before
  rw [hbegun, after_of_error hfail]
  rcases hleft with herror | ⟨c', s₁, htake, rfl⟩
  · rw [hs] at herror
    cases herror
  · rw [hs] at htake
    cases htake
    split
    · exact hgone
    · exact hgone

/-- A follow-up request that runs a stage has taken a continuation, and the stage is that of the
continuation. -/
theorem exists_takes (hrequest : o.request = .resume id) (hstage : o.stage? = some stage) :
    ∃ c, o.Takes id c ∧ stage = .step c.resume c.next ⟨c.view, c.event, c.yielded⟩ := by
  have hafter : o.before.stageAfter? id = some stage := by
    rw [Occasion.stage?, hrequest] at hstage
    split at hstage
    · cases hstage
    · exact hstage
  rw [stageAfter?] at hafter
  cases ht : take id o.before with
  | error e s =>
    rw [ht] at hafter
    cases hafter
  | ok c s =>
    simp only [ht] at hafter
    split at hafter
    · exact ⟨c, ⟨hrequest, s, ht⟩, (Option.some.inj hafter).symm⟩
    · cases hafter

/-- **A follow-up request for what is not in the table** runs nothing and fails. -/
theorem not_found (hrequest : o.request = .resume id)
    (absent : o.before.continuations.get? id = none) :
    o.stage? = none ∧ o.answer = .error (.continuationNotFound id.text) := by
  have htake := take_of_absent absent
  constructor
  · rw [Option.eq_none_iff_forall_ne_some]
    intro stage hstage
    obtain ⟨c, ⟨-, s, hs⟩, -⟩ := exists_takes hrequest hstage
    rw [htake] at hs
    cases hs
  · have hresume (depth : Nat) : perform depth (.resume id) o.before =
        .error (.continuationNotFound id.text) o.before.expire := by
      cases depth with
      | zero => exact map_of_error (bind_of_error htake _) _
      | succ depth => exact map_of_error (bind_of_error htake _) _
    rw [answer, operation, hrequest, Operation.answer, hresume]

/-! ## What is handed out -/

/-- A request that runs a stage: what leads up to it, the stage, and the patch. -/
theorem operation_of_stage (h : o.stage? = some stage) : o.operation o.before =
    (Answer.patch <$> answered (stage.operation o.run)) o.begun := by
  obtain ⟨depth, request, s⟩ := o
  cases depth with
  | zero => cases h
  | succ depth => exact performWith_of_stageOf? h

/-- A request that runs nothing hands out nothing. -/
theorem handed?_of_noStage (h : o.stage? = none) : o.handed? = none := by
  have hplain : o.operation o.before = perform 0 o.request o.before := by
    obtain ⟨depth, request, s⟩ := o
    cases depth with
    | zero => rfl
    | succ depth => exact performWith_of_noStage h
  -- a request that answers with a patch and runs nothing has just rendered it
  have hpatch {p : Patch} {s' : Session} (hp : perform 0 o.request o.before = .ok (.patch p) s') :
      p.continuation = none := by
    have hships := shipped?_request_of_patch hp
    cases outcome ordinary_keepsIssued o.before (.request o.request) with
    | ordinary _ silent | created _ _ silent | adopted _ _ _ silent | polled _ silent
    | swept _ silent =>
      rw [silent] at hships
      cases hships
    | updated before _ left =>
      have hrender := left.symm.trans hp
      obtain ⟨q, hq, hqp⟩ := map_eq_ok hrender
      cases hqp
      exact continuation_renderUpdates hq
    | paged act =>
      injection act with hpage
      rw [hpage] at hp
      obtain ⟨page, -, hpp⟩ := map_eq_ok hp
      cases hpp
  rw [handed?, answer, Operation.answer, hplain]
  cases ho : perform 0 o.request o.before with
  | error e s' => rfl
  | ok a s' =>
    cases a with
    | patch p => exact hpatch ho
    | _ => rfl

/-- **An identifier is handed out for a stage that has suspended.** -/
theorem exists_suspends (h : o.handed? = some id) : ∃ resume point context next yielded s,
    o.Suspends resume point context next yielded s ∧ id = s.issuer.id s.issued := by
  cases hstage : o.stage? with
  | none =>
    rw [handed?_of_noStage hstage] at h
    cases h
  | some stage =>
    obtain ⟨p, s', hp, hid⟩ : ∃ p s', o.operation o.before = .ok (.patch p) s' ∧
        p.continuation = some id := by
      rw [handed?, answer, Operation.answer] at h
      cases ho : o.operation o.before with
      | error e s' =>
        rw [ho] at h
        cases h
      | ok a s' =>
        rw [ho] at h
        cases a with
        | patch p => exact ⟨p, s', rfl, h⟩
        | _ => cases h
    rw [operation_of_stage hstage] at hp
    obtain ⟨q, hq, hqp⟩ := map_eq_ok hp
    cases hqp
    obtain ⟨continuation, s₁, hran, hrest⟩ := Operation.bind_eq_ok hq
    obtain ⟨r, s₂, -, hpure⟩ := Operation.bind_eq_ok hrest
    cases hpure
    change continuation = some id at hid
    subst hid
    -- a handler that runs to its end hands nothing out
    cases stage with
    | once body =>
      obtain ⟨ending, s₀, -, hnone⟩ := Operation.bind_eq_ok hran
      cases hnone
    | step resume point context =>
      obtain ⟨ending, s, hending, hran'⟩ := Operation.bind_eq_ok hran
      cases ending with
      | done value => cases hran'
      | suspended next yielded =>
        rw [stage_suspended hending] at hran
        injection hran with hsome _
        exact ⟨resume, point, context, next, yielded, s, ⟨hstage, hending⟩,
          (Option.some.inj hsome).symm⟩

section

variable (h : o.Suspends resume point context next yielded s)
include h

/-- Behind a suspension there is only the patch, which gets the identifier. -/
theorem Suspends.operation_eq : o.operation o.before =
    (Answer.patch <$> (do
      let patch ← renderUpdates
      return { patch with continuation := some (s.issuer.id s.issued) }))
      (s.parked resume context next yielded) := by
  rw [operation_of_stage h.stage]
  exact map_congr _ (bind_of_ok (stage_suspended h.ending) _)

/-- So the request leaves what the patch leaves. -/
theorem Suspends.after_eq :
    o.after = renderUpdates.after (s.parked resume context next yielded) := by
  have hafter : o.after = Operation.after (Answer.patch <$> (do
      let patch ← renderUpdates
      return { patch with continuation := some (s.issuer.id s.issued) }))
      (s.parked resume context next yielded) := by
    rw [Occasion.after, Operation.after, h.operation_eq]
    rfl
  rw [hafter, after_map, after_bind]
  cases hr : renderUpdates (s.parked resume context next yielded) with
  | ok p s' => exact (after_of_ok hr).symm
  | error e s' => exact (after_of_error hr).symm

/-- **The identifier is handed out**, because the patch can be rendered. -/
theorem Suspends.handed (f : s.Forest) : o.handed? = some (s.issuer.id s.issued) := by
  have hkept := SameViews.kept
    (sameViews_suspend ⟨resume, next, yielded, context.view, context.event, s.clock⟩ s)
  have hforest : (s.parked resume context next yielded).Forest :=
    (treeEq_markDirty _ context.view).forest (hkept.forest f)
  obtain ⟨rendered, -, happly⟩ := hforest.renderUpdates_apply
  have hanswer := map_of_ok (bind_of_ok happly fun patch =>
    pure { patch with continuation := some (s.issuer.id s.issued) }) Answer.patch
  rw [handed?, answer, Operation.answer, h.operation_eq, hanswer]

/-- Sending the patch lets go of nothing that was just suspended. -/
theorem Suspends.issues_after :
    Issues (s.parked resume context next yielded) o.after := by
  rw [h.after_eq]
  exact renders_keepsIssued.renderUpdates _

/-- What is found under the identifier afterwards is what has been suspended. -/
theorem Suspends.pending
    (hc : o.after.continuations.get? (s.issuer.id s.issued) = some c) :
    c = ⟨resume, next, yielded, context.view, context.event, s.clock⟩ := by
  have hold : s.issued < (s.parked resume context next yielded).issued := Nat.lt_succ_self _
  have hparked := h.issues_after.get?_of_old hold hc
  rcases get?_suspend hparked with ⟨-, hsame⟩ | ⟨hne, -⟩
  · exact hsame
  · exact absurd rfl hne

end

end Occasion

end AnchorLayout
