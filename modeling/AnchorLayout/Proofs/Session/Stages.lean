import AnchorLayout.Proofs.Session.Suspension
/-!
# Handlers in stages

  1. **Program** — `Handler.ofStages`: a stage that is not the last one suspends at the next one with
     the value that it leaves.
  2. **Specification** — `Occasion.Executes` and `Occasion.Leaves`: which stage a request executes,
     what the stage sees, and what it leaves.
  3. **Scripts (`run_bind`)** — by induction on the script.
  4. **The crux (`Executes.suspends`)** — a stage never suspends of its own accord, so what
     suspends is the step to the next stage.
-/

namespace AnchorLayout

open Operation

namespace Script

variable (perform : Request → Operation Answer)

/-! ## Scripts after one another -/

/-- A request in a script, by what it answers and leaves. -/
theorem run_ask (request : Request) (next : Except Error Answer → Script) (s : Session) :
    (Script.ask request next).run perform s =
      (next ((perform request).answer s)).run perform ((perform request).after s) :=
  bind_of_ok (attempt_apply _ _) _

/-- A body under an animation, which is taken away again before the script goes on. -/
theorem run_animate (animation : Animation) (body : Script) (next : Except Error Ending → Script)
    (s : Session) : (Script.animate animation body next).run perform s =
      (next ((body.run perform).answer (s.afterAct (.enter animation)))).run perform
        (((body.run perform).after (s.afterAct (.enter animation))).afterAct .leave) := by
  have hanimate : Session.animate animation (body.run perform) s =
      .ok ((body.run perform).answer (s.afterAct (.enter animation)))
        (((body.run perform).after (s.afterAct (.enter animation))).afterAct .leave) :=
    (bind_of_ok (attempt_apply _ _) _).trans rfl
  exact bind_of_ok hanimate _

/-- Two operations that end alike answer alike and leave the same. -/
theorem answer_congr {α : Type} {f g : Operation α} {s s' : Session} (h : f s = g s') :
    f.answer s = g.answer s' ∧ f.after s = g.after s' := by
  constructor
  · rw [Operation.answer, Operation.answer, h]
  · rw [Operation.after, Operation.after, h]

/-- **A script after another one** goes on from what the first one answers and leaves. -/
theorem run_bind (next : Except Error Ending → Script) : ∀ (script : Script) (s : Session),
    (script.bind next).run perform s =
      (next ((script.run perform).answer s)).run perform ((script.run perform).after s)
  | .done _, _ => rfl
  | .suspend _ _, _ => rfl
  | .fail _, _ => rfl
  | .ask request rest, s => by
    obtain ⟨hanswer, hafter⟩ := answer_congr (run_ask perform request rest s)
    rw [hanswer, hafter, ← run_bind next]
    exact run_ask perform request _ s
  | .animate animation body rest, s => by
    obtain ⟨hanswer, hafter⟩ := answer_congr (run_animate perform animation body rest s)
    rw [hanswer, hafter, ← run_bind next]
    exact run_animate perform animation body _ s
  | .note entry rest, s => run_bind next rest (s.afterAct (.note entry))
  | .consult rest, s => run_bind next (rest s.journal) s

variable {perform}

/-- **A script that comes to its end or fails**, and never suspends. -/
def NeverSuspends : Script → Prop
  | .done _ => True
  | .suspend _ _ => False
  | .fail _ => True
  | .ask _ next => ∀ answer, (next answer).NeverSuspends
  | .animate _ _ next => ∀ ending, (next ending).NeverSuspends
  | .note _ next => next.NeverSuspends
  | .consult next => ∀ entries, (next entries).NeverSuspends

/-- A stage ends with what its script answers, and is suspended only by what is put behind it. -/
theorem run_ne_suspended {next : ResumePoint} {yielded : Json} {s' : Session} :
    ∀ (script : Script) (s : Session), script.NeverSuspends →
      script.run perform s ≠ .ok (.suspended next yielded) s'
  | .done _, _, _ => by
    intro h
    cases h
  | .suspend _ _, _, never => absurd never not_false
  | .fail _, _, _ => by
    intro h
    cases h
  | .ask request rest, s, never => by
    rw [run_ask]
    exact run_ne_suspended _ _ (never _)
  | .animate animation body rest, s, never => by
    rw [run_animate]
    exact run_ne_suspended _ _ (never _)
  | .note entry rest, s, never => run_ne_suspended rest (s.afterAct (.note entry)) never
  | .consult rest, s, never => run_ne_suspended (rest s.journal) s (never _)

/-! ## A stage of several -/

variable {script : Script} {index count : Nat} {value : Json} {s s' : Session}

/-- A stage that succeeds suspends at the next one with what it leaves, or is the last. -/
theorem run_thenSuspend (index count : Nat) (h : script.run perform s = .ok (.done value) s') :
    (script.thenSuspend index count).run perform s =
      .ok (if index + 1 < count then .suspended ⟨index + 1⟩ value else .done value) s' := by
  have hanswer : (script.run perform).answer s = .ok (.done value) := answer_of_ok h
  rw [thenSuspend, run_bind, hanswer, after_of_ok h]
  show (if _ then _ else _ : Script).run perform s' = _
  split <;> rfl

/-- **What suspends is the step to the next stage.** -/
theorem of_run_thenSuspend {next : ResumePoint} {yielded : Json} (never : script.NeverSuspends)
    (h : (script.thenSuspend index count).run perform s = .ok (.suspended next yielded) s') :
    index + 1 < count ∧ next = ⟨index + 1⟩ ∧ script.run perform s = .ok (.done yielded) s' := by
  cases hrun : script.run perform s with
  | error e s₁ =>
    have hanswer : (script.run perform).answer s = .error e := answer_of_error hrun
    rw [thenSuspend, run_bind, hanswer] at h
    cases h
  | ok ending s₁ =>
    cases ending with
    | suspended next yielded => exact absurd hrun (run_ne_suspended script s never)
    | done value =>
      rw [run_thenSuspend index count hrun] at h
      split at h
      · next hlt =>
        cases h
        exact ⟨hlt, rfl, rfl⟩
      · cases h

end Script

namespace Occasion

/-- **The request executes a stage** of several, and the stage sees the value. -/
def Executes (o : Occasion) (stages : List (Context → Script)) (index : Nat) (seen : Json) : Prop :=
  index < stages.length ∧
    ∃ context, context.value = seen ∧ o.stage? = some (.step (stageAt stages) ⟨index⟩ context)

/-- **The stage that the request executes succeeds**, and leaves the value. -/
def Leaves (o : Occasion) (stages : List (Context → Script)) (value : Json) : Prop :=
  ∃ index context stage s, o.stage? = some (.step (stageAt stages) ⟨index⟩ context) ∧
    stages[index]? = some stage ∧ o.run (stage context) o.begun = .ok (.done value) s

variable {o : Occasion} {stages : List (Context → Script)} {index : Nat} {seen : Json}
  {point next : ResumePoint} {context : Context} {yielded : Json} {s : Session}
  {resume : ResumePoint → Context → Script}

/-- The step of a stage that is there: its script, and the suspension behind it unless it is the
last. -/
theorem stageAt_of_lt (h : index < stages.length) :
    stageAt stages ⟨index⟩ context = (stages[index] context).thenSuspend index stages.length := by
  simp [stageAt, h]

/-- **A stage suspends** only at the next one, with the value that it leaves. -/
theorem Executes.suspends (never : ∀ stage ∈ stages, ∀ context, (stage context).NeverSuspends)
    (executes : o.Executes stages index seen)
    (suspends : o.Suspends resume point context next yielded s) :
    resume = stageAt stages ∧ next = ⟨index + 1⟩ ∧ index + 1 < stages.length ∧
      o.Leaves stages yielded := by
  obtain ⟨hindex, context', -, hstage⟩ := executes
  obtain ⟨rfl, rfl, rfl⟩ : resume = stageAt stages ∧ point = ⟨index⟩ ∧ context = context' := by
    have hsame := suspends.stage.symm.trans hstage
    injection hsame with hsame
    injection hsame with hresume hpoint hcontext
    exact ⟨hresume, hpoint, hcontext⟩
  have hending := suspends.ending
  rw [stageAt_of_lt hindex] at hending
  have hnever := never stages[index] (List.getElem_mem hindex) context
  obtain ⟨hlt, hnext, hran⟩ := Script.of_run_thenSuspend hnever hending
  exact ⟨rfl, hnext, hlt, index, context, stages[index], s, hstage,
    List.getElem?_eq_getElem hindex, hran⟩

/-- A stage that succeeds and is not the last suspends. -/
theorem Executes.exists_suspends (executes : o.Executes stages index seen) {value : Json}
    (leaves : o.Leaves stages value) (hlt : index + 1 < stages.length) :
    ∃ context s, o.Suspends (stageAt stages) ⟨index⟩ context ⟨index + 1⟩ value s := by
  obtain ⟨hindex, context, -, hstage⟩ := executes
  obtain ⟨index', context', stage, s, hstage', hget, hran⟩ := leaves
  obtain ⟨rfl, rfl⟩ : index = index' ∧ context = context' := by
    have hsame := hstage.symm.trans hstage'
    injection hsame with hsame
    injection hsame with _ hpoint hcontext
    injection hpoint with hindex
    exact ⟨hindex, hcontext⟩
  obtain rfl : stages[index] = stage := by
    rw [List.getElem?_eq_getElem hindex] at hget
    exact Option.some.inj hget
  refine ⟨context, s, hstage, ?_⟩
  rw [stageAt_of_lt hindex]
  have hsuspended := Script.run_thenSuspend index stages.length hran
  rw [if_pos hlt] at hsuspended
  exact hsuspended

end Occasion

end AnchorLayout
