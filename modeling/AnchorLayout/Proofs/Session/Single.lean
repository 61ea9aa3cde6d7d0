import AnchorLayout.Proofs.Session.Ledger
import Mathlib.Data.List.Nodup
/-!
# One suspended handler for each event

  An event discards what its binding has left, and a follow-up request takes what it resumes, before
  the stage runs; what the stage leaves comes into the table after it has run.

  1. **Program** — every list of calls on a new session, with all that handlers do.
  2. **Specification** — `Session.Single`: of the handlers that are suspended, no two were started by
     one event on one view.
  3. **One stage (`Single.none_leftBy`)** — when it begins, nothing of its own event is suspended.
  4. **The crux (`Single.stage`)** — a stage may run its own event again, so there may be
     something by the time it suspends: `Occasion.rivals`.  If there is nothing, it stays at one; by
     induction on the script, and then on the depth to which handlers run handlers.
-/

namespace AnchorLayout

open Operation

namespace Occasion

/-- **What comes in between**: the identifiers that are pending for the event of a stage when the
stage suspends, and were not when it began. -/
def rivals (o : Occasion) : List ContinuationId :=
  match o.stage? with
  | some (.step resume point context) =>
    match o.run (resume point context) o.begun with
    | .ok (.suspended _ _) s =>
      ((s.continuations.entries.filter (Session.leftBy context.view context.event)).map
        Prod.fst).filter fun id => !o.begun.continuations.contains id
    | _ => []
  | _ => []

end Occasion

namespace Session

variable {s s' : Session} {id : ContinuationId} {c : Continuation} {o : Occasion} {a : Act}
  {v : ViewId} {event : EventName}

/-- **No two of one event**: whatever is suspended has been issued, and no two of them were started
by the same event on the same view. -/
structure Single (s : Session) : Prop where
  issued : ∀ id c, s.continuations.get? id = some c →
    ∃ serial, serial < s.issued ∧ id = s.issuer.id serial
  apart : ∀ e ∈ s.continuations.entries, ∀ e' ∈ s.continuations.entries,
    leftBy e.2.view e.2.event e' = true → e' = e

/-- What an event has left is told by its view and its name. -/
theorem leftBy_iff {e : ContinuationId × Continuation} :
    leftBy v event e = true ↔ e.2.view = v ∧ e.2.event = event := by
  rw [leftBy, Bool.and_eq_true, beq_iff_eq, beq_iff_eq]

/-- In a new session nothing is suspended. -/
theorem single_new (options : Options) (issuer : Issuer) : (Session.new options issuer).Single :=
  ⟨fun _ _ h => (nomatch h), fun _ h => absurd h List.not_mem_nil⟩

/-- What is issued stays issued. -/
theorem Single.issued_of_issues (h : s.Single) (issues : Issues s s') :
    ∀ id c, s'.continuations.get? id = some c →
      ∃ serial, serial < s'.issued ∧ id = s'.issuer.id serial := by
  intro id c hc
  have hlate := issues.issued
  rw [issues.issuer]
  rcases issues.pending id c hc with hold | ⟨serial, -, hlt, hid⟩
  · obtain ⟨serial, hlt, hid⟩ := h.issued id c hold
    exact ⟨serial, by omega, hid⟩
  · exact ⟨serial, hlt, hid⟩

/-- **Fewer entries** are no two of one event either. -/
theorem Single.thinned (h : s.Single) (issues : Issues s s')
    (thinned : s'.continuations.entries.Sublist s.continuations.entries) : s'.Single where
  issued := h.issued_of_issues issues
  apart := fun e he e' he' => h.apart e (thinned.subset he) e' (thinned.subset he')

/-! ## Acts -/

/-- The changes that put nothing into the table. -/
def thinning : Change where
  Allows := fun s s' => s'.continuations.entries.Sublist s.continuations.entries
  refl := fun _ => List.Sublist.refl _
  trans := fun h h' => h'.trans h

theorem framing_thinning : thinning.Framing where
  mark := fun _ _ => List.Sublist.refl _
  write := fun _ _ _ => List.Sublist.refl _

theorem renders_thinning : thinning.Renders where
  clean := fun _ => List.Sublist.refl _
  settle := fun _ _ => List.Sublist.refl _

/-- An account without additions is a table with fewer entries. -/
theorem Accounted.thinned {gone : ContinuationId × Continuation → Bool}
    (h : Accounted s s' gone []) : s'.continuations.entries.Sublist s.continuations.entries := by
  rw [h.entries, List.append_nil]
  exact List.filter_sublist

theorem quiet_thinning : thinning.Quiet := ⟨framing_thinning.placing.touching, fun h => h.thinned⟩

/-- **Only a suspension adds to the table.** -/
theorem thinned_afterAct (s : Session) (quiet : ∀ c, a ≠ .suspend c) :
    (s.afterAct a).continuations.entries.Sublist s.continuations.entries := by
  have houtcome : Outcome thinning s a :=
    outcome_of_unsuspended (handling_of_quiet quiet_thinning s) framing_thinning.placing quiet
  cases houtcome.aftermath renders_thinning with
  | allowed allowed => exact allowed
  | created tag left =>
    rw [left]
    exact List.Sublist.refl _
  | adopted parent left =>
    rw [left]
    exact (framing_thinning.setParent s.nextId (some parent) (s.register "div"))
  | swept _ left =>
    rw [left]
    exact (accounted_swept s).thinned

/-- So every act but a suspension leaves no two of one event. -/
theorem Single.afterAct (h : s.Single) (quiet : ∀ c, a ≠ .suspend c) : (s.afterAct a).Single :=
  h.thinned (issues_afterAct s a) (thinned_afterAct s quiet)

/-- **A suspension** is the only one of its event, if there was none. -/
theorem Single.suspend (h : s.Single) (c : Continuation)
    (none : ∀ e ∈ s.continuations.entries, leftBy c.view c.event e = false) :
    (s.afterAct (.suspend c)).Single := by
  refine ⟨h.issued_of_issues (issues_afterAct s _), ?_⟩
  rw [show s.afterAct (.suspend c) = (Session.suspend c).after s from after_map _ _ s]
  have hcases (e : ContinuationId × Continuation)
      (he : e ∈ ((Session.suspend c).after s).continuations.entries) :
      e = (s.issuer.id s.issued, c) ∨ e ∈ s.continuations.entries := by
    rcases get?_suspend (OrderedMap.get?_eq_some_iff.2 he) with ⟨hid, hc⟩ | ⟨-, hold⟩
    · exact Or.inl (Prod.ext hid hc)
    · exact Or.inr (OrderedMap.get?_eq_some_iff.1 hold)
  intro e he e' he' hleft
  rcases hcases e he with rfl | he <;> rcases hcases e' he' with rfl | he'
  · rfl
  · rw [none e' he'] at hleft
    cases hleft
  · obtain ⟨hview, hevent⟩ := leftBy_iff.1 hleft
    have hother := none e he
    rw [leftBy_iff.2 ⟨hview.symm, hevent.symm⟩] at hother
    cases hother
  · exact h.apart e he e' he' hleft

/-! ## Where a stage begins -/

/-- An event with a handler has discarded whatever it had left. -/
theorem afterAct_dispatch_none_leftBy (s : Session) {value : Json} {stage : Stage}
    (h : s.stageOn? v event value = some stage) :
    ∀ e ∈ (s.afterAct (.request (.dispatch v event value))).continuations.entries,
      leftBy v event e = false := by
  have hc : s.contains v = true := by
    cases hv : s.views.get? v with
    | none => simp [stageOn?, hv] at h
    | some found => exact contains_iff.2 ⟨found, hv⟩
  intro e he
  rw [(accounted_dispatch s v event value).entries, List.append_nil, List.mem_filter, hc,
    Bool.true_and, Bool.not_eq_true'] at he
  exact he.2

/-- **When a stage begins**, nothing of its own event is suspended: an event has discarded it, and a
follow-up request has taken the only one there was. -/
theorem Single.none_leftBy (h : o.before.Single) {resume : ResumePoint → Context → Script}
    {point : ResumePoint} {context : Context}
    (hstage : o.stage? = some (.step resume point context)) :
    ∀ e ∈ o.begun.continuations.entries, leftBy context.view context.event e = false := by
  have hof := Occasion.stageOf?_of_stage? hstage
  cases hrequest : o.request with
  | dispatch v event value =>
    rw [hrequest] at hof
    obtain ⟨-, rfl⟩ := stageOn?_eq_step hof
    rw [Occasion.begun, hrequest]
    exact afterAct_dispatch_none_leftBy _ hof
  | dispatchWire text name value =>
    rw [hrequest] at hof
    -- the view that has been looked up is the one that the text names
    obtain ⟨v, event, -, hp, hn, hon⟩ := stageOf?_dispatchWire hof
    obtain ⟨-, rfl⟩ := stageOn?_eq_step hon
    rw [Occasion.begun, hrequest, afterAct_dispatchWire, hp, hn]
    exact afterAct_dispatch_none_leftBy _ hon
  | resume id =>
    obtain ⟨c, htakes, hcontinues⟩ := Occasion.exists_takes hrequest hstage
    injection hcontinues with _ _ hcontext
    subst hcontext
    intro e he
    rw [Bool.eq_false_iff]
    intro hleft
    have hasks : ∀ c, Act.request (.resume id) ≠ .suspend c := by
      intro c hc
      cases hc
    have hold : e ∈ o.before.continuations.entries := by
      rw [Occasion.begun, hrequest] at he
      exact (thinned_afterAct o.before hasks).subset he
    -- what has been taken was the only one of its event
    have htaken := OrderedMap.get?_eq_some_iff.1 htakes.pending
    have hsame := h.apart _ htaken e hold hleft
    have hgone := htakes.gone
    rw [hsame] at he
    rw [OrderedMap.get?_eq_some_iff.2 he] at hgone
    cases hgone
  | _ =>
    rw [hrequest] at hof
    cases hof

/-! ## Stages -/

/-- **A stage that suspends** leaves the only one of its event, if nothing has come in between. -/
theorem Single.ended (h : o.before.Single) {s : Session}
    {resume : ResumePoint → Context → Script} {point next : ResumePoint} {context : Context}
    {yielded : Json} (suspends : o.Suspends resume point context next yielded s)
    (alone : o.rivals = []) :
    ∀ e ∈ s.continuations.entries, leftBy context.view context.event e = false := by
  intro e he
  rw [Bool.eq_false_iff]
  intro hleft
  have hbegun : o.begun.continuations.contains e.1 = true := by
    by_contra hnew
    have hrival : e.1 ∈ o.rivals := by
      simp only [Occasion.rivals, suspends.stage, suspends.ending]
      refine List.mem_filter.2 ⟨List.mem_map.2 ⟨e, List.mem_filter.2 ⟨he, hleft⟩, rfl⟩, ?_⟩
      rw [Bool.not_eq_true', ← Bool.not_eq_true]
      exact hnew
    rw [alone] at hrival
    exact absurd hrival List.not_mem_nil
  -- what was there when the stage began is what it was
  have hran : Issues o.begun s := by
    have hrun := issues_run o (resume point context)
    rwa [after_of_ok suspends.ending] at hrun
  obtain ⟨c, hc⟩ := Option.isSome_iff_exists.1 hbegun
  obtain ⟨serial, hlt, hid⟩ := h.issued_of_issues (issues_begun o) e.1 c hc
  have hfound : s.continuations.get? e.1 = some e.2 := OrderedMap.get?_eq_some_iff.2 he
  rw [hid] at hfound
  have hold := hran.get?_of_old hlt hfound
  rw [← hid] at hold
  have hnone := h.none_leftBy suspends.stage e (OrderedMap.get?_eq_some_iff.1 hold)
  rw [hleft] at hnone
  cases hnone

/-- What a request leaves, once its script has ended. -/
theorem after_of_stage {stage : Stage} (h : o.stage? = some stage) :
    o.after = (((o.run stage.script).after o.begun).afterActs
      (stage.closingActs (o.run stage.script o.begun))).afterActs
        (answeringActs (stage.operation o.run o.begun)) := by
  obtain ⟨depth, request, before⟩ := o
  cases depth with
  | zero => cases h
  | succ depth =>
    have hscript := afterActs_scriptActs (afterActs_acts depth) stage.script
      (before.afterAct (.request request))
    rw [after_occasion, show Occasion.acts ⟨depth + 1, request, before⟩ = _ from
      acts_of_stage before h, Stage.acts, afterActs_cons, afterActs_append, afterActs_append, hscript]
    rfl

/-- **One stage** leaves no two of one event, if its script does and nothing comes in between. -/
theorem Single.stage {stage : Stage} (h : o.before.Single) (hstage : o.stage? = some stage)
    (ended : ((o.run stage.script).after o.begun).Single) (alone : o.rivals = []) :
    o.after.Single := by
  -- the suspension is the one act of a stage that can add something
  have hclosed : (((o.run stage.script).after o.begun).afterActs
      (stage.closingActs (o.run stage.script o.begun))).Single := by
    cases stage with
    | once body => exact ended
    | step resume point context =>
      rw [Stage.script] at ended ⊢
      cases hran : o.run (resume point context) o.begun with
      | error e s =>
        rw [after_of_error hran] at ended ⊢
        exact ended
      | ok ending s =>
        rw [after_of_ok hran] at ended ⊢
        cases ending with
        | done value => exact ended
        | suspended next yielded =>
          have hparked := ended.suspend ⟨resume, next, yielded, context.view, context.event, s.clock⟩
            (h.ended ⟨hstage, hran⟩ alone)
          refine hparked.afterAct (a := .request (.markDirty context.view)) ?_
          intro c hc
          cases hc
  rw [after_of_stage hstage]
  cases stage.operation o.run o.begun with
  | ok continuation s =>
    refine hclosed.afterAct (a := .request .renderUpdates) ?_
    intro c hc
    cases hc
  | error e s => exact hclosed

/-! ## Scripts and depth -/

/-- **A script** leaves no two of one event, if its requests do. -/
theorem Single.script {perform : Request → Operation Answer}
    {within : Request → Session → List Occasion}
    (keeps : ∀ request s, s.Single → (∀ o ∈ within request s, o.rivals = []) →
      ((perform request).after s).Single) :
    ∀ (script : Script) (s : Session), s.Single →
      (∀ o ∈ script.occasions perform within s, o.rivals = []) →
        ((script.run perform).after s).Single
  | .done _, _, h, _ => h
  | .suspend _ _, _, h, _ => h
  | .fail _, _, h, _ => h
  | .ask request next, s, h, alone => by
    obtain ⟨hfirst, hrest⟩ := List.forall_mem_append.1 alone
    rw [after_run_ask]
    exact Single.script keeps _ _ (keeps request s h hfirst) hrest
  | .animate animation body next, s, h, alone => by
    obtain ⟨hbody, hrest⟩ := List.forall_mem_append.1 alone
    have hended := Single.script keeps body _ (h.afterAct (a := .enter animation) nofun) hbody
    rw [after_run_animate]
    exact Single.script keeps _ _ (hended.afterAct nofun) hrest
  | .note entry next, s, h, alone =>
    Single.script keeps next _ (h.afterAct (a := .note entry) nofun) alone
  | .consult next, s, h, alone => Single.script keeps (next s.journal) s h alone

/-- **A request** leaves no two of one event, however deeply its handlers run handlers. -/
theorem Single.perform : ∀ (depth : Nat) (request : Request) (s : Session), s.Single →
    (∀ o ∈ occasions depth request s, o.rivals = []) → ((perform depth request).after s).Single
  | 0, request, s, h, _ => h.afterAct (a := .request request) nofun
  | depth + 1, request, s, h, alone => by
    cases hstage : s.stageOf? request with
    | none =>
      have hplain : Session.perform (depth + 1) request s = Session.perform 0 request s :=
        performWith_of_noStage hstage
      rw [Operation.after, hplain]
      exact h.afterAct (a := .request request) nofun
    | some stage =>
      let o : Occasion := ⟨depth + 1, request, s⟩
      have hinner : ∀ o' ∈ stage.script.occasions (Session.perform depth) (occasions depth) o.begun,
          o'.rivals = [] := by
        intro o' ho'
        refine alone o' (List.mem_cons_of_mem _ ?_)
        rwa [hstage]
      have hended := Single.script (Single.perform depth) stage.script o.begun
        (h.afterAct (a := .request request) nofun) hinner
      exact Single.stage (o := o) h hstage hended (alone o List.mem_cons_self)

/-! ## Every list of calls -/

/-- **All calls** leave no two of one event, if nothing comes in between at any of the stages that
suspend. -/
theorem Single.afterCalls (h : s.Single) {calls : List Call}
    (requests : ∀ call ∈ calls, call.suspends = false)
    (alone : ∀ o ∈ s.trace calls, o.rivals = []) : (s.afterCalls calls).Single := by
  induction calls generalizing s with
  | nil => exact h
  | cons call rest ih =>
    obtain ⟨hfirst, hrest⟩ := List.forall_mem_append.1 alone
    refine ih ?_ (fun call hcall => requests call (List.mem_cons_of_mem _ hcall)) hrest
    cases call with
    | request depth r => exact Single.perform depth r s h hfirst
    | act a =>
      refine h.afterAct ?_
      rintro c rfl
      cases requests _ List.mem_cons_self

/-- **One pending for each event of a view**, after every list of calls on a new session and whatever
handlers do, provided that no stage that suspends finds that the requests of its own handler have
left something pending for its event. -/
theorem one_pending_of_calls (options : Options) (issuer : Issuer) (calls : List Call)
    (requests : ∀ call ∈ calls, call.suspends = false)
    (alone : ∀ o ∈ (Session.new options issuer).trace calls, o.rivals = []) :
    ∀ v event, (((Session.new options issuer).afterCalls calls).continuations.entries.filter
      (leftBy v event)).length ≤ 1 := by
  intro v event
  have h := (single_new options issuer).afterCalls requests alone
  generalize (Session.new options issuer).afterCalls calls = s at h
  have hnodup : (s.continuations.entries.filter (leftBy v event)).Nodup :=
    (List.Nodup.of_map Prod.fst s.continuations.distinct).filter _
  match hpending : s.continuations.entries.filter (leftBy v event) with
  | [] => exact Nat.zero_le 1
  | [e] => exact Nat.le_refl 1
  | e :: e' :: rest =>
    -- two of them would be the same, and are not
    have he := List.mem_filter.1 (hpending ▸ List.mem_cons_self : e ∈ _)
    have he' := List.mem_filter.1 (hpending ▸ List.mem_cons_of_mem _ List.mem_cons_self : e' ∈ _)
    obtain ⟨rfl, rfl⟩ := leftBy_iff.1 he.2
    have hsame := h.apart e he.1 e' he'.1 he'.2
    rw [hpending, hsame] at hnodup
    exact absurd List.mem_cons_self (List.nodup_cons.1 hnodup).1

/-- A handler that runs an event of its view, and then suspends. -/
def around (event : EventName) : Handler :=
  .suspendable fun _ context => .ask (.dispatch context.view event .null) fun _ => .suspend ⟨1⟩ .null

/-- An event whose handler runs another one takes place twice, and both suspend each time. -/
def someNested : List Call :=
  [.request 2 (.on ⟨1⟩ .click (around .input) ⟨none, false⟩),
    .request 2 (.on ⟨1⟩ .input pausing ⟨none, false⟩), .request 2 (.dispatch ⟨1⟩ .click .null),
    .request 2 (.dispatch ⟨1⟩ .click .null)]

/-- Six requests run, two of them are left pending, and they are of different events. -/
theorem one_pending_of_someNested :
    ((∀ call ∈ someNested, call.suspends = false) ∧
      ∀ o ∈ (Session.new .default "").trace someNested, o.rivals = []) ∧
    ((Session.new .default "").trace someNested).length = 6 ∧
    ((Session.new .default "").afterCalls someNested).continuations.size = 2 ∧
    (((Session.new .default "").afterCalls someNested).continuations.entries.filter
      (leftBy ⟨1⟩ .click)).length ≤ 1 := by
  have requests : ∀ call ∈ someNested, call.suspends = false := by decide
  have alone : ∀ o ∈ (Session.new .default "").trace someNested, o.rivals = [] := by
    decide +kernel
  have single := one_pending_of_calls .default "" someNested requests alone ⟨1⟩ .click
  exact ⟨⟨requests, alone⟩, by decide +kernel, by decide +kernel, single⟩

/-- A handler that puts another one in its own place, runs its own event, and then suspends. -/
def replaced : Handler :=
  .suspendable fun _ context =>
    .ask (.on context.view context.event pausing ⟨none, false⟩) fun _ =>
      .ask (.dispatch context.view context.event .null) fun _ => .suspend ⟨1⟩ .null

/-- **Two pending for one event**: its handler has run the event itself, and that has suspended before
the handler did. -/
theorem two_pending_of_own_event :
    let new := Session.new .default ""
    let calls : List Call := [.request 2 (.on ⟨1⟩ .click replaced ⟨none, false⟩),
      .request 2 (.dispatch ⟨1⟩ .click .null)]
    (∀ call ∈ calls, call.suspends = false) ∧
      (((new.afterCalls calls).continuations.entries.filter (leftBy ⟨1⟩ .click)).map Prod.fst) =
        [.ofSerial "" 0, .ofSerial "" 1] := by
  decide +kernel

end Session

end AnchorLayout
