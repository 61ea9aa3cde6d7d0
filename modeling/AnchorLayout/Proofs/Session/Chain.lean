import AnchorLayout.Proofs.Session.Stages
/-!
# Stages in order

  A handler in stages is started by an event, and every follow-up request runs one more of its
  stages.  Whatever happens in between, no stage is left out, run twice or run in another order.

  1. **Program** — every list of calls on a new session, with all requests that handlers make.
  2. **Specification** — `Follows`: which request goes on where another one has left off; `InOrder`:
     the stages that some requests execute, and what is handed from one to the next.
  3. **One step (`Timeline.goes_on`)** — what is found under an identifier is what was suspended when
     the identifier was handed out.
  4. **The crux (`Timeline.once`)** — a continuation that has been taken is not in the table any more,
     and whatever comes into the table later comes under another identifier.
-/

namespace AnchorLayout

open Operation

/-- The value of an event. -/
def Request.dispatchedValue? : Request → Option Json
  | .dispatch _ _ value => some value
  | .dispatchWire _ _ value => some value
  | _ => none

namespace Occasion

/-- **The request is an event that starts the stages.** -/
def Starts (o : Occasion) (stages : List (Context → Script)) (value : Json) : Prop :=
  o.request.dispatchedValue? = some value ∧
    ∃ context, o.stage? = some (.ofHandler context (.ofStages stages))

/-- **The second request goes on where the first one has left off**: it resumes what the first one
has handed out, and runs a stage. -/
def ContinuedBy (o o' : Occasion) : Prop :=
  ∃ id, o.handed? = some id ∧ o'.request = .resume id ∧ o'.stage?.isSome = true

variable {o : Occasion} {stages : List (Context → Script)} {value : Json}

/-- **The first stage sees the value of the event.** -/
theorem Starts.executes (starts : o.Starts stages value) (some : 0 < stages.length) :
    o.Executes stages 0 value := by
  obtain ⟨hvalue, context, hstage⟩ := starts
  -- an event hands its value to the first stage
  have hseen {v : ViewId} {event : EventName}
      (h : o.before.stageOn? v event value = .some (.ofHandler context (.ofStages stages))) :
      context.value = value :=
    congrArg Context.value (Session.stageOn?_eq_step h).2
  refine ⟨some, context, ?_, hstage⟩
  have hof := stageOf?_of_stage? hstage
  cases hrequest : o.request with
  | dispatch v event given =>
    rw [hrequest] at hvalue hof
    cases hvalue
    exact hseen hof
  | dispatchWire text name given =>
    rw [hrequest] at hvalue hof
    cases hvalue
    obtain ⟨v, event, -, -, -, hon⟩ := Session.stageOf?_dispatchWire hof
    exact hseen hon
  | _ =>
    rw [hrequest] at hvalue
    cases hvalue

end Occasion

namespace Session

/-- One position of a run goes on where another one has left off. -/
def Follows (run : List Occasion) (i j : Nat) : Prop :=
  ∃ o o', run[i]? = some o ∧ run[j]? = some o' ∧ o.ContinuedBy o'

/-- **The requests at some positions of a run execute some stages in order**, from a first one that
sees a value.  Every other one sees what the one before it has left, and begins after that one has
ended. -/
structure InOrder (run : List Occasion) (stages : List (Context → Script)) (first : Nat)
    (value : Json) (chain : List Nat) : Prop where
  few : first + chain.length ≤ stages.length
  later : chain.Pairwise (· < ·)
  executes : ∀ m j, chain[m]? = some j →
    ∃ o seen, run[j]? = some o ∧ o.Executes stages (first + m) seen ∧ (m = 0 → seen = value)
  passes : ∀ m j j', chain[m]? = some j → chain[m + 1]? = some j' →
    ∃ o o' seen, run[j]? = some o ∧ run[j']? = some o' ∧ o' ∉ o.inner ∧ o.Leaves stages seen ∧
      o'.Executes stages (first + (m + 1)) seen

variable {options : Options} {issuer : Issuer} {all : List Act} {run : List Occasion}
  {o o' : Occasion} {i j : Nat} {id : ContinuationId} {c : Continuation}
  {stages : List (Context → Script)} {index : Nat} {seen value : Json}

/-! ## Stages in order -/

theorem InOrder.single (hi : run[i]? = some o) (executes : o.Executes stages index seen) :
    InOrder run stages index seen [i] where
  few := executes.1
  later := List.pairwise_singleton _ _
  executes := by
    intro m j hm
    cases m with
    | zero =>
      obtain rfl : i = j := Option.some.inj hm
      exact ⟨o, seen, hi, executes, fun _ => rfl⟩
    | succ m => cases hm
  passes := by
    intro m j j' hm hm'
    cases hm'

/-- **One more request before the others**, which leaves what the first of them sees. -/
theorem InOrder.cons {k : Nat} {rest : List Nat}
    (ordered : InOrder run stages (index + 1) value (k :: rest)) (hi : run[i]? = some o)
    (executes : o.Executes stages index seen) (hlt : i < k) (hk : run[k]? = some o')
    (outside : o' ∉ o.inner) (leaves : o.Leaves stages value) :
    InOrder run stages index seen (i :: k :: rest) where
  few := by
    have hfew := ordered.few
    simp only [List.length_cons] at hfew ⊢
    omega
  later := by
    refine List.pairwise_cons.2 ⟨fun j hj => ?_, ordered.later⟩
    rcases List.mem_cons.1 hj with rfl | hj
    · exact hlt
    · exact Nat.lt_trans hlt ((List.pairwise_cons.1 ordered.later).1 j hj)
  executes := by
    intro m j hm
    cases m with
    | zero =>
      obtain rfl : i = j := Option.some.inj hm
      exact ⟨o, seen, hi, executes, fun _ => rfl⟩
    | succ m =>
      obtain ⟨o₁, seen₁, hj, hexecutes, -⟩ := ordered.executes m j hm
      rw [Nat.add_right_comm, Nat.add_assoc] at hexecutes
      exact ⟨o₁, seen₁, hj, hexecutes, fun h => absurd h (Nat.succ_ne_zero m)⟩
  passes := by
    intro m j j' hm hm'
    cases m with
    | zero =>
      obtain rfl : i = j := Option.some.inj hm
      obtain rfl : k = j' := Option.some.inj hm'
      -- from the new first stage to the one that was first so far
      obtain ⟨o₁, seen₁, hk₁, hexecutes, hsees⟩ := ordered.executes 0 k rfl
      obtain rfl : o' = o₁ := Option.some.inj (hk.symm.trans hk₁)
      obtain rfl := hsees rfl
      exact ⟨o, o', seen₁, hi, hk, outside, leaves, hexecutes⟩
    | succ m =>
      obtain ⟨o₁, o₂, seen₁, hj, hj', hout, hleft, hexecutes⟩ := ordered.passes m j j' hm hm'
      rw [Nat.add_right_comm, Nat.add_assoc] at hexecutes
      exact ⟨o₁, o₂, seen₁, hj, hj', hout, hleft, hexecutes⟩

/-! ## Two requests of a run -/

/-- Two requests in the order of the run. -/
theorem Timeline.ordered_at {s : Session} (t : s.Timeline all run) (hi : run[i]? = some o)
    (hj : run[j]? = some o') (later : i < j) : o' ∈ o.inner ∨ Issues o.after o'.before := by
  obtain ⟨hi', rfl⟩ := List.getElem?_eq_some_iff.1 hi
  obtain ⟨hj', rfl⟩ := List.getElem?_eq_some_iff.1 hj
  exact List.pairwise_iff_getElem.1 t.ordered i j hi' hj' later

/-- The later one begins after the earlier one has begun. -/
theorem Timeline.issues_later {s : Session} (t : s.Timeline all run) (hi : run[i]? = some o)
    (hj : run[j]? = some o') (later : i < j) : Issues o.begun o'.before := by
  rcases t.ordered_at hi hj later with hinner | hafter
  · obtain ⟨stage, -, hbefore, -⟩ := exists_of_mem_inner hinner
    exact hbefore
  · exact (issues_ended o).trans hafter

variable (t : (Session.new options issuer).Timeline all run)
include t

/-- What is in the table has been issued. -/
theorem Timeline.exists_serial (hi : run[i]? = some o)
    (hc : o.before.continuations.get? id = some c) :
    ∃ serial, serial < o.before.issued ∧ id = o.before.issuer.id serial :=
  Session.exists_serial options issuer (t.issues_before (List.mem_of_getElem? hi)) hc

/-- **A continuation is taken once**: it is not in the table when it is asked for again. -/
theorem Timeline.once (hi : run[i]? = some o) (hj : run[j]? = some o') (later : i < j)
    (takes : o.Takes id c) : o'.before.continuations.get? id = none := by
  rw [Option.eq_none_iff_forall_ne_some]
  intro c' hc'
  obtain ⟨serial, hlt, rfl⟩ := t.exists_serial hi takes.pending
  have hbegun := issues_begun o
  have hlater := t.issues_later hi hj later
  have hold : serial < o.begun.issued := Nat.lt_of_lt_of_le hlt hbegun.issued
  rw [← hbegun.issuer] at hc'
  have hstill := hlater.get?_of_old hold hc'
  rw [hbegun.issuer, takes.gone] at hstill
  cases hstill

/-- **What goes on begins after the other one has ended.** -/
theorem Timeline.goes_on (hi : run[i]? = some o) (hj : run[j]? = some o')
    (continued : o.ContinuedBy o') : i < j ∧ o' ∉ o.inner ∧ Issues o.after o'.before := by
  obtain ⟨id, hhanded, hrequest, hruns⟩ := continued
  obtain ⟨resume, point, context, next, yielded, s, hsuspends, hid⟩ :=
    Occasion.exists_suspends hhanded
  obtain ⟨stage, hstage⟩ := Option.isSome_iff_exists.1 hruns
  obtain ⟨c, htakes, -⟩ := Occasion.exists_takes hrequest hstage
  -- the identifier is the next one when the stage ends, and has been issued when it is resumed
  have hran : Issues o.begun s := by
    have hrun := issues_run o (resume point context)
    rwa [after_of_ok hsuspends.ending] at hrun
  have hissued : s.issued < o'.before.issued := by
    obtain ⟨serial, hlt, hserial⟩ := t.exists_serial hj htakes.pending
    have hissuer : o'.before.issuer = s.issuer := by
      have hold := (t.issues_before (List.mem_of_getElem? hi)).trans ((issues_begun o).trans hran)
      rw [(t.issues_before (List.mem_of_getElem? hj)).issuer, hold.issuer]
    rw [hid, hissuer] at hserial
    rwa [s.issuer.injective hserial]
  have hlater : i < j := by
    have hbegun := (issues_begun o).issued
    have hend := hran.issued
    rcases Nat.lt_trichotomy i j with hlt | rfl | hgt
    · exact hlt
    · obtain rfl : o = o' := Option.some.inj (hi.symm.trans hj)
      omega
    · have hbegun' := (issues_begun o').issued
      have hbefore := (t.issues_later hj hi hgt).issued
      omega
  have houtside : o' ∉ o.inner := by
    intro hinner
    obtain ⟨stage', hstage', -, hafter⟩ := exists_of_mem_inner hinner
    obtain rfl : Stage.step resume point context = stage' :=
      Option.some.inj (hsuspends.stage.symm.trans hstage')
    rw [Stage.script, after_of_ok hsuspends.ending] at hafter
    have hbegun := (issues_begun o').issued
    have hended := (issues_ended o').issued
    have hend := hafter.issued
    omega
  refine ⟨hlater, houtside, ?_⟩
  rcases t.ordered_at hi hj hlater with hinner | hafter
  · exact absurd hinner houtside
  · exact hafter

/-- **What goes on executes the next stage**, which sees what the stage before it has left. -/
theorem Timeline.passes (never : ∀ stage ∈ stages, ∀ context, (stage context).NeverSuspends)
    (hi : run[i]? = some o) (hj : run[j]? = some o') (executes : o.Executes stages index seen)
    (continued : o.ContinuedBy o') :
    ∃ left, o.Leaves stages left ∧ o'.Executes stages (index + 1) left := by
  obtain ⟨-, -, hafter⟩ := t.goes_on hi hj continued
  obtain ⟨id, hhanded, hrequest, hruns⟩ := continued
  obtain ⟨resume, point, context, next, yielded, s, hsuspends, rfl⟩ :=
    Occasion.exists_suspends hhanded
  obtain ⟨stage, hstage⟩ := Option.isSome_iff_exists.1 hruns
  obtain ⟨c, htakes, rfl⟩ := Occasion.exists_takes hrequest hstage
  obtain ⟨rfl, rfl, hlt, hleaves⟩ := executes.suspends never hsuspends
  have hended := hsuspends.issues_after
  have hissuer : o.after.issuer = s.issuer := hended.issuer
  have hold : s.issued < o.after.issued :=
    Nat.lt_of_lt_of_le (Nat.lt_succ_self s.issued) hended.issued
  have hpending := htakes.pending
  rw [← hissuer] at hpending
  have hfound := hafter.get?_of_old hold hpending
  rw [hissuer] at hfound
  obtain rfl := hsuspends.pending hfound
  exact ⟨yielded, hleaves, hlt, _, rfl, hstage⟩

/-- At most one request goes on where another one has left off. -/
theorem Timeline.follows_unique {k : Nat} (hj : Follows run i j) (hk : Follows run i k) :
    j = k := by
  obtain ⟨o, o', hi, hj, id, hhanded, hrequest, hruns⟩ := hj
  obtain ⟨o₂, o'', hi₂, hk, id', hhanded', hrequest', hruns'⟩ := hk
  obtain rfl : o = o₂ := Option.some.inj (hi.symm.trans hi₂)
  obtain rfl : id = id' := Option.some.inj (hhanded.symm.trans hhanded')
  -- the later one of two would find nothing
  have honce {a b : Nat} {p q : Occasion} (ha : run[a]? = some p) (hb : run[b]? = some q)
      (hp : p.request = .resume id) (hq : q.request = .resume id) (hpr : p.stage?.isSome = true)
      (hqr : q.stage?.isSome = true) (hlt : a < b) : False := by
    obtain ⟨stage, hstage⟩ := Option.isSome_iff_exists.1 hpr
    obtain ⟨c, htakes, -⟩ := Occasion.exists_takes hp hstage
    rw [(Occasion.not_found hq (t.once ha hb hlt htakes)).1] at hqr
    cases hqr
  rcases Nat.lt_trichotomy j k with hlt | heq | hgt
  · exact (honce hj hk hrequest hrequest' hruns hruns' hlt).elim
  · exact heq
  · exact (honce hk hj hrequest' hrequest hruns' hruns hgt).elim

/-- **The chain of what goes on**, one stage after the other. -/
theorem Timeline.exists_inOrder
    (never : ∀ stage ∈ stages, ∀ context, (stage context).NeverSuspends) (left : Nat) :
    ∀ {index i : Nat} {o : Occasion} {seen : Json}, index + left = stages.length →
      run[i]? = some o → o.Executes stages index seen →
      ∃ rest, InOrder run stages index seen (i :: rest) ∧
        ∀ j, j ∈ i :: rest ↔ Relation.ReflTransGen (Follows run) i j := by
  induction left with
  | zero =>
    intro index i o seen hlength hi executes
    exact absurd executes.1 (by omega)
  | succ left ih =>
    intro index i o seen hlength hi executes
    have hstep (j : Nat) : Relation.ReflTransGen (Follows run) i j ↔
        i = j ∨ ∃ k, Follows run i k ∧ Relation.ReflTransGen (Follows run) k j :=
      Relation.ReflTransGen.cases_head_iff
    -- the chain goes on with the one request that follows, or ends here
    by_cases hgoes : ∃ k, Follows run i k
    · obtain ⟨k, hfollows⟩ := hgoes
      obtain ⟨o₂, o', hi₂, hk, continued⟩ := id hfollows
      obtain rfl : o = o₂ := Option.some.inj (hi.symm.trans hi₂)
      obtain ⟨hlt, houtside, -⟩ := t.goes_on hi hk continued
      obtain ⟨passed, hleaves, hnext⟩ := t.passes never hi hk executes continued
      obtain ⟨rest, hrest, hmem⟩ := ih (by omega) hk hnext
      refine ⟨k :: rest, hrest.cons hi executes hlt hk houtside hleaves, fun j => ?_⟩
      rw [hstep, List.mem_cons, hmem]
      constructor
      · rintro (rfl | hj)
        · exact Or.inl rfl
        · exact Or.inr ⟨k, hfollows, hj⟩
      · rintro (rfl | ⟨k', hfollows', hj⟩)
        · exact Or.inl rfl
        · exact Or.inr (t.follows_unique hfollows hfollows' ▸ hj)
    · refine ⟨[], InOrder.single hi executes, fun j => ?_⟩
      rw [hstep, List.mem_singleton]
      constructor
      · rintro rfl
        exact Or.inl rfl
      · rintro (rfl | ⟨k, hfollows, -⟩)
        · rfl
        · exact absurd ⟨k, hfollows⟩ hgoes

omit t

/-- Where identifiers last, the tree is a forest still when the stage of a request has ended. -/
theorem Timeline.forest_ended {s : Session} (t : s.Timeline all run) (f : s.Forest)
    (lasts : s.Lasts all) (ho : o ∈ run) {stage : Stage} (hstage : o.stage? = some stage) :
    ((o.run stage.script).after o.begun).Forest := by
  obtain ⟨pre, post, hall, hended⟩ := t.ended_within ho hstage
  rw [← hended]
  rw [hall] at lasts
  exact f.afterActs lasts.left

/-- **An identifier is handed out** exactly when the stage has succeeded and was not the last. -/
theorem Timeline.handed_iff {s : Session} (t : s.Timeline all run) (f : s.Forest)
    (lasts : s.Lasts all) (never : ∀ stage ∈ stages, ∀ context, (stage context).NeverSuspends)
    (ho : o ∈ run) (executes : o.Executes stages index seen) :
    o.handed?.isSome = true ↔ (∃ value, o.Leaves stages value) ∧ index + 1 < stages.length := by
  constructor
  · intro hhanded
    obtain ⟨id, hid⟩ := Option.isSome_iff_exists.1 hhanded
    obtain ⟨resume, point, context, next, yielded, s, hsuspends, -⟩ := Occasion.exists_suspends hid
    obtain ⟨-, -, hlt, hleaves⟩ := executes.suspends never hsuspends
    exact ⟨⟨yielded, hleaves⟩, hlt⟩
  · rintro ⟨⟨value, hleaves⟩, hlt⟩
    obtain ⟨context, s', hsuspends⟩ := executes.exists_suspends hleaves hlt
    have hforest := t.forest_ended f lasts ho hsuspends.stage
    rw [Stage.script, after_of_ok hsuspends.ending] at hforest
    rw [hsuspends.handed hforest]
    rfl

/-! ## Every list of calls -/

/-- **Every stage runs once and in order**, whatever happens in between and whatever handlers do. -/
theorem stages_run_in_order (options : Options) (issuer : Issuer) (calls : List Call) :
    let run := (Session.new options issuer).trace calls
    (∀ stages : List (Context → Script),
      (∀ stage ∈ stages, ∀ context, (stage context).NeverSuspends) →
      (∀ i o value, run[i]? = some o → o.Starts stages value →
        ∃ chain, InOrder run stages 0 value chain ∧
          ∀ j, j ∈ chain ↔ Relation.ReflTransGen (Follows run) i j ∧
            ∃ o' index seen, run[j]? = some o' ∧ o'.Executes stages index seen) ∧
      (1 + (Session.new options issuer).creations
          ((Session.new options issuer).unfolded calls) < UInt32.size - 1 →
        ∀ o ∈ run, ∀ index seen, o.Executes stages index seen →
          (o.handed?.isSome = true ↔
            (∃ value, o.Leaves stages value) ∧ index + 1 < stages.length))) ∧
    (∀ o ∈ run, o.handed?.isSome = true →
      ∃ resume point context, o.stage? = some (.step resume point context)) ∧
    (∀ (i j : Nat) (o o' : Occasion) (id : ContinuationId) (c : Continuation),
      run[i]? = some o → run[j]? = some o' → i < j → o.Takes id c → o'.request = .resume id →
      o'.stage? = none ∧ o'.answer = .error (.continuationNotFound id.text) ∧
        ∀ c', ¬ o'.Takes id c') := by
  intro run
  have t : (Session.new options issuer).Timeline _ run := timeline_trace _ calls
  refine ⟨fun stages never => ⟨?_, ?_⟩, ?_, ?_⟩
  · intro i o value hi starts
    by_cases hsome : 0 < stages.length
    · obtain ⟨rest, hordered, hmem⟩ := t.exists_inOrder never stages.length (Nat.zero_add _) hi
        (starts.executes hsome)
      refine ⟨i :: rest, hordered, fun j => ?_⟩
      rw [hmem]
      refine ⟨fun hj => ⟨hj, ?_⟩, fun hj => hj.1⟩
      obtain ⟨m, hm⟩ := List.getElem?_of_mem ((hmem j).2 hj)
      obtain ⟨o', seen, hj', hexecutes, -⟩ := hordered.executes m j hm
      exact ⟨o', 0 + m, seen, hj', hexecutes⟩
    · -- without any stages nothing is executed
      refine ⟨[], ⟨Nat.zero_le _, List.Pairwise.nil, ?_, ?_⟩, fun j => ?_⟩
      · intro m j hm
        cases hm
      · intro m j j' hm
        cases hm
      · constructor
        · intro hj
          exact absurd hj List.not_mem_nil
        · rintro ⟨-, o', index, seen, -, hexecutes⟩
          exact absurd (Nat.lt_of_le_of_lt (Nat.zero_le _) hexecutes.1) hsome
  · intro few o ho index seen executes
    exact t.handed_iff (forest_new options issuer) (lasts_new options issuer few) never ho executes
  -- what is handed out has been suspended, so the handler is one that can suspend
  · intro o _ hhanded
    obtain ⟨id, hid⟩ := Option.isSome_iff_exists.1 hhanded
    obtain ⟨resume, point, context, next, yielded, s, hsuspends, -⟩ := Occasion.exists_suspends hid
    exact ⟨resume, point, context, hsuspends.stage⟩
  -- what has been taken is not in the table any more, and does not come back
  · intro i j o o' id c hi hj later takes hrequest
    have habsent := t.once hi hj later takes
    obtain ⟨hstage, hanswer⟩ := Occasion.not_found hrequest habsent
    refine ⟨hstage, hanswer, fun c' htakes => ?_⟩
    rw [htakes.pending] at habsent
    cases habsent

/-- Two stages, the first of which sweeps before it leaves what it has seen. -/
def twoStages : List (Context → Script) :=
  [fun context => .ask .sweep fun _ => .done context.value, fun context => .done context.value]

/-- The stages are bound to an event of the root, which takes place, and the follow-up request is
made twice. -/
def someStages : List Call :=
  [.request 1 (.on ⟨1⟩ .click (.ofStages twoStages) ⟨none, false⟩),
    .request 1 (.dispatch ⟨1⟩ .click .null), .request 1 (.resume (.ofSerial "" 0)),
    .request 1 (.resume (.ofSerial "" 0))]

theorem stages_run_in_order_of_someStages :
    let run := (Session.new .default "").trace someStages
    1 + (Session.new .default "").creations ((Session.new .default "").unfolded someStages) <
        UInt32.size - 1 ∧
      (∀ stage ∈ twoStages, ∀ context, (stage context).NeverSuspends) ∧
      ∃ o₁ o₃ o₄, run[1]? = some o₁ ∧ run[3]? = some o₃ ∧ run[4]? = some o₄ ∧
        o₁.Starts twoStages .null ∧ (∃ value, o₁.Leaves twoStages value) ∧
        (∃ chain, InOrder run twoStages 0 .null chain ∧ 1 ∈ chain ∧ 3 ∈ chain) ∧
        o₄.stage? = none ∧
        o₄.answer = .error (.continuationNotFound (ContinuationId.ofSerial "" 0).text) := by
  intro run
  have few : 1 + (Session.new .default "").creations
      ((Session.new .default "").unfolded someStages) < UInt32.size - 1 := by decide +kernel
  have never : ∀ stage ∈ twoStages, ∀ context, (stage context).NeverSuspends := by
    simp [twoStages, Script.NeverSuspends]
  obtain ⟨hstages, -, honce⟩ := stages_run_in_order .default "" someStages
  obtain ⟨hordered, hhanded⟩ := hstages twoStages never
  obtain ⟨s₁, h₁⟩ : ∃ s, run[1]? = some ⟨1, .dispatch ⟨1⟩ .click .null, s⟩ := ⟨_, rfl⟩
  obtain ⟨s₃, h₃⟩ : ∃ s, run[3]? = some ⟨1, .resume (.ofSerial "" 0), s⟩ := ⟨_, rfl⟩
  obtain ⟨s₄, h₄⟩ : ∃ s, run[4]? = some ⟨1, .resume (.ofSerial "" 0), s⟩ := ⟨_, rfl⟩
  -- the three requests: an event, the follow-up of what it leaves, and the same follow-up again
  have hstage₁ : run[1]?.bind Occasion.stage? =
      some (.ofHandler ⟨⟨1⟩, .click, .null⟩ (.ofStages twoStages)) := rfl
  have hhanded₁ : run[1]?.bind Occasion.handed? = some (.ofSerial "" 0) := by decide +kernel
  have hstage₃ : (run[3]?.bind Occasion.stage?).isSome = true := by decide +kernel
  rw [h₁, Option.bind_some] at hstage₁ hhanded₁
  rw [h₃, Option.bind_some] at hstage₃
  have starts : (⟨1, .dispatch ⟨1⟩ .click .null, s₁⟩ : Occasion).Starts twoStages .null :=
    ⟨rfl, _, hstage₁⟩
  have executes := starts.executes (by decide)
  have continued : Occasion.ContinuedBy _ _ := ⟨_, hhanded₁, rfl, hstage₃⟩
  have follows : Follows run 1 3 := ⟨_, _, h₁, h₃, continued⟩
  obtain ⟨left, -, executes₃⟩ :=
    (timeline_trace _ someStages).passes never h₁ h₃ executes continued
  obtain ⟨stage, hstage⟩ := Option.isSome_iff_exists.1 hstage₃
  obtain ⟨c, htakes, rfl⟩ := Occasion.exists_takes rfl hstage
  obtain ⟨chain, hchain, hmem⟩ := hordered 1 _ _ h₁ starts
  refine ⟨few, never, _, _, _, h₁, h₃, h₄, starts, ?_, ⟨chain, hchain, ?_, ?_⟩, ?_, ?_⟩
  · exact ((hhanded few _ (List.mem_of_getElem? h₁) _ _ executes).1 (by rw [hhanded₁]; rfl)).1
  · exact (hmem 1).2 ⟨.refl, _, _, _, h₁, executes⟩
  · exact (hmem 3).2 ⟨.single follows, _, _, _, h₃, executes₃⟩
  · exact (honce 3 4 _ _ _ _ h₃ h₄ (by decide) htakes rfl).1
  · exact (honce 3 4 _ _ _ _ h₃ h₄ (by decide) htakes rfl).2.1

end Session

end AnchorLayout
