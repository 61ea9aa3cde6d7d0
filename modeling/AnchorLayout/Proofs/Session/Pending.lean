import AnchorLayout.Proofs.Session.Ledger
/-!
# What is pending in a run

  An identifier that has been issued is pending until one of the acts that can let go of it does, and
  then never again.

  1. **Program** — every list of calls on a new session, with all that handlers do.
  2. **Specification** — `Session.drops`, along the acts of the run.
  3. **One act (`get?_afterAct`)** — read off the account.
  4. **The crux (`get?_afterActs`)** — by induction on the acts: what has been let go of does not come
     back, because identifiers do not repeat.
-/

namespace AnchorLayout

open Operation

namespace Session

variable {s : Session} {id : ContinuationId} {c : Continuation} {acts : List Act} {o : Occasion}

/-! ## One act -/

/-- **What is pending after an act**: what was pending and has not been let go of, and what has been
issued. -/
theorem Accounted.get?_eq_some_iff {s' : Session} {gone : ContinuationId × Continuation → Bool}
    {added : List (ContinuationId × Continuation)} (h : Accounted s s' gone added) :
    s'.continuations.get? id = some c ↔
      (s.continuations.get? id = some c ∧ gone (id, c) = false) ∨ (id, c) ∈ added := by
  rw [OrderedMap.get?_eq_some_iff, OrderedMap.get?_eq_some_iff, h.entries, List.mem_append,
    List.mem_filter, Bool.not_eq_true']

/-- **What was pending** still is, and is what it was, or the act has let go of it. -/
theorem Tidy.get?_afterAct (t : s.Tidy) (young : s.Young) (atLeastOne : 0 < s.options.maxContinuations)
    (a : Act) (pending : s.continuations.get? id = some c) :
    (s.afterAct a).continuations.get? id = if s.drops a (id, c) then none else some c := by
  have account := accounted_afterAct t young atLeastOne a
  by_cases hdrops : s.drops a (id, c) = true
  · rw [if_pos hdrops, Option.eq_none_iff_forall_ne_some]
    intro c' hc'
    rcases account.get?_eq_some_iff.1 hc' with ⟨hold, hkept⟩ | hnew
    · obtain rfl : c = c' := Option.some.inj (pending.symm.trans hold)
      rw [hdrops] at hkept
      cases hkept
    · rcases issuedBy_cases s a with ⟨parked, rfl⟩ | hnone
      · -- the next identifier is another one
        obtain ⟨rfl, -⟩ := Prod.mk.inj (List.mem_singleton.1 hnew)
        exact t.fresh (OrderedMap.contains_iff_mem_keys.1 (by rw [OrderedMap.contains, pending]; rfl))
      · rw [hnone] at hnew
        exact absurd hnew List.not_mem_nil
  · rw [if_neg hdrops]
    exact account.get?_eq_some_iff.2 (Or.inl ⟨pending, Bool.not_eq_true _ ▸ hdrops⟩)

/-! ## Every list of acts -/

/-- **The table is in order after every list of acts**, as long as nothing gets too old. -/
theorem Tidy.afterActs (t : s.Tidy) (young : s.Along Young acts)
    (atLeastOne : 0 < s.options.maxContinuations) :
    (s.afterActs acts).Tidy ∧ (s.afterActs acts).options = s.options ∧
      (s.afterActs acts).issuer = s.issuer := by
  induction acts generalizing s with
  | nil => exact ⟨t, rfl, rfl⟩
  | cons a rest ih =>
    have account := accounted_afterAct t young.1 atLeastOne a
    obtain ⟨htidy, hoptions, hissuer⟩ := ih (t.afterAct young.1 atLeastOne a) young.2
      (account.options ▸ atLeastOne)
    exact ⟨htidy, hoptions.trans account.options, hissuer.trans account.issuer⟩

/-- What is not pending, though it has been issued, does not come back. -/
theorem get?_afterActs_of_gone {serial : Nat} (old : serial < s.issued)
    (gone : s.continuations.get? (s.issuer.id serial) = none) (acts : List Act) :
    (s.afterActs acts).continuations.get? (s.issuer.id serial) = none := by
  rw [Option.eq_none_iff_forall_ne_some]
  intro c hc
  have hback := (issues_afterActs s acts).get?_of_old old hc
  rw [gone] at hback
  cases hback

/-- What is pending was issued, and so has a serial number below the counter. -/
theorem Tidy.exists_serial (t : s.Tidy) (pending : s.continuations.get? id = some c) :
    ∃ serial, serial < s.issued ∧ id = s.issuer.id serial := by
  obtain ⟨serials, hkeys, -, hlt⟩ := t.ordered
  have hid : id ∈ s.continuations.keys :=
    OrderedMap.contains_iff_mem_keys.1 (by rw [OrderedMap.contains, pending]; rfl)
  rw [hkeys] at hid
  obtain ⟨serial, hserial, rfl⟩ := List.mem_map.1 hid
  exact ⟨serial, hlt serial hserial, rfl⟩

/-- **What was pending** still is, and is what it was, or one of the acts has let go of it. -/
theorem Tidy.get?_afterActs (t : s.Tidy) (young : s.Along Young acts)
    (atLeastOne : 0 < s.options.maxContinuations) (pending : s.continuations.get? id = some c) :
    ((s.afterActs acts).continuations.get? id = some c ∧ ∀ first a last,
        acts = first ++ a :: last → (s.afterActs first).drops a (id, c) = false) ∨
      ((s.afterActs acts).continuations.get? id = none ∧ ∃ first a last,
        acts = first ++ a :: last ∧ (s.afterActs first).drops a (id, c) = true) := by
  induction acts generalizing s with
  | nil =>
    refine Or.inl ⟨pending, fun first a last h => ?_⟩
    exact absurd h (by simp)
  | cons a rest ih =>
    have hafter := t.get?_afterAct young.1 atLeastOne a pending
    have account := accounted_afterAct t young.1 atLeastOne a
    -- either the first act lets go of the entry, or the rest is asked about it
    by_cases hdrops : s.drops a (id, c) = true
    · rw [if_pos hdrops] at hafter
      obtain ⟨serial, hlt, rfl⟩ := t.exists_serial pending
      refine Or.inr ⟨?_, [], a, rest, rfl, hdrops⟩
      rw [← account.issuer] at hafter ⊢
      refine get?_afterActs_of_gone ?_ hafter rest
      have hissued := account.issued
      omega
    · rw [if_neg hdrops] at hafter
      rcases ih (t.afterAct young.1 atLeastOne a) young.2 (account.options ▸ atLeastOne) hafter with
        ⟨hstill, hnone⟩ | ⟨hgone, first, b, last, hsplit, hb⟩
      · refine Or.inl ⟨hstill, fun first b last h => ?_⟩
        cases first with
        | nil =>
          obtain ⟨rfl, -⟩ := List.cons.inj h
          exact Bool.not_eq_true _ ▸ hdrops
        | cons b' first =>
          obtain ⟨rfl, hrest⟩ := List.cons.inj h
          exact hnone first b last hrest
      · exact Or.inr ⟨hgone, a :: first, b, last, by rw [hsplit]; rfl, hb⟩

/-! ## What is handed out -/

/-- **What a request hands out** is pending when the request is over: nothing comes after the
suspension but the patch. -/
theorem Timeline.pending_of_handed {all : List Act} {run : List Occasion} (t : s.Timeline all run)
    (tidy : s.Tidy) (young : s.Along Young all) (atLeastOne : 0 < s.options.maxContinuations)
    (ho : o ∈ run) (handed : o.handed? = some id) :
    ∃ c, o.after.continuations.get? id = some c := by
  obtain ⟨resume, point, context, next, yielded, ended, suspends, rfl⟩ :=
    Occasion.exists_suspends handed
  obtain ⟨before, after, rfl, hended⟩ := t.ended_within ho suspends.stage
  rw [Stage.script, after_of_ok suspends.ending] at hended
  rw [along_append] at young
  obtain ⟨htidy, hoptions, -⟩ := tidy.afterActs young.1 atLeastOne
  have hyoung := young.2.head
  rw [hended] at htidy hoptions hyoung
  let c : Continuation := ⟨resume, next, yielded, context.view, context.event, ended.clock⟩
  have account := accounted_suspend htidy hyoung (hoptions ▸ atLeastOne) c
  rw [show ended.afterAct (.suspend c) = (suspend c).after ended from after_map _ _ ended] at account
  have hparked : (ended.parked resume context next yielded).continuations.get?
      (ended.issuer.id ended.issued) = some c :=
    account.get?_eq_some_iff.2 (Or.inr (List.mem_singleton_self _))
  refine ⟨c, ?_⟩
  have hrendered : SameTable _ _ :=
    renders_keepsTable.renderUpdates (ended.parked resume context next yielded)
  rw [suspends.after_eq, hrendered.continuations]
  exact hparked

/-! ## Every list of calls -/

/-- The table of a new session is empty. -/
theorem tidy_new (options : Options) (issuer : Issuer) : (Session.new options issuer).Tidy :=
  ⟨Nat.zero_le _, [], rfl, List.Pairwise.nil, by simp⟩

/-- **The account of every run**: at every point of it there are no more handlers suspended than
there may be, in the order of issue; what the next act leaves of them is what it does not let go of,
and what it issues; and from there to every later point each of them stays what it is, or is let go
of by one of the acts in between and does not come back.  What a request hands out is pending when
the request is over. -/
theorem account_of_calls (options : Options) (issuer : Issuer) (calls : List Call)
    (atLeastOne : 0 < options.maxContinuations)
    (young : (Session.new options issuer).Along Young
      ((Session.new options issuer).unfolded calls)) :
    (∀ before after, (Session.new options issuer).unfolded calls = before ++ after →
      let s := (Session.new options issuer).afterActs before
      s.continuations.size ≤ options.maxContinuations ∧
      (∃ serials : List Nat, s.continuations.keys = serials.map issuer.id ∧
        serials.Pairwise (· < ·)) ∧
      (∀ a rest, after = a :: rest → (s.afterAct a).continuations.entries =
        s.continuations.entries.filter (fun e => !s.drops a e) ++ s.issuedBy a) ∧
      (∀ between rest, after = between ++ rest → ∀ id c, s.continuations.get? id = some c →
        ((s.afterActs between).continuations.get? id = some c ∧ ∀ first a last,
            between = first ++ a :: last → (s.afterActs first).drops a (id, c) = false) ∨
          ((s.afterActs between).continuations.get? id = none ∧ ∃ first a last,
            between = first ++ a :: last ∧ (s.afterActs first).drops a (id, c) = true))) ∧
    (∀ o ∈ (Session.new options issuer).trace calls, ∀ id, o.handed? = some id →
      ∃ c, o.after.continuations.get? id = some c) := by
  have tidy := tidy_new options issuer
  constructor
  · intro before after hsplit s
    rw [hsplit, along_append] at young
    obtain ⟨htidy, hoptions, hissuer⟩ := tidy.afterActs young.1 atLeastOne
    change s.Tidy at htidy
    change s.options = options at hoptions
    change s.issuer = issuer at hissuer
    have hsome : 0 < s.options.maxContinuations := hoptions ▸ atLeastOne
    refine ⟨hoptions ▸ htidy.few, ?_, ?_, ?_⟩
    · obtain ⟨serials, hkeys, hordered, -⟩ := htidy.ordered
      exact ⟨serials, hissuer ▸ hkeys, hordered⟩
    · rintro a rest rfl
      exact (accounted_afterAct htidy young.2.1 hsome a).entries
    · rintro between rest rfl id c pending
      exact htidy.get?_afterActs (along_append.1 young.2).1 hsome pending
  · intro o ho id handed
    exact (timeline_trace _ calls).pending_of_handed tidy young atLeastOne ho handed

/-- No more than two suspended handlers. -/
def twoAtMost : Options := { Options.default with maxContinuations := 2 }

/-- Three events of the root are left suspended, which is one too many, and the second of them is
taken up again. -/
def someSuspensions : List Call :=
  [.request 1 (.on ⟨1⟩ .click pausing ⟨none, false⟩),
    .request 1 (.on ⟨1⟩ .input pausing ⟨none, false⟩),
    .request 1 (.on ⟨1⟩ .change pausing ⟨none, false⟩), .request 1 (.dispatch ⟨1⟩ .click .null),
    .request 1 (.dispatch ⟨1⟩ .input .null), .request 1 (.dispatch ⟨1⟩ .change .null),
    .request 1 (.resume (.ofSerial "" 1))]

/-- The first is pushed out by the third.  The second is taken and suspends once more, and what is
handed out for it then is pending. -/
theorem account_of_someSuspensions :
    let new := Session.new twoAtMost ""
    let s := new.afterActs ((new.unfolded someSuspensions).take 8)
    0 < twoAtMost.maxContinuations ∧ new.Along Young (new.unfolded someSuspensions) ∧
      (∃ c, s.continuations.get? (.ofSerial "" 0) = some c ∧ ∃ first a last,
        (new.unfolded someSuspensions).drop 8 = first ++ a :: last ∧
          (s.afterActs first).drops a (.ofSerial "" 0, c) = true) ∧
      ∃ o ∈ new.trace someSuspensions, o.request = .resume (.ofSerial "" 1) ∧
        ∃ c, o.after.continuations.get? (.ofSerial "" 3) = some c := by
  intro new s
  have young : new.Along Young (new.unfolded someSuspensions) := by decide +kernel
  obtain ⟨hpoints, hhanded⟩ := account_of_calls twoAtMost "" someSuspensions (by decide) young
  refine ⟨by decide, young, ?_, ?_⟩
  · obtain ⟨-, -, -, hlater⟩ := hpoints _ _ (List.take_append_drop 8 _).symm
    have hpending : (s.continuations.get? (.ofSerial "" 0)).isSome = true := by decide +kernel
    obtain ⟨c, hc⟩ := Option.isSome_iff_exists.1 hpending
    have hgone : ((s.afterActs ((new.unfolded someSuspensions).drop 8)).continuations.get?
        (.ofSerial "" 0)).isSome = false := by decide +kernel
    rcases hlater _ [] (List.append_nil _).symm _ c hc with ⟨hstill, -⟩ | ⟨-, hdropped⟩
    · rw [hstill] at hgone
      cases hgone
    · exact ⟨c, hc, hdropped⟩
  · have hmem : ⟨1, .resume (.ofSerial "" 1), new.afterCalls (someSuspensions.take 6)⟩ ∈
        new.trace someSuspensions := mem_trace new (someSuspensions.take 6) [] 1 _
    have hid : Occasion.handed? ⟨1, .resume (.ofSerial "" 1),
        new.afterCalls (someSuspensions.take 6)⟩ = some (.ofSerial "" 3) := by decide +kernel
    exact ⟨_, hmem, rfl, hhanded _ hmem _ hid⟩

end Session

end AnchorLayout
