import AnchorLayout.Proofs.Session.Suspension
/-!
# The account of suspended handlers

  Six kinds of act take continuations out of the table, each by a test of its own, and one puts them
  in.  As long as none of them gets too old, what an act leaves in the table is what it does not let
  go of, in the same order, and then what it issues.

  1. **Program** — every act, and every list of acts.
  2. **Specification** — `Session.drops`: whether an act lets go of an entry; `Session.issuedBy`: what
     it issues; `Session.Tidy`: no more entries than there may be, in the order of issue.
  3. **One act (`accounted_afterAct`)** — most acts leave the table alone (`SameTable`); there is one
     case for each of the others.
  4. **The crux (`accounted_suspend`)** — the table is never more than full, so what makes room for a
     new entry is the oldest one and no other.
-/

namespace AnchorLayout

open Operation

namespace Session

variable {s s' : Session} {id : ContinuationId} {c : Continuation}

/-! ## What is let go of, and what is issued -/

/-- No suspended handler is too old. -/
def Young (s : Session) : Prop :=
  ∀ e ∈ s.continuations.entries, s.clock - e.2.created < s.options.lifetime

/-- So a run can be checked for it. -/
instance decidableYoung : DecidablePred Young :=
  fun s => inferInstanceAs (Decidable (∀ e ∈ s.continuations.entries, _))

/-- Whether a handler is bound to an event of a view. -/
def isBound (s : Session) (v : ViewId) (event : EventName) : Bool :=
  ((s.views.get? v).bind fun view => view.bindings.get? event).isSome

/-- What a handler of the event has left suspended. -/
def leftBy (v : ViewId) (event : EventName) (e : ContinuationId × Continuation) : Bool :=
  e.2.view == v && e.2.event == event

/-- **Whether an act lets go of an entry of the table**: a follow-up request of the one that it
resumes, an event and the removal of a binding of what the binding has left, a sweep of what the
views have left that are forgotten, and a suspension of the oldest one when the table is full. -/
def drops (s : Session) : Act → ContinuationId × Continuation → Bool
  | .request (.resume id) => fun e => e.1 = id
  | .request (.dispatch v event _) => fun e => s.contains v && leftBy v event e
  | .request (.dispatchWire text name _) =>
    match ViewId.parse? text, EventName.ofName? name with
    | some v, some event => fun e => s.contains v && leftBy v event e
    | _, _ => fun _ => false
  | .request (.removeEvent v event) => fun e => s.isBound v event && leftBy v event e
  | .request .sweep => fun e => decide (e.2.view ∈ s.unreachable)
  | .suspend _ => fun e => decide (s.continuations.size = s.options.maxContinuations ∧
      s.continuations.keys.head? = some e.1)
  | _ => fun _ => false

/-- **What an act issues.** -/
def issuedBy (s : Session) : Act → List (ContinuationId × Continuation)
  | .suspend c => [(s.issuer.id s.issued, c)]
  | _ => []

/-- **The table is in order**: it holds no more than it may, in the order of issue. -/
structure Tidy (s : Session) : Prop where
  few : s.continuations.size ≤ s.options.maxContinuations
  ordered : ∃ serials : List Nat, s.continuations.keys = serials.map s.issuer.id ∧
    serials.Pairwise (· < ·) ∧ ∀ serial ∈ serials, serial < s.issued

/-- **The table of a session after a step**: what has not been let go of, and then what has been
issued. -/
structure Accounted (s s' : Session) (gone : ContinuationId × Continuation → Bool)
    (added : List (ContinuationId × Continuation)) : Prop where
  options : s'.options = s.options
  issuer : s'.issuer = s.issuer
  issued : s'.issued = s.issued + added.length
  entries : s'.continuations.entries = s.continuations.entries.filter (fun e => !gone e) ++ added

/-- A table from which some entries have been filtered. -/
theorem accounted_of_filter {gone : ContinuationId × Continuation → Bool}
    (options : s'.options = s.options) (issuer : s'.issuer = s.issuer)
    (issued : s'.issued = s.issued)
    (entries : s'.continuations.entries = s.continuations.entries.filter fun e => !gone e) :
    Accounted s s' gone [] := ⟨options, issuer, issued, by rw [entries, List.append_nil]⟩

/-- An act that leaves the table alone lets go of nothing and issues nothing. -/
theorem SameTable.accounted (h : SameTable s s') : Accounted s s' (fun _ => false) [] := by
  refine accounted_of_filter h.options h.issuer h.issued ?_
  rw [h.continuations]
  exact (List.filter_eq_self.2 fun _ _ => rfl).symm

/-- What comes behind and leaves the table alone does not change the account. -/
theorem Accounted.then_sameTable {s'' : Session} {gone : ContinuationId × Continuation → Bool}
    {added : List (ContinuationId × Continuation)} (h : Accounted s s' gone added)
    (same : SameTable s' s'') : Accounted s s'' gone added where
  options := same.options.trans h.options
  issuer := same.issuer.trans h.issuer
  issued := same.issued.trans h.issued
  entries := by rw [same.continuations, h.entries]

/-- The step by which events, removals and sweeps discard entries. -/
theorem accounted_keepContinuations (s : Session) (gone : Continuation → Bool) :
    Accounted s (s.keepContinuations fun c => !gone c) (fun e => gone e.2) [] :=
  accounted_of_filter rfl rfl rfl rfl

/-- Where nothing is too old, looking for what is too old does nothing. -/
theorem Young.expire (young : s.Young) : s.expire = s := by
  have hall : (s.continuations.filter fun _ c => s.clock - c.created < s.options.lifetime) =
      s.continuations := by
    refine OrderedMap.ext (List.filter_eq_self.2 fun e he => ?_)
    exact decide_eq_true (young e he)
  rw [Session.expire, keepContinuations, hall]

/-! ## Acts that leave the table alone -/

/-- Rendering does not touch the table. -/
theorem renders_keepsTable : keepsTable.Renders where
  clean := fun _ => ⟨rfl, rfl, rfl, rfl⟩
  settle := fun _ _ => ⟨rfl, rfl, rfl, rfl⟩

/-- **A request that lets go of nothing** leaves the table alone. -/
theorem sameTable_request (s : Session) {request : Request} (handles : request.handles = false)
    (sweeps : request ≠ .sweep) : SameTable s (s.afterAct (.request request)) := by
  have houtcome : Outcome keepsTable s (.request request) := by
    refine outcome_request framing_keepsTable.placing.touching s request
      (fun styles => allows_of_styles framing_keepsTable.placing.styling s styles)
      (fun assigns => allows_of_assigns framing_keepsTable.placing.toSteady.assigning s assigns)
      (fun places => allows_of_places framing_keepsTable.placing s places) fun h => ?_
    rw [handles] at h
    cases h
  cases houtcome.aftermath renders_keepsTable with
  | allowed allowed => exact allowed
  | created tag left =>
    rw [left]
    exact ⟨rfl, rfl, rfl, rfl⟩
  | adopted parent left =>
    have hregistered : SameTable s (s.register "div") := ⟨rfl, rfl, rfl, rfl⟩
    rw [left]
    exact hregistered.trans (sameTable_setParent _ s.nextId (some parent))
  | swept act _ =>
    injection act with hsweep
    exact absurd hsweep sweeps

/-! ## Requests -/

/-- **Taking** lets go of the entry that is taken, whether it was there or not. -/
theorem accounted_take (young : s.Young) (id : ContinuationId) :
    Accounted s ((take id).after s) (fun e => e.1 = id) [] := by
  have herase : s.continuations.erase id = s.continuations.filter fun k _ => !decide (k = id) := by
    simp only [OrderedMap.erase, decide_not]
  cases hc : s.continuations.get? id with
  | some c =>
    have htake : take id s = .ok c { s with continuations := s.continuations.erase id } := by
      rw [take_eq, young.expire, hc]
    rw [after_of_ok htake, herase]
    exact accounted_of_filter rfl rfl rfl rfl
  | none =>
    rw [after_of_error (take_of_absent hc), young.expire]
    refine accounted_of_filter rfl rfl rfl (List.filter_eq_self.2 fun e he => ?_).symm
    have hne : e.1 ≠ id := by
      rintro rfl
      rw [OrderedMap.get?_eq_some_iff.2 he] at hc
      cases hc
    simp [hne]

/-- A follow-up request takes, and its handler is run by later acts. -/
theorem accounted_resume (young : s.Young) (id : ContinuationId) :
    Accounted s (s.afterAct (.request (.resume id))) (fun e => e.1 = id) [] := by
  have htaken := accounted_take young id
  obtain ⟨e, s', hfail, hleft⟩ := resume_cutOff id s
  rw [show s.afterAct (.request (.resume id)) = s' from
    (after_map _ _ s).trans (after_of_error hfail)]
  rcases hleft with herror | ⟨c, s₁, htake, rfl⟩
  · rwa [after_of_error herror] at htaken
  · rw [after_of_ok htake] at htaken
    split
    · exact htaken.then_sameTable ⟨rfl, rfl, rfl, rfl⟩
    · exact htaken

/-- What leads up to a handler lets go of what its binding has left. -/
theorem accounted_beginEvent (s : Session) (v : ViewId) (event : EventName) :
    Accounted s (s.beginEvent v event) (leftBy v event) [] := by
  have hdiscard := accounted_keepContinuations s fun c => c.view == v && c.event == event
  unfold beginEvent
  split
  · exact hdiscard.then_sameTable ⟨rfl, rfl, rfl, rfl⟩
  · exact hdiscard

/-- So does the event, if its view is there. -/
theorem accounted_dispatch (s : Session) (v : ViewId) (event : EventName) (value : Json) :
    Accounted s (s.afterAct (.request (.dispatch v event value)))
      (fun e => s.contains v && leftBy v event e) [] := by
  have hafter : s.afterAct (.request (.dispatch v event value)) =
      (dispatch (fun _ => throw .nestedTooDeeply) v event value).after s := after_map _ _ s
  rw [hafter]
  cases hv : s.views.get? v with
  | none =>
    have hc : s.contains v = false := by rw [contains, OrderedMap.contains, hv]; rfl
    rw [after_of_error (dispatch_of_noView hv event value)]
    simp only [hc, Bool.false_and]
    exact SameTable.accounted ⟨rfl, rfl, rfl, rfl⟩
  | some found =>
    have hc : s.contains v = true := contains_iff.2 ⟨found, hv⟩
    have hbegun := accounted_beginEvent s v event
    simp only [hc, Bool.true_and]
    rw [Operation.after, dispatch_apply hv]
    cases s.stageOn? v event value with
    | none => exact hbegun.then_sameTable (renders_keepsTable.renderUpdates _)
    | some stage =>
      have hcutOff : answered (stage.operation fun _ => throw .nestedTooDeeply)
          (s.beginEvent v event) = .error .nestedTooDeeply (s.beginEvent v event) :=
        bind_of_error (stage_cutOff stage _) _
      simp only [hcutOff]
      exact hbegun

/-- An event from the client is an event, if it names a view and an event. -/
theorem afterAct_dispatchWire (s : Session) (text name : String) (value : Json) :
    s.afterAct (.request (.dispatchWire text name value)) =
      match ViewId.parse? text, EventName.ofName? name with
      | some v, some event => s.afterAct (.request (.dispatch v event value))
      | _, _ => s := by
  have hafter : s.afterAct (.request (.dispatchWire text name value)) =
      (dispatchWire (fun _ => throw .nestedTooDeeply) text name value).after s := after_map _ _ s
  have hdispatch (v : ViewId) (event : EventName) : s.afterAct (.request (.dispatch v event value)) =
      (dispatch (fun _ => throw .nestedTooDeeply) v event value).after s := after_map _ _ s
  rw [hafter, Operation.after, dispatchWire_apply]
  simp only [hdispatch]
  cases hp : ViewId.parse? text with
  | none =>
    have hlookup : lookup text s = .error (.unknownView text) s := by
      simp only [lookup, hp]
      rfl
    rw [hlookup]
  | some v =>
    -- a view that is not there is refused by the lookup here, and by the event itself there
    cases hv : s.views.get? v with
    | none =>
      have hlookup : lookup text s = .error (.noView v) s := by
        simp only [lookup, hp]
        exact bind_of_error (by rw [view_apply, hv]) _
      rw [hlookup]
      cases EventName.ofName? name with
      | none => rfl
      | some event => exact (after_of_error (dispatch_of_noView hv event value)).symm
    | some found =>
      have hlookup : lookup text s = .ok v s := by
        simp only [lookup, hp]
        exact bind_of_ok (view_of_get? hv) _
      rw [hlookup]
      cases EventName.ofName? name <;> rfl

/-- The same for an event from the client, whose view and event are named by texts. -/
theorem accounted_dispatchWire (s : Session) (text name : String) (value : Json) :
    Accounted s (s.afterAct (.request (.dispatchWire text name value)))
      (s.drops (.request (.dispatchWire text name value))) [] := by
  rw [afterAct_dispatchWire, drops]
  cases ViewId.parse? text with
  | none => exact SameTable.accounted ⟨rfl, rfl, rfl, rfl⟩
  | some v =>
    cases EventName.ofName? name with
    | none => exact SameTable.accounted ⟨rfl, rfl, rfl, rfl⟩
    | some event => exact accounted_dispatch s v event value

/-- **The removal of a binding**: with the binding goes what it has left. -/
theorem after_removeEvent (s : Session) (v : ViewId) (event : EventName) :
    (removeEvent v event).after s =
      if s.isBound v event = true then
        ((s.modifyView v fun view => view.updateBindings fun b => b.unbind event).discardBinding v
          event).markDirty v
      else s := by
  cases hv : s.views.get? v with
  | none =>
    have hfail : removeEvent v event s = .error (.noView v) s :=
      bind_of_error (by rw [view_apply, hv]) _
    rw [after_of_error hfail, isBound, hv]
    rfl
  | some found =>
    have hbound : s.isBound v event = (found.bindings.get? event).isSome := by rw [isBound, hv]; rfl
    have hrest : removeEvent v event s = _ := bind_of_ok (view_of_get? hv) _
    rw [hbound, Operation.after, hrest]
    cases (found.bindings.get? event).isSome <;> rfl

/-- The removal lets go of it too, but only if there was a binding to remove. -/
theorem accounted_removeEvent (s : Session) (v : ViewId) (event : EventName) :
    Accounted s ((removeEvent v event).after s) (fun e => s.isBound v event && leftBy v event e)
      [] := by
  rw [after_removeEvent]
  cases s.isBound v event with
  | false => exact SameTable.accounted ⟨rfl, rfl, rfl, rfl⟩
  | true =>
    have hdiscard := accounted_keepContinuations s fun c => c.view == v && c.event == event
    simp only [Bool.true_and]
    exact ⟨rfl, rfl, rfl, hdiscard.entries⟩

/-- **A sweep** lets go of what the views that are gone have left. -/
theorem accounted_swept (s : Session) :
    Accounted s s.swept (fun e => decide (e.2.view ∈ s.unreachable)) [] := by
  unfold swept
  generalize s.unreachable = doomed
  induction doomed generalizing s with
  | nil =>
    simp only [List.not_mem_nil, decide_false]
    exact SameTable.accounted ⟨rfl, rfl, rfl, rfl⟩
  | cons v rest ih =>
    obtain ⟨hoptions, hissuer, hissued, hentries⟩ := ih (s.forget v)
    refine accounted_of_filter hoptions hissuer hissued ?_
    rw [List.foldl_cons, hentries, List.append_nil]
    have hone : (s.forget v).continuations.entries =
        s.continuations.entries.filter fun e => decide (e.2.view ≠ v) := rfl
    rw [hone, List.filter_filter]
    refine List.filter_congr fun e _ => ?_
    by_cases h : e.2.view = v <;> simp [h]

/-! ## Suspending -/

/-- The next identifier is not in the table. -/
theorem Tidy.fresh (t : s.Tidy) : s.issuer.id s.issued ∉ s.continuations.keys := by
  obtain ⟨serials, hkeys, -, hlt⟩ := t.ordered
  rw [hkeys]
  intro hmem
  obtain ⟨serial, hserial, heq⟩ := List.mem_map.1 hmem
  have := hlt serial hserial
  rw [s.issuer.injective heq] at this
  exact absurd this (Nat.lt_irrefl _)

/-- A suspension lets go of the oldest entry, where the table is full. -/
theorem drops_suspend (s : Session) (c : Continuation) : s.drops (.suspend c) = fun e =>
    decide (s.continuations.size = s.options.maxContinuations ∧
      s.continuations.keys.head? = some e.1) := rfl

/-- **Only the oldest entry makes room**, and only where the table is full. -/
theorem accounted_suspend (t : s.Tidy) (young : s.Young) (atLeastOne : 0 < s.options.maxContinuations)
    (c : Continuation) : Accounted s (s.afterAct (.suspend c)) (s.drops (.suspend c))
      [(s.issuer.id s.issued, c)] := by
  have hafter : s.afterAct (.suspend c) = (suspend c).after s := after_map _ _ s
  -- nothing is too old, also once the identifier has been counted
  have hexpire : ({ s with issued := s.issued + 1 } : Session).expire =
      { s with issued := s.issued + 1 } := Young.expire (s := { s with issued := s.issued + 1 }) young
  have hentries : ((suspend c).after s).continuations.entries =
      (s.continuations.entries ++ [(s.issuer.id s.issued, c)]).drop
        (s.continuations.entries.length + 1 - s.options.maxContinuations) := by
    show (evict { ({ s with issued := s.issued + 1 } : Session).expire with
      continuations := ({ s with issued := s.issued + 1 } : Session).expire.continuations.insert
        (s.issuer.id s.issued) c }).continuations.entries = _
    rw [hexpire]
    simp only [evict, OrderedMap.size, OrderedMap.entries_insert_of_not_mem c t.fresh,
      List.length_append, List.length_singleton]
  rw [hafter]
  refine ⟨rfl, rfl, rfl, ?_⟩
  rw [hentries, drops_suspend]
  have hfew := t.few
  unfold OrderedMap.size at hfew ⊢
  by_cases hfull : s.continuations.entries.length = s.options.maxContinuations
  · have hone : s.continuations.entries.length + 1 - s.options.maxContinuations = 1 := by omega
    have hsome : 1 ≤ s.continuations.entries.length := by omega
    rw [hone, List.drop_append_of_le_length hsome, List.drop_one]
    simp only [hfull, true_and]
    rw [OrderedMap.filter_notFirst]
  · have hnone : s.continuations.entries.length + 1 - s.options.maxContinuations = 0 := by omega
    simp only [hfull, false_and, decide_false, Bool.not_false]
    rw [hnone, List.drop_zero, List.filter_eq_self.2 fun _ _ => rfl]

/-! ## One act -/

/-- **The account of an act**, as long as nothing is too old. -/
theorem accounted_afterAct (t : s.Tidy) (young : s.Young)
    (atLeastOne : 0 < s.options.maxContinuations) :
    ∀ a, Accounted s (s.afterAct a) (s.drops a) (s.issuedBy a)
  | .suspend c => accounted_suspend t young atLeastOne c
  | .enter _ => SameTable.accounted ⟨rfl, rfl, rfl, rfl⟩
  | .leave => SameTable.accounted ⟨rfl, rfl, rfl, rfl⟩
  | .note _ => SameTable.accounted ⟨rfl, rfl, rfl, rfl⟩
  | .tick _ => SameTable.accounted ⟨rfl, rfl, rfl, rfl⟩
  | .request request => by
    cases request with
    | removeEvent v event =>
      rw [show s.afterAct (.request (.removeEvent v event)) = (removeEvent v event).after s from
        after_map _ _ s]
      exact accounted_removeEvent s v event
    | dispatch v event value => exact accounted_dispatch s v event value
    | dispatchWire text name value => exact accounted_dispatchWire s text name value
    | resume id => exact accounted_resume young id
    | sweep =>
      rw [afterAct_sweep]
      exact accounted_swept s
    | _ => exact (sameTable_request s rfl (by nofun)).accounted

/-- Only a suspension adds to the table. -/
theorem issuedBy_cases (s : Session) (a : Act) : (∃ c, a = .suspend c) ∨ s.issuedBy a = [] := by
  cases a with
  | suspend c => exact Or.inl ⟨c, rfl⟩
  | _ => exact Or.inr rfl

/-- When room has been made there is room. -/
theorem size_evict (s : Session) : s.evict.continuations.size ≤ s.options.maxContinuations := by
  unfold evict OrderedMap.size
  rw [List.length_drop]
  omega

/-- **What is left of a table in order** is in order. -/
theorem Accounted.exists_serials {gone : ContinuationId × Continuation → Bool}
    {added : List (ContinuationId × Continuation)} (h : Accounted s s' gone added) (t : s.Tidy) :
    ∃ left : List Nat,
      s'.continuations.keys = left.map s.issuer.id ++ added.map Prod.fst ∧
        left.Pairwise (· < ·) ∧ ∀ serial ∈ left, serial < s.issued := by
  obtain ⟨serials, hkeys, hordered, hlt⟩ := t.ordered
  have hleft : ((s.continuations.entries.filter fun e => !gone e).map Prod.fst).Sublist
      (serials.map s.issuer.id) := by
    rw [← hkeys]
    exact List.filter_sublist.map Prod.fst
  obtain ⟨left, hsub, hleft⟩ := List.sublist_map_iff.1 hleft
  refine ⟨left, ?_, hordered.sublist hsub, fun serial h => hlt serial (hsub.subset h)⟩
  rw [OrderedMap.keys, h.entries, List.map_append, hleft]

/-- **The table stays in order**: what is left of it is, and what comes after it is the latest. -/
theorem Tidy.afterAct (t : s.Tidy) (young : s.Young) (atLeastOne : 0 < s.options.maxContinuations)
    (a : Act) : (s.afterAct a).Tidy := by
  have account := accounted_afterAct t young atLeastOne a
  obtain ⟨left, hkeys, hordered, hlt⟩ := account.exists_serials t
  -- a suspension has made room first, and its identifier is later than all others
  rcases issuedBy_cases s a with ⟨c, rfl⟩ | hadded
  · refine ⟨?_, left ++ [s.issued], ?_, ?_, ?_⟩
    · have hsize : ((suspend c).after s).continuations.size ≤ s.options.maxContinuations :=
        size_evict _
      rwa [account.options, show s.afterAct (.suspend c) = (suspend c).after s from after_map _ _ s]
    · rw [hkeys, account.issuer, List.map_append]
      rfl
    · refine List.pairwise_append.2 ⟨hordered, List.pairwise_singleton _ _, ?_⟩
      intro serial hserial last hlast
      rw [List.mem_singleton.1 hlast]
      exact hlt serial hserial
    · have hissued : (s.afterAct (.suspend c)).issued = s.issued + 1 := account.issued
      intro serial hserial
      rw [hissued]
      rcases List.mem_append.1 hserial with hserial | hserial
      · exact Nat.lt_succ_of_lt (hlt serial hserial)
      · rw [List.mem_singleton.1 hserial]
        exact Nat.lt_succ_self _
  · refine ⟨?_, left, ?_, hordered, ?_⟩
    · rw [account.options, OrderedMap.size, account.entries, hadded, List.append_nil]
      exact Nat.le_trans (List.length_filter_le _ _) t.few
    · rw [hkeys, account.issuer, hadded, List.map_nil, List.append_nil]
    · rw [account.issued, hadded]
      exact hlt

end Session

end AnchorLayout
