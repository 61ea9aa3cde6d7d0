import AnchorLayout.Proofs.Session.Pending
import AnchorLayout.Proofs.Session.Updates
/-!
# What the client knows to be suspended

  The node of a view names the handler that waits for it, the latest one if there are several.  All
  of them are in one table, so what is done for one view may change what another one is to show.

  1. **Program** — every list of calls on a new session, with all that handlers do.
  2. **Specification** — `UpToDate`: the last node that was sent for a view names what is pending for
     it.
  3. **One act** — whatever takes a continuation out of the table marks its view (`Announces`), or
     forgets the view.
  4. **The crux (`pendingFor?_suspend`)** — but for one: a suspension marks its own view and no
     other, and what makes room for it may be all that another view has (`pushesOut`).  Such a view
     is up to date again when it has been sent again (`Resent`).
-/

namespace AnchorLayout

open Operation

namespace Session

variable {s s' : Session} {u v : ViewId} {sent more : List RenderedView} {a : Act}
  {c : Continuation}

/-! ## What is pending for a view -/

/-- A search does not see what is filtered out, if what it finds is kept. -/
theorem find?_filter_of_kept {α : Type} {test keep : α → Bool} {l : List α}
    (h : ∀ e, l.find? test = some e → keep e = true) : (l.filter keep).find? test = l.find? test := by
  induction l with
  | nil => rfl
  | cons x rest ih =>
    by_cases htest : test x = true
    · have hkeep : keep x = true := h x (List.find?_cons_of_pos htest)
      rw [List.filter_cons_of_pos hkeep, List.find?_cons_of_pos htest,
        List.find?_cons_of_pos htest]
    · rw [List.find?_cons_of_neg htest] at h ⊢
      by_cases hkeep : keep x = true
      · rw [List.filter_cons_of_pos hkeep, List.find?_cons_of_neg htest, ih h]
      · rw [List.filter_cons_of_neg hkeep, ih h]

/-- What is pending for a view is a matter of the table. -/
theorem pendingFor?_congr (same : s'.continuations = s.continuations) (v : ViewId) :
    s'.pendingFor? v = s.pendingFor? v := by
  rw [pendingFor?, pendingFor?, same]

/-- **What is pending for a view** still is, if just that entry is left, and what is added is of other
views. -/
theorem Accounted.pendingFor? {gone : ContinuationId × Continuation → Bool}
    {added : List (ContinuationId × Continuation)} (h : Accounted s s' gone added)
    (kept : ∀ e ∈ s.continuations.entries, e.2.view = v → s.pendingFor? v = some e.1 →
      gone e = false) (others : ∀ e ∈ added, e.2.view ≠ v) :
    s'.pendingFor? v = s.pendingFor? v := by
  have hadded : added.reverse.find? (fun e => e.2.view == v) = none := by
    rw [List.find?_eq_none]
    exact fun e he hview => others e (List.mem_reverse.1 he) (beq_iff_eq.1 hview)
  unfold Session.pendingFor?
  rw [h.entries, List.reverse_append, List.find?_append, hadded, Option.none_or,
    ← List.filter_reverse]
  congr 1
  refine find?_filter_of_kept fun e he => ?_
  have hview := List.find?_some he
  rw [Bool.not_eq_true', kept e ?_ (beq_iff_eq.1 hview) ?_]
  · exact List.mem_reverse.1 (List.mem_of_find?_eq_some he)
  · rw [Session.pendingFor?, he]
    rfl

/-! ## Announcing -/

/-- **Announced**: marked, and what is below the root and not covered has the same pending for it. -/
structure Announces (s s' : Session) : Prop where
  marks : Marks s s'
  pending : ∀ v, s'.Below v s'.root → ¬ s'.Covered v → s'.pendingFor? v = s.pendingFor? v

/-- What is announced in two steps is announced by both. -/
theorem Announces.trans {s₁ s₂ s₃ : Session} (h : Announces s₁ s₂) (h' : Announces s₂ s₃) :
    Announces s₁ s₃ := by
  refine ⟨h.marks.trans h'.marks, fun v hv hc => ?_⟩
  obtain ⟨hv₂, hc₂, -⟩ := h'.marks.uncovered v hv hc
  exact (h'.pending v hv hc).trans (h.pending v hv₂ hc₂)

/-- Where the table is the same, marks are all there is to announce. -/
theorem Marks.announces (h : Marks s s') (same : s'.continuations = s.continuations) :
    Announces s s' := ⟨h, fun v _ _ => pendingFor?_congr same v⟩

/-- The forest is kept, and what has changed is announced. -/
structure Announced (s s' : Session) : Prop where
  kept : Kept s s'
  announces : s.Forest → Announces s s'

/-- The changes that are announced. -/
def announcing : Change where
  Allows := Announced
  refl := fun s => ⟨keepsForest.refl s, fun _ => (Marks.refl s).announces rfl⟩
  trans := fun h h' => ⟨keepsForest.trans h.kept h'.kept,
    fun f => (h.announces f).trans (h'.announces (h.kept.forest f))⟩

theorem Tracked.announced (h : Tracked s s') (same : s'.continuations = s.continuations) :
    Announced s s' := ⟨h.kept, fun f => (h.marks f).announces same⟩

/-- **What a change lets go of** is announced, if it is of one view, and that view is marked or not
there. -/
theorem Tracked.announced_of_others (h : Tracked s s')
    (others : ∀ u, u ≠ v → s'.pendingFor? u = s.pendingFor? u)
    (own : v ∈ s'.dirty.toList ∨ s'.contains v = false) : Announced s s' := by
  refine ⟨h.kept, fun f => ⟨h.marks f, fun u hu hcovered => ?_⟩⟩
  by_cases huv : u = v
  · subst huv
    rcases own with hdirty | habsent
    · exact absurd ⟨u, hdirty, below_refl _ u, hu⟩ hcovered
    · rw [(h.kept.forest f).contains_of_reachable hu] at habsent
      cases habsent
  · exact others u huv

/-- Whatever leaves the table alone is announced when it is marked. -/
theorem placing_announcing : announcing.Placing where
  mark := fun s v => (ordinary_tracks.mark s v).announced rfl
  edit := fun s v _ h => (ordinary_tracks.edit s v h).announced rfl
  reshape := fun s v _ h => (ordinary_tracks.reshape s v h).announced rfl
  move := fun child parent s =>
    (ordinary_tracks.move child parent s).announced (sameTable_setParent s child parent).continuations

/-- What one view has left is no other view's. -/
theorem leftBy_of_ne {event : EventName} {e : ContinuationId × Continuation} (h : e.2.view ≠ v) :
    leftBy v event e = false := by
  rw [leftBy, beq_eq_false_iff_ne.2 h, Bool.false_and]

theorem handling_tracks (s : Session) : tracks.Handling s :=
  handling_of_quiet ordinary_tracks.toPlain.quiet s

/-- What an event discards is announced: its view is marked, or nothing has been discarded. -/
theorem announced_beginEvent (s : Session) (v : ViewId) (event : EventName) :
    Announced s (s.beginEvent v event) := by
  have tracked : Tracked s (s.beginEvent v event) := (handling_tracks s).begin v event
  by_cases hfewer : (s.discardBinding v event).continuations.size < s.continuations.size
  · refine tracked.announced_of_others (v := v) ?_ (Or.inl ?_)
    · intro u hu
      refine (accounted_beginEvent s v event).pendingFor? (fun e _ hview _ => leftBy_of_ne ?_) nofun
      rwa [hview]
    · rw [beginEvent, if_pos hfewer]
      exact mem_dirty_markDirty.2 (Or.inl rfl)
  · refine tracked.announced ?_
    rw [beginEvent, if_neg hfewer]
    refine OrderedMap.ext (List.filter_eq_self.2 ?_)
    refine List.length_filter_eq_length_iff.1 ?_
    exact Nat.le_antisymm (List.length_filter_le _ _) (Nat.le_of_not_lt hfewer)

/-- **The removal of a binding** marks its view, which announces what is let go of. -/
theorem announced_removeEvent (s : Session) (v : ViewId) (event : EventName) :
    Announced s ((removeEvent v event).after s) := by
  have tracked : Tracked s ((removeEvent v event).after s) := (handling_tracks s).unbind v event
  by_cases hbound : s.isBound v event = true
  · refine tracked.announced_of_others (v := v) ?_ (Or.inl ?_)
    · intro u hu
      refine (accounted_removeEvent s v event).pendingFor? (fun e _ hview _ => ?_) nofun
      rw [leftBy_of_ne (by rwa [hview]), Bool.and_false]
    · rw [after_removeEvent, if_pos hbound]
      exact mem_dirty_markDirty.2 (Or.inl rfl)
  · refine tracked.announced ?_
    rw [after_removeEvent, if_neg hbound]

/-- What a follow-up request takes is announced, as long as nothing is too old. -/
theorem announced_resume (young : s.Young) (id : ContinuationId) :
    Announced s ((resume (fun _ => throw .nestedTooDeeply) id).after s) := by
  have tracked : Tracked s ((resume (fun _ => throw .nestedTooDeeply) id).after s) :=
    (handling_tracks s).takeUp id
  obtain ⟨e, s', hfail, hleft⟩ := resume_cutOff id s
  rw [after_of_error hfail] at tracked ⊢
  rcases hleft with herror | ⟨c, s₁, htake, rfl⟩
  -- what is not there, and does not get too old, is not taken
  · have hsame : s' = s := by
      cases hc : s.continuations.get? id with
      | some c =>
        rw [take_eq, young.expire, hc] at herror
        cases herror
      | none =>
        rw [take_of_absent hc, young.expire] at herror
        cases herror
        rfl
    rw [hsame]
    exact announcing.refl s
  · have htaken := accounted_take young id
    rw [after_of_ok htake] at htaken
    have hc := (take_eq_ok htake).1
    have hothers : ∀ u, u ≠ c.view → s₁.pendingFor? u = s.pendingFor? u := by
      intro u hu
      refine htaken.pendingFor? (fun e he hview _ => decide_eq_false ?_) nofun
      rintro rfl
      rw [OrderedMap.get?_eq_some_iff.2 he] at hc
      cases hc
      exact hu hview.symm
    split at tracked
    · next hcontains =>
      rw [if_pos hcontains]
      exact tracked.announced_of_others hothers (Or.inl (mem_dirty_markDirty.2 (Or.inl rfl)))
    · next hcontains =>
      rw [if_neg hcontains]
      exact tracked.announced_of_others hothers (Or.inr (Bool.not_eq_true _ ▸ hcontains))

/-- **Every act that lets go of something** announces it, as long as nothing is too old. -/
theorem handling_announcing (young : s.Young) : announcing.Handling s where
  toTouching := placing_announcing.touching
  aside := fun same =>
    (ordinary_tracks.background same.background).announced same.table.continuations
  begin := announced_beginEvent s
  unbind := announced_removeEvent s
  takeUp := announced_resume young

/-- What is below the root loses nothing by a sweep. -/
theorem Forest.announces_swept (f : s.Forest) : Announces s s.swept := by
  refine ⟨f.marks_swept, fun v hv _ => ?_⟩
  refine (accounted_swept s).pendingFor? (fun e _ hview _ => decide_eq_false fun hdoomed => ?_) nofun
  rw [Session.swept, root_forgetAll] at hv
  refine (f.mem_unreachable_iff.1 hdoomed).2 ?_
  rw [hview]
  exact Relation.ReflTransGen.mono (fun _ _ hup => (f.climb_swept.1 hup).2) _ _ hv

/-! ## Up to date -/

/-- **Up to date**: unless the view is covered or not below the root, the last node that was sent for
it names what is pending for it. -/
def UpToDate (sent : List RenderedView) (s : Session) (v : ViewId) : Prop :=
  s.Below v s.root → ¬ s.Covered v → ∃ n, RenderedView.lastNode? sent v = some n ∧
    n.attribute? "ui4anim" = (s.pendingFor? v).map ContinuationId.text

/-- In a new session nothing is pending and nothing has been sent. -/
theorem upToDate_new (options : Options) (issuer : Issuer) (v : ViewId) :
    UpToDate [] (Session.new options issuer) v := by
  intro hv hcovered
  obtain ⟨n, -, hn, -⟩ := inStep_new options issuer v hv hcovered
  cases hn

/-- An announced change leaves a view up to date: what is new about it is covered. -/
theorem UpToDate.of_announces (h : UpToDate sent s v) (announces : Announces s s') :
    UpToDate sent s' v := by
  intro hv hcovered
  obtain ⟨hold, hold', -⟩ := announces.marks.uncovered v hv hcovered
  rw [announces.pending v hv hcovered]
  exact h hold hold'

/-- A view that is dirty is covered, so nothing is asked of it. -/
theorem upToDate_of_dirty (hdirty : v ∈ s.dirty.toList) : UpToDate sent s v :=
  fun hv hcovered => absurd ⟨v, hdirty, below_refl _ v, hv⟩ hcovered

/-- Sending does not touch the table. -/
theorem Ships.pendingFor? (ships : Ships s more s') (v : ViewId) :
    s'.pendingFor? v = s.pendingFor? v := by
  rw [ships.left]
  exact pendingFor?_congr (renders_keepsTable.settleAll s.clean _).continuations v

/-- **What is sent** is up to date. -/
theorem Ships.upToDate (ships : Ships s more s') (sent : List RenderedView)
    (hmem : v ∈ RenderedView.idsOfAll more) : UpToDate (sent ++ more) s' v := by
  intro _ _
  obtain ⟨n, view, hlast, -, -, hattributes, -⟩ := ships.exists_written sent hmem
  refine ⟨n, hlast, ?_⟩
  rw [attribute?_of_written hattributes, ships.pendingFor?]
  simp [under]

/-- **Sending** leaves every view up to date, those that are sent and those that are not. -/
theorem UpToDate.ship (h : UpToDate sent s v) (ships : Ships s more s') :
    UpToDate (sent ++ more) s' v := by
  by_cases hmem : v ∈ RenderedView.idsOfAll more
  · exact ships.upToDate sent hmem
  · intro hv _
    rw [ships.tree.root, ships.tree.below_iff] at hv
    rw [lastNode?_of_unsent hmem, ships.pendingFor?]
    exact h hv fun hcovered => hmem (ships.covered v hv hcovered)

/-! ## Suspending -/

/-- **What a suspension pushes out**: of another view, what is pending for it, when the table is full
and that is the oldest entry. -/
def pushesOut (s : Session) (v : ViewId) : Act → Bool
  | .suspend c => decide (c.view ≠ v ∧ s.continuations.size = s.options.maxContinuations ∧
      s.pendingFor? v = s.continuations.keys.head?)
  | _ => false

/-- **A suspension for one view** leaves what is pending for another one, unless it pushes it out. -/
theorem Tidy.pendingFor?_suspend (t : s.Tidy) (young : s.Young)
    (atLeastOne : 0 < s.options.maxContinuations) (other : c.view ≠ v)
    (stays : s.pushesOut v (.suspend c) = false) :
    (s.afterAct (.suspend c)).pendingFor? v = s.pendingFor? v := by
  refine (accounted_suspend t young atLeastOne c).pendingFor? ?_ ?_
  · intro e he hview hpending
    rw [pushesOut, decide_eq_false_iff_not] at stays
    rw [drops_suspend]
    refine decide_eq_false fun holdest => stays ⟨other, holdest.1, ?_⟩
    rw [hpending, holdest.2]
  · intro e he
    rw [List.mem_singleton.1 he]
    exact other

/-- A suspension of another view, which does not push out what is pending for this one. -/
theorem UpToDate.afterAct_suspend (h : UpToDate sent s v) (f : s.Forest) (t : s.Tidy)
    (young : s.Young) (atLeastOne : 0 < s.options.maxContinuations) (other : c.view ≠ v)
    (stays : s.pushesOut v (.suspend c) = false) : UpToDate sent (s.afterAct (.suspend c)) v := by
  have marks : Marks s (s.afterAct (.suspend c)) := marks_background f.acyclic (sameViews_suspend c s)
  intro hv hcovered
  obtain ⟨hold, hold', -⟩ := marks.uncovered v hv hcovered
  rw [t.pendingFor?_suspend young atLeastOne other stays]
  exact h hold hold'

/-- **Every suspension is followed by the mark of its view.** -/
def MarksSuspended : List Act → Prop
  | [] => True
  | a :: rest => (∀ c, a = .suspend c → ∃ more, rest = .request (.markDirty c.view) :: more) ∧
      MarksSuspended rest

/-- The property is one of stretches of acts, and is put together from them. -/
theorem MarksSuspended.append {acts more : List Act} (h : MarksSuspended acts)
    (h' : MarksSuspended more) : MarksSuspended (acts ++ more) := by
  induction acts with
  | nil => exact h'
  | cons a rest ih =>
    refine ⟨fun c hc => ?_, ih h.2⟩
    obtain ⟨last, rfl⟩ := h.1 c hc
    exact ⟨last ++ more, rfl⟩

/-- An act that suspends nothing needs no mark. -/
theorem MarksSuspended.cons {acts : List Act} (h : MarksSuspended acts) (quiet : ∀ c, a ≠ .suspend c) :
    MarksSuspended (a :: acts) := ⟨fun c hc => absurd hc (quiet c), h⟩

theorem marksSuspended_single (quiet : ∀ c, a ≠ .suspend c) : MarksSuspended [a] :=
  ⟨fun c hc => absurd hc (quiet c), trivial⟩

/-- The acts with which a stage ends: the suspension, and the mark right behind it. -/
theorem marksSuspended_closingActs (stage : Stage) (ended : EStateM.Result Error Session Ending) :
    MarksSuspended (stage.closingActs ended) := by
  unfold Stage.closingActs
  split
  · refine ⟨?_, marksSuspended_single (by nofun)⟩
    rintro c ⟨⟩
    exact ⟨[], rfl⟩
  · trivial

/-- A patch suspends nothing. -/
theorem marksSuspended_answeringActs
    (handled : EStateM.Result Error Session (Option ContinuationId)) :
    MarksSuspended (answeringActs handled) := by
  cases handled with
  | ok => exact marksSuspended_single (by nofun)
  | error => trivial

/-- A script suspends nothing itself. -/
theorem marksSuspended_scriptActs {perform : Request → Operation Answer}
    {requestActs : Request → Session → List Act}
    (h : ∀ request s, MarksSuspended (requestActs request s)) :
    ∀ (script : Script) (s : Session), MarksSuspended (script.acts perform requestActs s)
  | .done _, _ => trivial
  | .suspend _ _, _ => trivial
  | .fail _, _ => trivial
  | .ask _ next, s => (h _ s).append (marksSuspended_scriptActs h (next _) _)
  | .animate _ body next, s =>
    ((marksSuspended_scriptActs h body _).append
      ((marksSuspended_scriptActs h (next _) _).cons (by nofun))).cons (by nofun)
  | .note _ next, s => (marksSuspended_scriptActs h next _).cons (by nofun)
  | .consult next, s => marksSuspended_scriptActs h (next _) s

/-- **The acts of a request** mark whatever they suspend. -/
theorem marksSuspended_acts : ∀ (depth : Nat) (request : Request) (s : Session),
    MarksSuspended (acts depth request s)
  | 0, _, _ => marksSuspended_single (by nofun)
  | depth + 1, request, s => by
    refine MarksSuspended.cons ?_ (by nofun)
    split
    · trivial
    · refine MarksSuspended.append (MarksSuspended.append ?_ ?_) (marksSuspended_answeringActs _)
      · exact marksSuspended_scriptActs (marksSuspended_acts depth) _ _
      · exact marksSuspended_closingActs _ _

/-! ## One act -/

/-- **Sent again**: what is pushed out of the table is of a view that is sent later on. -/
def Resent (v : ViewId) : Session → List Act → Prop
  | _, [] => True
  | s, a :: rest => (s.pushesOut v a = true →
      v ∈ RenderedView.idsOfAll ((s.afterAct a).shippedBy rest)) ∧ Resent v (s.afterAct a) rest

/-- So a run can be checked for it. -/
instance decidableResent (v : ViewId) : ∀ (s : Session) (acts : List Act), Decidable (Resent v s acts)
  | _, [] => inferInstanceAs (Decidable True)
  | s, a :: rest =>
    have : Decidable (Resent v (s.afterAct a) rest) := decidableResent v (s.afterAct a) rest
    inferInstanceAs (Decidable ((s.pushesOut v a = true →
      v ∈ RenderedView.idsOfAll ((s.afterAct a).shippedBy rest)) ∧ Resent v (s.afterAct a) rest))

/-- **One act**, but for a suspension, leaves a view up to date that has been so or is sent. -/
theorem UpToDate.afterAct
    (h : UpToDate sent s v ∨ v ∈ RenderedView.idsOfAll ((a.shipped? s).getD [])) (f : s.Forest)
    (room : (s.afterAct a).nextId = s.nextId ∨ s.Room)
    (unparented : (s.afterAct a).structuralParent? (s.afterAct a).root = none)
    (polls : a.polls = false) (young : s.Young) (quiet : ∀ c, a ≠ .suspend c) :
    UpToDate (sent ++ (a.shipped? s).getD []) (s.afterAct a) v := by
  have silent (hnone : a.shipped? s = none) (announces : Announces s (s.afterAct a)) :
      UpToDate (sent ++ (a.shipped? s).getD []) (s.afterAct a) v := by
    rw [hnone, Option.getD_none] at h ⊢
    rw [List.append_nil]
    exact (h.resolve_right List.not_mem_nil).of_announces announces
  have sends {before : Session} {more : List RenderedView} (hsome : a.shipped? s = some more)
      (announces : Announces s before) (ships : Ships before more (s.afterAct a)) :
      UpToDate (sent ++ (a.shipped? s).getD []) (s.afterAct a) v := by
    rw [hsome, Option.getD_some] at h ⊢
    rcases h with h | hmem
    · exact (h.of_announces announces).ship ships
    · exact ships.upToDate sent hmem
  -- what is sent is up to date when it is sent, and everything else is announced
  cases outcome_of_unsuspended (handling_announcing young) placing_announcing quiet with
  | ordinary allowed hnone => exact silent hnone (allowed.announces f)
  | created tag left hnone =>
    refine silent hnone ?_
    rw [left]
    exact (f.marks_register tag).announces rfl
  | adopted parent _ left hnone =>
    refine silent hnone ((f.marks_adopted room left).announces ?_)
    rw [left, (sameTable_setParent _ _ _).continuations]
    rfl
  | polled act _ =>
    subst act
    cases polls
  | updated before allowed left =>
    obtain ⟨more, hsome, ships⟩ := (allowed.kept.forest f).ships_updated unparented left
    exact sends hsome (allowed.announces f) ships
  | paged act =>
    subst act
    obtain ⟨more, hsome, ships⟩ := f.ships_paged
    exact sends hsome ((Marks.refl s).announces rfl) ships
  | swept act hnone =>
    subst act
    refine silent hnone ?_
    rw [afterAct_sweep]
    exact f.announces_swept

/-! ## Every list of acts -/

/-- **Up to date, or about to be**: the view is sent by what comes, or marked next. -/
def Due (sent : List RenderedView) (s : Session) (v : ViewId) (acts : List Act) : Prop :=
  UpToDate sent s v ∨ v ∈ RenderedView.idsOfAll (s.shippedBy acts) ∨
    ∃ more, acts = .request (.markDirty v) :: more

/-- **One act of a run**: a view that is up to date stays so, or comes to be due, and one that is
due comes to be up to date when its turn has come. -/
theorem Due.afterAct {rest : List Act} (h : Due sent s v (a :: rest)) (f : s.Forest)
    (room : (s.afterAct a).nextId = s.nextId ∨ s.Room)
    (unparented : (s.afterAct a).structuralParent? (s.afterAct a).root = none)
    (polls : a.polls = false) (t : s.Tidy) (young : s.Young)
    (atLeastOne : 0 < s.options.maxContinuations) (marked : MarksSuspended (a :: rest))
    (resent : Resent v s (a :: rest)) :
    Due (sent ++ (a.shipped? s).getD []) (s.afterAct a) v rest := by
  by_cases hsuspends : ∃ c, a = .suspend c
  · obtain ⟨c, rfl⟩ := hsuspends
    have hnone : (Act.suspend c).shipped? s = none := rfl
    rw [Due, shippedBy, hnone, Option.getD_none, List.nil_append] at h
    rw [hnone, Option.getD_none, List.append_nil]
    -- a suspension of the view itself is followed by its mark
    by_cases hview : c.view = v
    · subst hview
      exact Or.inr (Or.inr (marked.1 c rfl))
    -- one that pushes out what is pending for the view asks for the view to be sent again
    by_cases hout : s.pushesOut v (.suspend c) = true
    · exact Or.inr (Or.inl (resent.1 hout))
    rcases h with h | hlater | ⟨more, hmark⟩
    · exact Or.inl (h.afterAct_suspend f t young atLeastOne hview (Bool.not_eq_true _ ▸ hout))
    · exact Or.inr (Or.inl hlater)
    · cases hmark
  · have hquiet : ∀ c, a ≠ .suspend c := fun c hc => hsuspends ⟨c, hc⟩
    rcases h with h | hsent | ⟨more, hmark⟩
    · exact Or.inl (UpToDate.afterAct (Or.inl h) f room unparented polls young hquiet)
    · rw [shippedBy, RenderedView.idsOfAll_append, List.mem_append] at hsent
      rcases hsent with hnow | hlater
      · exact Or.inl (UpToDate.afterAct (Or.inr hnow) f room unparented polls young hquiet)
      · exact Or.inr (Or.inl hlater)
    · obtain ⟨rfl, -⟩ := List.cons.inj hmark
      exact Or.inl (upToDate_of_dirty (mem_dirty_markDirty.2 (Or.inl rfl)))

/-- **What is due is up to date in the end.** -/
theorem Due.afterActs {acts : List Act} (h : Due sent s v acts) (f : s.Forest)
    (lasts : s.Lasts acts) (unparented : Along (fun s => s.structuralParent? s.root = none) s acts)
    (polls : ∀ a ∈ acts, a.polls = false) (t : s.Tidy) (young : s.Along Young acts)
    (atLeastOne : 0 < s.options.maxContinuations) (marked : MarksSuspended acts)
    (resent : Resent v s acts) : UpToDate (sent ++ s.shippedBy acts) (s.afterActs acts) v := by
  induction acts generalizing s sent with
  | nil =>
    rw [shippedBy, List.append_nil]
    rcases h with h | hsent | ⟨more, hmark⟩
    · exact h
    · exact absurd hsent List.not_mem_nil
    · cases hmark
  | cons a rest ih =>
    have hdue := h.afterAct f lasts.step.1 unparented.2.head (polls a List.mem_cons_self) t young.1
      atLeastOne marked resent
    have account := accounted_afterAct t young.1 atLeastOne a
    rw [shippedBy, ← List.append_assoc]
    exact ih hdue (f.afterAct lasts.step.1) lasts.step.2 unparented.2
      (fun b hb => polls b (List.mem_cons_of_mem _ hb)) (t.afterAct young.1 atLeastOne a) young.2
      (account.options ▸ atLeastOne) marked.2 resent.2

end Session

/-! ## Every list of calls -/

namespace Session

/-- The calls of a run suspend by their handlers only, and so mark what they suspend. -/
theorem marksSuspended_unfolded (s : Session) {calls : List Call}
    (requests : ∀ call ∈ calls, call.suspends = false) : MarksSuspended (s.unfolded calls) := by
  induction calls generalizing s with
  | nil => trivial
  | cons call rest ih =>
    refine MarksSuspended.append ?_ (ih _ fun b hb => requests b (List.mem_cons_of_mem _ hb))
    cases call with
    | request depth r => exact marksSuspended_acts depth r s
    | act a =>
      refine marksSuspended_single ?_
      rintro c rfl
      cases requests _ List.mem_cons_self

/-- What the calls send last is sent by the last of their acts. -/
theorem exists_last_act_unfolded {s : Session} {calls : List Call} {call : Call}
    (sends : call.sends (s.afterCalls calls) = true) : ∃ before a,
      s.unfolded (calls ++ [call]) = before ++ [a] ∧
        (a.shipped? (s.afterActs before)).isSome = true := by
  obtain ⟨before, a, hacts, hsent⟩ := Call.exists_last_act sends
  refine ⟨s.unfolded calls ++ before, a, ?_, ?_⟩
  · rw [unfolded_append, unfolded, unfolded, List.append_nil, hacts, List.append_assoc]
  · rwa [afterActs_append, afterActs_unfolded]

/-- **What the client knows to be suspended.**  After every call that sends something, on a new
session whose root has been under nothing all along, whose roots nothing else has taken and whose
identifiers and suspended handlers have lasted, the last node that was sent for a view that can be
reached from the root names the handler that is pending for the view, and names none when none is;
only a view that has had that pushed out of the full table by another one must have been sent again
since.  The calls may lead into a handler, up to one of its own requests. -/
theorem awaited_of_calls (options : Options) (issuer : Issuer) (calls : List Call) (call : Call)
    (atLeastOne : 0 < options.maxContinuations)
    (few : 1 + (Session.new options issuer).creations
      ((Session.new options issuer).unfolded (calls ++ [call])) < UInt32.size - 1)
    (unparented : Along (fun s => s.structuralParent? s.root = none) (Session.new options issuer)
      ((Session.new options issuer).unfolded (calls ++ [call])))
    (polls : ∀ a ∈ (Session.new options issuer).unfolded (calls ++ [call]), a.polls = false)
    (young : (Session.new options issuer).Along Young
      ((Session.new options issuer).unfolded (calls ++ [call])))
    (requests : ∀ c ∈ calls ++ [call], c.suspends = false)
    (sends : call.sends ((Session.new options issuer).afterCalls calls) = true) :
    let s := (Session.new options issuer).afterCalls (calls ++ [call])
    let sent := (Session.new options issuer).shippedBy
      ((Session.new options issuer).unfolded (calls ++ [call]))
    ∀ v ∈ s.root :: s.descendants s.root,
      Resent v (Session.new options issuer)
        ((Session.new options issuer).unfolded (calls ++ [call])) →
      ∃ n, RenderedView.lastNode? sent v = some n ∧
        n.attribute? "ui4anim" = (s.pendingFor? v).map ContinuationId.text := by
  intro s sent v hv resent
  have f : s.Forest := forest_of_calls options issuer few
  have lasts := lasts_new options issuer few
  have hdue : Due [] (Session.new options issuer) v
      ((Session.new options issuer).unfolded (calls ++ [call])) :=
    Or.inl (upToDate_new options issuer v)
  have hlast := hdue.afterActs (forest_new options issuer) lasts unparented polls
    (tidy_new options issuer) young atLeastOne (marksSuspended_unfolded _ requests) resent
  rw [List.nil_append, afterActs_unfolded] at hlast
  -- nothing is dirty after what has sent something, so nothing is covered
  obtain ⟨before, a, hunfolded, hsent⟩ := exists_last_act_unfolded sends
  rw [hunfolded] at lasts unparented polls
  have hclean := ((inStep_new options issuer).afterActs_sent (forest_new options issuer) lasts
    unparented polls hsent).2
  rw [← hunfolded, afterActs_unfolded] at hclean
  refine hlast ((f.mem_self_descendants_iff f.contains_root).1 hv) ?_
  rintro ⟨b, hb, -⟩
  rw [hclean] at hb
  exact absurd hb List.not_mem_nil

/-- No more than one suspended handler. -/
def oneAtMost : Options := { Options.default with maxContinuations := 1 }

/-- Two views with a handler that suspends, and an event on one of them. -/
def twoRivals : List Call :=
  [.request 1 (.createChild ⟨1⟩), .request 1 (.createChild ⟨1⟩),
    .request 1 (.on ⟨2⟩ .click pausing ⟨none, false⟩),
    .request 1 (.on ⟨3⟩ .click pausing ⟨none, false⟩), .request 1 .renderUpdates,
    .request 1 (.dispatch ⟨2⟩ .click .null)]

/-- An event on the other view pushes out what the first one has left, and then the first one is sent
again. -/
def rivalSentAgain : List Call :=
  twoRivals ++ [.request 1 (.dispatch ⟨3⟩ .click .null), .request 1 (.markDirty ⟨2⟩)]

/-- When the first view has been sent again its last node names nothing that is not pending. -/
theorem awaited_of_rivalSentAgain :
    let new := Session.new oneAtMost ""
    let run := new.unfolded (rivalSentAgain ++ [.request 1 .renderUpdates])
    (Resent ⟨2⟩ new run ∧ ¬ Resent ⟨2⟩ new (new.unfolded (rivalSentAgain.take 7))) ∧
      ∃ n, RenderedView.lastNode? (new.shippedBy run) ⟨2⟩ = some n ∧
        n.attribute? "ui4anim" = none := by
  intro new run
  have resent : Resent ⟨2⟩ new run ∧ ¬ Resent ⟨2⟩ new (new.unfolded (rivalSentAgain.take 7)) := by
    decide +kernel
  refine ⟨resent, ?_⟩
  obtain ⟨n, hn, hnames⟩ := awaited_of_calls oneAtMost "" rivalSentAgain (.request 1 .renderUpdates)
    (by decide) (by decide +kernel) (by decide +kernel) (by decide +kernel) (by decide +kernel)
    (by decide +kernel) (by decide +kernel) ⟨2⟩ (by decide +kernel) resent.1
  refine ⟨n, hn, hnames.trans ?_⟩
  decide +kernel

/-- **A node that names what is not pending any more**: the event on the other view has pushed it
out, and its view has not been sent again. -/
theorem pushed_out_still_named :
    let new := Session.new oneAtMost ""
    let call : Call := .request 1 (.dispatch ⟨3⟩ .click .null)
    let run := new.unfolded (twoRivals ++ [call])
    let s := new.afterCalls (twoRivals ++ [call])
    (0 < oneAtMost.maxContinuations ∧ 1 + new.creations run < UInt32.size - 1 ∧
      Along (fun s => s.structuralParent? s.root = none) new run ∧ (∀ a ∈ run, a.polls = false) ∧
      new.Along Young run ∧ (∀ c ∈ twoRivals ++ [call], c.suspends = false) ∧
      call.sends (new.afterCalls twoRivals) = true) ∧
    ⟨2⟩ ∈ s.root :: s.descendants s.root ∧ s.pendingFor? ⟨2⟩ = none ∧
      ((RenderedView.lastNode? (new.shippedBy run) ⟨2⟩).bind fun n => n.attribute? "ui4anim") =
        some (ContinuationId.ofSerial "" 0).text := by
  decide +kernel

end Session

end AnchorLayout
