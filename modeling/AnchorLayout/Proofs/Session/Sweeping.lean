import AnchorLayout.Proofs.Hierarchy.Reachable
import AnchorLayout.Proofs.Session.Suspension
/-!
# What a sweep does

  The views that hang under the root no more are forgotten, and everything that is known of them: their
  dirty marks and the handlers that wait for them.  It does not matter in which order they are found.

  1. **Program** — `Session.sweep`, after any acts on a new session; `sweepIn`, the same where the
     views are found in some other order.
  2. **Specification** — `lost`, the views that were registered before and are not afterwards: three
     tables lose what is theirs, and nothing else changes.
  3. **Steps** — `forgetAll_eq`: to forget some views, in any order, is to filter the three tables;
     `Lasts.nextId_afterActs`: the counter of identifiers goes up by one with every view.
  4. **The crux (`Forest.below_swept`)** — the line from a view to the root is still there after a
     sweep, so that another one finds nothing to do.
-/

namespace AnchorLayout

open Operation

namespace Session

variable {s s' : Session} {u v : ViewId}

/-! ## Specification -/

/-- A sweep that finds the views in the given order. -/
def sweepIn (order : List ViewId) : Operation Nat := do
  let reachable := (← get).root :: (← get).descendants (← get).root
  let doomed := order.filter fun v => v ∉ reachable
  modify fun s => doomed.foldl forget s
  return doomed.length

/-- The views that are registered before and not afterwards. -/
def lost (s s' : Session) (v : ViewId) : Bool := s.contains v && !s'.contains v

/-! ## Forgetting some views -/

/-- A session without what is known of some views. -/
def without (s : Session) (gone : ViewId → Bool) : Session :=
  { s with
    views := s.views.filter fun v _ => !gone v
    dirty := ⟨s.dirty.toList.filter fun v => !gone v, s.dirty.ascending.sublist List.filter_sublist⟩
    continuations := s.continuations.filter fun _ c => !gone c.view }

/-- Two sessions that differ in the three tables alone, and have the same entries there. -/
theorem eq_of_tables {views views' : OrderedMap ViewId View} {dirty dirty' : ViewSet}
    {continuations continuations' : OrderedMap ContinuationId Continuation}
    (hviews : views.entries = views'.entries) (hdirty : dirty.toList = dirty'.toList)
    (hcontinuations : continuations.entries = continuations'.entries) :
    ({ s with views, dirty, continuations } : Session) =
      { s with views := views', dirty := dirty', continuations := continuations' } := by
  rw [OrderedMap.ext hviews, ViewSet.ext hdirty, OrderedMap.ext hcontinuations]

/-- Leaving out nothing. -/
theorem without_nothing (s : Session) : s.without (fun _ => false) = s := by
  refine eq_of_tables (s := s) ?_ ?_ ?_ <;> exact List.filter_eq_self.2 fun _ _ => rfl

/-- Forgetting one view and leaving out others is leaving out all of them. -/
theorem forget_without (s : Session) (gone : ViewId → Bool) (v : ViewId) :
    (s.forget v).without gone = s.without fun u => decide (u = v) || gone u := by
  refine eq_of_tables (s := s) ?_ ?_ ?_ <;>
    refine List.filter_filter.trans (List.filter_congr fun e _ => ?_) <;>
    simp only [ne_eq, decide_not, Bool.not_or, Bool.and_comm]

/-- **Forgetting** some views, in whatever order, is leaving out what is known of them. -/
theorem forgetAll_eq (s : Session) (doomed : List ViewId) :
    doomed.foldl forget s = s.without fun v => decide (v ∈ doomed) := by
  induction doomed generalizing s with
  | nil => simp only [List.foldl_nil, List.not_mem_nil, decide_false, without_nothing]
  | cons v rest ih =>
    rw [List.foldl_cons, ih, forget_without]
    simp only [List.mem_cons, Bool.decide_or]

/-- A view is left if it is not left out. -/
theorem get?_without (s : Session) (gone : ViewId → Bool) (v : ViewId) :
    (s.without gone).views.get? v = if gone v = true then none else s.views.get? v := by
  refine (OrderedMap.find?_filter_fst (fun v => !gone v) v s.views.entries).trans ?_
  cases gone v <;> rfl

/-! ## Sweeping -/

/-- The views that a sweep forgets. -/
def isUnreachable (s : Session) (v : ViewId) : Bool :=
  s.contains v && decide (v ∉ s.root :: s.descendants s.root)

/-- The test for what a sweep forgets, and the list of it. -/
theorem isUnreachable_iff : s.isUnreachable v = true ↔ v ∈ s.unreachable := by
  rw [isUnreachable, Bool.and_eq_true, decide_eq_true_iff, unreachable, List.mem_filter,
    decide_eq_true_iff, contains_iff_mem_keys]

/-- **A sweep** is leaving out what is not reached. -/
theorem swept_eq (s : Session) : s.swept = s.without s.isUnreachable := by
  rw [swept, forgetAll_eq]
  refine congrArg s.without (funext fun v => ?_)
  rw [Bool.eq_iff_iff, decide_eq_true_iff, isUnreachable_iff]

/-- **The order does not matter** in which the views are found. -/
theorem sweepIn_eq {order : List ViewId} (found : order.Perm s.views.keys) :
    sweepIn order s = .ok s.unreachable.length s.swept := by
  have hdoomed : (order.filter fun v => v ∉ s.root :: s.descendants s.root).Perm s.unreachable :=
    found.filter _
  have hswept : (order.filter fun v => v ∉ s.root :: s.descendants s.root).foldl forget s =
      s.swept := by
    rw [swept, forgetAll_eq, forgetAll_eq]
    exact congrArg s.without (funext fun v => by simp only [hdoomed.mem_iff])
  rw [← hswept, ← hdoomed.length_eq]
  rfl

/-- It answers with how many these were. -/
theorem sweep_eq (s : Session) : sweep s = .ok s.unreachable.length s.swept := rfl

/-- Who is left is who was there and was reached. -/
theorem contains_swept_eq (s : Session) (v : ViewId) :
    s.swept.contains v = (s.contains v && !s.isUnreachable v) := by
  rw [swept_eq, contains, OrderedMap.contains, get?_without]
  cases s.isUnreachable v with
  | true => rw [if_pos rfl, Bool.not_true, Bool.and_false]; rfl
  | false => rw [if_neg Bool.false_ne_true, Bool.not_false, Bool.and_true]; rfl

/-- What a sweep forgets is what is lost by it. -/
theorem lost_swept (s : Session) : lost s s.swept = s.isUnreachable := by
  funext v
  rw [lost, contains_swept_eq, isUnreachable]
  cases s.contains v <;> cases decide (v ∉ s.root :: s.descendants s.root) <;> rfl

/-- **The line from a view to the root** is there after a sweep. -/
theorem Forest.below_swept (f : s.Forest) (h : s.Below v s.root) : s.swept.Below v s.root := by
  induction h using Relation.ReflTransGen.head_induction_on with
  | refl => exact below_refl s.swept s.root
  | head hclimb hbelow ih =>
    have hup := f.climb_swept.2 ⟨(Climb.below hclimb).trans hbelow, hclimb⟩
    exact (Climb.below hup).trans ih

/-- **A second sweep** finds nothing. -/
theorem Forest.unreachable_swept (f : s.Forest) : s.swept.unreachable = [] := by
  refine List.eq_nil_iff_forall_not_mem.2 fun v hv => ?_
  obtain ⟨hcontains, hnot⟩ := f.swept.mem_unreachable_iff.1 hv
  refine hnot ?_
  rw [show s.swept.root = s.root from root_forgetAll s _]
  exact f.below_swept (f.contains_swept.1 hcontains).1

/-! ## Identifiers -/

/-- **The counter** goes up by one with every view. -/
theorem Lasts.nextId_afterActs {acts : List Act} (lasts : s.Lasts acts) :
    (s.afterActs acts).nextId.number.toNat = s.nextId.number.toNat + s.creations acts := by
  induction acts generalizing s with
  | nil => rfl
  | cons a rest ih =>
    obtain ⟨hroom, hrest⟩ := lasts.step
    rw [afterActs_cons, ih hrest, creations]
    rcases afterAct_cases s a with kept | registered
    · rw [if_pos kept.nextId, kept.nextId, Nat.zero_add]
    · have hne := registered.nextId ▸ next_ne s
      have room : s.Room := hroom.resolve_left hne
      rw [if_neg hne, ← Nat.add_assoc, ← room.toNat_next, registered.nextId]

/-- Identifiers last for the acts behind some others. -/
theorem Lasts.right {acts more : List Act} (h : s.Lasts (acts ++ more)) :
    (s.afterActs acts).Lasts more := by
  unfold Lasts
  rw [h.left.nextId_afterActs]
  unfold Lasts at h
  rw [creations_append] at h
  omega

/-- A new view gets the next identifier, whether it is put under another one or not. -/
theorem id_of_createChild {left : Session} {p id : ViewId} (h : createChild p s = .ok id left) :
    id = s.nextId := by
  obtain ⟨_, s₁, hview, hrest⟩ := bind_eq_ok h
  obtain ⟨made, s₂, hcreate, hrest⟩ := bind_eq_ok hrest
  obtain ⟨_, s₃, -, hid⟩ := bind_eq_ok hrest
  cases hid
  cases hcreate
  rw [(view_eq_ok hview).1]

/-! ## Every session -/

/-- **What a sweep does**, after any acts on a new session.  In whatever order the views are found,
those that are left are the root and its descendants, each of them as it was; how many there were
more is the answer.  The dirty marks and the suspended handlers lose those of the views that are
lost, and stay in order; everything else is as it was.  No view that is registered later gets an
identifier that is lost, and another sweep, in whatever order, forgets nothing. -/
theorem sweep_of_acts (options : Options) (issuer : Issuer) (acts : List Act)
    (few : 1 + (Session.new options issuer).creations acts < UInt32.size - 1) :
    let s := (Session.new options issuer).afterActs acts
    ∃ n s', sweep s = .ok n s' ∧
      (∀ order, order.Perm s.views.keys → sweepIn order s = .ok n s') ∧
      (∀ v, s'.contains v = true ↔ v = s.root ∨ v ∈ s.descendants s.root) ∧
      n = (s.views.keys.filter (lost s s')).length ∧
      (∀ v, s'.contains v = true → s'.views.get? v = s.views.get? v) ∧
      s'.dirty.toList = s.dirty.toList.filter (fun v => !lost s s' v) ∧
      s'.continuations.entries =
        s.continuations.entries.filter (fun e => !lost s s' e.2.view) ∧
      s' = { s with views := s'.views, dirty := s'.dirty, continuations := s'.continuations } ∧
      (∀ later, 1 + (Session.new options issuer).creations (acts ++ .request .sweep :: later) <
          UInt32.size - 1 → ∀ id left,
        ((∃ tag, create tag (s'.afterActs later) = .ok id left) ∨
          ∃ p, createChild p (s'.afterActs later) = .ok id left) → lost s s' id = false) ∧
      ∀ order, order.Perm s'.views.keys → sweepIn order s' = .ok 0 s' := by
  intro s
  have f : s.Forest := (forest_new options issuer).afterActs (lasts_new options issuer few)
  refine ⟨s.unreachable.length, s.swept, sweep_eq s, fun order => sweepIn_eq, ?_, ?_, ?_, ?_, ?_, ?_,
    ?_, ?_⟩
  · intro v
    rw [f.contains_swept, ← List.mem_cons, f.mem_self_descendants_iff f.contains_root]
    exact ⟨fun h => h.1, fun h => ⟨h, f.contains_of_reachable h⟩⟩
  · rw [lost_swept]
    refine congrArg List.length (List.filter_congr fun v hv => ?_)
    rw [isUnreachable, contains_iff_mem_keys.2 hv, Bool.true_and]
  · exact fun v hv => f.get?_swept (f.contains_swept.1 hv).1
  · rw [lost_swept, swept_eq]
    rfl
  · rw [lost_swept, swept_eq]
    rfl
  · rw [swept_eq]
    rfl
  · intro later fewer id left hmade
    have lasts : s.swept.Lasts later := by
      have hall := (lasts_new options issuer fewer).right.step.2
      rwa [afterAct_sweep] at hall
    have hid : id = (s.swept.afterActs later).nextId := by
      rcases hmade with ⟨tag, hmade⟩ | ⟨p, hmade⟩
      · cases hmade
        rfl
      · exact id_of_createChild hmade
    by_contra hlost
    rw [Bool.not_eq_false, lost, Bool.and_eq_true] at hlost
    -- the counter is where it was before the sweep, and only goes up from there
    have hlt := ViewId.lt_iff.1 (f.lt_nextId hlost.1)
    have hlater := lasts.nextId_afterActs
    rw [← hid, show s.swept.nextId = s.nextId from nextId_forgetAll s _] at hlater
    omega
  · intro order found
    rw [sweepIn_eq found, f.unreachable_swept, Session.swept, f.unreachable_swept]
    rfl

/-- Two views that are taken out of the tree, the second one with a view below it; handlers wait on
that one and on a view that stays. -/
def someAdrift : List Call :=
  [.request 1 (.createChild ⟨1⟩), .request 1 (.createChild ⟨2⟩), .request 1 (.createChild ⟨1⟩),
    .request 1 (.createChild ⟨4⟩), .request 1 (.on ⟨5⟩ .click pausing ⟨none, false⟩),
    .request 1 (.on ⟨2⟩ .click pausing ⟨none, false⟩), .request 1 (.dispatch ⟨5⟩ .click .null),
    .request 1 (.dispatch ⟨2⟩ .click .null), .request 1 (.setParent ⟨3⟩ none),
    .request 1 (.setParent ⟨4⟩ none), .request 1 (.markDirty ⟨5⟩)]

/-- Three views are forgotten, with the handler that waits on one of them, and the other handler
still waits. -/
theorem sweep_of_someAdrift :
    let s := (Session.new .default "").afterActs ((Session.new .default "").unfolded someAdrift)
    ∃ s', sweep s = .ok 3 s' ∧ sweepIn [⟨5⟩, ⟨2⟩, ⟨4⟩, ⟨1⟩, ⟨3⟩] s = .ok 3 s' ∧
      s.dirty.toList = [⟨1⟩, ⟨2⟩, ⟨5⟩] ∧ s'.dirty.toList = [⟨1⟩, ⟨2⟩] ∧
      s.continuations.values.map Continuation.view = [⟨5⟩, ⟨2⟩] ∧
      s'.continuations.values.map Continuation.view = [⟨2⟩] ∧
      (∀ v, s'.contains v = true ↔ v ∈ ([⟨1⟩, ⟨2⟩] : List ViewId)) ∧
      create "div" (s'.afterActs []) = .ok ⟨6⟩ (s'.register "div") ∧ lost s s' ⟨6⟩ = false ∧
      sweepIn [⟨2⟩, ⟨1⟩] s' = .ok 0 s' := by
  have few : 1 + (Session.new .default "").creations
      ((Session.new .default "").unfolded someAdrift) < UInt32.size - 1 := by decide +kernel
  have fewer : 1 + (Session.new .default "").creations
      ((Session.new .default "").unfolded someAdrift ++ .request .sweep :: []) < UInt32.size - 1 := by
    decide +kernel
  have tables :
      let s := (Session.new .default "").afterActs ((Session.new .default "").unfolded someAdrift)
      s.unreachable.length = 3 ∧ s.swept.nextId = ⟨6⟩ ∧
        s.root :: s.descendants s.root = [⟨1⟩, ⟨2⟩] ∧
        s.dirty.toList = [⟨1⟩, ⟨2⟩, ⟨5⟩] ∧ s.swept.dirty.toList = [⟨1⟩, ⟨2⟩] ∧
        s.continuations.values.map Continuation.view = [⟨5⟩, ⟨2⟩] ∧
        s.swept.continuations.values.map Continuation.view = [⟨2⟩] ∧
        ([⟨5⟩, ⟨2⟩, ⟨4⟩, ⟨1⟩, ⟨3⟩] : List ViewId).Perm s.views.keys ∧
        ([⟨2⟩, ⟨1⟩] : List ViewId).Perm s.swept.views.keys := by decide +kernel
  have hsweep := sweep_of_acts .default "" _ few
  revert tables hsweep
  -- what is known of the session is enough
  generalize (Session.new .default "").afterActs
    ((Session.new .default "").unfolded someAdrift) = s
  rintro ⟨hcount, hnext, hreachable, hbefore, hafter, hwaiting, hleft, hall, hthose⟩
    ⟨n, s', hsweep, horder, hcontains, -, -, -, -, -, hlater, hagain⟩
  obtain ⟨rfl, rfl⟩ := EStateM.Result.ok.inj ((sweep_eq s).symm.trans hsweep)
  rw [hcount] at hsweep horder
  have hcreate : create "div" (s.swept.afterActs []) =
      .ok s.swept.nextId (s.swept.register "div") := rfl
  rw [hnext] at hcreate
  refine ⟨s.swept, hsweep, horder _ hall, hbefore, hafter, hwaiting, hleft, fun v => ?_, hcreate,
    hlater [] fewer ⟨6⟩ _ (Or.inl ⟨"div", hcreate⟩), hagain _ hthose⟩
  rw [hcontains, ← List.mem_cons, hreachable]

end Session

end AnchorLayout
