import AnchorLayout.Session.Basic
/-!
# What an operation does to a session

  An operation leaves a session behind whether it answers or fails.  What it may have changed is
  said by a `Change`, a preorder on sessions: nothing at all is such a change, and so is one after
  another.  Then an operation is only such a change as soon as its steps are.

  1. **Leaving** — `Operation.after`, the session left behind, and `after_bind` for a sequence.
  2. **Changing** — `Operation.Only change`: however it ends, the change is of that kind.
  3. **The crux (`Only.bind`)** — the session between two steps is never seen from outside, so
     reflexivity answers for the steps that are not reached and transitivity for those that are.
-/

namespace AnchorLayout

/-- A check after another one succeeds if both do. -/
theorem except_bind_eq_ok {ε α β : Type} {check : Except ε α} {next : α → Except ε β} {b : β} :
    (check >>= next) = .ok b ↔ ∃ a, check = .ok a ∧ next a = .ok b := by
  cases check with
  | error e => exact ⟨nofun, fun ⟨_, h, _⟩ => nomatch h⟩
  | ok a => exact ⟨fun h => ⟨a, rfl, h⟩, fun ⟨_, ha, h⟩ => Except.ok.inj ha ▸ h⟩

namespace Operation

variable {α β : Type}

/-! ## The session that is left -/

/-- The session that an operation leaves behind, whether it answers or fails. -/
def after (operation : Operation α) (s : Session) : Session :=
  match operation s with
  | .ok _ s' => s'
  | .error _ s' => s'

/-- The session behind an answer. -/
theorem after_of_ok {operation : Operation α} {s s' : Session} {a : α}
    (h : operation s = .ok a s') : operation.after s = s' := by
  rw [after, h]

/-- The session behind a failure; it need not be the one from before. -/
theorem after_of_error {operation : Operation α} {s s' : Session} {e : Error}
    (h : operation s = .error e s') : operation.after s = s' := by
  rw [after, h]

/-- **Execution, step by step**: where the first step answers, the second one goes on from its
session. -/
theorem bind_of_ok {operation : Operation α} {s s' : Session} {a : α}
    (h : operation s = .ok a s') (next : α → Operation β) :
    (operation >>= next) s = next a s' := by
  show EStateM.bind operation next s = next a s'
  rw [EStateM.bind, h]

/-- Where it fails, the second one does not begin. -/
theorem bind_of_error {operation : Operation α} {s s' : Session} {e : Error}
    (h : operation s = .error e s') (next : α → Operation β) :
    (operation >>= next) s = .error e s' := by
  show EStateM.bind operation next s = .error e s'
  rw [EStateM.bind, h]

/-- A sequence leaves what its second step leaves, or its first where that one fails. -/
theorem after_bind (operation : Operation α) (next : α → Operation β) (s : Session) :
    after (operation >>= next) s = match operation s with
      | .ok a s' => (next a).after s'
      | .error _ s' => s' := by
  cases h : operation s with
  | ok a s' => simp only [after, bind_of_ok h]
  | error e s' => simp only [after, bind_of_error h]

/-- **Inversion of a sequence**: if it answers, both steps did, and the session between them exists.
Requests that succeeded are taken apart with this lemma alone. -/
theorem bind_eq_ok {operation : Operation α} {next : α → Operation β} {s s' : Session} {b : β}
    (h : (operation >>= next) s = .ok b s') :
    ∃ a s₁, operation s = .ok a s₁ ∧ next a s₁ = .ok b s' := by
  cases ho : operation s with
  | ok a s₁ => exact ⟨a, s₁, rfl, (bind_of_ok ho next).symm.trans h⟩
  | error e s₁ => exact absurd ((bind_of_error ho next).symm.trans h) (by simp)

/-- A check that passes does not touch the session, and neither does one that fails. -/
theorem ofExcept_of_ok {result : Except Error α} {a : α} (h : result = .ok a) (s : Session) :
    ofExcept result s = .ok a s := by
  subst h
  rfl

theorem ofExcept_of_error {result : Except Error α} {e : Error} (h : result = .error e)
    (s : Session) : ofExcept result s = .error e s := by
  subst h
  rfl

@[simp] theorem after_ofExcept (result : Except Error α) (s : Session) :
    after (ofExcept result) s = s := by
  cases result <;> rfl

/-- **What is done has been prepared**, in the session that is there before. -/
theorem prepared_eq_ok {check : Session → Except Error α} {next : α → Operation β}
    {s s' : Session} {b : β}
    (h : (do next (← ofExcept (check (← get)))) s = .ok b s') :
    ∃ a, check s = .ok a ∧ next a s = .ok b s' := by
  obtain ⟨_, _, hget, hrest⟩ := bind_eq_ok h
  cases hget
  obtain ⟨a, _, hcheck, hnext⟩ := bind_eq_ok hrest
  cases hc : check s with
  | error e =>
    rw [hc] at hcheck
    cases hcheck
  | ok b =>
    rw [hc] at hcheck
    cases hcheck
    exact ⟨a, rfl, hnext⟩

/-- The answer of an operation that left `s'` behind is handed on, and so is `s'`. -/
theorem attempt_apply (operation : Operation α) (s : Session) :
    operation.attempt s = .ok (match operation s with
      | .ok a _ => .ok a
      | .error e _ => .error e) (operation.after s) := by
  cases h : operation s <;> simp only [attempt, after, h]

/-- What is done to an answer changes no session. -/
theorem map_of_ok {operation : Operation α} {s s' : Session} {a : α}
    (h : operation s = .ok a s') (f : α → β) : (f <$> operation) s = .ok (f a) s' := by
  show EStateM.map f operation s = _
  simp only [EStateM.map, h]

theorem map_of_error {operation : Operation α} {s s' : Session} {e : Error}
    (h : operation s = .error e s') (f : α → β) : (f <$> operation) s = .error e s' := by
  show EStateM.map f operation s = _
  simp only [EStateM.map, h]

/-- So what an operation leaves behind is not changed by reading its answer. -/
theorem after_map (f : α → β) (operation : Operation α) (s : Session) :
    after (f <$> operation) s = operation.after s := by
  show after (EStateM.map f operation) s = operation.after s
  cases h : operation s <;> simp only [after, EStateM.map, h]

end Operation

/-! ## Kinds of change -/

/-- A kind of change to a session. -/
structure Change where
  Allows : Session → Session → Prop
  refl : ∀ s, Allows s s
  trans : ∀ {s₁ s₂ s₃}, Allows s₁ s₂ → Allows s₂ s₃ → Allows s₁ s₃

namespace Operation

variable {α β : Type} {change : Change}

/-- **Only** such a change: that is what an operation leaves behind, from whatever session. -/
def Only (change : Change) (operation : Operation α) : Prop :=
  ∀ s, change.Allows s (operation.after s)

/-- An operation that leaves the session alone makes every kind of change, since each kind is
reflexive. -/
theorem only_of_after_eq {operation : Operation α} (h : ∀ s, operation.after s = s) :
    Only change operation := fun s => (h s).symm ▸ change.refl s

theorem Only.pure (a : α) : Only change (pure a : Operation α) := only_of_after_eq fun _ => rfl

theorem Only.throw (e : Error) : Only change (throw e : Operation α) :=
  only_of_after_eq fun _ => rfl

/-- The rules of composition: one for each way in which the requests are put together. -/
theorem Only.get : Only change (get : Operation Session) := only_of_after_eq fun _ => rfl

theorem Only.ofExcept (result : Except Error α) : Only change (ofExcept result) :=
  only_of_after_eq (after_ofExcept result)

/-- The single steps are where a kind of change has to be known. -/
theorem Only.modify {f : Session → Session} (h : ∀ s, change.Allows s (f s)) :
    Only change (modify f : Operation PUnit) := h

/-- **One step after another.** -/
theorem Only.bind {operation : Operation α} {next : α → Operation β}
    (h : Only change operation) (h' : ∀ a, Only change (next a)) :
    Only change (operation >>= next) := by
  intro s
  rw [after_bind]
  have first := h s
  cases ho : operation s with
  | ok a s' =>
    rw [after_of_ok ho] at first
    exact change.trans first (h' a s')
  | error e s' =>
    rw [after_of_error ho] at first
    exact first

theorem Only.map {operation : Operation α} (h : Only change operation) (f : α → β) :
    Only change (f <$> operation) := fun s => (after_map f operation s).symm ▸ h s

/-- Both branches, since the condition may depend on the session. -/
theorem Only.ite {p : Prop} [Decidable p] {yes no : Operation α} (hy : Only change yes)
    (hn : Only change no) : Only change (if p then yes else no) := by
  split
  · exact hy
  · exact hn

/-- By induction on the items, with transitivity at each of them. -/
theorem Only.forM {ι : Type} {body : ι → Operation PUnit} (h : ∀ i, Only change (body i)) :
    ∀ items : List ι, Only change (items.forM body)
  | [] => Only.pure _
  | i :: items => by
    show Only change (body i >>= fun _ => items.forM body)
    exact (h i).bind fun _ => Only.forM h items

theorem Only.view (v : ViewId) : Only change (Session.view v) :=
  Only.get.bind fun s => Only.ofExcept (s.view? v)

/-- **What is prepared** in the session that is there, and then acted on. -/
theorem allows_prepared {check : Session → Except Error α} {next : α → Operation β} (s : Session)
    (allowed : ∀ a, check s = .ok a → change.Allows s ((next a).after s)) :
    change.Allows s (Operation.after (do next (← Operation.ofExcept (check (← get)))) s) := by
  have hget : (get : Operation Session) s = .ok s s := rfl
  rw [after_bind, hget]
  cases hc : check s with
  | error e =>
    simp only [after_of_error (bind_of_error (ofExcept_of_error hc s) next)]
    exact change.refl s
  | ok a =>
    have hnext : (Operation.ofExcept (check s) >>= next) s = next a s :=
      bind_of_ok (ofExcept_of_ok hc s) next
    simp only [Operation.after, hnext]
    exact allowed a hc

end Operation

namespace Session

/-! ## One view -/

/-- **A look for a view** answers with it, or fails; it never changes the session. -/
theorem view_apply (v : ViewId) (s : Session) :
    view v s = match s.views.get? v with
      | some found => .ok found s
      | none => .error (.noView v) s := by
  show Operation.ofExcept (s.view? v) s = _
  rw [view?]
  cases s.views.get? v <;> rfl

/-- The view is known to be there. -/
theorem view_of_get? {v : ViewId} {s : Session} {found : View}
    (h : s.views.get? v = some found) : view v s = .ok found s := by
  rw [view_apply, h]

/-- A view is there, or what looks for it fails. -/
theorem view_cases (v : ViewId) (s : Session) :
    (∃ e, view v s = .error e s) ∨
      ∃ found, s.views.get? v = some found ∧ view v s = .ok found s := by
  cases h : s.views.get? v with
  | none => exact Or.inl ⟨.noView v, by rw [view_apply, h]⟩
  | some found => exact Or.inr ⟨found, rfl, view_of_get? h⟩

/-- **A view that has been found** is there, and looking for it has changed nothing. -/
theorem view_eq_ok {v : ViewId} {s s' : Session} {found : View} (h : view v s = .ok found s') :
    s' = s ∧ s.views.get? v = some found := by
  rcases view_cases v s with ⟨e, he⟩ | ⟨view, hview, hok⟩
  · rw [he] at h
    cases h
  · rw [hok] at h
    cases h
    exact ⟨rfl, hview⟩

/-- An operation on a view that is there; nothing happens where it is not. -/
theorem allows_view {change : Change} {α : Type} {v : ViewId} {next : View → Operation α}
    (s : Session) (allowed : ∀ view, change.Allows s ((next view).after s)) :
    change.Allows s ((Session.view v >>= next).after s) := by
  rcases view_cases v s with ⟨e, he⟩ | ⟨found, -, hview⟩
  · rw [Operation.after_of_error (Operation.bind_of_error he next)]
    exact change.refl s
  · rw [Operation.after, Operation.bind_of_ok hview]
    exact allowed found

/-- **A change of one view**, as an equation on sessions: it takes place where the view is, and
fails elsewhere. -/
theorem update_apply (v : ViewId) (f : View → View) (s : Session) :
    update v f s =
      if s.contains v then .ok () (s.modifyView v f) else .error (.noView v) s := by
  have hview := view_apply v s
  cases h : s.views.get? v with
  | none =>
    have hc : s.contains v = false := by rw [contains, OrderedMap.contains, h]; rfl
    rw [h] at hview
    rw [if_neg (by simp [hc])]
    exact Operation.bind_of_error hview _
  | some found =>
    have hc : s.contains v = true := by rw [contains, OrderedMap.contains, h]; rfl
    rw [h] at hview
    rw [if_pos hc]
    exact Operation.bind_of_ok hview _

end Session

end AnchorLayout
