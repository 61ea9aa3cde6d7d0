import AnchorLayout.Proofs.Hierarchy.Reachable
/-!
# Continuations that are issued

  A continuation enters the table once, when it is suspended, under an identifier that no other one
  has had.  Everything else only takes continuations out of the table.

  1. **Specification** — `Issues s s'`: what is in the table afterwards was in it before, or has been
     issued in between.
  2. **Steps** — `issues_of_thinned`, `issues_suspend`; most operations leave the table alone
     (`SameTable`).
  3. **The crux (`Issues.get?_of_old`)** — an identifier that has been issued before the step is in
     the table afterwards only with the continuation that it had.
-/

namespace AnchorLayout

open Operation

namespace Session

variable {s s' : Session} {id : ContinuationId} {c parked : Continuation}

/-- **What happens to the table of continuations**: some are gone, and the others have been there or
have been issued. -/
structure Issues (s s' : Session) : Prop where
  issuer : s'.issuer = s.issuer
  issued : s.issued ≤ s'.issued
  pending : ∀ id c, s'.continuations.get? id = some c → s.continuations.get? id = some c ∨
    ∃ serial, s.issued ≤ serial ∧ serial < s'.issued ∧ id = s.issuer.id serial

theorem Issues.refl (s : Session) : Issues s s := ⟨rfl, Nat.le_refl _, fun _ _ h => Or.inl h⟩

/-- What happens in two steps happens in one: an identifier that was issued in the first is not
issued again in the second. -/
theorem Issues.trans {s₁ s₂ s₃ : Session} (h : Issues s₁ s₂) (h' : Issues s₂ s₃) :
    Issues s₁ s₃ := by
  refine ⟨h'.issuer.trans h.issuer, Nat.le_trans h.issued h'.issued, fun id c hc => ?_⟩
  have hlate := h.issued
  have hlater := h'.issued
  rcases h'.pending id c hc with hc | ⟨serial, hle, hlt, hid⟩
  · rcases h.pending id c hc with hc | ⟨serial, hle, hlt, hid⟩
    · exact Or.inl hc
    · exact Or.inr ⟨serial, hle, by omega, hid⟩
  · rw [h.issuer] at hid
    exact Or.inr ⟨serial, by omega, hlt, hid⟩

/-- **An identifier that was issued before** has the continuation that it had, or none. -/
theorem Issues.get?_of_old (h : Issues s s') {serial : Nat} (old : serial < s.issued)
    (hc : s'.continuations.get? (s.issuer.id serial) = some c) :
    s.continuations.get? (s.issuer.id serial) = some c := by
  rcases h.pending _ c hc with hc | ⟨serial', hle, -, hid⟩
  · exact hc
  · have hsame : serial = serial' := s.issuer.injective hid
    omega

/-! ## Steps -/

/-- A table that has only lost entries. -/
theorem issues_of_thinned (issuer : s'.issuer = s.issuer) (issued : s'.issued = s.issued)
    (thinned : s'.continuations.entries.Sublist s.continuations.entries) : Issues s s' := by
  refine ⟨issuer, Nat.le_of_eq issued.symm, fun id c hc => Or.inl ?_⟩
  rw [OrderedMap.get?_eq_some_iff] at hc ⊢
  exact thinned.subset hc

theorem SameTable.trans {s₁ s₂ s₃ : Session} (h : SameTable s₁ s₂) (h' : SameTable s₂ s₃) :
    SameTable s₁ s₃ :=
  ⟨h'.options.trans h.options, h'.issuer.trans h.issuer, h'.issued.trans h.issued,
    h'.continuations.trans h.continuations⟩

/-- Least of all where the table is the same. -/
theorem SameTable.issues (h : SameTable s s') : Issues s s' := by
  refine issues_of_thinned h.issuer h.issued ?_
  rw [h.continuations]

/-- The changes that leave the table alone. -/
def keepsTable : Change where
  Allows := SameTable
  refl := fun _ => ⟨rfl, rfl, rfl, rfl⟩
  trans := SameTable.trans

/-- What is done to views alone does not touch the table, moves included. -/
theorem framing_keepsTable : keepsTable.Framing where
  mark := fun _ _ => ⟨rfl, rfl, rfl, rfl⟩
  write := fun _ _ _ => ⟨rfl, rfl, rfl, rfl⟩

theorem sameTable_setParent (s : Session) (child : ViewId) (parent : Option ViewId) :
    SameTable s ((setParent child parent).after s) := framing_keepsTable.setParent child parent s

/-- **What is in the table once a continuation has been suspended** is that continuation, under the
next identifier, or has been there. -/
theorem get?_suspend (hc : ((suspend parked).after s).continuations.get? id = some c) :
    (id = s.issuer.id s.issued ∧ c = parked) ∨
      (id ≠ s.issuer.id s.issued ∧ s.continuations.get? id = some c) := by
  rw [OrderedMap.get?_eq_some_iff] at hc
  have hinserted : ((s.expire.continuations.insert (s.issuer.id s.issued) parked).get? id) =
      some c := OrderedMap.get?_eq_some_iff.2 ((List.drop_sublist _ _).subset hc)
  rw [OrderedMap.get?_insert] at hinserted
  split at hinserted
  · next hid => exact Or.inl ⟨hid.symm, (Option.some.inj hinserted).symm⟩
  · next hid =>
    rw [OrderedMap.get?_eq_some_iff] at hinserted ⊢
    exact Or.inr ⟨fun heq => hid heq.symm, List.filter_sublist.subset hinserted⟩

/-- **A suspension** is the one step that adds an entry, under the identifier that is next. -/
theorem issues_suspend (parked : Continuation) (s : Session) :
    Issues s ((suspend parked).after s) := by
  have hissued : ((suspend parked).after s).issued = s.issued + 1 := rfl
  refine ⟨rfl, by omega, fun id c hc => ?_⟩
  rcases get?_suspend hc with ⟨hid, -⟩ | ⟨-, hc⟩
  · exact Or.inr ⟨s.issued, Nat.le_refl _, by omega, hid⟩
  · exact Or.inl hc

/-- A sweep discards what was left by views that are gone. -/
theorem issues_swept (s : Session) : Issues s s.swept := by
  unfold swept
  generalize s.unreachable = doomed
  induction doomed generalizing s with
  | nil => exact Issues.refl s
  | cons v rest ih =>
    have hfirst : Issues s (s.forget v) := issues_of_thinned rfl rfl List.filter_sublist
    exact hfirst.trans (ih (s.forget v))

/-! ## Every list of acts -/

/-- The changes of which `Issues` tells. -/
def keepsIssued : Change := ⟨Issues, Issues.refl, Issues.trans⟩

/-- Each ordinary step takes entries away, or suspends. -/
theorem ordinary_keepsIssued : keepsIssued.Ordinary where
  background := fun h => issues_of_thinned h.issuer h.issued h.thinned
  suspended := issues_suspend
  mark := fun _ _ => SameTable.issues ⟨rfl, rfl, rfl, rfl⟩
  edit := fun _ _ _ _ => SameTable.issues ⟨rfl, rfl, rfl, rfl⟩
  reshape := fun _ _ _ _ => SameTable.issues ⟨rfl, rfl, rfl, rfl⟩
  move := fun child parent s => (sameTable_setParent s child parent).issues

theorem renders_keepsIssued : keepsIssued.Renders where
  clean := fun _ => SameTable.issues ⟨rfl, rfl, rfl, rfl⟩
  settle := fun _ _ => SameTable.issues ⟨rfl, rfl, rfl, rfl⟩

/-- **One act.** -/
theorem issues_afterAct (s : Session) (a : Act) : Issues s (s.afterAct a) := by
  cases (outcome ordinary_keepsIssued s a).aftermath renders_keepsIssued with
  | allowed allowed => exact allowed
  | created tag left =>
    rw [left]
    exact SameTable.issues ⟨rfl, rfl, rfl, rfl⟩
  | adopted parent left =>
    have hregistered : SameTable s (s.register "div") := ⟨rfl, rfl, rfl, rfl⟩
    rw [left]
    exact (hregistered.trans (sameTable_setParent _ s.nextId (some parent))).issues
  | swept _ left =>
    rw [left]
    exact issues_swept s

/-- **Every list of acts.** -/
theorem issues_afterActs (s : Session) (acts : List Act) : Issues s (s.afterActs acts) := by
  induction acts generalizing s with
  | nil => exact Issues.refl s
  | cons a rest ih => exact (issues_afterAct s a).trans (ih _)

/-- In a session that was new once, what is in the table has been issued. -/
theorem exists_serial (options : Options) (issuer : Issuer)
    (h : Issues (Session.new options issuer) s) (hc : s.continuations.get? id = some c) :
    ∃ serial, serial < s.issued ∧ id = s.issuer.id serial := by
  rcases h.pending id c hc with hnone | ⟨serial, -, hlt, hid⟩
  · rw [show (Session.new options issuer).continuations = .empty from rfl] at hnone
    cases hnone
  · exact ⟨serial, hlt, by rw [h.issuer, hid]⟩

end Session

end AnchorLayout
