import AnchorLayout.Proofs.Hierarchy.Sparing
/-!
# Operations that fail

  An operation on the hierarchy that fails leaves the session alone, as long as nobody takes a
  container away behind the back of its view.  These operations write step by step and undo nothing,
  so what has to be shown is that no step after the first write fails.

  1. **Program** — `Session.perform` for the requests that move one view.
  2. **Specification** — `Operation.Atomic`: where it fails, nothing has happened.
  3. **The crux (`Housed.atomic_request`)** — where everything is housed, an operation is refused
     before it writes, and a change of kind needs the parent of the view to be there too.
-/

namespace AnchorLayout

namespace Operation

variable {α β : Type} {operation : Operation α} {s s' : Session}

/-- **An operation that changes nothing if it fails.** -/
def Atomic (operation : Operation α) (s : Session) : Prop :=
  ∀ e s', operation s = .error e s' → s' = s

theorem atomic_of_error {e : Error} (h : operation s = .error e s) : operation.Atomic s := by
  intro e' s' he
  injection h.symm.trans he with _ hs
  exact hs.symm

/-- An operation that succeeds has nothing to undo. -/
theorem atomic_of_ok {a : α} (h : operation s = .ok a s') : operation.Atomic s := by
  intro e s'' he
  rw [h] at he
  cases he

/-- What is made of the answer does not touch the session. -/
theorem Atomic.map (h : operation.Atomic s) (f : α → β) : (f <$> operation).Atomic s := by
  intro e s' he
  cases ho : operation s with
  | ok a s₁ =>
    rw [map_of_ok ho] at he
    cases he
  | error e₁ s₁ =>
    rw [map_of_error ho] at he
    obtain ⟨rfl, rfl⟩ := EStateM.Result.error.inj he
    exact h _ _ ho

/-- The same for an operation that is run for its effect and answered with something else. -/
theorem Atomic.answered (h : operation.Atomic s) (a : β) :
    (do let _ ← operation; return a : Operation β).Atomic s := by
  intro e s' he
  cases ho : operation s with
  | ok b s₁ =>
    rw [bind_of_ok ho] at he
    cases he
  | error e₁ s₁ =>
    rw [bind_of_error ho] at he
    obtain ⟨rfl, rfl⟩ := EStateM.Result.error.inj he
    exact h _ _ ho

end Operation

open Operation

/-- The requests that move one view, or make it another kind. -/
def Request.rearranges : Request → Bool
  | .setParent .. | .createChild .. | .setChrome .. | .setContainer .. | .dock ..
  | .dockNamed .. => true
  | _ => false

namespace Session

variable {s : Session} {v p : ViewId}

/-! ## One operation after the other -/

/-- A move checks the place that it goes to before it takes the view out, and where everything is
housed that place is there. -/
theorem Housed.atomic_setParent (h : s.Housed) (v : ViewId) (parent : Option ViewId) :
    (Session.setParent v parent).Atomic s := by
  cases parent with
  | none =>
    rcases setParent_none_cases s v with ⟨e, he⟩ | ⟨s', hs', -⟩
    · exact atomic_of_error he
    · exact atomic_of_ok hs'
  | some p =>
    rcases setParent_some_cases fun t ht => h.contains_placement ht with ⟨e, he⟩ | ⟨t, s', hs', -⟩
    · exact atomic_of_error he
    · exact atomic_of_ok hs'

/-- Where everything is housed a new child finds its place, so it is not left behind as an
orphan. -/
theorem Housed.atomic_createChild (h : s.Housed) (f : s.Forest) (p : ViewId) :
    (createChild p).Atomic s := by
  rcases createChild_cases h f p with ⟨e, he⟩ | ⟨s', hs'⟩
  · exact atomic_of_error he
  · exact atomic_of_ok hs'

/-- A view whose parent is there can be put under it again. -/
theorem Housed.atomic_setChrome (h : s.Housed) (f : s.Forest) (k : s.Known) (v : ViewId)
    (isChrome : Bool) : (Session.setChrome v isChrome).Atomic s := by
  rcases setChrome_cases h f v isChrome with
    ⟨e, he⟩ | hsame | ⟨before, now, s', hrehomed, -, -, -, -, hs' | ⟨e, p, -, hp, hgone⟩⟩
  · exact atomic_of_error he
  · exact atomic_of_ok hsame
  · exact atomic_of_ok hs'
  · exact absurd (hgone.symm.trans (k v p before hrehomed.was hp)) Bool.false_ne_true

/-- The children that a change of container moves can all be moved once the checks have passed. -/
theorem Housed.atomic_setContainer (h : s.Housed) (f : s.Forest) (p : ViewId)
    (container : Option ViewId) : (Session.setContainer p container).Atomic s := by
  rcases setContainer_cases h f p container with ⟨e, he⟩ | ⟨outer, moved, s', -, -, -, hs', -⟩
  · exact atomic_of_error he
  · exact atomic_of_ok hs'

/-- Docking works its rules out before it moves the view, so the move is the last that can fail. -/
theorem Housed.atomic_dock (h : s.Housed) (v : ViewId) (target : DockTarget) :
    (Session.dock v target).Atomic s := by
  rcases dock_cases h v target with ⟨e, he⟩ | ⟨parent, moved, s', -, -, hs', -⟩
  · exact atomic_of_error he
  · exact atomic_of_ok hs'

/-- A keyword that is none is refused before anything else. -/
theorem Housed.atomic_dockNamed (h : s.Housed) (v reference : ViewId) (keyword : String) :
    (Session.dockNamed v reference keyword).Atomic s := by
  unfold Session.dockNamed
  cases Dock.ofKeyword? keyword with
  | none => exact atomic_of_error rfl
  | some d => exact h.atomic_dock v ⟨reference, d, none⟩

/-! ## Requests -/

/-- These requests send nothing to handlers, so how deep a handler may call does not matter. -/
theorem perform_of_rearranges {request : Request} (rearranges : request.rearranges = true)
    (depth : Nat) (s : Session) : perform depth request s = perform 0 request s := by
  refine perform_of_noStage ?_ depth
  cases request with
  | dispatch | dispatchWire | resume => exact absurd rearranges Bool.false_ne_true
  | _ => rfl

/-- **Where everything is housed, a request that fails has changed nothing.** -/
theorem Housed.atomic_request (h : s.Housed) (f : s.Forest) {request : Request}
    (rearranges : request.rearranges = true)
    (known : ∀ v isChrome, request = .setChrome v isChrome → s.Known) (depth : Nat) :
    (perform depth request).Atomic s := by
  suffices hzero : (perform 0 request).Atomic s by
    intro e s' he
    exact hzero e s' (by rw [← perform_of_rearranges rearranges depth, he])
  cases request with
  | setParent v parent => exact (h.atomic_setParent v parent).answered _
  | createChild p => exact (h.atomic_createChild f p).map _
  | setChrome v isChrome =>
    exact (h.atomic_setChrome f (known v isChrome rfl) v isChrome).answered _
  | setContainer p container => exact (h.atomic_setContainer f p container).answered _
  | dock v target => exact (h.atomic_dock v target).answered _
  | dockNamed v reference keyword => exact (h.atomic_dockNamed v reference keyword).answered _
  | _ => exact absurd rearranges Bool.false_ne_true

/-- **An operation on the hierarchy that fails changes nothing**, after every list of calls on a new
session in which containers are left alone; a change of kind, where the root has never been under
another view. -/
theorem atomic_after_calls (options : Options) (issuer : Issuer) (calls : List Call)
    (few : 1 + (Session.new options issuer).creations
      ((Session.new options issuer).unfolded calls) < UInt32.size - 1)
    (spared : (Session.new options issuer).Throughout Act.Spares
      ((Session.new options issuer).unfolded calls))
    (depth : Nat) (request : Request) (rearranges : request.rearranges = true)
    (unparented : ∀ v isChrome, request = .setChrome v isChrome →
      (Session.new options issuer).Along (fun s => s.structuralParent? s.root = none)
        ((Session.new options issuer).unfolded calls))
    (e : Error) (s' : Session)
    (failed : perform depth request ((Session.new options issuer).afterCalls calls) =
      .error e s') :
    s' = (Session.new options issuer).afterCalls calls := by
  have hintact := intact_new options issuer few spared
  have hknown : ∀ v isChrome, request = .setChrome v isChrome →
      ((Session.new options issuer).afterCalls calls).Known := by
    intro v isChrome hrequest
    rw [← afterActs_unfolded]
    exact hintact.known (unparented v isChrome hrequest) (housed_new options issuer).2
  have hafter := hintact.afterActs
  rw [afterActs_unfolded] at hafter
  exact hafter.housed.atomic_request hafter.forest rearranges hknown depth e s' failed

/-- A move that would close a cycle and a change of a view that is not there. -/
def someFailures : List Request := [.setParent ⟨2⟩ (some ⟨4⟩), .setChrome ⟨9⟩ true]

/-- Both requests fail in a session with containers, and leave it as it was. -/
theorem atomic_after_someContainers :
    let s := (Session.new .default "").afterCalls someContainers
    1 + (Session.new .default "").creations ((Session.new .default "").unfolded someContainers) <
        UInt32.size - 1 ∧
      (Session.new .default "").Throughout Act.Spares
        ((Session.new .default "").unfolded someContainers) ∧
      (Session.new .default "").Along (fun s => s.structuralParent? s.root = none)
        ((Session.new .default "").unfolded someContainers) ∧
      ∀ request ∈ someFailures,
        request.rearranges = true ∧ ∃ e, perform 1 request s = .error e s := by
  intro s
  have few : 1 + (Session.new .default "").creations
      ((Session.new .default "").unfolded someContainers) < UInt32.size - 1 := by decide +kernel
  have spared : (Session.new .default "").Throughout Act.Spares
      ((Session.new .default "").unfolded someContainers) := by decide +kernel
  have unparented : (Session.new .default "").Along (fun s => s.structuralParent? s.root = none)
      ((Session.new .default "").unfolded someContainers) := by decide +kernel
  have hfails : ∀ request ∈ someFailures, request.rearranges = true ∧
      ((perform 1 request).answer s).isOk = false := by decide +kernel
  refine ⟨few, spared, unparented, fun request hrequest => ?_⟩
  obtain ⟨rearranges, hfail⟩ := hfails request hrequest
  obtain ⟨e, s', hanswer⟩ := Operation.exists_error_of_isOk hfail
  have hsame : s' = s := atomic_after_calls .default "" someContainers few spared 1 request
    rearranges (fun _ _ _ => unparented) e s' hanswer
  exact ⟨rearranges, e, hsame ▸ hanswer⟩

/-- A view gets a container, which is then taken out of the tree and swept away. -/
def containerSwept : List Call := containerTaken ++ [.request 1 .sweep]

/-- **A child that finds no container** is registered before that is found out. -/
theorem child_left_behind :
    let s := (Session.new .default "").afterCalls containerSwept
    ∃ e s', perform 1 (.createChild ⟨2⟩) s = .error e s' ∧ s' ≠ s := by
  intro s
  have hfail : ((perform 1 (.createChild ⟨2⟩)).answer s).isOk = false := by decide +kernel
  have hnext : ((perform 1 (.createChild ⟨2⟩)).after s).nextId ≠ s.nextId := by decide +kernel
  obtain ⟨e, s', hanswer⟩ := Operation.exists_error_of_isOk hfail
  rw [after_of_error hanswer] at hnext
  exact ⟨e, s', hanswer, fun hsame => hnext (congrArg Session.nextId hsame)⟩

end Session

end AnchorLayout
