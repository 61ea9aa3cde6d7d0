import AnchorLayout.Proofs.Hierarchy.Integrity
/-!
# Containers in every session

  The link to a container is right after every list of calls that leaves containers alone.  A call
  that takes a container away behind the back of its view leaves the link behind.

  1. **Program** — every list of calls on a new session, handlers and failures included.
  2. **Specification** — `Act.Spares`: what it is to leave containers alone, and
     `Session.Throughout`, that every act of a list does.
  3. **One act (`Housed.afterAct`)** — by its outcome; an act that moves views has a lemma of its
     own.
  4. **Every list of acts (`Intact.afterActs`)** — by induction, as long as identifiers last.
-/

namespace AnchorLayout

open Operation

/-- The views that a request takes from where they are, with the view that they go under; a view
that is made plain goes under none as a container. -/
def Session.relocated (s : Session) : Request → List (ViewId × Option ViewId)
  | .setParent v given => [(v, given)]
  | .addChildren p moved => moved.map fun v => (v, some p)
  | .setChrome v false => [(v, none)]
  | .setContainer p (some c) => [(c, some p)]
  | .dock v target => [(v, s.dockedUnder? target)]
  | .dockNamed v reference keyword =>
    [(v, (Dock.ofKeyword? keyword).bind fun d => s.dockedUnder? ⟨reference, d, none⟩)]
  | _ => []

/-- **An act that leaves containers alone**: a container that it takes goes to its own view. -/
def Act.Spares (s : Session) : Act → Prop
  | .request r => ∀ m ∈ s.relocated r, ∀ q ∈ s.owners m.1, m.2 = some q
  | _ => True

/-- So a list of calls can be checked for it by running it. -/
instance decidableSpares (s : Session) : ∀ a : Act, Decidable (a.Spares s)
  | .request r =>
    inferInstanceAs (Decidable (∀ m ∈ s.relocated r, ∀ q ∈ s.owners m.1, m.2 = some q))
  | .suspend _ | .enter _ | .leave | .note _ | .tick _ => inferInstanceAs (Decidable True)

namespace Session

variable {s s' : Session} {u v p q c : ViewId} {home outer : Hierarchy}

/-- A property of every act of a list, in the session that it finds. -/
def Throughout (holds : Session → Act → Prop) : Session → List Act → Prop
  | _, [] => True
  | s, a :: rest => holds s a ∧ Throughout holds (s.afterAct a) rest

/-- The check goes along the run: each act is looked at in the session that it finds. -/
instance decidableThroughout {holds : Session → Act → Prop} [∀ s a, Decidable (holds s a)] :
    ∀ (s : Session) (acts : List Act), Decidable (s.Throughout holds acts)
  | _, [] => inferInstanceAs (Decidable True)
  | s, a :: rest =>
    have : Decidable ((s.afterAct a).Throughout holds rest) :=
      decidableThroughout (s.afterAct a) rest
    inferInstanceAs (Decidable (holds s a ∧ (s.afterAct a).Throughout holds rest))

/-! ## The changes that keep everything housed -/

/-- The forest is kept, and where it is one, everything stays housed. -/
structure Integral (s s' : Session) : Prop extends Kept s s' where
  housed : s.Forest → s.Housed → s'.Housed ∧ (s.Known → s'.Known)

/-- The changes that keep everything housed.  To do nothing is one, and so are two of them in a row,
which is all that the lemmas about acts ask for. -/
def keepsHouses : Change where
  Allows := Integral
  refl := fun s => ⟨keepsForest.refl s, fun _ h => ⟨h, id⟩⟩
  trans := by
    intro s₁ s₂ s₃ first second
    refine ⟨keepsForest.trans first.toKept second.toKept, fun f h => ?_⟩
    obtain ⟨h', k'⟩ := first.housed f h
    obtain ⟨h'', k''⟩ := second.housed (first.forest f) h'
    exact ⟨h'', fun k => k'' (k' k)⟩

/-- A change that leaves every home alone. -/
theorem integral_of_homes (kept : Kept s s') (homes : ∀ u, s'.home? u = s.home? u) :
    Integral s s' :=
  ⟨kept, fun _ h => ⟨h.congr homes kept.nextId, fun k => k.congr homes⟩⟩

/-- Where the views are the same, so are their homes. -/
theorem SameViews.integral (same : SameViews s s') : Integral s s' := by
  refine integral_of_homes (SameViews.kept same) fun u => ?_
  rw [home?, home?, place?, place?, same.views]

theorem home?_markDirty (s : Session) (v u : ViewId) : (s.markDirty v).home? u = s.home? u := rfl

theorem home?_edit (s : Session) (v u : ViewId) {f : View → View}
    (h : ∀ view, (f view).hierarchy = view.hierarchy) : (s.modifyView v f).home? u = s.home? u :=
  congrArg (Option.map Hierarchy.home) (place?_edit s v u h)

/-- What is done to one view at a time leaves the homes alone. -/
theorem plain_keepsHouses : keepsHouses.Plain where
  background := fun h => SameViews.integral h.toSameViews
  suspended := fun c s => SameViews.integral (sameViews_suspend c s)
  mark := fun s v => integral_of_homes (treeEq_markDirty s v).kept (home?_markDirty s v)
  edit := fun s v _ h => integral_of_homes (treeEq_edit s v h).kept fun u => home?_edit s v u h

/-- So does rendering. -/
theorem renders_keepsHouses : keepsHouses.Renders where
  clean := fun s => integral_of_homes (sameTree_renders.clean s).kept fun _ => rfl
  settle := fun s v =>
    integral_of_homes (sameTree_renders.settle s v).kept fun u => home?_edit s v u fun _ => rfl

/-! ## One act -/

/-- A request that answers with nothing leaves what its operation leaves. -/
theorem afterAct_of_done {request : Request} {operation : Operation Unit}
    (is : perform 0 request = (do operation; return .done)) (s : Session) :
    s.afterAct (.request request) = operation.after s := by
  show (perform 0 request).after s = _
  rw [is, after_bind]
  unfold Operation.after
  cases operation s <;> rfl

/-- **A request that moves views** keeps everything housed if it leaves containers alone. -/
theorem integral_of_places {request : Request} (places : request.places = true)
    (spares : (Act.request request).Spares s) : Integral s (s.afterAct (.request request)) := by
  refine ⟨allows_of_places ordinary_keepsForest.placing s places, fun f h => ?_⟩
  -- each request spares the containers among the views that it moves
  cases request with
  | setParent v given =>
    rw [afterAct_of_done rfl]
    exact h.setParent f v fun q hq => spares (v, given) List.mem_cons_self q hq
  | addChildren p moved =>
    rw [afterAct_of_done rfl]
    refine h.addChildren f p moved fun v hv q hq => ?_
    have hunder := spares (v, some p) (List.mem_map.2 ⟨v, hv, rfl⟩) q hq
    exact (Option.some.inj hunder).symm
  | setChrome v isChrome =>
    rw [afterAct_of_done rfl]
    refine h.setChrome f v isChrome fun plain => ?_
    subst plain
    rw [List.eq_nil_iff_forall_not_mem]
    intro q hq
    cases spares (v, none) List.mem_cons_self q hq
  | setContainer p given =>
    rw [afterAct_of_done rfl]
    refine h.setContainer f p fun c hc q hq => ?_
    subst hc
    have hunder := spares (c, some p) List.mem_cons_self q hq
    exact (Option.some.inj hunder).symm
  | dock v target =>
    rw [afterAct_of_done rfl]
    exact h.dock f v target fun q hq => spares (v, _) List.mem_cons_self q hq
  | dockNamed v reference keyword =>
    rw [afterAct_of_done rfl, dockNamed]
    have hspared := spares (v, _) List.mem_cons_self
    cases hd : Dock.ofKeyword? keyword with
    | none => exact ⟨h, id⟩
    | some d =>
      rw [hd] at hspared
      exact h.dock f v _ hspared
  | _ => exact absurd places Bool.false_ne_true

/-- **One act** that leaves containers alone keeps everything housed.  Only a sweep could take away
a parent that was asked for, and it does not where the root hangs under nothing. -/
theorem Housed.afterAct (h : s.Housed) (f : s.Forest) {a : Act} (spares : a.Spares s)
    (room : (s.afterAct a).nextId = s.nextId ∨ s.Room) :
    (s.afterAct a).Housed ∧
      (s.structuralParent? s.root = none → s.Known → (s.afterAct a).Known) := by
  have houtcome : Outcome keepsHouses s a := by
    refine outcome_of_plain plain_keepsHouses s a ?_
    rintro request rfl places
    exact integral_of_places places spares
  -- a view that is registered takes an identifier
  have hroom (hnext : (s.afterAct a).nextId = ⟨s.nextId.number + 1⟩) : s.Room := by
    rcases room with same | room
    · exact absurd (hnext.symm.trans same) (next_ne s)
    · exact room
  cases houtcome.aftermath renders_keepsHouses with
  | allowed integral => exact ⟨(integral.housed f h).1, fun _ => (integral.housed f h).2⟩
  | created tag left =>
    have hregistered := h.register f (hroom (congrArg Session.nextId left)) tag
    rw [left]
    exact ⟨hregistered.1, fun _ => hregistered.2⟩
  | adopted parent left =>
    have hmove := frame_setParent (s.register "div") s.nextId (some parent)
    have hroom' : s.Room := hroom ((congrArg Session.nextId left).trans hmove.2)
    have hregistered := h.register f hroom' "div"
    have hnew := h.owners_nextId f "div"
    have hspared : ∀ q ∈ (s.register "div").owners s.nextId, some parent = some q := by
      intro q hq
      rw [hnew] at hq
      exact absurd hq List.not_mem_nil
    have hmoved := hregistered.1.setParent (f.register hroom' "div") s.nextId hspared
    rw [left]
    exact ⟨hmoved.1, fun _ k => hmoved.2 (hregistered.2 k)⟩
  | swept _ left =>
    rw [left]
    exact h.swept f

/-! ## Every list of acts -/

/-- In a new session there is one home, which is nowhere. -/
theorem home?_new (options : Options) (issuer : Issuer) (u : ViewId) :
    (Session.new options issuer).home? u = if ⟨1⟩ = u then some Hierarchy.detached else none := by
  rw [home?, place?_new]
  split <;> rfl

/-- A new session has no containers and no parents, so everything is housed. -/
theorem housed_new (options : Options) (issuer : Issuer) :
    (Session.new options issuer).Housed ∧ (Session.new options issuer).Known := by
  have hdetached {u : ViewId} {home : Hierarchy}
      (h : (Session.new options issuer).home? u = some home) : home = Hierarchy.detached := by
    rw [home?_new] at h
    split at h
    · exact (Option.some.inj h).symm
    · cases h
  refine ⟨⟨?_, ?_, ?_⟩, ?_⟩
  · intro p c outer hp hc
    rw [hdetached hp] at hc
    cases hc
  · intro v p home outer hv hvp
    rw [hdetached hv] at hvp
    cases hvp
  all_goals
    intro v p home hv hvp
    rw [hdetached hv] at hvp
    cases hvp

/-- **The invariant of the hierarchy**, with how long identifiers have to last. -/
structure Intact (s : Session) (acts : List Act) : Prop where
  forest : s.Forest
  housed : s.Housed
  lasts : s.Lasts acts
  spared : s.Throughout Act.Spares acts

/-- One act uses up its part of the identifiers and of the conditions on what comes. -/
theorem Intact.step {a : Act} {rest : List Act} (i : s.Intact (a :: rest)) :
    (s.afterAct a).Intact rest ∧
      (s.structuralParent? s.root = none → s.Known → (s.afterAct a).Known) := by
  have hhoused := i.housed.afterAct i.forest i.spared.1 i.lasts.step.1
  refine ⟨⟨?_, hhoused.1, i.lasts.step.2, i.spared.2⟩, hhoused.2⟩
  exact i.forest.afterAct i.lasts.step.1

/-- **The invariant runs through the acts.** -/
theorem Intact.afterActs {acts : List Act} (i : s.Intact acts) : (s.afterActs acts).Intact [] := by
  induction acts generalizing s with
  | nil => exact i
  | cons a rest ih => exact ih i.step.1

/-- The parents stay known where the root itself never hangs under anything; a sweep could take them
away otherwise. -/
theorem Intact.known {acts : List Act} (i : s.Intact acts)
    (unparented : s.Along (fun s => s.structuralParent? s.root = none) acts) (k : s.Known) :
    (s.afterActs acts).Known := by
  induction acts generalizing s with
  | nil => exact k
  | cons a rest ih => exact ih i.step.1 unparented.2 (i.step.2 unparented.1 k)

/-- **The invariant holds at the start** of every list of acts that leaves containers alone. -/
theorem intact_new (options : Options) (issuer : Issuer) {acts : List Act}
    (few : 1 + (Session.new options issuer).creations acts < UInt32.size - 1)
    (spared : (Session.new options issuer).Throughout Act.Spares acts) :
    (Session.new options issuer).Intact acts :=
  ⟨forest_new options issuer, (housed_new options issuer).1, lasts_new options issuer few, spared⟩

/-! ## Every list of calls -/

/-- **Container integrity**, after every list of calls on a new session in which containers are left
alone. -/
theorem container_integrity_of_calls (options : Options) (issuer : Issuer) (calls : List Call)
    (few : 1 + (Session.new options issuer).creations
      ((Session.new options issuer).unfolded calls) < UInt32.size - 1)
    (spared : (Session.new options issuer).Throughout Act.Spares
      ((Session.new options issuer).unfolded calls)) :
    let s := (Session.new options issuer).afterCalls calls
    (∀ p outer c, s.hierarchyOf p = .ok outer → outer.container = some c →
      ∃ inner, s.hierarchyOf c = .ok inner ∧ inner.parent = some p ∧
        inner.structuralParent = some p) ∧
    (∀ v place p outer, s.hierarchyOf v = .ok place → place.parent = some p →
      s.hierarchyOf p = .ok outer →
      (∀ c, outer.container = some c → place.isChrome = false → v ≠ c →
        place.structuralParent = some c) ∧
      (outer.container = none ∨ place.isChrome = true ∨ outer.container = some v →
        place.structuralParent = some p)) := by
  intro s
  have hhoused : s.Housed := by
    have hacts := (intact_new options issuer few spared).afterActs
    rw [afterActs_unfolded] at hacts
    exact hacts.housed
  constructor
  · intro p outer c hp hc
    have hhome := home?_of_place (hierarchyOf_eq_ok_iff.1 hp)
    obtain ⟨inner, hinner, -, hparent, hstructural⟩ := hhoused.house hhome hc
    obtain ⟨place, hplace, rfl⟩ := Option.map_eq_some_iff.1 hinner
    exact ⟨place, hierarchyOf_eq_ok_iff.2 hplace, hparent, hstructural⟩
  · intro v place p outer hv hparent hp
    have hlands := hhoused.placed (home?_of_place (hierarchyOf_eq_ok_iff.1 hv)) hparent
      (home?_of_place (hierarchyOf_eq_ok_iff.1 hp))
    have hplaced : place.structuralParent = some (outer.landing v place.isChrome p) := hlands
    -- where a view lands is in the container, unless it is chrome or the container itself
    rw [Hierarchy.landing] at hplaced
    constructor
    · intro c hc hplain hne
      rw [hplaced, hc]
      exact congrArg some (if_pos ⟨hplain, Ne.symm hne⟩)
    · intro hbeside
      rw [hplaced]
      rcases hbeside with hnone | hchrome | hself
      · rw [hnone]
      · cases outer.container with
        | none => rfl
        | some c => simp [hchrome]
      · rw [hself]
        simp

/-- A view gets a container, a child that is put into it, and another container. -/
def someContainers : List Call :=
  [.request 1 (.createChild ⟨1⟩), .request 1 (.create "div"),
    .request 1 (.setContainer ⟨2⟩ (some ⟨3⟩)), .request 1 (.createChild ⟨2⟩),
    .request 1 (.create "div"), .request 1 (.setContainer ⟨2⟩ (some ⟨5⟩)),
    .request 1 (.setParent ⟨3⟩ (some ⟨4⟩)), .request 1 .sweep]

/-- In the session with two containers, each of them is a chrome child of its view and holds what it
should. -/
theorem container_integrity_of_someContainers :
    let s := (Session.new .default "").afterCalls someContainers
    1 + (Session.new .default "").creations ((Session.new .default "").unfolded someContainers) <
        UInt32.size - 1 ∧
      (Session.new .default "").Throughout Act.Spares
        ((Session.new .default "").unfolded someContainers) ∧
      ∀ p outer c, s.hierarchyOf p = .ok outer → outer.container = some c →
        ∃ inner, s.hierarchyOf c = .ok inner ∧ inner.parent = some p ∧
          inner.structuralParent = some p := by
  have few : 1 + (Session.new .default "").creations
      ((Session.new .default "").unfolded someContainers) < UInt32.size - 1 := by decide +kernel
  have spared : (Session.new .default "").Throughout Act.Spares
      ((Session.new .default "").unfolded someContainers) := by decide +kernel
  exact ⟨few, spared, (container_integrity_of_calls .default "" someContainers few spared).1⟩

/-- A view gets a container, which is then taken out of the tree. -/
def containerTaken : List Call :=
  [.request 1 (.createChild ⟨1⟩), .request 1 (.create "div"),
    .request 1 (.setContainer ⟨2⟩ (some ⟨3⟩)), .request 1 (.setParent ⟨3⟩ none)]

/-- **A container that is taken away** is the container of its view still. -/
theorem container_left_behind :
    let s := (Session.new .default "").afterCalls containerTaken
    ¬ ∀ p outer c, s.hierarchyOf p = .ok outer → outer.container = some c →
      ∃ inner, s.hierarchyOf c = .ok inner ∧ inner.parent = some p ∧
        inner.structuralParent = some p := by
  intro s hintegrity
  have houter : ∃ outer, s.place? ⟨2⟩ = some outer ∧ outer.container = some ⟨3⟩ := by
    have hlink : (s.place? ⟨2⟩).bind Hierarchy.container = some ⟨3⟩ := by decide +kernel
    exact Option.bind_eq_some_iff.1 hlink
  have hinner : (s.place? ⟨3⟩).bind Hierarchy.parent = none := by decide +kernel
  obtain ⟨outer, hplace, hc⟩ := houter
  obtain ⟨inner, hin, hparent, -⟩ := hintegrity _ _ _ (hierarchyOf_eq_ok_iff.2 hplace) hc
  rw [hierarchyOf_eq_ok_iff.1 hin] at hinner
  cases hinner.symm.trans hparent

end Session

end AnchorLayout
