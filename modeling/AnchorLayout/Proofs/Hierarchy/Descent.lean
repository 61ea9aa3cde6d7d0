import AnchorLayout.Proofs.Hierarchy.Forest
import AnchorLayout.Session.Render
/-!
# Subtrees

  1. **Program** — `Session.preorder` and `descendants`, a walk over a list of pending views, and
     `Session.renderFrom?`, a recursion over levels; each stops when its fuel does.
  2. **Specification** — the walk lists exactly what is properly below the view, each once
     (`mem_descendants_iff`, `nodup_descendants`), and rendering lists the same views in the same
     order (`ids_of_renderView`).
  3. **The invariant (`Pending`)** — the pending views are registered, and none of them is below
     another one; so what has been listed is not below anything that is still pending.
  4. **The crux** — a walk that is cut off has listed more distinct views than there are, and a
     branch that is cut off is a line of as many.
-/

namespace AnchorLayout

namespace Session

variable {s : Session} {u v p : ViewId} {pending : List ViewId} {fuel : Nat}

/-! ## The walk -/

/-- **Pending views**: registered, distinct, and none below another one. -/
structure Pending (s : Session) (pending : List ViewId) : Prop where
  nodup : pending.Nodup
  registered : ∀ p ∈ pending, s.contains p = true
  apart : ∀ p ∈ pending, ∀ q ∈ pending, s.Below p q → p = q

/-- A walk begins with one view. -/
theorem Pending.single (h : s.contains v = true) : s.Pending [v] where
  nodup := List.nodup_cons.2 ⟨List.not_mem_nil, List.nodup_nil⟩
  registered := by
    intro p hp
    rw [List.mem_singleton] at hp
    rw [hp]
    exact h
  apart := by
    intro p hp q hq _
    rw [List.mem_singleton] at hp hq
    rw [hp, hq]

/-- What is left when the first view has been dealt with. -/
theorem Pending.tail (h : s.Pending (v :: pending)) : s.Pending pending where
  nodup := (List.nodup_cons.1 h.nodup).2
  registered := fun p hp => h.registered p (List.mem_cons_of_mem _ hp)
  apart := fun p hp q hq => h.apart p (List.mem_cons_of_mem _ hp) q (List.mem_cons_of_mem _ hq)

/-- A view is below a child of `v` only if it is below `v`, and `v` is below no child of its own. -/
theorem Forest.not_below_child (f : s.Forest) (hp : p ∈ s.childrenOf v) : ¬ s.Below v p := by
  intro hbelow
  exact f.acyclic p (Climb.under_of_below (f.climb_of_mem hp) hbelow)

/-- **One step of the walk**: a view is replaced by its children. -/
theorem Pending.step (f : s.Forest) (h : s.Pending (v :: pending)) :
    s.Pending (s.childrenOf v ++ pending) := by
  have hv : v ∉ pending := (List.nodup_cons.1 h.nodup).1
  have hchild {c r : ViewId} (hc : c ∈ s.childrenOf v) (hr : r ∈ pending) :
      ¬ s.Below c r ∧ ¬ s.Below r c := by
    have hclimb := f.climb_of_mem hc
    constructor
    · intro hbelow
      -- the line from a child goes on through the view itself
      rcases below_iff_eq_or_climb.1 hbelow with rfl | ⟨w, hw, hwr⟩
      · have hrv := h.apart c (List.mem_cons_of_mem _ hr) v List.mem_cons_self hclimb.below
        exact hv (hrv ▸ hr)
      · cases climb_unique hclimb hw
        have hvr := h.apart v List.mem_cons_self r (List.mem_cons_of_mem _ hr) hwr
        exact hv (hvr ▸ hr)
    · intro hbelow
      have hrv := h.apart r (List.mem_cons_of_mem _ hr) v List.mem_cons_self
        (hbelow.trans hclimb.below)
      exact hv (hrv ▸ hr)
  refine ⟨?_, ?_, ?_⟩
  · refine List.nodup_append.2 ⟨f.nodup_children v, h.tail.nodup, ?_⟩
    rintro c hc r hr rfl
    exact (hchild hc hr).1 (below_refl s c)
  · intro p hp
    rcases List.mem_append.1 hp with hc | hr
    · exact f.contains_child hc
    · exact h.tail.registered p hr
  · intro p hp q hq hbelow
    rcases List.mem_append.1 hp with hpc | hpr <;> rcases List.mem_append.1 hq with hqc | hqr
    · rcases below_iff_eq_or_climb.1 hbelow with heq | ⟨w, hw, hwq⟩
      · exact heq
      · cases climb_unique (f.climb_of_mem hpc) hw
        exact absurd hwq (f.not_below_child hqc)
    · exact absurd hbelow (hchild hpc hqr).1
    · exact absurd hbelow (hchild hqc hpr).2
    · exact h.tail.apart p hpr q hqr hbelow

/-- Everything that the walk lists is registered and below a view that was pending. -/
theorem of_mem_preorder (f : s.Forest) (h : s.Pending pending) (hu : u ∈ s.preorder fuel pending) :
    s.contains u = true ∧ ∃ p ∈ pending, s.Below u p := by
  induction fuel generalizing pending with
  | zero => exact absurd hu List.not_mem_nil
  | succ fuel ih =>
    cases pending with
    | nil => exact absurd hu List.not_mem_nil
    | cons v rest =>
      rw [preorder, List.mem_cons] at hu
      rcases hu with rfl | hu
      · exact ⟨h.registered u List.mem_cons_self, u, List.mem_cons_self, below_refl s u⟩
      · obtain ⟨hc, p, hp, hbelow⟩ := ih (h.step f) hu
        refine ⟨hc, ?_⟩
        rcases List.mem_append.1 hp with hchild | hrest
        · exact ⟨v, List.mem_cons_self, hbelow.trans (f.climb_of_mem hchild).below⟩
        · exact ⟨p, List.mem_cons_of_mem _ hrest, hbelow⟩

/-- The walk lists nothing twice. -/
theorem nodup_preorder (f : s.Forest) (h : s.Pending pending) :
    (s.preorder fuel pending).Nodup := by
  induction fuel generalizing pending with
  | zero => exact List.nodup_nil
  | succ fuel ih =>
    cases pending with
    | nil => exact List.nodup_nil
    | cons v rest =>
      rw [preorder]
      refine List.nodup_cons.2 ⟨?_, ih (h.step f)⟩
      intro hv
      obtain ⟨-, p, hp, hbelow⟩ := of_mem_preorder f (h.step f) hv
      rcases List.mem_append.1 hp with hchild | hrest
      · exact f.not_below_child hchild hbelow
      · have heq := h.apart v List.mem_cons_self p (List.mem_cons_of_mem _ hrest) hbelow
        exact (List.nodup_cons.1 h.nodup).1 (heq ▸ hrest)

/-- A walk comes to its end within its fuel and lists everything below what was pending, or it has
a view to list for all of its fuel and for one more. -/
theorem preorder_settled (f : s.Forest) (fuel : Nat) (h : s.Pending pending) :
    ((∀ more, s.preorder (fuel + more) pending = s.preorder fuel pending) ∧
        ∀ p ∈ pending, ∀ u, s.Below u p → u ∈ s.preorder fuel pending) ∨
      (s.preorder (fuel + 1) pending).length = fuel + 1 := by
  induction fuel generalizing pending with
  | zero =>
    cases pending with
    | nil =>
      refine Or.inl ⟨fun more => ?_, fun p hp => absurd hp List.not_mem_nil⟩
      cases 0 + more <;> rfl
    | cons v rest => exact Or.inr rfl
  | succ fuel ih =>
    cases pending with
    | nil =>
      refine Or.inl ⟨fun more => ?_, fun p hp => absurd hp List.not_mem_nil⟩
      cases fuel + 1 + more <;> rfl
    | cons v rest =>
      -- one view is listed and replaced by its children, with one fuel less for what is pending
      -- then
      rcases ih (h.step f) with ⟨hmore, hall⟩ | hlength
      · refine Or.inl ⟨fun more => ?_, fun p hp u hu => ?_⟩
        · rw [Nat.succ_add, preorder, preorder, hmore]
        · rw [preorder, List.mem_cons]
          rcases List.mem_cons.1 hp with rfl | hp
          -- below the view is the view itself, or something below one of its children
          · rcases Relation.ReflTransGen.cases_tail hu with rfl | ⟨c, huc, hcp⟩
            · exact Or.inl rfl
            · have hc := (f.mem_children_iff (h.registered p List.mem_cons_self)).2 hcp
              exact Or.inr (hall c (List.mem_append_left _ hc) u huc)
          · exact Or.inr (hall p (List.mem_append_right _ hp) u hu)
      · refine Or.inr ?_
        rw [preorder, List.length_cons, hlength]

/-- **No walk lists more views than there are.** -/
theorem Forest.walk_settled (f : s.Forest) (h : s.Pending pending) :
    (∀ more, s.preorder (s.views.size + more) pending = s.preorder s.views.size pending) ∧
      ∀ p ∈ pending, ∀ u, s.Below u p → u ∈ s.preorder s.views.size pending := by
  rcases preorder_settled f s.views.size h with hsettled | hlength
  · exact hsettled
  · exfalso
    have hregistered : ∀ u ∈ s.preorder (s.views.size + 1) pending, s.contains u = true :=
      fun u hu => (of_mem_preorder f h hu).1
    have hle := length_le_size (nodup_preorder f h) hregistered
    omega

/-- The children of a view can be walked through: they are distinct, and in a forest none is below
another one. -/
theorem Forest.pending_children (f : s.Forest) (h : s.contains v = true) :
    s.Pending (s.childrenOf v) := by
  have hstep := (Pending.single h).step f
  rwa [List.append_nil] at hstep

/-- **What is listed below a view** is what is properly below it. -/
theorem Forest.mem_descendants_iff (f : s.Forest) (h : s.contains v = true) :
    u ∈ s.descendants v ↔ s.Under u v := by
  have hpending := f.pending_children h
  constructor
  · intro hu
    obtain ⟨-, p, hp, hbelow⟩ := of_mem_preorder f hpending hu
    exact Relation.TransGen.tail' hbelow (f.climb_of_mem hp)
  · intro hu
    obtain ⟨c, huc, hcv⟩ := Relation.TransGen.tail'_iff.1 hu
    exact (f.walk_settled hpending).2 c ((f.mem_children_iff h).2 hcv) u huc

/-- **Nothing occurs twice** among a view and what is listed below it. -/
theorem Forest.nodup_descendants (f : s.Forest) (h : s.contains v = true) :
    (v :: s.descendants v).Nodup := by
  refine List.nodup_cons.2 ⟨?_, nodup_preorder f (f.pending_children h)⟩
  intro hv
  exact f.acyclic v ((f.mem_descendants_iff h).1 hv)

/-- A view and what is listed below it is what is below or equal to it. -/
theorem Forest.mem_self_descendants_iff (f : s.Forest) (h : s.contains v = true) :
    u ∈ v :: s.descendants v ↔ s.Below u v := by
  rw [List.mem_cons, f.mem_descendants_iff h]
  constructor
  · rintro (rfl | hu)
    · exact below_refl s u
    · exact hu.below
  · intro hu
    rcases hu.eq_or_under with rfl | hunder
    · exact Or.inl rfl
    · exact Or.inr hunder

/-! ## Rendering -/

/-- A list of results, all of them there. -/
theorem mapM_eq_ok_iff {α β : Type} {f : α → Except Error β} {items : List α} {results : List β} :
    items.mapM f = .ok results ↔ List.Forall₂ (fun a b => f a = .ok b) items results := by
  induction items generalizing results with
  | nil =>
    rw [List.mapM_nil, List.forall₂_nil_left_iff]
    exact ⟨fun h => (Except.ok.inj h).symm, fun h => congrArg Except.ok h.symm⟩
  | cons a rest ih =>
    rw [List.mapM_cons]
    cases ha : f a with
    | error e =>
      refine ⟨nofun, fun h => ?_⟩
      cases h with
      | cons hb _ => rw [ha] at hb; cases hb
    | ok b =>
      -- the first fault is that of the whole list
      cases hrest : rest.mapM f with
      | error e =>
        refine ⟨nofun, fun h => ?_⟩
        cases h with
        | cons _ htail => rw [ih.2 htail] at hrest; cases hrest
      | ok bs =>
        refine ⟨fun h => ?_, fun h => ?_⟩
        · cases h
          exact List.Forall₂.cons ha (ih.1 hrest)
        · cases h with
          | cons hb htail =>
            rw [ha] at hb
            rw [ih.2 htail] at hrest
            cases hb
            cases hrest
            rfl

/-- Every result comes from an item. -/
theorem exists_of_mem_mapM {α β : Type} {f : α → Except Error β} {items : List α}
    {results : List β} {b : β} (h : items.mapM f = .ok results) (hb : b ∈ results) :
    ∃ a ∈ items, f a = .ok b := by
  have hall := mapM_eq_ok_iff.1 h
  clear h
  induction hall with
  | nil => exact absurd hb List.not_mem_nil
  | @cons a b' _ _ ha _ ih =>
    rcases List.mem_cons.1 hb with rfl | hb
    · exact ⟨a, List.mem_cons_self, ha⟩
    · obtain ⟨a', ha', hfa⟩ := ih hb
      exact ⟨a', List.mem_cons_of_mem a ha', hfa⟩

/-- Where every item has a result there is a list of results. -/
theorem exists_mapM_eq_ok {α β : Type} {f : α → Except Error β} {items : List α}
    (h : ∀ a ∈ items, ∃ b, f a = .ok b) : ∃ results, items.mapM f = .ok results := by
  induction items with
  | nil => exact ⟨[], rfl⟩
  | cons a rest ih =>
    obtain ⟨b, hb⟩ := h a List.mem_cons_self
    obtain ⟨bs, hbs⟩ := ih fun c hc => h c (List.mem_cons_of_mem _ hc)
    exact ⟨b :: bs, mapM_eq_ok_iff.2 (List.Forall₂.cons hb (mapM_eq_ok_iff.1 hbs))⟩

/-- **One level of rendering**: the view is there, and its children are rendered with one fuel
less. -/
theorem renderFrom?_eq_ok_iff {r : RenderedView} :
    s.renderFrom? (fuel + 1) v = .ok r ↔ ∃ view children, s.views.get? v = some view ∧
      view.hierarchy.children.mapM (s.renderFrom? fuel) = .ok children ∧
        r = .node v view.tag (s.attributesOf v view) children false := by
  rw [renderFrom?, view?]
  cases s.views.get? v with
  | none =>
    constructor
    · intro h
      cases h
    · rintro ⟨view, -, h, -⟩
      cases h
  | some view =>
    -- rendering is the same check of the children on both sides
    cases hc : view.hierarchy.children.mapM (s.renderFrom? fuel) with
    | error e =>
      refine ⟨fun h => ?_, ?_⟩
      · simp only [bind, Except.bind, hc] at h
        cases h
      · rintro ⟨found, children, hfound, hchildren, -⟩
        cases hfound
        rw [hc] at hchildren
        cases hchildren
    | ok children =>
      constructor
      · intro h
        simp only [bind, Except.bind, hc] at h
        exact ⟨view, children, rfl, hc, (Except.ok.inj h).symm⟩
      · rintro ⟨found, children', hfound, hchildren, rfl⟩
        cases hfound
        rw [hc] at hchildren
        cases hchildren
        simp only [bind, Except.bind, hc]
        rfl

/-- **Induction over what is rendered**: a view once its children are, and several views once the
first of them and those behind it are. -/
theorem rendered_induction {motive : List ViewId → List RenderedView → Prop} (nil : motive [] [])
    (cons : ∀ fuel v pending view children rendered, s.views.get? v = some view →
      view.hierarchy.children.mapM (s.renderFrom? fuel) = .ok children →
        motive view.hierarchy.children children → motive pending rendered →
          motive (v :: pending)
            (.node v view.tag (s.attributesOf v view) children false :: rendered))
    {rendered : List RenderedView} (h : pending.mapM (s.renderFrom? fuel) = .ok rendered) :
    motive pending rendered := by
  induction fuel generalizing pending rendered with
  | zero =>
    cases mapM_eq_ok_iff.1 h with
    | nil => exact nil
    | cons hv _ => cases hv
  | succ fuel ihFuel =>
    have hall := mapM_eq_ok_iff.1 h
    clear h
    -- the children are one level down, the views behind this one on the same level
    induction hall with
    | nil => exact nil
    | cons hv _ ih =>
      obtain ⟨view, children, hview, hchildren, rfl⟩ := renderFrom?_eq_ok_iff.1 hv
      exact cons fuel _ _ view children _ hview hchildren (ihFuel hchildren) ih

/-- More fuel than enough renders the same. -/
theorem renderFrom?_more {r : RenderedView} (h : s.renderFrom? fuel v = .ok r) (more : Nat) :
    s.renderFrom? (fuel + more) v = .ok r := by
  induction fuel generalizing v r with
  | zero => cases h
  | succ fuel ih =>
    obtain ⟨view, children, hview, hchildren, rfl⟩ := renderFrom?_eq_ok_iff.1 h
    rw [Nat.succ_add]
    refine renderFrom?_eq_ok_iff.2 ⟨view, children, hview, ?_, rfl⟩
    rw [mapM_eq_ok_iff] at hchildren ⊢
    exact hchildren.imp fun _ _ => ih

/-- **A branch is no longer than there are views**: with the line down to a view in hand, the fuel
that is left is enough. -/
theorem Forest.renderFrom?_ok (f : s.Forest) {line : List ViewId} (hv : s.contains v = true)
    (distinct : (v :: line).Nodup) (registered : ∀ a ∈ line, s.contains a = true)
    (above : ∀ a ∈ line, s.Below v a) (enough : s.views.size ≤ line.length + fuel) :
    ∃ r, s.renderFrom? fuel v = .ok r := by
  induction fuel generalizing v line with
  | zero =>
    -- the view and the line down to it are one more than there are views
    exfalso
    have hle := length_le_size distinct fun a ha => by
      rcases List.mem_cons.1 ha with rfl | ha
      · exact hv
      · exact registered a ha
    rw [List.length_cons] at hle
    omega
  | succ fuel ih =>
    obtain ⟨view, hview⟩ := contains_iff.1 hv
    have hchildren : s.childrenOf v = view.hierarchy.children := by rw [childrenOf, hview]; rfl
    have hall : ∀ c ∈ view.hierarchy.children, ∃ r, s.renderFrom? fuel c = .ok r := by
      intro c hc
      rw [← hchildren] at hc
      have hclimb := f.climb_of_mem hc
      have hdistinct : (c :: v :: line).Nodup := by
        refine List.nodup_cons.2 ⟨?_, distinct⟩
        intro hmem
        rcases List.mem_cons.1 hmem with rfl | hmem
        · exact f.not_below_child hc (below_refl s c)
        · exact f.not_below_child hc (above c hmem)
      refine ih (f.contains_child hc) hdistinct ?_ ?_ ?_
      · intro a ha
        rcases List.mem_cons.1 ha with rfl | ha
        · exact hv
        · exact registered a ha
      · intro a ha
        rcases List.mem_cons.1 ha with rfl | ha
        · exact hclimb.below
        · exact hclimb.below.trans (above a ha)
      · rw [List.length_cons]
        omega
    obtain ⟨children, hmap⟩ := exists_mapM_eq_ok hall
    exact ⟨_, renderFrom?_eq_ok_iff.2 ⟨view, children, hview, hmap, rfl⟩⟩

/-- **Every registered view can be rendered**, and more fuel renders the same. -/
theorem Forest.renderView?_ok (f : s.Forest) (hv : s.contains v = true) :
    ∃ r, s.renderView? v = .ok r ∧
      ∀ more, s.renderFrom? (s.views.size + 1 + more) v = .ok r := by
  have hlone : ([v] : List ViewId).Nodup := List.nodup_cons.2 ⟨List.not_mem_nil, List.nodup_nil⟩
  have henough : s.views.size ≤ ([] : List ViewId).length + (s.views.size + 1) := by simp
  obtain ⟨r, hr⟩ := f.renderFrom?_ok hv hlone (fun a ha => absurd ha List.not_mem_nil)
    (fun a ha => absurd ha List.not_mem_nil) henough
  exact ⟨r, hr, renderFrom?_more hr⟩

/-! ## The views that are rendered -/

/-- The walk lists what is rendered, as far as it goes, and then goes on. -/
theorem preorder_of_rendered {rendered : List RenderedView} (more : Nat) (rest : List ViewId)
    (h : pending.mapM (s.renderFrom? fuel) = .ok rendered) :
    s.preorder ((RenderedView.idsOfAll rendered).length + more) (pending ++ rest) =
      RenderedView.idsOfAll rendered ++ s.preorder more rest := by
  refine rendered_induction (motive := fun pending rendered => ∀ more rest,
    s.preorder ((RenderedView.idsOfAll rendered).length + more) (pending ++ rest) =
      RenderedView.idsOfAll rendered ++ s.preorder more rest) ?nil ?cons h more rest
  case nil =>
    intro more rest
    rw [RenderedView.idsOfAll, List.length_nil, Nat.zero_add]
    rfl
  case cons =>
    intro _ v pending view children rendered hview _ hinside hbehind more rest
    have hc : s.childrenOf v = view.hierarchy.children := by rw [childrenOf, hview]; rfl
    rw [RenderedView.idsOfAll, RenderedView.ids, List.cons_append, List.length_cons,
      List.length_append, List.cons_append, Nat.succ_add, preorder, hc, Nat.add_assoc,
      hinside, hbehind, List.cons_append, List.append_assoc]

/-- **Rendering lists a view and the views below it**, in the order of the walk. -/
theorem Forest.ids_of_renderView (f : s.Forest) {r : RenderedView} (h : s.renderView? v = .ok r) :
    r.ids = v :: s.descendants v := by
  obtain ⟨view, children, hview, hchildren, rfl⟩ := renderFrom?_eq_ok_iff.1 h
  have hv : s.contains v = true := contains_iff.2 ⟨view, hview⟩
  have hc : s.childrenOf v = view.hierarchy.children := by rw [childrenOf, hview]; rfl
  have hwalk := preorder_of_rendered s.views.size [] hchildren
  rw [List.append_nil, ← hc, Nat.add_comm, (f.walk_settled (f.pending_children hv)).1] at hwalk
  rw [RenderedView.ids, descendants, hwalk]
  cases s.views.size <;> simp [preorder]

end Session

end AnchorLayout
