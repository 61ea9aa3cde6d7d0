import AnchorLayout.Proofs.Session.Updates
import Mathlib.Computability.StateTransition
/-!
# Traversals

  The rendered tree is gone through in three ways: rendering goes down by recursion, what is below a
  view is listed with a stack, and a view above another one is looked for by climbing.

  1. **Program** — `Session.renderView?`, `descendants` and `isAncestorOrSelf`, each with a bound on
     how far it goes, after any acts on a new session.
  2. **Specification** — the same three without a bound.  Rendering is an equation
     (`Forest.renderView?_eq`); the other two are loops, which `StateTransition.eval` runs until
     there is no turn left: `descend?` has a stack whose top is its last view, `climb?` a cursor.
  3. **Steps** — one turn with the stack is one step of the walk (`descend?_reverse`), and one turn
     of the climb passes one view of the line; so the loops end where walk and line do
     (`eval_descend?`, `eval_climb?`), if these come to their ends within their bounds.
  4. **The crux (`traversals_agree_of_acts`)** — in a forest all three come to their ends, and find
     the same views: down along the children, in one order, or up along the parents.
-/

namespace AnchorLayout

open StateTransition (eval)

/-! ## Loops -/

/-- A loop without a turn left is where it ends. -/
theorem eval_of_eq_none {σ : Type} {turn : σ → Option σ} {now : σ} (h : turn now = none) :
    eval turn now = Part.some now :=
  Part.eq_some_iff.2 (StateTransition.mem_eval.2 ⟨Relation.ReflTransGen.refl, h⟩)

/-- After one turn a loop still ends where it did. -/
theorem eval_of_eq_some {σ : Type} {turn : σ → Option σ} {now next : σ} (h : turn now = some next) :
    eval turn now = eval turn next :=
  StateTransition.reaches_eval (Relation.ReflTransGen.single h)

/-! ## Specification -/

/-- A descent in progress: what it has listed, and the views from which it goes on, the next one
last. -/
structure Descent where
  listed : List ViewId
  stack : List ViewId

namespace Session

variable {s : Session} {v : ViewId} {pending listed : List ViewId} {fuel : Nat}

/-- **One turn of a descent**: the top of the stack is listed, and its children are pushed in
reverse, so that the first of them is on top.  There is no turn when the stack is empty. -/
def descend? (s : Session) (d : Descent) : Option Descent :=
  d.stack.getLast?.map fun v =>
    ⟨d.listed ++ [v], d.stack.dropLast ++ (s.childrenOf v).reverse⟩

/-- **One turn of a climb** in search of a view: the cursor goes to the parent.  There is no turn
when it is at the view that is looked for, or past the top. -/
def climb? (s : Session) (sought : ViewId) : Option ViewId → Option (Option ViewId)
  | none => none
  | some v => if v = sought then none else some (s.structuralParent? v)

/-! ## Down with a stack -/

/-- **One turn with the stack** is one step of the walk: a view is listed, and its children are
pending in its place. -/
theorem descend?_reverse (s : Session) (listed : List ViewId) (v : ViewId) (rest : List ViewId) :
    s.descend? ⟨listed, (v :: rest).reverse⟩ =
      some ⟨listed ++ [v], (s.childrenOf v ++ rest).reverse⟩ := by
  rw [descend?, List.reverse_cons, List.getLast?_concat, List.dropLast_concat, List.reverse_append]
  rfl

/-- A descent with an empty stack is over, and so is a walk without pending views. -/
theorem eval_descend?_nil (s : Session) (listed : List ViewId) (fuel : Nat) :
    eval s.descend? ⟨listed, []⟩ = Part.some ⟨listed ++ s.preorder fuel [], []⟩ := by
  rw [preorder_nil, List.append_nil]
  exact eval_of_eq_none rfl

/-- **A descent lists what the walk lists**, if the walk comes to its end within its fuel. -/
theorem eval_descend? (settled : s.preorder (fuel + 1) pending = s.preorder fuel pending) :
    eval s.descend? ⟨listed, pending.reverse⟩ =
      Part.some ⟨listed ++ s.preorder fuel pending, []⟩ := by
  induction fuel generalizing pending listed with
  | zero =>
    cases pending with
    | nil => exact eval_descend?_nil s listed _
    -- a view that is pending is one that the walk would still list
    | cons v rest => cases settled
  | succ fuel ih =>
    cases pending with
    | nil => exact eval_descend?_nil s listed _
    | cons v rest =>
      rw [preorder, preorder] at settled
      rw [eval_of_eq_some (descend?_reverse s listed v rest), ih (List.cons.inj settled).2,
        preorder, List.append_assoc, List.singleton_append]

/-- **With the stack the descendants are listed**, and nothing else. -/
theorem Forest.eval_descend? (f : s.Forest) (v : ViewId) :
    eval s.descend? ⟨[], (s.childrenOf v).reverse⟩ = Part.some ⟨s.descendants v, []⟩ :=
  Session.eval_descend? (f.walksEnd.downwards v 1)

/-! ## Up along the parents -/

/-- **A climb ends** at the view that is looked for if this is in the line, and past the top if it
is not; provided that the line comes to its end within its fuel. -/
theorem eval_climb? (sought : ViewId)
    (settled : s.lineageFrom (fuel + 1) v = s.lineageFrom fuel v) :
    eval (s.climb? sought) (some v) =
      Part.some (if sought ∈ s.lineageFrom fuel v then some sought else none) := by
  induction fuel generalizing v with
  | zero => cases settled
  | succ fuel ih =>
    rw [lineageFrom, lineageFrom] at settled
    rw [lineageFrom]
    by_cases hv : v = sought
    · subst hv
      rw [if_pos List.mem_cons_self]
      exact eval_of_eq_none (if_pos rfl)
    · have hturn : s.climb? sought (some v) = some (s.structuralParent? v) := if_neg hv
      rw [eval_of_eq_some hturn]
      cases hp : s.structuralParent? v with
      | none =>
        simp only [List.mem_singleton, Ne.symm hv, if_false]
        exact eval_of_eq_none rfl
      | some p =>
        rw [hp] at settled
        rw [ih (List.cons.inj settled).2]
        simp only [List.mem_cons, Ne.symm hv, false_or]

/-- **A climb finds** what is above a view. -/
theorem Forest.eval_climb? (f : s.Forest) (sought v : ViewId) :
    eval (s.climb? sought) (some v) =
      Part.some (if s.isAncestorOrSelf sought v = true then some sought else none) :=
  (Session.eval_climb? sought (f.walksEnd.upwards v 1)).trans
    (congrArg Part.some (if_congr List.contains_iff_mem.symm rfl rfl))

/-! ## Down by recursion -/

/-- **Rendering without a bound**: a view is rendered by rendering its children. -/
theorem Forest.renderView?_eq (f : s.Forest) (v : ViewId) : s.renderView? v = (do
    let view ← s.view? v
    let children ← view.hierarchy.children.mapM s.renderView?
    let attributes ← s.renderAttributes? v
    return .node v view.tag attributes children false) := by
  rw [← f.walksEnd.rendering v 1, renderFrom?, renderAttributes?]
  cases s.view? v with
  | error e => rfl
  | ok view => rfl

/-- **What is rendered of a view** is what is below it, the view itself included. -/
theorem Forest.mem_ids_iff (f : s.Forest) {r : RenderedView} (h : s.renderView? v = .ok r)
    (hv : s.contains v = true) (u : ViewId) : u ∈ r.ids ↔ s.isAncestorOrSelf v u = true := by
  rw [f.ids_of_renderView h, f.mem_self_descendants_iff hv, isAncestorOrSelf_iff f.acyclic]

/-! ## Sending -/

/-- **A patch is always sent**, and then nothing is dirty. -/
theorem Forest.renderUpdates_ok (f : s.Forest) :
    ∃ patch left, renderUpdates s = .ok patch left ∧ left.dirty.toList = [] := by
  obtain ⟨rendered, -, happly⟩ := f.renderUpdates_apply
  exact ⟨_, _, happly, congrArg ViewSet.toList (settleAll_eq s.clean _).1⟩

/-- **A page is always sent**, and then nothing is dirty. -/
theorem Forest.renderPage_ok (f : s.Forest) :
    ∃ page left, renderPage s = .ok page left ∧ left.dirty.toList = [] := by
  obtain ⟨page, happly, ships⟩ := f.ships_renderPage
  exact ⟨page, _, happly, congrArg ViewSet.toList ships.dirty⟩

/-! ## Every session -/

/-- **The three traversals agree**, after any acts on a new session, as long as the counter of
identifiers does not overflow, and whatever has been marked.  Every registered view can be rendered;
the views in what is rendered are the view and its descendants, in the order in which they are
listed and none of them twice, and they are exactly those above which the view is found.  None of
the three has been stopped by its bound: rendering is the recursion, the descendants are what the
stack has listed when it is empty, and a view is above another one when the climb ends there.  So a
patch and a page are always sent, and no mark is lost to a failure. -/
theorem traversals_agree_of_acts (options : Options) (issuer : Issuer) (acts : List Act)
    (few : 1 + (Session.new options issuer).creations acts < UInt32.size - 1) (marked : ViewSet) :
    let s : Session := { (Session.new options issuer).afterActs acts with dirty := marked }
    (∀ v, s.contains v = true → ∃ r, s.renderView? v = .ok r ∧
      r.ids = v :: s.descendants v ∧ r.ids.Nodup ∧
      ∀ u, u ∈ r.ids ↔ s.isAncestorOrSelf v u = true) ∧
    (∀ v, s.renderView? v = (do
      let view ← s.view? v
      let children ← view.hierarchy.children.mapM s.renderView?
      let attributes ← s.renderAttributes? v
      return .node v view.tag attributes children false)) ∧
    (∀ v, eval s.descend? ⟨[], (s.childrenOf v).reverse⟩ = Part.some ⟨s.descendants v, []⟩) ∧
    (∀ a v, eval (s.climb? a) (some v) =
      Part.some (if s.isAncestorOrSelf a v = true then some a else none)) ∧
    (∃ patch left, renderUpdates s = .ok patch left ∧ left.dirty.toList = []) ∧
    ∃ page left, renderPage s = .ok page left ∧ left.dirty.toList = [] := by
  intro s
  have f : s.Forest := by
    have hsame : TreeEq ((Session.new options issuer).afterActs acts) s :=
      TreeEq.of_views rfl rfl rfl
    exact hsame.forest ((forest_new options issuer).afterActs (lasts_new options issuer few))
  refine ⟨fun v hv => ?_, f.renderView?_eq, f.eval_descend?, f.eval_climb?, f.renderUpdates_ok,
    f.renderPage_ok⟩
  obtain ⟨r, hr, -⟩ := f.renderView?_ok hv
  have hids := f.ids_of_renderView hr
  have hnodup : r.ids.Nodup := hids ▸ f.nodup_descendants hv
  exact ⟨r, hr, hids, hnodup, f.mem_ids_iff hr hv⟩

/-- A view with a container around two children, one of them with a child; a view behind it, and
another one that is taken out of the tree. -/
def someBranches : List Call :=
  [.request 1 (.createChild ⟨1⟩), .request 1 (.createChild ⟨1⟩), .request 1 (.createChild ⟨2⟩),
    .request 1 (.createChild ⟨2⟩), .request 1 (.create "div"),
    .request 1 (.setContainer ⟨2⟩ (some ⟨6⟩)), .request 1 (.createChild ⟨4⟩),
    .request 1 (.createChild ⟨3⟩), .request 1 (.setParent ⟨8⟩ none)]

theorem traversals_agree_of_someBranches :
    let s : Session := { (Session.new .default "").afterActs
      ((Session.new .default "").unfolded someBranches) with dirty := someMarks }
    (∃ r, s.renderView? ⟨1⟩ = .ok r ∧ r.ids = [⟨1⟩, ⟨2⟩, ⟨6⟩, ⟨4⟩, ⟨7⟩, ⟨5⟩, ⟨3⟩] ∧ r.ids.Nodup ∧
      ∀ u, u ∈ r.ids ↔ s.isAncestorOrSelf ⟨1⟩ u = true) ∧
    eval s.descend? ⟨[], [⟨3⟩, ⟨2⟩]⟩ = Part.some ⟨[⟨2⟩, ⟨6⟩, ⟨4⟩, ⟨7⟩, ⟨5⟩, ⟨3⟩], []⟩ ∧
    eval (s.climb? ⟨2⟩) (some ⟨7⟩) = Part.some (some ⟨2⟩) ∧
    eval (s.climb? ⟨1⟩) (some ⟨8⟩) = Part.some none ∧
    (∃ patch left, renderUpdates s = .ok patch left ∧ left.dirty.toList = []) ∧
    ∃ page left, renderPage s = .ok page left ∧ left.dirty.toList = [] := by
  have few : 1 + (Session.new .default "").creations
      ((Session.new .default "").unfolded someBranches) < UInt32.size - 1 := by decide +kernel
  have tree :
      let s : Session := { (Session.new .default "").afterActs
        ((Session.new .default "").unfolded someBranches) with dirty := someMarks }
      s.contains ⟨1⟩ = true ∧ s.childrenOf ⟨1⟩ = [⟨2⟩, ⟨3⟩] ∧
        s.descendants ⟨1⟩ = [⟨2⟩, ⟨6⟩, ⟨4⟩, ⟨7⟩, ⟨5⟩, ⟨3⟩] ∧
        s.isAncestorOrSelf ⟨2⟩ ⟨7⟩ = true ∧ s.isAncestorOrSelf ⟨1⟩ ⟨8⟩ = false := by decide +kernel
  have hagree := traversals_agree_of_acts .default "" _ few someMarks
  revert tree hagree
  -- what is known of the session is enough
  generalize (Session.new .default "").afterActs
    ((Session.new .default "").unfolded someBranches) = before
  rintro ⟨hroot, hchildren, hdescendants, hbelow, hadrift⟩
    ⟨hrender, -, hdescend, hclimb, hupdates, hpage⟩
  obtain ⟨r, hr, hids, hnodup, hmem⟩ := hrender ⟨1⟩ hroot
  rw [hdescendants] at hids
  have hstack := hdescend ⟨1⟩
  rw [hchildren, hdescendants] at hstack
  have hfound := hclimb ⟨2⟩ ⟨7⟩
  rw [if_pos hbelow] at hfound
  have hlost := hclimb ⟨1⟩ ⟨8⟩
  rw [hadrift, if_neg Bool.false_ne_true] at hlost
  exact ⟨⟨r, hr, hids, hnodup, hmem⟩, hstack, hfound, hlost, hupdates, hpage⟩

end Session

end AnchorLayout
