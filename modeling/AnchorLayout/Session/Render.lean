import AnchorLayout.Session.Basic
/-!
# Rendering

  Program        `Session.takeRoots`, `renderUpdates`, `renderPage`.
  Specification  `Session.topmostDirty`: the dirty views without a dirty view above them.
  Crux           looking at a view changes nothing; sending it settles its transitions.
-/

namespace AnchorLayout

namespace Session

/-! ## What has changed -/

/-- Whether one of the views above a view is dirty, looking upwards at most as far as the fuel. -/
def isCoveredFrom (s : Session) : Nat → ViewId → Bool
  | 0, _ => false
  | fuel + 1, v =>
    match s.structuralParent? v with
    | some parent => s.dirty.contains parent || s.isCoveredFrom fuel parent
    | none => false

/-- Whether a view above this one is dirty. -/
def isCovered (s : Session) (v : ViewId) : Bool := s.isCoveredFrom s.views.size v

theorem isCoveredFrom_eq_any (s : Session) (fuel : Nat) (v : ViewId) :
    s.isCoveredFrom fuel v = (s.lineageFrom (fuel + 1) v).tail.any s.dirty.contains := by
  induction fuel generalizing v with
  | zero =>
    rw [isCoveredFrom, lineageFrom]
    cases s.structuralParent? v <;> rfl
  | succ fuel ih =>
    rw [isCoveredFrom, lineageFrom]
    cases s.structuralParent? v with
    | none => rfl
    | some parent =>
      simp only [ih parent]
      rw [lineageFrom]
      rfl

/-- A view is covered when its line, the view itself left out, has a dirty view in it. -/
theorem isCovered_eq_any (s : Session) (v : ViewId) :
    s.isCovered v = (s.lineage v).tail.any s.dirty.contains :=
  isCoveredFrom_eq_any s s.views.size v

/-- **The topmost dirty views** that are registered, ascending. -/
def topmostDirty (s : Session) : List ViewId :=
  s.dirty.toList.filter fun v => s.contains v && !s.isCovered v

/-- The topmost dirty views; after this nothing is dirty. -/
def takeRoots : Operation (List ViewId) := do
  let roots := (← get).topmostDirty
  modify fun s => { s with dirty := ∅ }
  return roots

/-! ## One view -/

/-- The continuation that waits for a view, the latest one if there are several. -/
def pendingFor? (s : Session) (v : ViewId) : Option ContinuationId :=
  (s.continuations.entries.reverse.find? fun e => e.2.view == v).map Prod.fst

/-- A wire attribute that is left out when its text is empty. -/
def nonEmpty (name text : String) : List (String × String) :=
  if text = "" then [] else [(name, text)]

/-- The wire attributes of a view, in a fixed order, those without content left out. -/
def attributesOf (s : Session) (v : ViewId) (view : View) : List (String × String) :=
  nonEmpty "ui4" view.constraints.text ++ nonEmpty "style" view.style.text ++
    (view.style.queueText.map fun text => ("ui4css", text)).toList ++
    (match view.bindings.trigger? s.options.debounceDelay with
      | some trigger => [("hx-post", s.options.eventEndpoint), ("hx-trigger", trigger)]
      | none => []) ++
    ((s.pendingFor? v).map fun id => ("ui4anim", id.text)).toList

/-- The names of the wire attributes. -/
def wireAttributeNames : List String :=
  ["ui4", "style", "ui4css", "hx-post", "hx-trigger", "ui4anim"]

/-- The wire attributes of a view. -/
def renderAttributes? (s : Session) (v : ViewId) : Except Error (List (String × String)) := do
  return s.attributesOf v (← s.view? v)

/-- A view with the views below it, in fewer levels than the fuel. -/
def renderFrom? (s : Session) : Nat → ViewId → Except Error RenderedView
  | 0, v => .error (.noView v)
  | fuel + 1, v => do
    let view ← s.view? v
    let children ← view.hierarchy.children.mapM (s.renderFrom? fuel)
    return .node v view.tag (s.attributesOf v view) children false

/-- **A view with all views below it**; there are no more levels than views. -/
def renderView? (s : Session) (v : ViewId) : Except Error RenderedView :=
  s.renderFrom? (s.views.size + 1) v

/-! ## Patches and pages -/

/-- The transitions of some views settled. -/
def settleAll (s : Session) (views : List ViewId) : Session :=
  views.foldl
    (fun s v => s.modifyView v fun view => view.updateStyle fun sheet => sheet.settle) s

/-- **The patch** of everything that has changed. -/
def renderUpdates : Operation Patch := do
  let roots ← takeRoots
  let s ← get
  let rendered ← Operation.ofExcept (roots.mapM s.renderView?)
  modify fun s => s.settleAll (RenderedView.idsOfAll rendered)
  return ⟨rendered.map RenderedView.markOutOfBand, none⟩

/-- **The page**: the root with everything below it. -/
def renderPage : Operation RenderedView := do
  let _ ← takeRoots
  let s ← get
  let page ← Operation.ofExcept (s.renderView? s.root)
  modify fun s => s.settleAll page.ids
  return page

end Session

end AnchorLayout
