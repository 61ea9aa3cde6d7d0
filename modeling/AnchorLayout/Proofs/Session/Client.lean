import AnchorLayout.Proofs.Session.Marks
import AnchorLayout.Proofs.Session.Roots
/-!
# What the client has

  1. **Specification** — `RenderedView.lastNode?`, the last node that was sent for a view, and
     `Agrees`, that a node is what a view shows: its tag, its children, its constraints, its
     bindings, and its style once the transitions of the node are folded in.
  2. **Nodes** — `Written`: a node of a rendered subtree is what its view showed at that time.
  3. **The invariant (`InStep`)** — what is below the root and not covered by a dirty view agrees
     with the last node sent for it.
  4. **The crux (`InStep.ship`)** — everything covered is in the patch, and settling the styles of
     what is sent is what the client does with the transitions.
-/

namespace AnchorLayout

namespace RenderedView

/-! ## Nodes -/

/-- The tag of a node. -/
def tag : RenderedView → String
  | node _ tag _ _ _ => tag

mutual

/-- The nodes of a subtree, depth first. -/
def nodes : RenderedView → List RenderedView
  | node id tag attributes children outOfBand =>
    node id tag attributes children outOfBand :: nodesOfAll children

/-- The nodes of several subtrees. -/
def nodesOfAll : List RenderedView → List RenderedView
  | [] => []
  | v :: rest => v.nodes ++ nodesOfAll rest

end

mutual

/-- The nodes of a subtree are in the order of its identifiers, one for each. -/
theorem map_id_nodes : ∀ v : RenderedView, v.nodes.map id = v.ids
  | node id tag attributes children outOfBand => by
    rw [nodes, ids, List.map_cons, map_id_nodesOfAll children]
    rfl

theorem map_id_nodesOfAll : ∀ views : List RenderedView, (nodesOfAll views).map id = idsOfAll views
  | [] => rfl
  | v :: rest => by
    rw [nodesOfAll, idsOfAll, List.map_append, map_id_nodes v, map_id_nodesOfAll rest]

end

theorem nodesOfAll_append (views more : List RenderedView) :
    nodesOfAll (views ++ more) = nodesOfAll views ++ nodesOfAll more := by
  induction views with
  | nil => rfl
  | cons v rest ih => rw [List.cons_append, nodesOfAll, nodesOfAll, ih, List.append_assoc]

theorem idsOfAll_append (views more : List RenderedView) :
    idsOfAll (views ++ more) = idsOfAll views ++ idsOfAll more := by
  simp only [← map_id_nodesOfAll, nodesOfAll_append, List.map_append]

/-- The root of an update is the same node but for its flag. -/
theorem exists_of_mem_nodesOfAll_marked {n : RenderedView} {views : List RenderedView}
    (h : n ∈ nodesOfAll (views.map markOutOfBand)) :
    ∃ m ∈ nodesOfAll views, n.id = m.id ∧ n.tag = m.tag ∧ n.attributes = m.attributes ∧
      n.children = m.children := by
  induction views with
  | nil => exact absurd h List.not_mem_nil
  | cons v rest ih =>
    cases v with
    | node i t attributes children outOfBand =>
      rw [List.map_cons, nodesOfAll, markOutOfBand, nodes, List.cons_append, List.mem_cons,
        List.mem_append] at h
      rw [nodesOfAll, nodes]
      rcases h with rfl | hchild | hrest
      · exact ⟨_, List.mem_cons_self, rfl, rfl, rfl, rfl⟩
      · exact ⟨n, List.mem_cons_of_mem _ (List.mem_append_left _ hchild), rfl, rfl, rfl, rfl⟩
      · obtain ⟨m, hm, hsame⟩ := ih hrest
        exact ⟨m, List.mem_append_right _ hm, hsame⟩

/-- **The last node** that was sent for a view. -/
def lastNode? (sent : List RenderedView) (v : ViewId) : Option RenderedView :=
  (nodesOfAll sent).reverse.find? fun n => n.id == v

/-- What is sent later takes the place of what was sent earlier, view by view. -/
theorem lastNode?_append (sent more : List RenderedView) (v : ViewId) :
    lastNode? (sent ++ more) v = (lastNode? more v).or (lastNode? sent v) := by
  rw [lastNode?, nodesOfAll_append, List.reverse_append, List.find?_append]
  rfl

/-- A view that was sent has a last node. -/
theorem lastNode?_of_mem {sent : List RenderedView} {v : ViewId} (h : v ∈ idsOfAll sent) :
    ∃ n ∈ nodesOfAll sent, lastNode? sent v = some n ∧ n.id = v := by
  rw [← map_id_nodesOfAll] at h
  obtain ⟨n, hn, hid⟩ := List.mem_map.1 h
  cases hfind : lastNode? sent v with
  | none =>
    have hnot := List.find?_eq_none.1 hfind n (List.mem_reverse.2 hn)
    exact absurd (beq_iff_eq.2 hid) hnot
  | some m =>
    rw [lastNode?] at hfind
    have hm := List.find?_some hfind
    exact ⟨m, List.mem_reverse.1 (List.mem_of_find?_eq_some hfind), rfl, beq_iff_eq.1 hm⟩

/-- One that was not sent has none. -/
theorem lastNode?_of_not_mem {sent : List RenderedView} {v : ViewId} (h : v ∉ idsOfAll sent) :
    lastNode? sent v = none := by
  rw [lastNode?, List.find?_eq_none]
  intro n hn hid
  rw [← map_id_nodesOfAll] at h
  exact h (List.mem_map.2 ⟨n, List.mem_reverse.1 hn, beq_iff_eq.1 hid⟩)

end RenderedView

/-! ## Agreeing -/

/-- The value of a wire attribute that is left out when its text is empty. -/
def presentText (text : String) : Option String := if text = "" then none else some text

/-- **A node agrees with a view.**  The style that is spelled out, with the transitions of the node
folded in, is the style of the view. -/
structure Agrees (options : Options) (n : RenderedView) (view : View) : Prop where
  tag : n.tag = view.tag
  children : n.children.map RenderedView.id = view.hierarchy.children
  constraints : n.attribute? "ui4" = presentText view.constraints.text
  endpoint : n.attribute? "hx-post" =
    (view.bindings.trigger? options.debounceDelay).map fun _ => options.eventEndpoint
  trigger : n.attribute? "hx-trigger" = view.bindings.trigger? options.debounceDelay
  style : ∃ sheet : StyleSheet, n.attribute? "style" = presentText sheet.text ∧
    n.attribute? "ui4css" = sheet.queueText ∧ sheet.settle = view.style

/-- A node agrees with a view by what the view shows, and by nothing else of it. -/
theorem Agrees.of_shown {options : Options} {n : RenderedView} {view view' : View}
    (h : Agrees options n view) (same : view'.shown = view.shown) : Agrees options n view' := by
  simp only [View.shown, Shown.mk.injEq] at same
  obtain ⟨htag, hchildren, hconstraints, hstyle, hbindings⟩ := same
  refine ⟨?_, ?_, ?_, ?_, ?_, ?_⟩
  · rw [htag]; exact h.tag
  · rw [hchildren]; exact h.children
  · rw [hconstraints]; exact h.constraints
  · rw [hbindings]; exact h.endpoint
  · rw [hbindings]; exact h.trigger
  · rw [hstyle]; exact h.style

namespace Session

variable {s s' : Session} {v : ViewId} {n : RenderedView} {view : View}

/-- **Written**: what a node shows is what its view shows. -/
def Written (s : Session) (n : RenderedView) : Prop :=
  ∃ view, s.views.get? n.id = some view ∧ n.tag = view.tag ∧
    n.attributes = s.attributesOf n.id view ∧
    n.children.map RenderedView.id = view.hierarchy.children

/-- A value under one name. -/
def under (other name : String) (value : Option String) : Option String :=
  if other = name then value else none

/-- The three ways in which an attribute gets into the list: with a text that is not empty, with a
value that is there, or with a trigger. -/
theorem value_nonEmpty (name other text : String) :
    ((nonEmpty other text).find? fun a => a.1 == name).map Prod.snd =
      under other name (presentText text) := by
  unfold nonEmpty presentText under
  by_cases ht : text = "" <;> by_cases ho : other = name <;> simp [ht, ho]

theorem value_toList (name other : String) (value : Option String) :
    ((value.map fun text => (other, text)).toList.find? fun a => a.1 == name).map Prod.snd =
      under other name value := by
  unfold under
  cases value <;> by_cases ho : other = name <;> simp [ho]

/-- The attributes that ask for events: none without a trigger. -/
def eventAttributes (o : Options) (trigger? : Option String) : List (String × String) :=
  trigger?.elim [] fun trigger => [("hx-post", o.eventEndpoint), ("hx-trigger", trigger)]

/-- **The attributes of a view**, in the order in which they are written. -/
theorem attributesOf_eq (s : Session) (v : ViewId) (view : View) :
    s.attributesOf v view = nonEmpty "ui4" view.constraints.text ++
      nonEmpty "style" view.style.text ++
      (view.style.queueText.map fun text => ("ui4css", text)).toList ++
      eventAttributes s.options (view.bindings.trigger? s.options.debounceDelay) ++
      ((s.pendingFor? v).map fun id => ("ui4anim", id.text)).toList := by
  unfold attributesOf
  cases view.bindings.trigger? s.options.debounceDelay <;> rfl

/-- An endpoint and a trigger are written together or not at all. -/
theorem value_eventAttributes (name : String) (o : Options) (trigger? : Option String) :
    ((eventAttributes o trigger?).find? fun a => a.1 == name).map Prod.snd =
      (under "hx-post" name (trigger?.map fun _ => o.eventEndpoint)).or
        (under "hx-trigger" name trigger?) := by
  unfold under eventAttributes
  cases trigger? with
  | none => simp
  | some trigger =>
    by_cases hp : "hx-post" = name <;> by_cases ht : "hx-trigger" = name <;> simp [hp, ht]

/-- **The wire attributes of a view** by their names. -/
theorem attribute?_of_written {v : ViewId} (h : n.attributes = s.attributesOf v view)
    (name : String) : n.attribute? name =
      ((((under "ui4" name (presentText view.constraints.text)).or
        (under "style" name (presentText view.style.text))).or
          (under "ui4css" name view.style.queueText)).or
            ((under "hx-post" name ((view.bindings.trigger? s.options.debounceDelay).map fun _ =>
              s.options.eventEndpoint)).or
                (under "hx-trigger" name (view.bindings.trigger? s.options.debounceDelay)))).or
                  (under "ui4anim" name ((s.pendingFor? v).map ContinuationId.text)) := by
  have hpending := value_toList name "ui4anim" ((s.pendingFor? v).map ContinuationId.text)
  rw [Option.map_map] at hpending
  rw [RenderedView.attribute?, h, attributesOf_eq, List.find?_append, List.find?_append,
    List.find?_append, List.find?_append, Option.map_or, Option.map_or, Option.map_or,
    Option.map_or, value_nonEmpty, value_nonEmpty, value_toList, value_eventAttributes]
  exact congrArg (Option.or _) hpending

/-- What is written of a view agrees with it once its style has settled. -/
theorem agrees_of_written (attributes : n.attributes = s.attributesOf v view)
    (tag : n.tag = view.tag) (children : n.children.map RenderedView.id = view.hierarchy.children) :
    Agrees s.options n (view.updateStyle StyleSheet.settle) where
  tag := tag
  children := children
  constraints := by
    show n.attribute? "ui4" = presentText view.constraints.text
    rw [attribute?_of_written attributes]
    simp [under]
  endpoint := by
    show n.attribute? "hx-post" =
      (view.bindings.trigger? s.options.debounceDelay).map fun _ => s.options.eventEndpoint
    rw [attribute?_of_written attributes]
    simp [under]
  trigger := by
    show n.attribute? "hx-trigger" = view.bindings.trigger? s.options.debounceDelay
    rw [attribute?_of_written attributes]
    simp [under]
  style := by
    refine ⟨view.style, ?_, ?_, rfl⟩
    · rw [attribute?_of_written attributes]
      simp [under]
    · rw [attribute?_of_written attributes]
      simp [under]

/-- Every view is rendered to a node of its own. -/
theorem map_id_of_rendered {fuel : Nat} {pending : List ViewId} {rendered : List RenderedView}
    (h : pending.mapM (s.renderFrom? fuel) = .ok rendered) :
    rendered.map RenderedView.id = pending := by
  refine rendered_induction (motive := fun pending rendered =>
    rendered.map RenderedView.id = pending) rfl ?_ h
  intro _ v pending view children rendered _ _ _ hbehind
  rw [List.map_cons, hbehind]
  rfl

/-- **A rendered subtree is written** from what its views are. -/
theorem written_of_rendered {fuel : Nat} {pending : List ViewId} {rendered : List RenderedView}
    (h : pending.mapM (s.renderFrom? fuel) = .ok rendered)
    (hn : n ∈ RenderedView.nodesOfAll rendered) : s.Written n := by
  refine rendered_induction (motive := fun _ rendered =>
    n ∈ RenderedView.nodesOfAll rendered → s.Written n) ?nil ?cons h hn
  case nil => exact fun hn => absurd hn List.not_mem_nil
  case cons =>
    intro _ v pending view children rendered hview hchildren hinside hbehind hn
    rw [RenderedView.nodesOfAll, RenderedView.nodes, List.cons_append, List.mem_cons,
      List.mem_append] at hn
    -- a node is that of the first view, or below it, or of the views behind it
    rcases hn with rfl | hchild | hrest
    · exact ⟨view, hview, rfl, rfl, map_id_of_rendered hchildren⟩
    · exact hinside hchild
    · exact hbehind hrest

end Session

end AnchorLayout
