import AnchorLayout.Proofs.Session.Client
/-!
# Updates lose nothing

  1. **Program** — every list of calls on a new session, `takeRoots` by itself left out, while the
     root is under nothing.
  2. **Specification** — whenever something has been sent, every view below the root agrees with the
     last node that was sent for it.
  3. **The invariant (`InStep`)** — at any other time that holds of the views that no dirty view
     covers.
  4. **The crux (`InStep.ship`)** — what is covered is sent, since it is below a root of the patch;
     what is not covered has not changed since it was sent last.
-/

namespace AnchorLayout

open Operation

/-- Whether an act takes the roots and sends nothing. -/
def Act.polls : Act → Bool
  | request .takeRoots => true
  | _ => false

namespace Session

variable {s s' : Session} {u v : ViewId} {sent more : List RenderedView} {a : Act}

/-- **In step**: what is not covered agrees with the last node that was sent for it. -/
def InStep (sent : List RenderedView) (s : Session) : Prop :=
  ∀ v, s.Below v s.root → ¬ s.Covered v → ∃ n view,
    RenderedView.lastNode? sent v = some n ∧ s.views.get? v = some view ∧ Agrees s.options n view

/-- A new session is in step with a client that has nothing: its root is dirty. -/
theorem inStep_new (options : Options) (issuer : Issuer) :
    InStep [] (Session.new options issuer) := by
  intro v hv hcovered
  refine absurd ⟨⟨1⟩, ?_, hv, below_refl _ _⟩ hcovered
  exact List.mem_singleton.2 rfl

/-- What is marked stays in step. -/
theorem InStep.of_marks (h : InStep sent s) (marks : Marks s s') : InStep sent s' := by
  intro v hv hcovered
  obtain ⟨hold, hold', hshown⟩ := marks.uncovered v hv hcovered
  obtain ⟨n, view, hn, hview, hagrees⟩ := h v hold hold'
  have hsome : s'.shown? v = some view.shown := by
    rw [hshown, shown?, hview]
    rfl
  obtain ⟨view', hview', hsame⟩ := Option.map_eq_some_iff.1 hsome
  refine ⟨n, view', hn, hview', ?_⟩
  rw [marks.options]
  exact hagrees.of_shown hsame

/-! ## Sending -/

/-- What is sent settles once, and nothing else changes. -/
theorem get?_settleAll (s : Session) (views : List ViewId) (u : ViewId) :
    (s.settleAll views).views.get? u = if u ∈ views then
      (s.views.get? u).map fun view => view.updateStyle StyleSheet.settle
      else s.views.get? u := by
  unfold settleAll
  induction views generalizing s with
  | nil => rfl
  | cons v rest ih =>
    rw [List.foldl_cons, ih, get?_modifyView]
    by_cases hv : v = u
    · subst hv
      rw [if_pos rfl, if_pos List.mem_cons_self]
      split
      · rw [Option.map_map]
        rfl
      · rfl
    · simp [hv, Ne.symm hv]

/-- Settling touches neither marks nor options. -/
theorem settleAll_eq (s : Session) (views : List ViewId) :
    (s.settleAll views).dirty = s.dirty ∧ (s.settleAll views).options = s.options := by
  unfold settleAll
  induction views generalizing s with
  | nil => exact ⟨rfl, rfl⟩
  | cons v rest ih => exact ih _

/-- What is sent of a view is what it shows, and what has been sent settles. -/
structure Sends (s : Session) (more : List RenderedView) (s' : Session) : Prop where
  left : s' = s.clean.settleAll (RenderedView.idsOfAll more)
  written : ∀ n ∈ RenderedView.nodesOfAll more, s.Written n

/-- **Something is sent** that everything covered is part of. -/
structure Ships (s : Session) (more : List RenderedView) (s' : Session) : Prop
    extends Sends s more s' where
  covered : ∀ v, s.Below v s.root → s.Covered v → v ∈ RenderedView.idsOfAll more

/-- What is written does not depend on the marks. -/
theorem sends_updates {pending : List ViewId} {rendered : List RenderedView}
    (h : pending.mapM s.clean.renderView? = .ok rendered) :
    Sends s (rendered.map RenderedView.markOutOfBand)
      (s.clean.settleAll (RenderedView.idsOfAll rendered)) where
  left := by rw [idsOfAll_markOutOfBand]
  written := by
    intro n hn
    obtain ⟨m, hm, hid, htag, hattributes, hchildren⟩ :=
      RenderedView.exists_of_mem_nodesOfAll_marked hn
    obtain ⟨view, hview, hwritten⟩ := written_of_rendered h hm
    refine ⟨view, ?_, ?_⟩
    · rw [hid]
      exact hview
    · rw [hid, htag, hattributes, hchildren]
      exact hwritten

theorem idsOfAll_singleton (page : RenderedView) : RenderedView.idsOfAll [page] = page.ids := by
  rw [RenderedView.idsOfAll, RenderedView.idsOfAll, List.append_nil]

/-- The page is written from the views that it shows. -/
theorem sends_page {page : RenderedView} (h : s.clean.renderView? s.root = .ok page) :
    Sends s [page] (s.clean.settleAll page.ids) where
  left := by rw [idsOfAll_singleton]
  written := by
    have hone : [s.root].mapM s.clean.renderView? = .ok [page] :=
      mapM_eq_ok_iff.2 (List.Forall₂.cons h List.Forall₂.nil)
    exact fun n hn => written_of_rendered (s := s.clean) hone hn

/-- Sending does not touch the tree, and clears all marks. -/
theorem Ships.tree (ships : Ships s more s') : TreeEq s s' := by
  rw [ships.left]
  exact (treeEq_clean s).trans (sameTree_renders.settleAll _ _)

theorem Ships.dirty (ships : Ships s more s') : s'.dirty = ∅ := by
  rw [ships.left]
  exact (settleAll_eq _ _).1

/-- **What is sent last** of a view that is sent is what it shows. -/
theorem Ships.exists_written (ships : Ships s more s') (sent : List RenderedView)
    (hmem : v ∈ RenderedView.idsOfAll more) : ∃ n view,
    RenderedView.lastNode? (sent ++ more) v = some n ∧ s.views.get? v = some view ∧
      n.tag = view.tag ∧ n.attributes = s.attributesOf v view ∧
      n.children.map RenderedView.id = view.hierarchy.children := by
  obtain ⟨n, hn, hlast, rfl⟩ := RenderedView.lastNode?_of_mem hmem
  obtain ⟨view, hview, htag, hattributes, hchildren⟩ := ships.written n hn
  refine ⟨n, view, ?_, hview, htag, hattributes, hchildren⟩
  rw [RenderedView.lastNode?_append, hlast]
  rfl

/-- A view that is not sent keeps its last node. -/
theorem lastNode?_of_unsent (hmem : v ∉ RenderedView.idsOfAll more) :
    RenderedView.lastNode? (sent ++ more) v = RenderedView.lastNode? sent v := by
  rw [RenderedView.lastNode?_append, RenderedView.lastNode?_of_not_mem hmem]
  rfl

/-- **Sending everything that is covered** leaves the session in step. -/
theorem InStep.ship (h : InStep sent s) (ships : Ships s more s') : InStep (sent ++ more) s' := by
  intro v hv _
  rw [ships.tree.root, ships.tree.below_iff] at hv
  rw [ships.left, (settleAll_eq _ _).2, get?_settleAll]
  by_cases hmem : v ∈ RenderedView.idsOfAll more
  · obtain ⟨n, view, hlast, hview, htag, hattributes, hchildren⟩ := ships.exists_written sent hmem
    refine ⟨n, view.updateStyle StyleSheet.settle, hlast, ?_,
      agrees_of_written hattributes htag hchildren⟩
    rw [if_pos hmem, show s.clean.views.get? v = some view from hview]
    rfl
  -- what has not been sent was not covered, so it has not changed since it was sent
  · obtain ⟨n, view, hlast, hview, hagrees⟩ :=
      h v hv fun hcovered => hmem (ships.covered v hv hcovered)
    refine ⟨n, view, ?_, ?_, hagrees⟩
    · rw [lastNode?_of_unsent hmem, hlast]
    · rw [if_neg hmem]
      exact hview

/-- **The patch** holds everything that is covered. -/
theorem Forest.ships_renderUpdates (f : s.Forest)
    (unparented : s.structuralParent? s.root = none) : ∃ p,
    Session.renderUpdates s = .ok p (Session.renderUpdates.after s) ∧
      Ships s p.roots (Session.renderUpdates.after s) := by
  obtain ⟨rendered, hrendered, happly⟩ := f.renderUpdates_apply
  have fclean : s.clean.Forest := (treeEq_clean s).forest f
  have hpending := (treeEq_clean s).pending f.pending_topmostDirty
  have hids := fclean.idsOfAll_eq_walk hpending hrendered
  rw [Operation.after_of_ok happly]
  refine ⟨_, happly, sends_updates hrendered, ?_⟩
  intro v hv hcovered
  obtain ⟨a, ha, hva, har⟩ := hcovered
  obtain ⟨r, hr, har⟩ := f.exists_topmost unparented (f.contains_of_reachable har) ha
  rw [idsOfAll_markOutOfBand, hids]
  exact (fclean.walk_settled hpending).2 r hr v ((treeEq_clean s).below_iff.2 (hva.trans har))

/-- **The page** holds everything. -/
theorem Forest.ships_renderPage (f : s.Forest) : ∃ page,
    Session.renderPage s = .ok page (Session.renderPage.after s) ∧
      Ships s [page] (Session.renderPage.after s) := by
  have fclean : s.clean.Forest := (treeEq_clean s).forest f
  obtain ⟨page, hpage, -⟩ := fclean.renderView?_ok fclean.contains_root
  have happly := renderPage_of_ok hpage
  rw [Operation.after_of_ok happly]
  refine ⟨page, happly, sends_page hpage, ?_⟩
  intro v hv _
  rw [idsOfAll_singleton, fclean.ids_of_renderView hpage]
  exact (fclean.mem_self_descendants_iff fclean.contains_root).2 ((treeEq_clean s).below_iff.2 hv)

/-! ## One act -/

theorem shipped?_of_patch {p : Patch} (h : a.operation s = .ok (.patch p) s') :
    a.shipped? s = some p.roots := by
  simp only [Act.shipped?, h]

/-- An act that sends nothing leaves nothing to show. -/
theorem silent {shipped : Option (List RenderedView)} (silent : shipped = none)
    (h : InStep sent s) :
    InStep (sent ++ shipped.getD []) s ∧ (shipped.isSome = true → s.dirty = ∅) := by
  subst silent
  rw [Option.getD_none, List.append_nil]
  exact ⟨h, nofun⟩

/-- What an act sends that ends with a patch. -/
theorem Forest.ships_updated {before : Session} (f : before.Forest)
    (unparented : (s.afterAct a).structuralParent? (s.afterAct a).root = none)
    (left : a.operation s = (Answer.patch <$> Session.renderUpdates) before) :
    ∃ more, a.shipped? s = some more ∧ Ships before more (s.afterAct a) := by
  have hafter : s.afterAct a = Session.renderUpdates.after before := by
    rw [Session.afterAct, Operation.after, left]
    exact Operation.after_map _ _ before
  have tree : TreeEq before (s.afterAct a) := hafter ▸ sameTree_renders.renderUpdates before
  rw [tree.root, tree.structuralParent?] at unparented
  obtain ⟨p, hp, ships⟩ := f.ships_renderUpdates unparented
  have hpatch : a.operation s = .ok (.patch p) (Session.renderUpdates.after before) := by
    rw [left]
    exact map_of_ok hp _
  exact ⟨p.roots, shipped?_of_patch hpatch, hafter ▸ ships⟩

/-- What an act sends that asks for the page. -/
theorem Forest.ships_paged (f : s.Forest) : ∃ more,
    (Act.request .renderPage).shipped? s = some more ∧
      Ships s more (s.afterAct (.request .renderPage)) := by
  obtain ⟨page, hp, ships⟩ := f.ships_renderPage
  have hoperation : (Act.request .renderPage).operation s =
      .ok (.rendered page) (Session.renderPage.after s) := map_of_ok hp _
  have hafter : s.afterAct (.request .renderPage) = Session.renderPage.after s :=
    Operation.after_map _ _ s
  refine ⟨[page], ?_, hafter ▸ ships⟩
  simp only [Act.shipped?, hoperation]

/-- A new view that goes under another one. -/
theorem Forest.marks_adopted {parent : ViewId} (f : s.Forest)
    (room : (s.afterAct a).nextId = s.nextId ∨ s.Room)
    (left : s.afterAct a = (Session.setParent s.nextId (some parent)).after (s.register "div")) :
    Marks s (s.afterAct a) := by
  have hmove := kept_setParent (s.register "div") s.nextId (some parent)
  have hroom : s.Room := by
    rcases room with same | hroom
    · rw [left] at same
      exact absurd (hmove.nextId.symm.trans same) (next_ne s)
    · exact hroom
  rw [left]
  exact (f.marks_register "div").trans
    ((f.register hroom "div").marks_setParent s.nextId (some parent))

/-- **One act** leaves the session in step, and nothing dirty where it has sent something. -/
theorem InStep.afterAct (h : InStep sent s) (f : s.Forest)
    (room : (s.afterAct a).nextId = s.nextId ∨ s.Room)
    (unparented : (s.afterAct a).structuralParent? (s.afterAct a).root = none)
    (polls : a.polls = false) :
    InStep (sent ++ (a.shipped? s).getD []) (s.afterAct a) ∧
      ((a.shipped? s).isSome = true → (s.afterAct a).dirty = ∅) := by
  cases outcome ordinary_tracks s a with
  | ordinary allowed quiet => exact silent quiet (h.of_marks (allowed.marks f))
  | created tag left quiet =>
    rw [left]
    exact silent quiet (h.of_marks (f.marks_register tag))
  | adopted parent _ left quiet => exact silent quiet (h.of_marks (f.marks_adopted room left))
  | polled act _ =>
    subst act
    cases polls
  | updated before allowed left =>
    -- what has happened up to the patch is marked, and the patch sends what is marked
    obtain ⟨more, hsent, ships⟩ := (allowed.kept.forest f).ships_updated unparented left
    rw [hsent]
    exact ⟨(h.of_marks (allowed.marks f)).ship ships, fun _ => ships.dirty⟩
  | paged act =>
    subst act
    obtain ⟨more, hsent, ships⟩ := f.ships_paged
    rw [hsent]
    exact ⟨h.ship ships, fun _ => ships.dirty⟩
  | swept act quiet =>
    subst act
    rw [afterAct_sweep]
    exact silent quiet (h.of_marks f.marks_swept)

/-! ## Every list of acts -/

/-- **The invariant runs through the acts.** -/
theorem InStep.afterActs {acts : List Act} (h : InStep sent s) (f : s.Forest) (lasts : s.Lasts acts)
    (unparented : Along (fun s => s.structuralParent? s.root = none) s acts)
    (polls : ∀ a ∈ acts, a.polls = false) :
    InStep (sent ++ s.shippedBy acts) (s.afterActs acts) := by
  induction acts generalizing s sent with
  | nil =>
    rw [shippedBy, List.append_nil]
    exact h
  | cons a rest ih =>
    have hstep := h.afterAct f lasts.step.1 unparented.2.head (polls a List.mem_cons_self)
    rw [shippedBy, ← List.append_assoc]
    exact ih hstep.1 (f.afterAct lasts.step.1) lasts.step.2 unparented.2
      fun b hb => polls b (List.mem_cons_of_mem _ hb)

/-- After an act that has sent something the client has everything. -/
theorem InStep.afterActs_sent {acts : List Act} (h : InStep sent s) (f : s.Forest)
    (lasts : s.Lasts (acts ++ [a]))
    (unparented : Along (fun s => s.structuralParent? s.root = none) s (acts ++ [a]))
    (polls : ∀ b ∈ acts ++ [a], b.polls = false)
    (shipped : (a.shipped? (s.afterActs acts)).isSome = true) :
    InStep (sent ++ s.shippedBy (acts ++ [a])) (s.afterActs (acts ++ [a])) ∧
      (s.afterActs (acts ++ [a])).dirty = ∅ := by
  refine ⟨h.afterActs f lasts unparented polls, ?_⟩
  induction acts generalizing s sent with
  | nil =>
    exact (h.afterAct f lasts.step.1 unparented.2 (polls a List.mem_cons_self)).2 shipped
  | cons b rest ih =>
    have hstep := h.afterAct f lasts.step.1 unparented.2.head (polls b List.mem_cons_self)
    exact ih hstep.1 (f.afterAct lasts.step.1) lasts.step.2 unparented.2
      (fun c hc => polls c (List.mem_cons_of_mem _ hc)) shipped

end Session

/-! ## Every list of calls -/

/-- **Whether a call sends something**: a patch, or the page. -/
def Call.sends (call : Call) (s : Session) : Bool :=
  match call with
  | act a => (a.shipped? s).isSome
  | request depth r =>
    match r, Session.perform depth r s with
    | _, .ok (.patch _) _ => true
    | .renderPage, .ok (.rendered _) _ => true
    | _, _ => false

/-- What a call sends last is sent by the last of its acts. -/
theorem Call.exists_last_act {call : Call} {s : Session} (h : call.sends s = true) :
    ∃ before a, call.acts s = before ++ [a] ∧ (a.shipped? (s.afterActs before)).isSome = true := by
  cases call with
  | act a => exact ⟨[], a, rfl, h⟩
  | request depth r =>
    simp only [sends] at h
    split at h
    · next p s' hp =>
      obtain ⟨before, a, hacts, hsent⟩ := Session.acts_of_patch hp
      refine ⟨before, a, hacts, ?_⟩
      rw [hsent]
      rfl
    · next page s' hpage =>
      refine ⟨[], .request .renderPage, ?_, ?_⟩
      · cases depth <;> rfl
      · have hoperation : (Act.request .renderPage).operation s = .ok (.rendered page) s' := by
          cases depth <;> exact hpage
        show ((Act.request .renderPage).shipped? s).isSome = true
        simp only [Act.shipped?, hoperation]
        rfl
    · cases h

namespace Session

/-- Calls are unfolded one after the other. -/
theorem unfolded_append (s : Session) (calls more : List Call) :
    s.unfolded (calls ++ more) = s.unfolded calls ++ (s.afterCalls calls).unfolded more := by
  induction calls generalizing s with
  | nil => rfl
  | cons call rest ih =>
    rw [List.cons_append, unfolded, unfolded, ih, List.append_assoc]
    rfl

end Session

end AnchorLayout
