import AnchorLayout.Proofs.Layout.Storing
import AnchorLayout.Proofs.Session.Updates
import AnchorLayout.Proofs.Style.History
/-!
# The styles of every view

  What happens to the styles of a view is written down act by act: a write that succeeds, and being
  sent.  The view has the sheet of that history, so what it is declared, what is queued and what a
  patch or a page tells the client can be read off the history.

  1. **Program** — every list of calls on a new session.
  2. **Specification** — `Act.styleEvents`, what an act does to the styles of a view, and
     `Session.styleHistory`, what some acts have done since the view was registered.
  3. **Writes (`perform_cases_of_styles`)** — the requests that write a style, and nothing else,
     change the sheet of a view that is not sent.
  4. **Other acts (`Restyling`)** — they leave every sheet alone, or register a view, or send what
     they settle.
  5. **The crux (`Recorded.afterAct`)** — an act does to the sheet what it does to the history.
-/

namespace AnchorLayout

open Operation

/-- The style that a request writes: of which view, which one, and what. -/
def Request.style? : Request → Option (ViewId × StyleProperty × StyleValue)
  | .setStyle v p value => some (v, p, value)
  | .setStyleNamed v name value => (StyleProperty.ofName? name).map fun p => (v, p, value)
  | _ => none

/-- The other requests write no style. -/
theorem Request.style?_of_unstyled {request : Request} (h : request.styles = false) :
    request.style? = none := by
  cases request with
  | setStyle | setStyleNamed => cases h
  | _ => rfl

/-- The write of a request in the styles of a view, if the request succeeds. -/
def Request.styleEvent? (request : Request) (s : Session) (v : ViewId) : Option StyleEvent :=
  match request.style?, Session.perform 0 request s with
  | some (u, p, value), .ok .. =>
    if u = v then (p.convert? value).map fun declaration =>
      .write p.cssName declaration s.currentAnimation
    else none
  | _, _ => none

namespace Act

/-- Whether an act is a request that writes a style. -/
def styles : Act → Bool
  | request r => r.styles
  | _ => false

/-- **What an act does to the styles of a view**: it writes one, or sends the view. -/
def styleEvents (a : Act) (s : Session) (v : ViewId) : List StyleEvent :=
  (match a with
    | request r => (r.styleEvent? s v).toList
    | _ => []) ++
  if v ∈ RenderedView.idsOfAll ((a.shipped? s).getD []) then [.sent] else []

end Act

namespace Session

/-- The history of a view after one more act; a view that is registered begins a new one. -/
def continued (s : Session) (v : ViewId) (history : List StyleEvent) (a : Act) : List StyleEvent :=
  if s.nextId = v ∧ (s.afterAct a).nextId ≠ s.nextId then [] else history ++ a.styleEvents s v

/-- **The history of the styles of a view**, where it goes on with some acts. -/
def styleHistory (v : ViewId) : Session → List StyleEvent → List Act → List StyleEvent
  | _, history, [] => history
  | s, history, a :: rest => styleHistory v (s.afterAct a) (s.continued v history a) rest

variable {s s' : Session} {u v child : ViewId} {sheet : StyleSheet} {a : Act}
  {history : List StyleEvent} {more : List RenderedView}

/-! ## Sheets -/

/-- The sheet of a view. -/
def style? (s : Session) (v : ViewId) : Option StyleSheet :=
  (s.views.get? v).map fun view => view.style

/-- **Changes of a view in other fields** leave its sheet alone, and with it all that is done to the
tree. -/
theorem style?_modifyView (s : Session) (v u : ViewId) {f : View → View}
    (style : ∀ view, (f view).style = view.style) :
    (s.modifyView v f).style? u = s.style? u := map_get?_modifyView style s v u

theorem style?_replace (s : Session) (v u : ViewId) (f : Hierarchy → Hierarchy) :
    (s.modifyView v fun view => view.updateHierarchy f).style? u = s.style? u :=
  style?_modifyView s v u fun _ => rfl

theorem style?_markDirty (s : Session) (v u : ViewId) :
    (s.markDirty v).style? u = s.style? u := rfl

/-- The step of a write, seen at the sheets. -/
theorem style?_restyle (s : Session) (v u : ViewId) (F : StyleSheet → StyleSheet) :
    ((s.modifyView v fun view => view.updateStyle F).markDirty v).style? u =
      if v = u then (s.style? u).map F else s.style? u := by
  rw [style?_markDirty, style?, get?_modifyView]
  split
  · rw [Option.map_map, style?, Option.map_map]
    rfl
  · rfl

/-- A new view begins with an empty sheet. -/
theorem style?_register (s : Session) (tag : String) (u : ViewId) :
    (s.register tag).style? u = if s.nextId = u then some ∅ else s.style? u := by
  rw [style?, register, OrderedMap.get?_insert]
  split <;> rfl

/-- The views that are sent settle, each once. -/
theorem style?_settleAll (s : Session) (views : List ViewId) (u : ViewId) :
    (s.settleAll views).style? u =
      if u ∈ views then (s.style? u).map StyleSheet.settle else s.style? u := by
  rw [style?, get?_settleAll]
  split
  · rw [Option.map_map, style?, Option.map_map]
    rfl
  · rfl

theorem style?_detach (s : Session) (child u : ViewId) :
    (s.detach child).style? u = s.style? u := map_get?_detach (fun _ _ => rfl) s child u

/-- Rules that follow a move are no styles. -/
theorem style?_settled (s : Session) (child : ViewId) (before : Hierarchy)
    (parent structural : Option ViewId) (u : ViewId) :
    (s.settled child before parent structural).style? u = s.style? u := by
  rw [style?, get?_settled]
  split
  · rw [Option.map_map]
    rfl
  · rfl

/-- **A move** restyles nothing, however it ends. -/
theorem style?_setParent (s : Session) (child : ViewId) (parent : Option ViewId) (u : ViewId) :
    ((setParent child parent).after s).style? u = s.style? u := by
  rcases setParent_cases s child parent with h | ⟨-, h⟩ | ⟨before, -, h⟩ |
    ⟨before, p, target, -, -, -, h⟩
  · rw [h]
  · rw [h, style?_detach]
  · rw [h, style?_settled, unlink, style?_replace, style?_detach]
  · rw [h, style?_settled, attach, style?_replace, style?_markDirty, style?_replace, style?_detach]

/-! ## Acts that leave the sheets alone -/

/-- The sheets are what they were, and no view has been registered. -/
structure SameStyles (s s' : Session) : Prop where
  styles : ∀ v, s'.style? v = s.style? v
  nextId : s'.nextId = s.nextId

/-- The changes that leave the sheets alone. -/
def sameStyles : Change where
  Allows := SameStyles
  refl := fun _ => ⟨fun _ => rfl, rfl⟩
  trans := fun h h' =>
    ⟨fun v => (h'.styles v).trans (h.styles v), h'.nextId.trans h.nextId⟩

theorem sameStyles_of_views (h : SameViews s s') : SameStyles s s' :=
  ⟨fun v => by rw [style?, style?, h.views], h.nextId⟩

/-- Nor does anything that stores rules. -/
theorem storing_sameStyles : sameStyles.Storing where
  mark := fun _ _ => ⟨fun _ => rfl, rfl⟩
  touch := fun s v _ _ _ style => ⟨fun u => style?_modifyView s v u style, rfl⟩
  background := fun same => sameStyles_of_views same.toSameViews
  reshape := fun s v _ _ => ⟨fun u => style?_replace s v u _, rfl⟩
  move := fun child parent s =>
    ⟨style?_setParent s child parent, (kept_setParent s child parent).nextId⟩
  suspended := fun c s => sameStyles_of_views (sameViews_suspend c s)
  edit := fun s v _ _ => ⟨fun u => style?_modifyView s v u fun _ => rfl, rfl⟩

/-! ## Writes -/

/-- **A write** fails before it changes anything, because of the value, or changes one sheet and
marks the view. -/
theorem setStyle_apply (v : ViewId) (property : StyleProperty) (value : StyleValue) (s : Session) :
    (∃ e, setStyle v property value s = .error e s) ∨
      ∃ declaration, property.convert? value = some declaration ∧
        setStyle v property value s = .ok () ((s.modifyView v fun view => view.updateStyle fun sheet =>
          sheet.apply property.cssName declaration s.currentAnimation).markDirty v) := by
  cases hc : property.convert? value with
  | none =>
    have hconvert : property.convert value = .error (.unsupported property.name value.outline) := by
      rw [StyleProperty.convert, hc]
    exact Or.inl ⟨_, bind_of_error (ofExcept_of_error hconvert s) _⟩
  | some declaration =>
    have hconvert : property.convert value = .ok declaration := by
      rw [StyleProperty.convert, hc]
    have hupdate := update_apply v (fun view => view.updateStyle fun sheet =>
      sheet.apply property.cssName declaration s.currentAnimation) s
    have hrest : setStyle v property value s = (do
        update v fun view => view.updateStyle fun sheet =>
          sheet.apply property.cssName declaration s.currentAnimation
        modify fun s => s.markDirty v : Operation Unit) s := bind_of_ok (ofExcept_of_ok hconvert s) _
    by_cases hv : s.contains v = true
    · rw [if_pos hv] at hupdate
      exact Or.inr ⟨declaration, rfl, hrest.trans (bind_of_ok hupdate _)⟩
    · rw [if_neg hv] at hupdate
      exact Or.inl ⟨_, hrest.trans (bind_of_error hupdate _)⟩

/-- The requests that write a style differ in how they name it, and in nothing else. -/
theorem perform_of_style {request : Request} {property : StyleProperty} {value : StyleValue}
    (h : request.style? = some (v, property, value)) (s : Session) :
    perform 0 request s = (do setStyle v property value; return .done : Operation Answer) s := by
  cases request with
  | setStyle =>
    cases h
    rfl
  | setStyleNamed u name given =>
    obtain ⟨known, hname, hstyle⟩ := Option.map_eq_some_iff.1 h
    cases hstyle
    show (do setStyleNamed v name value; return .done : Operation Answer) s = _
    rw [setStyleNamed, hname]
  | _ => cases h

/-- A name that is no style is refused. -/
theorem perform_of_unknown_style {request : Request} (styles : request.styles = true)
    (h : request.style? = none) (s : Session) : ∃ e, perform 0 request s = .error e s := by
  cases request with
  | setStyle => cases h
  | setStyleNamed v name value =>
    have hname : StyleProperty.ofName? name = none := Option.map_eq_none_iff.1 h
    refine ⟨.unknownAttribute name, ?_⟩
    show (do setStyleNamed v name value; return .done : Operation Answer) s = _
    rw [setStyleNamed, hname]
    rfl
  | _ => exact absurd styles Bool.false_ne_true

/-- **A request that writes a style** fails and leaves everything as it is, or makes its write. -/
theorem perform_cases_of_styles (s : Session) {request : Request} (styles : request.styles = true) :
    (∃ e, perform 0 request s = .error e s) ∨
      ∃ v property value declaration, request.style? = some (v, property, value) ∧
        property.convert? value = some declaration ∧
        perform 0 request s = .ok .done ((s.modifyView v fun view => view.updateStyle fun sheet =>
          sheet.apply property.cssName declaration s.currentAnimation).markDirty v) := by
  cases hstyle : request.style? with
  | none => exact Or.inl (perform_of_unknown_style styles hstyle s)
  | some style =>
    obtain ⟨v, property, value⟩ := style
    rw [perform_of_style hstyle]
    rcases setStyle_apply v property value s with ⟨e, he⟩ | ⟨declaration, hconvert, hok⟩
    · exact Or.inl ⟨e, bind_of_error he _⟩
    · exact Or.inr ⟨v, property, value, declaration, rfl, hconvert, bind_of_ok hok _⟩

/-! ## Other acts -/

/-- **What an act does to sheets** that writes no style: nothing, except that views may be forgotten;
or it registers a view; or it sends some views, and settles what is queued for them. -/
inductive Restyling (s : Session) (a : Act) : Prop where
  | kept (styles : ∀ v sheet, (s.afterAct a).style? v = some sheet → s.style? v = some sheet)
      (nextId : (s.afterAct a).nextId = s.nextId) (silent : a.shipped? s = none)
  | registered (styles : ∀ v, (s.afterAct a).style? v = if s.nextId = v then some ∅ else s.style? v)
      (nextId : (s.afterAct a).nextId ≠ s.nextId) (silent : a.shipped? s = none)
  | sent (before : Session) (more : List RenderedView) (same : SameStyles s before)
      (shipped : a.shipped? s = some more) (sends : Sends before more (s.afterAct a))

/-- An act that leaves the sheets alone and sends nothing. -/
theorem SameStyles.restyling (same : SameStyles s (s.afterAct a)) (silent : a.shipped? s = none) :
    Restyling s a :=
  .kept (fun v _ h => (same.styles v).symm.trans h) same.nextId silent

/-- An act that ends with a patch. -/
theorem restyling_of_patch {before : Session} (same : SameStyles s before)
    (left : a.operation s = (Answer.patch <$> renderUpdates) before) : Restyling s a := by
  cases hrendered : before.topmostDirty.mapM before.clean.renderView? with
  | error e =>
    have hoperation : a.operation s = .error e before.clean :=
      left.trans (map_of_error (renderUpdates_of_error hrendered) _)
    have hafter : s.afterAct a = before.clean := after_of_error hoperation
    refine SameStyles.restyling ?_ ?_
    · rw [hafter]
      exact ⟨same.styles, same.nextId⟩
    · simp only [Act.shipped?, hoperation]
  | ok rendered =>
    have hoperation := left.trans (map_of_ok (renderUpdates_of_ok hrendered) Answer.patch)
    refine .sent before _ same (shipped?_of_patch hoperation) ?_
    rw [afterAct, after_of_ok hoperation]
    exact sends_updates hrendered

/-- The page settles all that it holds. -/
theorem restyling_of_page (s : Session) : Restyling s (.request .renderPage) := by
  have hoperation : (Act.request .renderPage).operation s = (Answer.rendered <$> renderPage) s := rfl
  cases hpage : s.clean.renderView? s.root with
  | error e =>
    rw [map_of_error (renderPage_of_error hpage)] at hoperation
    refine SameStyles.restyling ?_ ?_
    · rw [afterAct, after_of_error hoperation]
      exact ⟨fun _ => rfl, rfl⟩
    · simp only [Act.shipped?, hoperation]
  | ok page =>
    rw [map_of_ok (renderPage_of_ok hpage)] at hoperation
    refine .sent s [page] (sameStyles.refl s) ?_ ?_
    · simp only [Act.shipped?, hoperation]
    · rw [afterAct, after_of_ok hoperation]
      exact sends_page hpage

/-- **One act** that writes no style. -/
theorem restyling (unstyled : a.styles = false) : Restyling s a := by
  have unwritten : ∀ request : Request, a = .request request → request.styles = true →
      sameStyles.Allows s (s.afterAct a) := by
    rintro request rfl styles
    exact absurd (unstyled.symm.trans styles) Bool.false_ne_true
  cases outcome_of_storing storing_sameStyles s a unwritten with
  | ordinary allowed silent => exact SameStyles.restyling allowed silent
  | created tag left silent =>
    refine .registered ?_ ?_ silent
    · rw [left]
      exact style?_register s tag
    · rw [left]
      exact next_ne s
  | adopted parent _ left silent =>
    refine .registered (fun v => ?_) ?_ silent
    · rw [left, style?_setParent, style?_register]
    · rw [left, (kept_setParent _ _ _).nextId]
      exact next_ne s
  | polled act silent =>
    subst act
    have same : SameStyles s s.clean := ⟨fun _ => rfl, rfl⟩
    exact SameStyles.restyling same silent
  | updated before allowed left => exact restyling_of_patch allowed left
  | paged act =>
    subst act
    exact restyling_of_page s
  | swept act silent =>
    subst act
    refine .kept (fun v sheet h => ?_) ?_ silent
    · rw [afterAct_sweep, style?, swept, get?_forgetAll] at h
      split at h
      · cases h
      · exact h
    · rw [afterAct_sweep]
      exact (kept_swept s).nextId

/-! ## One act -/

/-- **Recorded**: the sheet of a view is that of its history. -/
def Recorded (s : Session) (v : ViewId) (history : List StyleEvent) : Prop :=
  ∀ sheet, s.style? v = some sheet → sheet = StyleSheet.ofHistory history

/-- An act that writes no style adds to the history of a view if it sends it, and then once. -/
theorem styleEvents_of_unstyled (unstyled : a.styles = false) : a.styleEvents s v =
    if v ∈ RenderedView.idsOfAll ((a.shipped? s).getD []) then [.sent] else [] := by
  cases a with
  | request r =>
    have hnone : r.styleEvent? s v = none := by
      rw [Request.styleEvent?, Request.style?_of_unstyled unstyled]
    rw [Act.styleEvents, hnone]
    rfl
  | _ => rfl

/-- If it sends nothing, it adds nothing. -/
theorem styleEvents_of_silent (unstyled : a.styles = false) (silent : a.shipped? s = none) :
    a.styleEvents s v = [] := by
  rw [styleEvents_of_unstyled unstyled, silent, Option.getD_none, RenderedView.idsOfAll]
  exact if_neg List.not_mem_nil

/-- What a request that writes a style answers is no patch. -/
theorem shipped?_of_styles {request : Request} (styles : request.styles = true) :
    (Act.request request).shipped? s = none := by
  refine silent_of_quiet ?_ fun p s' hok => ?_
  · rintro rfl
    exact absurd styles Bool.false_ne_true
  · rcases perform_cases_of_styles s styles with ⟨e, he⟩ | ⟨_, _, _, _, -, -, hdone⟩
    · cases he.symm.trans hok
    · cases hdone.symm.trans hok

/-- A request that writes a style adds that write, if it succeeds. -/
theorem styleEvents_of_styles {request : Request} (styles : request.styles = true) :
    (Act.request request).styleEvents s v = (request.styleEvent? s v).toList := by
  rw [Act.styleEvents, shipped?_of_styles styles]
  exact List.append_nil _

/-- What is recorded stays so where the sheet of the view stays. -/
theorem Recorded.of_style (h : s.Recorded v history)
    (same : ∀ sheet, s'.style? v = some sheet → s.style? v = some sheet) : s'.Recorded v history :=
  fun sheet hsheet => h sheet (same sheet hsheet)

/-- A write of a style is a write in the history. -/
theorem Recorded.write (h : s.Recorded v history) {request : Request}
    (styles : request.styles = true) :
    (s.afterAct (.request request)).Recorded v (s.continued v history (.request request)) := by
  rcases perform_cases_of_styles s styles with
    ⟨e, he⟩ | ⟨u, property, value, declaration, hstyle, hconvert, hdone⟩
  · have hafter : s.afterAct (.request request) = s := after_of_error he
    -- a write that fails is no event, and leaves the sheet as it was
    have hnone : request.styleEvent? s v = none := by
      rw [Request.styleEvent?, he]
      cases request.style? <;> rfl
    rw [continued, hafter, if_neg (fun hnew => hnew.2 rfl), styleEvents_of_styles styles, hnone]
    rw [Option.toList_none, List.append_nil]
    exact h
  · have hafter := after_of_ok hdone
    have hevent : request.styleEvent? s v = if u = v then
        some (.write property.cssName declaration s.currentAnimation) else none := by
      simp only [Request.styleEvent?, hstyle, hdone, hconvert, Option.map_some]
    have hnext : (s.afterAct (.request request)).nextId = s.nextId :=
      (congrArg Session.nextId hafter).trans rfl
    rw [continued, if_neg (fun hnew => hnew.2 hnext), styleEvents_of_styles styles, hevent]
    intro sheet hsheet
    rw [show s.afterAct (.request request) = _ from hafter, style?_restyle] at hsheet
    split at hsheet
    · next hu =>
      obtain ⟨before, hbefore, rfl⟩ := Option.map_eq_some_iff.1 hsheet
      rw [if_pos hu, Option.toList_some, StyleSheet.ofHistory_snoc, ← h before hbefore]
      rfl
    · next hu =>
      rw [if_neg hu, Option.toList_none, List.append_nil]
      exact h sheet hsheet

/-- **One act** does to the sheet what it does to the history. -/
theorem Recorded.afterAct (h : s.Recorded v history) (a : Act) :
    (s.afterAct a).Recorded v (s.continued v history a) := by
  cases hstyles : a.styles with
  | true =>
    cases a with
    | request request => exact h.write hstyles
    | _ => cases hstyles
  | false =>
    cases restyling (s := s) hstyles with
    | kept styles nextId silent =>
      rw [continued, if_neg (fun hnew => hnew.2 nextId), styleEvents_of_silent hstyles silent,
        List.append_nil]
      exact h.of_style (styles v)
    | registered styles nextId silent =>
      -- only the view that is registered begins anew
      intro sheet hsheet
      rw [styles] at hsheet
      rw [continued, styleEvents_of_silent hstyles silent, List.append_nil]
      by_cases hv : s.nextId = v
      · rw [if_pos hv] at hsheet
        rw [if_pos ⟨hv, nextId⟩]
        exact (Option.some.inj hsheet).symm
      · rw [if_neg hv] at hsheet
        rw [if_neg fun hnew => hv hnew.1]
        exact h sheet hsheet
    | sent before more same shipped sends =>
      intro sheet hsheet
      have hevents := styleEvents_of_unstyled (s := s) (v := v) hstyles
      rw [shipped, Option.getD_some] at hevents
      have hnext : (s.afterAct a).nextId = s.nextId := by
        rw [sends.left, (sameTree_renders.settleAll _ _).nextId]
        exact same.nextId
      rw [continued, if_neg (fun hnew => hnew.2 hnext), hevents]
      -- taking the marks away touches no sheet, so what has settled is the sheet from before
      rw [sends.left, style?_settleAll, show before.clean.style? v = before.style? v from rfl,
        same.styles] at hsheet
      split at hsheet
      · next hmem =>
        obtain ⟨old, hold, rfl⟩ := Option.map_eq_some_iff.1 hsheet
        rw [if_pos hmem, StyleSheet.ofHistory_snoc, ← h old hold]
        rfl
      · next hmem =>
        rw [if_neg hmem, List.append_nil]
        exact h sheet hsheet

/-! ## Every list of acts -/

/-- **All acts** do to the sheet what they do to the history. -/
theorem Recorded.afterActs (h : s.Recorded v history) (acts : List Act) :
    (s.afterActs acts).Recorded v (styleHistory v s history acts) := by
  induction acts generalizing s history with
  | nil => exact h
  | cons a rest ih => exact ih (h.afterAct a)

end Session

end AnchorLayout
