import AnchorLayout.Proofs.Clause.Item
import AnchorLayout.Proofs.Clause.Yield
/-!
# Items with commas between them

  1. **Program** — `timing`, which reads one item after the other.
  2. **Specification** — `AreItems`: texts that are items one by one; only the last may leave
     parentheses open.
  3. **Both ways** — `AreItems.takes`: such texts, joined by commas, are read as those items;
     `exists_areItems_of_timing`: whatever is read as a timing are such texts.
  4. **The crux (`ReadsItem.extend`)** — an item that leaves a parenthesis open goes on over every
     comma behind it, so with the texts behind it, it is again one item.
-/

namespace AnchorLayout

open Reading

/-- Where a clause ends. -/
def EndsClause (rest : List Token) : Prop :=
  headKind? rest = none ∨ headKind? rest = some (.sign .semicolon)

/-- **Items**: the pieces of texts with commas between them, each of which is an item; parentheses
are left open by the last at most. -/
inductive AreItems (guarded : Bool) : List String → List Piece → Prop
  | last {text : String} {ps : List Piece} {depth : Nat} (item : ReadsItem guarded text ps depth) :
      AreItems guarded [text] ps
  | cons {text : String} {texts : List String} {ps qs : List Piece}
      (item : ReadsItem guarded text ps 0) (others : AreItems guarded texts qs) :
      AreItems guarded (text :: texts) (ps ++ Piece.ofSign .comma ',' :: qs)

section

variable {guarded : Bool} {text : String} {texts : List String} {ps : List Piece} {depth : Nat}
  {rest : List Token}

/-! ## Where items end -/

/-- The end of a clause ends every item, also one whose parentheses are open. -/
theorem EndsClause.endsItem (h : EndsClause rest) (depth : Nat) : EndsItem depth rest := by
  intro kind hkind
  rcases h with h | h
  · rw [h] at hkind
    cases hkind
  · rw [h] at hkind
    cases hkind
    rfl

/-- A comma ends an item in which no parenthesis is open. -/
theorem endsItem_of_comma {t : Token} (ht : t.kind = .sign .comma) (rest : List Token) :
    EndsItem 0 (t :: rest) := by
  intro kind hkind
  cases hkind
  rw [ht]
  rfl

/-- Only such an item is ended by a comma. -/
theorem depth_eq_zero_of_comma {t : Token} (ht : t.kind = .sign .comma)
    (h : EndsItem depth (t :: rest)) : depth = 0 := by
  have hnone := h t.kind rfl
  rw [ht, depthBehind_comma] at hnone
  by_contra hdepth
  rw [if_neg hdepth] at hnone
  cases hnone

/-- At the end of a clause no other sign is seen. -/
theorem EndsClause.headKind?_ne (h : EndsClause rest) {s : Sign} (hs : s ≠ .semicolon) :
    headKind? rest ≠ some (.sign s) := by
  intro hhead
  rcases h with h | h
  · rw [h] at hhead
    cases hhead
  · rw [h] at hhead
    cases hhead
    exact hs rfl

/-! ## The pieces of items -/

/-- No clause ends inside an item. -/
theorem ReadsItem.unended (h : ReadsItem guarded text ps depth) :
    ∀ p ∈ ps, p.kind ≠ .sign .semicolon := unended_of_depthAfter h.depth_eq

namespace AreItems

/-- The text with the commas is cut into the pieces, since commas cut tokens off. -/
theorem lexes (h : AreItems guarded texts ps) :
    Lexes (",".intercalate texts).toList ps := by
  rw [String.toList_intercalate]
  induction h with
  | last item => simpa using item.lexes
  | @cons text texts ps qs item others ih =>
    have happend := item.lexes.append (c := ',') rfl (by decide) ih
    cases others with
    | last => simpa using happend
    | cons => simpa using happend

/-- Each of the texts is an item by itself. -/
theorem exists_of_mem (h : AreItems guarded texts ps) (hmem : text ∈ texts) :
    ∃ qs d, ReadsItem guarded text qs d := by
  induction h with
  | last item =>
    rw [List.mem_singleton.1 hmem]
    exact ⟨_, _, item⟩
  | cons item others ih =>
    rcases List.mem_cons.1 hmem with rfl | hmem
    · exact ⟨_, _, item⟩
    · exact ih hmem

/-- Items of a clause without a guard have no mark in them, so the look ahead for one passes over
them. -/
theorem plain (h : AreItems guarded texts ps) (hguarded : guarded = false) : Plain ps := by
  induction h with
  | last item => exact fun p hp => ⟨item.unended p hp, item.unmarked hguarded p hp⟩
  | cons item others ih =>
    have hitem : Plain _ := fun p hp => ⟨item.unended p hp, item.unmarked hguarded p hp⟩
    exact hitem.append (ih.sign (by decide))

/-- No clause ends inside a list of items either. -/
theorem unended (h : AreItems guarded texts ps) : ∀ p ∈ ps, p.kind ≠ .sign .semicolon := by
  induction h with
  | last item => exact item.unended
  | cons item others ih =>
    intro p hp
    rcases List.mem_append.1 hp with hp | hp
    · exact item.unended p hp
    · rcases List.mem_cons.1 hp with rfl | hp
      · decide
      · exact ih p hp

/-- There is an item, and there are no more of them than pieces: that is what the fuel of the loop
has to exceed. -/
theorem length_le (h : AreItems guarded texts ps) : 0 < texts.length ∧ texts.length ≤ ps.length := by
  induction h with
  | last item => exact ⟨Nat.one_pos, List.length_pos_iff.2 item.ne_nil⟩
  | cons item others ih =>
    simp only [List.length_cons, List.length_append]
    omega

end AreItems

/-! ## Reading items -/

namespace Reading

variable {t t' : TimingSoFar} {tokens : List Token} {fuel : Nat} {a : Animation}

/-- **One item is read**: its tokens are taken, and its text is what the timing is extended by. -/
theorem timingItem_run (h : ReadsItem guarded text ps depth) (hadd : t.addItem? text = some t')
    (htokens : tokens.map Token.piece = ps) (hrest : EndsItem depth rest) :
    (timingItem t).run (tokens ++ rest) = .ok (t', rest) := by
  have hitem : itemTokens 0 (tokens ++ rest) = tokens :=
    itemTokens_append (htokens ▸ h.depth_eq) hrest
  have hne : tokens.isEmpty = false := by
    cases tokens with
    | nil => exact absurd htokens.symm h.ne_nil
    | cons => rfl
  have hset : (set ((tokens ++ rest).drop tokens.length) : Reading PUnit).run (tokens ++ rest) =
      .ok (⟨⟩, rest) := by
    rw [List.drop_left]
    rfl
  unfold timingItem
  rw [run_bind (get_run _)]
  simp only [hitem, hne]
  rw [if_neg (by decide), run_bind hset, writtenText_of_readsItem h htokens, hadd]
  rfl

/-- What has been read as an item. -/
theorem timingItem_eq_ok (h : (timingItem t).run tokens = .ok (t', rest)) :
    ∃ item depth, tokens = item ++ rest ∧ item ≠ [] ∧
      depthAfter 0 (item.map Token.piece) = some depth ∧ EndsItem depth rest ∧
        t.addItem? (writtenText item) = some t' := by
  obtain ⟨depth, left, htokens, hdepth, hends⟩ := exists_itemTokens 0 tokens
  unfold timingItem at h
  rw [run_bind (get_run _)] at h
  generalize hitem : itemTokens 0 tokens = item at h htokens hdepth
  subst htokens
  simp only at h
  split at h
  · cases h
  · next hne =>
    obtain ⟨_, mid, hset, hadd⟩ := run_bind_eq_ok h
    cases hset
    rw [List.drop_left] at hadd
    cases hnext : t.addItem? (writtenText item) with
    | none =>
      rw [hnext] at hadd
      cases hadd
    | some next =>
      rw [hnext] at hadd
      cases hadd
      exact ⟨item, depth, rfl, by simpa using hne, hdepth, hends, hnext⟩

end Reading

/-- **Items are read one after the other.** -/
theorem AreItems.takes_timingItems (h : AreItems guarded texts ps) {t t' : TimingSoFar}
    (hfold : texts.foldlM TimingSoFar.addItem? t = some t') {fuel : Nat}
    (hfuel : texts.length ≤ fuel) : Takes (timingItems fuel t) EndsClause ps t'.animation := by
  induction h generalizing t fuel with
  | last item =>
    intro tokens rest htokens hrest
    obtain ⟨next, hadd, hnothing⟩ := Option.bind_eq_some_iff.1 hfold
    cases hnothing
    obtain ⟨fuel, rfl⟩ : ∃ n, fuel = n + 1 := ⟨fuel - 1, by simp at hfuel; omega⟩
    unfold timingItems
    rw [run_bind (timingItem_run item hadd htokens (hrest.endsItem _)),
      run_bind (accept_of_ne (hrest.headKind?_ne (by decide)))]
    rfl
  | cons item others ih =>
    intro tokens rest htokens hrest
    obtain ⟨next, hadd, hothers⟩ := Option.bind_eq_some_iff.1 hfold
    obtain ⟨fuel, rfl⟩ : ∃ n, fuel = n + 1 := ⟨fuel - 1, by simp at hfuel; omega⟩
    obtain ⟨first, u, last, rfl, hfirst, hu, hlast⟩ := split_pieces htokens
    have hkind := kind_of_piece hu
    rw [List.append_assoc, List.cons_append]
    unfold timingItems
    rw [run_bind (timingItem_run item hadd hfirst (endsItem_of_comma hkind _)),
      run_bind (accept_of_kind hkind)]
    exact ih hothers (by simpa using hfuel) last rest hlast hrest

/-- **A whole timing is read** from its items, one after the other. -/
theorem AreItems.takes (h : AreItems guarded texts ps) {a : Animation} {n : Nat}
    (hfold : texts.foldlM TimingSoFar.addItem? ⟨∅, 0⟩ = some ⟨a, n⟩) :
    Takes timing EndsClause ps a := by
  intro tokens rest htokens hrest
  have hlength : ps.length = tokens.length := by rw [← htokens, List.length_map]
  have hcount := h.length_le.2
  unfold timing
  rw [run_bind (get_run _)]
  refine h.takes_timingItems hfold ?_ tokens rest htokens hrest
  rw [List.length_append]
  omega

/-- **Read as a timing**: a text whose pieces stay within a clause and are taken for the timing. -/
structure SpellsTiming (guarded : Bool) (text : String) (a : Animation) (ps : List Piece) :
    Prop where
  lexes : Lexes text.toList ps
  ne_nil : ps ≠ []
  unended : ∀ p ∈ ps, p.kind ≠ .sign .semicolon
  plain : guarded = false → Plain ps
  takes : Takes timing EndsClause ps a

/-- The same with what a clause asks for in addition: the text is cut into pieces, and stays within
the clause. -/
theorem AreItems.spellsTiming (h : AreItems guarded texts ps) {a : Animation} {n : Nat}
    (hfold : texts.foldlM TimingSoFar.addItem? ⟨∅, 0⟩ = some ⟨a, n⟩) :
    SpellsTiming guarded (",".intercalate texts) a ps where
  lexes := h.lexes
  ne_nil := by
    have hlength := h.length_le
    exact List.length_pos_iff.1 (by omega)
  unended := h.unended
  plain := h.plain
  takes := h.takes hfold

/-- Items that leave no parenthesis open are read together. -/
theorem exists_areItems (hne : texts ≠ [])
    (h : ∀ text ∈ texts, ∃ ps, ReadsItem guarded text ps 0) : ∃ ps, AreItems guarded texts ps := by
  induction texts with
  | nil => exact absurd rfl hne
  | cons text texts ih =>
    obtain ⟨ps, hitem⟩ := h text List.mem_cons_self
    cases texts with
    | nil => exact ⟨ps, .last hitem⟩
    | cons next texts =>
      obtain ⟨qs, hothers⟩ :=
        ih (List.cons_ne_nil _ _) fun other ho => h other (List.mem_cons_of_mem text ho)
      exact ⟨_, .cons hitem hothers⟩

/-- **Whatever is read as a timing are items**, if the tokens were cut from a text and no question
mark is among them but in a guarded clause. -/
theorem exists_areItems_of_timingItems {t : TimingSoFar} {tokens : List Token} {fuel : Nat}
    {a : Animation} (h : (timingItems fuel t).run tokens = .ok (a, rest)) (hcuts : Cuts tokens)
    (hfuel : tokens.length < fuel) (hmark : guarded = false → hasGuard tokens = false) :
    ∃ texts ps taken t', tokens = taken ++ rest ∧ AreItems guarded texts ps ∧
      texts.foldlM TimingSoFar.addItem? t = some t' ∧ t'.animation = a := by
  induction fuel generalizing t tokens with
  | zero => exact absurd hfuel (Nat.not_lt_zero _)
  | succ fuel ih =>
    unfold timingItems at h
    obtain ⟨next, mid, hfirst, hrest⟩ := run_bind_eq_ok h
    obtain ⟨item, depth, rfl, hne, hdepth, hends, hadd⟩ := timingItem_eq_ok hfirst
    obtain ⟨hcutItem, hcutMid⟩ := hcuts.append
    have hunended : Unended item := fun u hu =>
      unended_of_depthAfter hdepth u.piece (List.mem_map_of_mem hu)
    have hmarks := fun hguarded => hasGuard_append_eq_false hunended (hmark hguarded)
    obtain ⟨ps, hitem⟩ := exists_readsItem hcutItem hdepth hne fun hguarded => (hmarks hguarded).1
    obtain ⟨more, left, haccept, hothers⟩ := run_bind_eq_ok hrest
    rcases accept_eq_ok haccept with ⟨rfl, u, rfl, hu⟩ | ⟨rfl, rfl, -⟩
    · -- a comma ends the item only outside its parentheses
      obtain rfl := depth_eq_zero_of_comma hu hends
      have hcomma : Unended [u] := unended_singleton (by rw [hu]; decide)
      have hpos := List.length_pos_iff.2 hne
      rw [List.length_append, List.length_cons] at hfuel
      obtain ⟨texts, qs, taken, t', rfl, hitems, hfold, hanimation⟩ :=
        ih hothers hcutMid.tail (by omega) fun hguarded =>
          (hasGuard_append_eq_false hcomma (hmarks hguarded).2).2
      refine ⟨_, _, item ++ u :: taken, t', by simp, .cons hitem hitems, ?_, hanimation⟩
      rw [List.foldlM_cons, hadd]
      exact hfold
    · cases hothers
      exact ⟨_, _, item, next, rfl, .last hitem, by rw [List.foldlM_cons, hadd]; rfl, rfl⟩

/-- **Conversely**, what is read as a timing was written as items. -/
theorem exists_areItems_of_timing {tokens : List Token} {a : Animation}
    (h : timing.run tokens = .ok (a, rest)) (hcuts : Cuts tokens)
    (hmark : guarded = false → hasGuard tokens = false) :
    ∃ texts ps taken n, tokens = taken ++ rest ∧ AreItems guarded texts ps ∧
      texts.foldlM TimingSoFar.addItem? ⟨∅, 0⟩ = some ⟨a, n⟩ := by
  unfold timing at h
  rw [run_bind (get_run _)] at h
  obtain ⟨texts, ps, taken, t', htokens, hitems, hfold, rfl⟩ :=
    exists_areItems_of_timingItems h hcuts (Nat.lt_succ_self _) hmark
  exact ⟨texts, ps, taken, t'.times, htokens, hitems, hfold⟩

/-! ## Bare items -/

/-- No sign stands among the pieces but a minus. -/
def Bare (ps : List Piece) : Prop := ∀ p ∈ ps, ∀ s, p.kind = .sign s → s = .minus

theorem bare_nil : Bare [] := fun _ h => absurd h List.not_mem_nil

namespace Bare

/-- A piece in front.  The three lemmas behind this one are for the pieces that occur in bare
items. -/
theorem cons {p : Piece} (hp : ∀ s, p.kind = .sign s → s = .minus) (h : Bare ps) :
    Bare (p :: ps) := by
  intro q hq
  rcases List.mem_cons.1 hq with rfl | hq
  · exact hp
  · exact h q hq

theorem name {cs : List Char} (h : Bare ps) : Bare (Piece.ofName cs :: ps) :=
  h.cons fun _ => TokenKind.noConfusion

theorem number {m : Magnitude} {whole fraction : List Char} (h : Bare ps) :
    Bare (Piece.ofNumber m whole fraction :: ps) :=
  h.cons fun _ => TokenKind.noConfusion

theorem minus (h : Bare ps) : Bare (Piece.ofSign .minus '-' :: ps) :=
  h.cons fun _ heq => (TokenKind.sign.inj heq).symm

/-- Where no parenthesis stands none is opened or closed. -/
theorem depthAfter (h : Bare ps) (depth : Nat) : depthAfter depth ps = some depth := by
  induction ps with
  | nil => rfl
  | cons p ps ih =>
    have hkind : depthBehind depth p.kind = some depth := by
      have hp := h p List.mem_cons_self
      generalize p.kind = kind at hp
      cases kind with
      | name | number => rfl
      | sign s =>
        rw [hp s rfl]
        rfl
    rw [depthAfter_cons, hkind]
    exact ih fun q hq => h q (List.mem_cons_of_mem p hq)

end Bare

/-- **Bare**: an item in which no sign stands but a minus. -/
def IsBare (text : String) : Prop :=
  ∃ ps, Lexes text.toList ps ∧ Bare ps ∧ ps ≠ [] ∧ ∀ p, ps.head? = some p → p.blank = []

/-- A bare item leaves the depth as it was. -/
theorem IsBare.exists_readsItem (guarded : Bool) (h : IsBare text) :
    ∃ ps, ReadsItem guarded text ps 0 ∧ ∀ depth, depthAfter depth ps = some depth := by
  obtain ⟨ps, hlex, hbare, hne, hstarts⟩ := h
  refine ⟨ps, ⟨hlex, fun _ p hp hkind => ?_, hbare.depthAfter 0, hne, hstarts⟩, hbare.depthAfter⟩
  cases hbare p hp _ hkind

/-! ## Items left open -/

/-- **An item that is left open goes on** over the commas behind it. -/
theorem ReadsItem.extend (h : ReadsItem guarded text ps depth) (hopen : depth ≠ 0)
    (hothers : ∀ other ∈ texts, IsBare other) :
    ∃ qs, ReadsItem guarded (",".intercalate (text :: texts)) qs depth := by
  induction texts generalizing text ps with
  | nil => exact ⟨ps, by simpa using h⟩
  | cons other texts ih =>
    obtain ⟨qs, hother, hdepth⟩ :=
      (hothers other List.mem_cons_self).exists_readsItem guarded
    -- the comma stands inside the parenthesis that is open, so it ends nothing
    have hjoined : ReadsItem guarded (text ++ "," ++ other)
        (ps ++ Piece.ofSign .comma ',' :: qs) depth := by
      refine ⟨?_, fun hguarded => ?_, ?_, by simp, ?_⟩
      · rw [String.toList_append, String.toList_append, List.append_assoc]
        exact h.lexes.append (c := ',') rfl (by decide) hother.lexes
      · intro p hp
        rcases List.mem_append.1 hp with hp | hp
        · exact h.unmarked hguarded p hp
        · rcases List.mem_cons.1 hp with rfl | hp
          · decide
          · exact hother.unmarked hguarded p hp
      · have hcomma : depthBehind depth (Piece.ofSign .comma ',').kind = some depth := if_neg hopen
        rw [depthAfter_append, h.depth_eq, Option.bind_some, depthAfter_cons, hcomma]
        exact hdepth depth
      · rw [List.head?_append_of_ne_nil _ h.ne_nil]
        exact h.starts
    obtain ⟨rs, hall⟩ := ih hjoined fun o ho => hothers o (List.mem_cons_of_mem other ho)
    refine ⟨rs, ?_⟩
    -- joining the first two texts by hand is joining them among the others
    have htext : ",".intercalate (text :: other :: texts) =
        ",".intercalate ((text ++ "," ++ other) :: texts) := by
      cases texts <;> simp [String.intercalate_cons_of_ne_nil, String.append_assoc]
    rwa [htext]

/-- A sign among the pieces is a character of the text. -/
theorem mem_of_sign {cs : List Char} {ps : List Piece} (h : Lexes cs ps) {p : Piece} (hp : p ∈ ps)
    {s : Sign} (hkind : p.kind = .sign s) : ∃ c ∈ cs, Sign.ofChar? c = some s := by
  induction h with
  | done => exact absurd hp List.not_mem_nil
  | @step kind blank lexeme rest ps blanks cut others ih =>
    rcases List.mem_cons.1 hp with rfl | hp
    · rcases cut?_cases cut with ⟨c, s', hc, hs', rfl⟩ | ⟨hnone, -⟩
      · cases hs'.symm.trans hkind
        exact ⟨c, by simp, hc⟩
      · exact absurd hkind (hnone s)
    · obtain ⟨c, hc, hsign⟩ := ih hp
      exact ⟨c, by simp [hc], hsign⟩

/-- Only an opening parenthesis leads deeper. -/
theorem depthBehind_le {kind : TokenKind} (hkind : kind ≠ .sign .leftParen) {d : Nat}
    (h : depthBehind depth kind = some d) : d ≤ depth := by
  cases kind with
  | name | number =>
    cases h
    exact Nat.le_refl _
  | sign s =>
    cases s with
    | leftParen => exact absurd rfl hkind
    | semicolon => cases h
    | comma =>
      rw [depthBehind_comma] at h
      split at h
      · cases h
      · cases h
        exact Nat.le_refl _
    | rightParen =>
      cases h
      exact Nat.sub_le _ _
    | _ =>
      cases h
      exact Nat.le_refl _

/-- A parenthesis that is left open is in the text. -/
theorem ReadsItem.leftParen_mem (h : ReadsItem guarded text ps depth) (hopen : depth ≠ 0) :
    '(' ∈ text.toList := by
  have hopened : ∃ p ∈ ps, p.kind = .sign .leftParen := by
    by_contra hnone
    have hnone' : ∀ p ∈ ps, p.kind ≠ .sign .leftParen := fun p hp hkind => hnone ⟨p, hp, hkind⟩
    have hle : ∀ d d', depthAfter d ps = some d' → d' ≤ d := by
      clear h hnone
      induction ps with
      | nil =>
        intro d d' heq
        cases heq
        exact Nat.le_refl d
      | cons p ps ih =>
        intro d d' heq
        rw [depthAfter_cons] at heq
        obtain ⟨next, hnext, hothers⟩ := Option.bind_eq_some_iff.1 heq
        have hrest := ih (fun q hq => hnone' q (List.mem_cons_of_mem p hq)) next d' hothers
        exact Nat.le_trans hrest (depthBehind_le (hnone' p List.mem_cons_self) hnext)
    exact hopen (Nat.le_zero.1 (hle 0 depth h.depth_eq))
  obtain ⟨p, hp, hkind⟩ := hopened
  obtain ⟨c, hc, hsign⟩ := mem_of_sign h.lexes hp hkind
  rwa [(sign_eq_of_ofChar? hsign).1.1 rfl] at hc

end

end AnchorLayout
