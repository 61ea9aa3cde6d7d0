import AnchorLayout.Proofs.Clause.Lockstep
import AnchorLayout.Proofs.Clause.RoundTrip
/-!
# Readers do not look past the end of a clause

  1. **Program** — the readers of `Clause.Reader`, which look ahead for the mark of a guard, for an
     operator, for the end of an item, and count the tokens that are left.
  2. **Specification** — `Agree`: on the same pieces, wherever they stand and whatever follows the
     end of the clause behind them, two readers both fail, or both give the same value and leave
     the same pieces.
  3. **Composition** — `Agree.bind`, `Agree.next`, `Agree.peek`, `Agree.accept`; the mark of a guard
     (`hasGuard_eq_of_alike`) and an item (`agree_timingItem`) are found within the clause.
  4. **The crux (`lockstep_agree`)** — these are the rules of a lockstep.  The depth and the fuel of
     a loop come from the number of all tokens that are left, so the two readers are not the same;
     each has enough for its clause.
-/

namespace AnchorLayout

open Reading

/-! ## Specification -/

/-- The same pieces, wherever they stand. -/
def Alike (s s' : List Token) : Prop := s.map Token.piece = s'.map Token.piece

theorem Alike.length {s s' : List Token} (h : Alike s s') : s.length = s'.length := by
  rw [← List.length_map, h, List.length_map]

/-- Tokens of the same piece differ in where they start and in nothing else. -/
theorem Alike.exists_cons {t : Token} {s s' : List Token} (h : Alike (t :: s) s') :
    ∃ start rest, s' = { t with start := start } :: rest ∧ Alike s rest := by
  obtain ⟨⟨kind, lexeme, blank, start⟩, rest, rfl, hpiece, hrest⟩ :=
    List.map_eq_cons_iff.1 (Eq.symm h)
  cases hpiece
  exact ⟨start, rest, rfl, hrest.symm⟩

namespace Reading

/-- What two readers give: a fault each, or the same value with the same pieces left of a clause,
each in front of what follows its own. -/
inductive Concur {α : Type} (bound : Nat) (after after' : List Token) :
    Except LocatedFault (α × List Token) → Except LocatedFault (α × List Token) → Prop
  | fault (fault fault' : LocatedFault) : Concur bound after after' (.error fault) (.error fault')
  | value (a : α) {left left' : List Token} (alike : Alike left left') (unended : Unended left)
      (short : left.length ≤ bound) :
      Concur bound after after' (.ok (a, left ++ after)) (.ok (a, left' ++ after'))

/-- On two stretches of a clause the readers concur, whatever follows the clause. -/
def AgreeAt {α : Type} (bound : Nat) (s s' : List Token) (x y : Reading α) : Prop :=
  ∀ after after', EndsClause after → EndsClause after' →
    Concur bound after after' (x.run (s ++ after)) (y.run (s' ++ after'))

/-- **Agreement** on the stretches of a clause up to a size. -/
def Agree {α : Type} (size : Nat) (x y : Reading α) : Prop :=
  ∀ s s', Alike s s' → Unended s → s.length ≤ size → AgreeAt s.length s s' x y

variable {α β : Type} {size bound : Nat} {s s' : List Token} {x y : Reading α}

/-! ## Composition -/

/-- A bound on what is left may be widened. -/
theorem Concur.mono {after after' : List Token} {r r' : Except LocatedFault (α × List Token)}
    {bound' : Nat} (h : Concur bound after after' r r') (hle : bound ≤ bound') :
    Concur bound' after after' r r' := by
  cases h with
  | fault => exact Concur.fault _ _
  | value a alike unended short => exact Concur.value a alike unended (Nat.le_trans short hle)

theorem AgreeAt.mono {bound' : Nat} (h : AgreeAt bound s s' x y) (hle : bound ≤ bound') :
    AgreeAt bound' s s' x y := fun after after' hafter hafter' =>
  (h after after' hafter hafter').mono hle

theorem Agree.mono {size' : Nat} (h : Agree size x y) (hle : size' ≤ size) : Agree size' x y :=
  fun s s' halike hunended hlength => h s s' halike hunended (Nat.le_trans hlength hle)

/-- **Composition**: where the first readers concur, the second ones go on from stretches that are
alike again. -/
theorem AgreeAt.bind {f g : α → Reading β} (hx : AgreeAt bound s s' x y)
    (hf : ∀ a, Agree bound (f a) (g a)) : AgreeAt bound s s' (x >>= f) (y >>= g) := by
  intro after after' hafter hafter'
  have hrun := hx after after' hafter hafter'
  generalize hr : x.run (s ++ after) = r at hrun
  generalize hr' : y.run (s' ++ after') = r' at hrun
  cases hrun with
  | fault =>
    rw [run_bind_error hr, run_bind_error hr']
    exact Concur.fault _ _
  | value a alike unended short =>
    rw [run_bind hr, run_bind hr']
    exact (hf a _ _ alike unended short after after' hafter hafter').mono short

/-- The same on every stretch of the size. -/
theorem Agree.bind {f g : α → Reading β} (hx : Agree size x y)
    (hf : ∀ a, Agree size (f a) (g a)) : Agree size (x >>= f) (y >>= g) :=
  fun s s' halike hunended hlength =>
    (hx s s' halike hunended hlength).bind fun a => (hf a).mono hlength

theorem agree_pure (a : α) : Agree size (pure a) (pure a) :=
  fun _ _ halike hunended _ _ _ _ _ => Concur.value a halike hunended (Nat.le_refl _)

/-- Two readers that fail concur, be the faults as different as they like. -/
theorem agreeAt_of_fails (hx : Fails x) (hy : Fails y) : AgreeAt bound s s' x y := by
  intro after after' _ _
  obtain ⟨fault, hfault⟩ := hx (s ++ after)
  obtain ⟨fault', hfault'⟩ := hy (s' ++ after')
  rw [hfault, hfault']
  exact Concur.fault fault fault'

theorem agree_of_fails (hx : Fails x) (hy : Fails y) : Agree size x y :=
  fun _ _ _ _ _ => agreeAt_of_fails hx hy

/-! ## Single tokens -/

/-- **The tokens that are left are counted**: each reader has at least those of the stretch. -/
theorem Agree.get {f g : List Token → Reading α}
    (h : ∀ n ≤ size, ∀ tokens tokens', n ≤ tokens.length → n ≤ tokens'.length →
      Agree n (f tokens) (g tokens')) : Agree size (get >>= f) (get >>= g) := by
  intro s s' halike hunended hlength after after' hafter hafter'
  have hcount : s.length ≤ (s ++ after).length := by
    rw [List.length_append]
    omega
  have hcount' : s.length ≤ (s' ++ after').length := by
    rw [List.length_append, halike.length]
    omega
  exact h s.length hlength _ _ hcount hcount' s s' halike hunended (Nat.le_refl _) after after'
    hafter hafter'

/-- At the end of a clause each reader sees an end, though not the same one. -/
theorem AgreeAt.peek_nil {f g : Option TokenKind → Reading α}
    (h : ∀ found found', IsEnd found → IsEnd found' → AgreeAt bound [] [] (f found) (g found')) :
    AgreeAt bound [] [] (peek >>= f) (peek >>= g) :=
  fun after after' hafter hafter' =>
    h (headKind? after) (headKind? after') hafter hafter' after after' hafter hafter'

/-- Both readers see the same kind of token. -/
theorem AgreeAt.peek_cons {f g : Option TokenKind → Reading α} {t t' : Token}
    (hkind : t.kind = t'.kind)
    (h : AgreeAt bound (t :: s) (t' :: s') (f (some t.kind)) (g (some t.kind))) :
    AgreeAt bound (t :: s) (t' :: s') (peek >>= f) (peek >>= g) := by
  intro after after' hafter hafter'
  have hrun := h after after' hafter hafter'
  rw [List.cons_append, List.cons_append] at hrun ⊢
  rw [run_bind (peek_run _), run_bind (peek_run _), headKind?_cons, headKind?_cons, ← hkind]
  exact hrun

/-- Both readers take their token and go on behind it. -/
theorem AgreeAt.next_cons {f g : Option Token → Reading α} {t t' : Token}
    (h : AgreeAt bound s s' (f (some t)) (g (some t'))) :
    AgreeAt bound (t :: s) (t' :: s') (next >>= f) (next >>= g) :=
  fun after after' hafter hafter' => h after after' hafter hafter'

/-- With nothing left of the clause, both readers find its end, which neither may take. -/
theorem AgreeAt.next_nil {f g : Option Token → Reading α}
    (hend : ∀ token, IsEnd (token.map Token.kind) → Fails (f token) ∧ Fails (g token)) :
    AgreeAt bound [] [] (next >>= f) (next >>= g) := by
  intro after after' hafter hafter'
  obtain ⟨fault, hfault⟩ := (hend after.head? hafter).1 after.tail
  obtain ⟨fault', hfault'⟩ := (hend after'.head? hafter').2 after'.tail
  show Concur bound after after' ((f after.head?).run after.tail) ((g after'.head?).run after'.tail)
  rw [hfault, hfault']
  exact Concur.fault fault fault'

/-- **A token is taken** if the end of a clause is a fault. -/
theorem Agree.next {f g : Option Token → Reading α}
    (hend : ∀ token, IsEnd (token.map Token.kind) → Fails (f token) ∧ Fails (g token))
    (h : ∀ kind lexeme blank start start' n, size = n + 1 →
      Agree n (f (some ⟨kind, lexeme, blank, start⟩)) (g (some ⟨kind, lexeme, blank, start'⟩))) :
    Agree size (next >>= f) (next >>= g) := by
  intro s s' halike hunended hlength
  cases s with
  | nil =>
    rw [List.length_eq_zero_iff.1 halike.length.symm]
    exact AgreeAt.next_nil hend
  | cons t s =>
    obtain ⟨start, rest, rfl, hrest⟩ := halike.exists_cons
    rw [List.length_cons] at hlength
    obtain ⟨n, rfl⟩ : ∃ n, size = n + 1 := ⟨size - 1, by omega⟩
    refine AgreeAt.next_cons (AgreeAt.mono ?_ (Nat.le_succ s.length))
    exact h t.kind t.lexeme t.blank t.start start n rfl s rest hrest
      (fun u hu => hunended u (List.mem_cons_of_mem t hu)) (by omega)

/-- **A token is looked at**, the same kind by both, or an end by both; and then it is taken without
another look or left. -/
theorem Agree.peek {f g : Option TokenKind → Reading α}
    (hend : ∀ found found', IsEnd found → IsEnd found' →
      Fails (f found) ∧ Fails (g found') ∨ Agree 0 (f found) (g found'))
    (h : ∀ kind, Agree size (f (some kind)) (g (some kind)) ∨
      ∃ x y, (∀ n, size = n + 1 → Agree n x y) ∧ f (some kind) = (Reading.next >>= fun _ => x) ∧
        g (some kind) = (Reading.next >>= fun _ => y)) :
    Agree size (peek >>= f) (peek >>= g) := by
  intro s s' halike hunended hlength
  cases s with
  | nil =>
    obtain rfl := List.length_eq_zero_iff.1 halike.length.symm
    refine AgreeAt.peek_nil fun found found' hfound hfound' => ?_
    obtain ⟨hf, hg⟩ | hagree := hend found found' hfound hfound'
    · exact agreeAt_of_fails hf hg
    · exact hagree [] [] rfl unended_nil (Nat.le_refl 0)
  | cons t s =>
    obtain ⟨start, rest, rfl, hrest⟩ := halike.exists_cons
    refine AgreeAt.peek_cons rfl ?_
    obtain hleft | ⟨x, y, hskip, hf, hg⟩ := h t.kind
    · exact hleft (t :: s) _ halike hunended hlength
    · rw [hf, hg]
      rw [List.length_cons] at hlength
      obtain ⟨n, rfl⟩ : ∃ n, size = n + 1 := ⟨size - 1, by omega⟩
      refine AgreeAt.next_cons (AgreeAt.mono ?_ (Nat.le_succ s.length))
      exact hskip n rfl s rest hrest (fun u hu => hunended u (List.mem_cons_of_mem t hu)) (by omega)

/-- **A sign may be taken** that is not the end of a clause; if it is, the rest is shorter. -/
theorem Agree.accept {sign : Sign} (hs : sign ≠ .semicolon) {f g : Bool → Reading α}
    (htrue : ∀ n, size = n + 1 → Agree n (f true) (g true))
    (hfalse : Agree size (f false) (g false)) :
    Agree size (accept sign >>= f) (accept sign >>= g) := by
  intro s s' halike hunended hlength after after' hafter hafter'
  -- whether the sign is there is told by the stretch, since what follows the clause does not have
  -- it
  by_cases hhead : headKind? s = some (.sign sign)
  · cases s with
    | nil => cases hhead
    | cons t s =>
      obtain ⟨start, rest, rfl, hrest⟩ := halike.exists_cons
      have hkind : t.kind = .sign sign := Option.some.inj hhead
      have hkind' : ({ t with start := start } : Token).kind = .sign sign := hkind
      rw [List.length_cons] at hlength
      obtain ⟨n, rfl⟩ : ∃ n, size = n + 1 := ⟨size - 1, by omega⟩
      rw [List.cons_append, List.cons_append, run_bind (accept_of_kind hkind),
        run_bind (accept_of_kind hkind')]
      exact (htrue n rfl s rest hrest (fun u hu => hunended u (List.mem_cons_of_mem t hu))
        (by omega) after after' hafter hafter').mono (Nat.le_succ s.length)
  · have hnone : headKind? (s ++ after) ≠ some (.sign sign) ∧
        headKind? (s' ++ after') ≠ some (.sign sign) := by
      cases s with
      | nil =>
        rw [List.length_eq_zero_iff.1 halike.length.symm]
        exact ⟨hafter.headKind?_ne hs, hafter'.headKind?_ne hs⟩
      | cons t s =>
        obtain ⟨start, rest, rfl, hrest⟩ := halike.exists_cons
        exact ⟨hhead, hhead⟩
    rw [run_bind (accept_of_ne hnone.1), run_bind (accept_of_ne hnone.2)]
    exact hfalse s s' halike hunended hlength after after' hafter hafter'

/-! ## Guards -/

/-- The mark of a guard is looked for up to the end of the clause. -/
theorem hasGuard_eq_of_alike (halike : Alike s s') (hunended : Unended s) {after after' : List Token}
    (hafter : EndsClause after) (hafter' : EndsClause after') :
    hasGuard (s ++ after) = hasGuard (s' ++ after') := by
  have hunended' : Unended s' := by
    intro t ht
    have hmem : t.piece ∈ s.map Token.piece := halike ▸ List.mem_map_of_mem ht
    obtain ⟨u, hu, hpiece⟩ := List.mem_map.1 hmem
    have hkind : u.kind = t.kind := congrArg Piece.kind hpiece
    exact hkind ▸ hunended u hu
  have hany : ∀ tokens : List Token, (tokens.any fun t => t.kind == .sign .question) =
      (tokens.map Token.piece).any fun p => p.kind == .sign .question := by
    intro tokens
    rw [List.any_map]
    rfl
  rw [hasGuard_append hunended, hasGuard_append hunended', hasGuard_of_endsClause hafter,
    hasGuard_of_endsClause hafter', hany, hany, halike]

/-- **Both readers see the mark**, or neither does, and so both go the same way. -/
theorem Agree.hasGuard {x' y' : Reading α} (hx : Agree size x y) (hy : Agree size x' y') :
    Agree size (MonadState.get >>= fun tokens => if hasGuard tokens then x else x')
      (MonadState.get >>= fun tokens => if hasGuard tokens then y else y') := by
  intro s s' halike hunended hlength after after' hafter hafter'
  rw [run_bind (get_run _), run_bind (get_run _),
    hasGuard_eq_of_alike halike hunended hafter hafter']
  split
  · exact hx s s' halike hunended hlength after after' hafter hafter'
  · exact hy s s' halike hunended hlength after after' hafter hafter'

/-! ## Items of a timing -/

/-- An item ends with its clause. -/
theorem itemTokens_append_end {after : List Token} (h : EndsClause after) (depth : Nat) :
    itemTokens depth (s ++ after) = itemTokens depth s := by
  induction s generalizing depth with
  | nil => exact itemTokens_stop (h.endsItem depth)
  | cons t s ih =>
    rw [List.cons_append, itemTokens_cons, itemTokens_cons]
    cases depthBehind depth t.kind with
    | none => rfl
    | some d => exact congrArg (t :: ·) (ih d)

/-- Where an item ends is told by the kinds of tokens, so both items are of the same length. -/
theorem alike_itemTokens (h : Alike s s') (depth : Nat) :
    Alike (itemTokens depth s) (itemTokens depth s') := by
  induction s generalizing depth s' with
  | nil =>
    obtain rfl := List.length_eq_zero_iff.1 h.length.symm
    rfl
  | cons t s ih =>
    obtain ⟨start, rest, rfl, hrest⟩ := h.exists_cons
    rw [itemTokens_cons, itemTokens_cons]
    cases depthBehind depth t.kind with
    | none => rfl
    | some d => exact congrArg (t.piece :: ·) (ih hrest d)

/-- The text of an item is put together from the pieces. -/
theorem writtenText_eq_of_alike (h : Alike s s') : writtenText s = writtenText s' := by
  have hrest : ∀ tokens : List Token, (tokens.flatMap fun t => t.blank ++ t.lexeme) =
      (tokens.map Token.piece).flatMap fun p => p.blank ++ p.lexeme := by
    intro tokens
    rw [List.flatMap_map]
    rfl
  cases s with
  | nil =>
    obtain rfl := List.length_eq_zero_iff.1 h.length.symm
    rfl
  | cons t s =>
    obtain ⟨start, rest, rfl, halike⟩ := h.exists_cons
    rw [writtenText, writtenText, hrest, hrest, halike]

/-- An item is read from the pieces up to the end of the clause, and what stands behind it is
left. -/
theorem agree_timingItem (t : TimingSoFar) : Agree size (timingItem t) (timingItem t) := by
  intro s s' halike hunended hlength after after' hafter hafter'
  have hitem := alike_itemTokens halike 0
  obtain ⟨-, rest, hs, -, -⟩ := exists_itemTokens 0 s
  obtain ⟨-, rest', hs', -, -⟩ := exists_itemTokens 0 s'
  unfold timingItem
  rw [run_bind (get_run _), run_bind (get_run _)]
  simp only [itemTokens_append_end hafter, itemTokens_append_end hafter',
    writtenText_eq_of_alike hitem]
  generalize itemTokens 0 s = item at *
  generalize itemTokens 0 s' = item' at *
  subst hs hs'
  -- the two items are of one length, so what is left behind them is alike too
  have hrest : Alike rest rest' := by
    unfold Alike at halike
    rw [List.map_append, List.map_append, hitem] at halike
    exact List.append_cancel_left halike
  rw [List.append_assoc, List.append_assoc, List.drop_left, List.drop_left]
  cases item with
  | nil =>
    obtain rfl := List.length_eq_zero_iff.1 hitem.length.symm
    exact Concur.fault _ _
  | cons u item =>
    obtain ⟨start, others, rfl, -⟩ := hitem.exists_cons
    cases t.addItem? (writtenText ({ u with start := start } :: others)) with
    | none => exact Concur.fault _ _
    | some t' =>
      refine Concur.value t' hrest (fun v hv => hunended v (List.mem_append_right _ hv)) ?_
      rw [List.length_append]
      omega

/-! ## Clauses -/

/-- **Agreement has the rules of a lockstep**, whatever the two tokens at one place are: where one
of the readers fails the other fails too, and faults are not compared. -/
theorem lockstep_agree : Lockstep (fun _ _ => True) fun _ => Agree where
  mono := Agree.mono
  bind := Agree.bind
  pure := agree_pure
  stop hx hy := by
    intro s s' halike _ hlength after after' hafter hafter'
    obtain rfl := List.length_eq_zero_iff.1 (Nat.le_zero.1 hlength)
    obtain rfl := List.length_eq_zero_iff.1 halike.length.symm
    rw [List.nil_append, List.nil_append, hx after hafter, hy after' hafter']
    exact Concur.value _ halike unended_nil (Nat.le_refl _)
  failHere fault := agree_of_fails (fails_failHere fault) (fails_failHere fault)
  failAt _ fault := agree_of_fails (fails_failAt _ fault) (fails_failAt _ fault)
  failAt_none fault := agree_of_fails (fails_failAt none fault) (fails_failAt none fault)
  get := Agree.get
  hasGuard := Agree.hasGuard
  next hend _ h := Agree.next hend fun kind lexeme blank start start' n hn =>
    h kind lexeme blank start start' n hn trivial
  peek _ := Agree.peek
  accept hs := Agree.accept hs
  timingItem := agree_timingItem

/-- **A clause is read from its own pieces**, wherever they stand and whatever follows its end. -/
theorem agree_clause : Agree size clause clause := lockstep_agree.clause

end Reading

end AnchorLayout
