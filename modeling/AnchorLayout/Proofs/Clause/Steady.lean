import AnchorLayout.Proofs.Clause.Lockstep
/-!
# Readers come to an end, and fail where a token starts

  1. **Program** — the readers of `Clause.Reader`, whose loops and whose nesting stop when they are out
     of fuel.
  2. **Specification** — `Steady`: two readers give the same, leave an end of the tokens they were
     given, and fail at a token of the text or at its end; `LoopsEnd`: fuel never runs out, so that
     every loop stops by itself.
  3. **Composition** — `Steady.bind` and the ways of taking a single token.
  4. **The crux (`lockstep_steady`)** — these are the rules of a lockstep, so that two runs of one
     reader with different fuel are steady, and every loop stops by itself (`loopsEnd`).
-/

namespace AnchorLayout

namespace Reading

/-! ## Specification -/

/-- What is read from the last tokens of a text leaves an end of them; a fault lies at a token of the
text, or at its end. -/
inductive Within {α : Type} (whole tokens : List Token) :
    Except LocatedFault (α × List Token) → Prop
  | value (a : α) {left : List Token} (behind : left <:+ tokens) : Within whole tokens (.ok (a, left))
  | fault {failure : LocatedFault}
      (known : ∀ position ∈ failure.position, ∃ t ∈ whole, t.start = position) :
      Within whole tokens (.error failure)

variable {α β : Type}

/-- Two readers give the same for the last tokens of a text. -/
def SteadyAt (whole tokens : List Token) (x y : Reading α) : Prop :=
  x.run tokens = y.run tokens ∧ Within whole tokens (x.run tokens)

/-- **Steady**: two readers give the same wherever few enough tokens of a text are left. -/
def Steady (whole : List Token) (size : Nat) (x y : Reading α) : Prop :=
  ∀ tokens, tokens <:+ whole → tokens.length ≤ size → SteadyAt whole tokens x y

/-- **A loop ends by itself**: it does the same with more fuel than there are tokens. -/
def Settled (slack : Nat) (loop : Nat → Reading α) : Prop :=
  ∀ tokens fuel, tokens.length + slack ≤ fuel →
    (loop fuel).run tokens = (loop (tokens.length + slack)).run tokens

/-- **No loop is cut off**, and no nesting either. -/
structure LoopsEnd : Prop where
  clauses : Settled 1 clauses
  timings : ∀ t, Settled 1 fun fuel => timingItems fuel t
  parts : Settled 1 (separated .ampersand conditionPart)
  arguments : ∀ depth, Settled 1 (separated .comma (sum depth))
  terms : ∀ depth left, Settled 0 fun fuel =>
    chainFrom additive? (chain multiplicative? (operand (sum depth))) fuel left
  factors : ∀ depth left, Settled 0 fun fuel =>
    chainFrom multiplicative? (operand (sum depth)) fuel left
  nesting : Settled 1 sum

/-! ## Composition -/

variable {whole tokens : List Token} {size : Nat} {x y : Reading α}

/-- What is left is an end of more tokens as well. -/
theorem Within.mono {tokens' : List Token} {r : Except LocatedFault (α × List Token)}
    (h : Within whole tokens r) (hle : tokens <:+ tokens') : Within whole tokens' r := by
  cases h with
  | value a behind => exact .value a (behind.trans hle)
  | fault known => exact .fault known

theorem Steady.mono {size' : Nat} (h : Steady whole size x y) (hle : size' ≤ size) :
    Steady whole size' x y :=
  fun tokens hin hlength => h tokens hin (Nat.le_trans hlength hle)

/-- **Composition**: what the first reader leaves is an end of the text again, and no longer. -/
theorem SteadyAt.bind {f g : α → Reading β} (hx : SteadyAt whole tokens x y)
    (hin : tokens <:+ whole) (hf : ∀ a, Steady whole tokens.length (f a) (g a)) :
    SteadyAt whole tokens (x >>= f) (y >>= g) := by
  obtain ⟨heq, hwithin⟩ := hx
  generalize hr : x.run tokens = r at heq hwithin
  unfold SteadyAt
  cases hwithin with
  | value a behind =>
    obtain ⟨heq', hwithin'⟩ := hf a _ (behind.trans hin) behind.length_le
    rw [run_bind hr, run_bind heq.symm]
    exact ⟨heq', hwithin'.mono behind⟩
  | fault known =>
    rw [run_bind_error hr, run_bind_error heq.symm]
    exact ⟨rfl, .fault known⟩

/-- The same wherever few enough tokens are left. -/
theorem Steady.bind {f g : α → Reading β} (hx : Steady whole size x y)
    (hf : ∀ a, Steady whole size (f a) (g a)) : Steady whole size (x >>= f) (y >>= g) :=
  fun tokens hin hlength => (hx tokens hin hlength).bind hin fun a => (hf a).mono hlength

theorem steady_pure (a : α) : Steady whole size (pure a) (pure a) :=
  fun tokens _ _ => ⟨rfl, .value a (List.suffix_refl tokens)⟩

/-- A fault lies at the next token, or at the end of the text. -/
theorem steady_failHere (fault : Fault) :
    Steady whole size (failHere fault : Reading α) (failHere fault) := by
  intro tokens hin _
  refine ⟨rfl, .fault fun position hposition => ?_⟩
  obtain ⟨t, hhead, hstart⟩ := Option.map_eq_some_iff.1 hposition
  exact ⟨t, hin.subset (List.mem_of_mem_head? hhead), hstart⟩

/-- A fault that was found at a token lies there. -/
theorem steady_failAt {token : Option Token} (h : ∀ t ∈ token, t ∈ whole) (fault : Fault) :
    Steady whole size (failAt token fault : Reading α) (failAt token fault) := by
  intro tokens _ _
  refine ⟨rfl, .fault fun position hposition => ?_⟩
  obtain ⟨t, htoken, hstart⟩ := Option.map_eq_some_iff.1 hposition
  exact ⟨t, h t htoken, hstart⟩

/-! ## Single tokens -/

/-- What depends on the tokens that are left may depend on them in the same way on both sides. -/
theorem Steady.get {f g : List Token → Reading α}
    (h : ∀ tokens, tokens.length ≤ size → Steady whole tokens.length (f tokens) (g tokens)) :
    Steady whole size (get >>= f) (get >>= g) :=
  fun tokens hin hlength => h tokens hlength tokens hin (Nat.le_refl _)

/-- **A token is looked at**: the same one by both, and without one there is nothing left. -/
theorem Steady.peek {f g : Option TokenKind → Reading α}
    (hnone : Steady whole 0 (f none) (g none))
    (h : ∀ kind n, size = n + 1 → Steady whole size (f (some kind)) (g (some kind))) :
    Steady whole size (peek >>= f) (peek >>= g) := by
  intro tokens hin hlength
  cases tokens with
  | nil => exact hnone [] hin (Nat.le_refl _)
  | cons t tokens =>
    obtain ⟨n, hn⟩ : ∃ n, size = n + 1 := ⟨size - 1, by rw [List.length_cons] at hlength; omega⟩
    exact h t.kind n hn (t :: tokens) hin hlength

/-- **A token is taken**, if there is one; what is left is shorter. -/
theorem Steady.next {f g : Option Token → Reading α} (hnone : Steady whole 0 (f none) (g none))
    (h : ∀ t ∈ whole, ∀ n, size = n + 1 → Steady whole n (f (some t)) (g (some t))) :
    Steady whole size (next >>= f) (next >>= g) := by
  intro tokens hin hlength
  cases tokens with
  | nil => exact hnone [] hin (Nat.le_refl _)
  | cons t tokens =>
    obtain ⟨n, rfl⟩ : ∃ n, size = n + 1 := ⟨size - 1, by rw [List.length_cons] at hlength; omega⟩
    have hbehind := List.suffix_cons t tokens
    obtain ⟨heq, hwithin⟩ := h t (hin.subset List.mem_cons_self) n rfl tokens (hbehind.trans hin)
      (Nat.le_of_succ_le_succ hlength)
    exact ⟨heq, hwithin.mono hbehind⟩

theorem steady_peek : Steady whole size Reading.peek Reading.peek :=
  fun tokens _ _ => ⟨rfl, .value (headKind? tokens) (List.suffix_refl tokens)⟩

/-- **A sign may be taken**; if it is, what is left is shorter. -/
theorem Steady.accept {sign : Sign} {f g : Bool → Reading α}
    (htrue : ∀ n, size = n + 1 → Steady whole n (f true) (g true))
    (hfalse : Steady whole size (f false) (g false)) :
    Steady whole size (accept sign >>= f) (accept sign >>= g) := by
  intro tokens hin hlength
  unfold SteadyAt
  by_cases hhead : headKind? tokens = some (.sign sign)
  · cases tokens with
    | nil => cases hhead
    | cons t tokens =>
      obtain ⟨n, rfl⟩ : ∃ n, size = n + 1 := ⟨size - 1, by rw [List.length_cons] at hlength; omega⟩
      have hbehind := List.suffix_cons t tokens
      obtain ⟨heq, hwithin⟩ :=
        htrue n rfl tokens (hbehind.trans hin) (Nat.le_of_succ_le_succ hlength)
      have hkind : t.kind = .sign sign := Option.some.inj hhead
      rw [run_bind (accept_of_kind hkind), run_bind (accept_of_kind hkind)]
      exact ⟨heq, hwithin.mono hbehind⟩
  · rw [run_bind (accept_of_ne hhead), run_bind (accept_of_ne hhead)]
    exact hfalse tokens hin hlength

/-- A sign that may be there, without anything that is done with the answer. -/
theorem steady_accept (sign : Sign) :
    Steady whole size (Reading.accept sign) (Reading.accept sign) :=
  bind_pure (Reading.accept sign) ▸
    Steady.accept (fun _ _ => steady_pure true) (steady_pure false)

/-- **An item is a front of the tokens**, and the fault that may follow lies at its first one. -/
theorem steady_timingItem (t : TimingSoFar) :
    Steady whole size (timingItem t) (timingItem t) := by
  intro tokens hin hlength
  refine ⟨rfl, ?_⟩
  unfold timingItem
  rw [run_bind (get_run _)]
  obtain ⟨-, rest, htokens, -, -⟩ := exists_itemTokens 0 tokens
  simp only
  split
  · exact (steady_failHere _ tokens hin (Nat.le_refl _)).2
  · have hitem : ∀ u ∈ (itemTokens 0 tokens).head?, u ∈ whole := fun u hu =>
      hin.subset (htokens ▸ List.mem_append_left rest (List.mem_of_mem_head? hu))
    have hbehind : tokens.drop (itemTokens 0 tokens).length <:+ tokens := List.drop_suffix _ tokens
    refine Within.mono ?_ hbehind
    cases t.addItem? (writtenText (itemTokens 0 tokens)) with
    | some t => exact .value t (List.suffix_refl _)
    | none => exact (steady_failAt hitem _ _ (hbehind.trans hin) (Nat.le_refl _)).2

/-- **Steadiness has the rules of a lockstep**, the tokens on both sides being the same ones. -/
theorem lockstep_steady (whole : List Token) :
    Lockstep (fun t t' => t ∈ whole ∧ t' = t) fun _ => Steady whole where
  mono := Steady.mono
  bind := Steady.bind
  pure := steady_pure
  stop hx hy := by
    intro tokens hin hlength
    obtain rfl := List.length_eq_zero_iff.1 (Nat.le_zero.1 hlength)
    unfold SteadyAt
    rw [hx [] (Or.inl rfl), hy [] (Or.inl rfl)]
    exact ⟨rfl, .value _ (List.suffix_refl [])⟩
  failHere := steady_failHere
  failAt hsame fault := by
    obtain ⟨ht, rfl⟩ := hsame
    exact steady_failAt (fun _ hu => Option.some.inj hu ▸ ht) fault
  failAt_none := steady_failAt fun t h => absurd h (Option.not_mem_none t)
  get h := Steady.get fun tokens hlength =>
    h tokens.length hlength tokens tokens (Nat.le_refl _) (Nat.le_refl _)
  hasGuard hx hy := by
    refine Steady.get fun tokens hlength => ?_
    split
    · exact hx.mono hlength
    · exact hy.mono hlength
  next _ hnone h := Steady.next hnone fun t ht n hn =>
    h t.kind t.lexeme t.blank t.start t.start n hn ⟨ht, rfl⟩
  peek hnone _ h := by
    refine Steady.peek hnone fun kind n hn => ?_
    -- a token that was only looked at is the one that is taken next
    obtain hleft | ⟨x, y, hskip, hf, hg⟩ := h kind
    · exact hleft
    · rw [hf, hg]
      exact Steady.next ((hskip n hn).mono (Nat.zero_le n)) fun _ _ => hskip
  accept _ := Steady.accept
  timingItem := steady_timingItem

/-! ## Clauses -/

/-- **Clauses**: every turn takes a semicolon, or it is the last one. -/
theorem steady_clauses {fuel fuel' : Nat} (hfuel : size < fuel) (hfuel' : size < fuel') :
    Steady whole size (clauses fuel) (clauses fuel') := by
  induction size using Nat.strongRecOn generalizing fuel fuel' with
  | ind size ih =>
    obtain ⟨fuel, rfl⟩ : ∃ k, fuel = k + 1 := ⟨fuel - 1, by omega⟩
    obtain ⟨fuel', rfl⟩ : ∃ k, fuel' = k + 1 := ⟨fuel' - 1, by omega⟩
    have hrest (k : Nat) (hk : size = k + 1) : Steady whole k (clauses fuel) (clauses fuel') :=
      ih k (by omega) (by omega) (by omega)
    refine Steady.accept hrest (Steady.peek (steady_pure []) fun kind _ _ => ?_)
    refine (lockstep_steady whole).clause.bind fun first => Steady.accept (fun k hk => ?_) ?_
    · exact (hrest k hk).bind fun others => steady_pure _
    · exact Steady.peek (steady_pure _) fun kind _ _ => steady_failHere _

/-! ## Loops -/

/-- Loops that are steady whenever they have enough fuel end by themselves. -/
theorem settled_of_steady {slack : Nat} {loop : Nat → Reading α}
    (h : ∀ whole size fuel fuel', size + slack ≤ fuel → size + slack ≤ fuel' →
      Steady whole size (loop fuel) (loop fuel')) : Settled slack loop :=
  fun tokens fuel hfuel => (h tokens tokens.length fuel (tokens.length + slack) hfuel (Nat.le_refl _)
    tokens (List.suffix_refl _) (Nat.le_refl _)).1

/-- **Every loop of the reader ends by itself.** -/
theorem loopsEnd : LoopsEnd where
  clauses := settled_of_steady fun _ _ _ _ => steady_clauses
  timings t := settled_of_steady fun whole _ _ _ hfuel hfuel' =>
    (lockstep_steady whole).timingItems hfuel hfuel' t
  parts := settled_of_steady fun whole size _ _ =>
    (lockstep_steady whole).separated (by decide) (lockstep_steady whole).conditionPart
      (Nat.le_refl size)
  arguments depth := settled_of_steady fun whole size _ _ =>
    (lockstep_steady whole).separated (by decide) ((lockstep_steady whole).sum_self depth)
      (Nat.le_refl size)
  terms depth left := settled_of_steady fun whole size _ _ hfuel hfuel' =>
    (lockstep_steady whole).chainFrom rfl
      ((lockstep_steady whole).chain rfl
        ((lockstep_steady whole).operand fun _ _ => (lockstep_steady whole).sum_self depth))
      (Nat.le_refl size) hfuel hfuel' left
  factors depth left := settled_of_steady fun whole size _ _ hfuel hfuel' =>
    (lockstep_steady whole).chainFrom rfl
      ((lockstep_steady whole).operand fun _ _ => (lockstep_steady whole).sum_self depth)
      (Nat.le_refl size) hfuel hfuel' left
  nesting := settled_of_steady fun whole _ _ _ => (lockstep_steady whole).sum

end Reading

end AnchorLayout
