import AnchorLayout.Clause.Reader
import AnchorLayout.Proofs.Clause.Lexing
/-!
# Readers and the texts they take

  1. **Specification** — `Takes`: a reader takes exactly the tokens of some pieces and gives a
     value, if what follows lets it stop there; `Spells`: so it does for a text.
  2. **Program** — single signs (`accept_of_kind`, `expect_of_kind`), operators of one level
     (`Extends.of_takes`, `Extends.binary`, `Extends.takes`), items with a sign between them.
  3. **The crux (`Spells.listOf`)** — a text of several items can be put together from theirs,
     because the sign between two items ends the text of the one and is what the reader of lists
     waits for.
-/

namespace AnchorLayout

/-- The kind of the first of some tokens. -/
def headKind? (tokens : List Token) : Option TokenKind := tokens.head?.map Token.kind

/-- **Taken**: whatever follows, as long as it lets the reader stop, the reader takes the tokens of
the pieces and nothing else, and gives the value. -/
def Takes {α : Type} (reader : Reading α) (follow : List Token → Prop) (ps : List Piece)
    (a : α) : Prop :=
  ∀ tokens rest, tokens.map Token.piece = ps → follow rest →
    reader.run (tokens ++ rest) = .ok (a, rest)

/-- What may follow can be restricted: a text that is read in front of more things is read in front
of fewer. -/
theorem Takes.mono {α : Type} {reader : Reading α} {follow follow' : List Token → Prop}
    {ps : List Piece} {a : α} (h : Takes reader follow ps a)
    (himp : ∀ rest, follow' rest → follow rest) : Takes reader follow' ps a :=
  fun tokens rest htokens hrest => h tokens rest htokens (himp rest hrest)

/-- Neither the end of a clause nor the mark of a guard is among the pieces. -/
def Plain (ps : List Piece) : Prop :=
  ∀ p ∈ ps, p.kind ≠ .sign .semicolon ∧ p.kind ≠ .sign .question

theorem plain_nil : Plain [] := fun _ h => absurd h List.not_mem_nil

namespace Plain

variable {ps qs : List Piece}

/-- Pieces are collected stretch by stretch, so each of the shapes below is plain as soon as its
parts are. -/
theorem append (hps : Plain ps) (hqs : Plain qs) : Plain (ps ++ qs) := by
  intro p hp
  rcases List.mem_append.1 hp with hp | hp
  · exact hps p hp
  · exact hqs p hp

theorem cons {p : Piece} (hp : p.kind ≠ .sign .semicolon ∧ p.kind ≠ .sign .question)
    (hps : Plain ps) : Plain (p :: ps) := by
  intro q hq
  rcases List.mem_cons.1 hq with rfl | hq
  · exact hp
  · exact hps q hq

/-- A sign is plain unless it is one of the two that the reader of clauses looks for. -/
theorem sign {s : Sign} {c : Char} (hs : s ≠ .semicolon ∧ s ≠ .question) (hps : Plain ps) :
    Plain (Piece.ofSign s c :: ps) :=
  hps.cons ⟨fun hkind => hs.1 (TokenKind.sign.inj hkind),
    fun hkind => hs.2 (TokenKind.sign.inj hkind)⟩

/-- Names and numbers are never looked for. -/
theorem name {cs : List Char} (hps : Plain ps) : Plain (Piece.ofName cs :: ps) :=
  hps.cons ⟨TokenKind.noConfusion, TokenKind.noConfusion⟩

theorem number {m : Magnitude} {whole fraction : List Char} (hps : Plain ps) :
    Plain (Piece.ofNumber m whole fraction :: ps) :=
  hps.cons ⟨TokenKind.noConfusion, TokenKind.noConfusion⟩

end Plain

/-- **Spelt**: the text is cut into pieces that a reader of sufficient depth takes for the value.
Nothing in it ends a clause or a guard. -/
def Spells {α : Type} (reader : Nat → Reading α) (follow : List Token → Prop) (cs : List Char)
    (a : α) : Prop :=
  ∃ ps, Lexes cs ps ∧ Plain ps ∧
    ∀ depth, ps.length ≤ depth → Takes (reader depth) follow ps a

namespace Reading

/-! ## Steps -/

variable {α β : Type} {tokens rest : List Token} {s : Sign} {t : Token}

/-- **One step of a reader**: where it succeeds, the next one goes on with what it has left.  Every
run in these modules is taken apart by this equation and the one for a fault. -/
theorem run_bind {x : Reading α} {f : α → Reading β} {a : α}
    (h : x.run tokens = .ok (a, rest)) : (x >>= f).run tokens = (f a).run rest := by
  show (x.run tokens >>= fun p => (f p.1).run p.2) = _
  rw [h]
  rfl

theorem get_run (tokens : List Token) :
    (get : Reading (List Token)).run tokens = .ok (tokens, tokens) := rfl

theorem peek_run (tokens : List Token) : peek.run tokens = .ok (headKind? tokens, tokens) := rfl

theorem next_run (t : Token) (rest : List Token) : next.run (t :: rest) = .ok (some t, rest) := rfl

theorem headKind?_cons (t : Token) (rest : List Token) : headKind? (t :: rest) = some t.kind := rfl

/-- The sign is there and taken. -/
theorem accept_of_kind (h : t.kind = .sign s) : (accept s).run (t :: rest) = .ok (true, rest) := by
  unfold accept
  rw [run_bind (peek_run _), headKind?_cons, h, if_pos rfl]
  rfl

/-- Another token is there, or none: nothing is taken and nothing fails. -/
theorem accept_of_ne (h : headKind? rest ≠ some (.sign s)) :
    (accept s).run rest = .ok (false, rest) := by
  unfold accept
  rw [run_bind (peek_run rest), if_neg h]
  rfl

/-- A sign that must be there, and is. -/
theorem expect_of_kind (h : t.kind = .sign s) : (expect s).run (t :: rest) = .ok ((), rest) := by
  unfold expect
  rw [run_bind (accept_of_kind h)]
  rfl

/-! ## Pieces -/

/-- Behind the last piece of a reader stands whatever may follow it. -/
theorem takes_nil {reader : Reading α} {follow : List Token → Prop} {a : α}
    (h : Takes reader follow [] a) (hrest : follow rest) : reader.run rest = .ok (a, rest) :=
  h [] rest rfl hrest

/-- A list of tokens whose pieces are known is taken apart where the pieces are, so that a lemma
about pieces can be used on tokens. -/
theorem split_pieces {ps qs : List Piece} {p : Piece}
    (h : tokens.map Token.piece = ps ++ p :: qs) : ∃ first t last,
      tokens = first ++ t :: last ∧ first.map Token.piece = ps ∧ t.piece = p ∧
        last.map Token.piece = qs := by
  obtain ⟨first, others, rfl, hfirst, hothers⟩ := List.map_eq_append_iff.1 h
  obtain ⟨t, last, rfl, ht, hlast⟩ := List.map_eq_cons_iff.1 hothers
  exact ⟨first, t, last, rfl, hfirst, ht, hlast⟩

/-- A token that is known by its piece is known by its kind, which is all that a reader looks
at. -/
theorem kind_of_piece {c : Char} (h : t.piece = Piece.ofSign s c) : t.kind = .sign s :=
  congrArg Piece.kind h

theorem kind_of_name {text : String} (h : t.piece = Piece.ofName text.toList) :
    t.kind = .name text :=
  (congrArg Piece.kind h).trans (congrArg TokenKind.name String.ofList_toList)

/-! ## Operators of one level -/

/-- No operator of the level comes next. -/
def Stops (operator? : TokenKind → Option BinaryOp) (rest : List Token) : Prop :=
  (headKind? rest).bind operator? = none

section

variable {operator? : TokenKind → Option BinaryOp} {reader : Reading Expr}
  {follow : List Token → Prop} {ps qs : List Piece} {x y : Expr}

/-- Where no operator of the level follows, the loop stops with what it has, and with any fuel. -/
theorem chainFrom_stop (h : Stops operator? rest) (fuel : Nat) (left : Expr) :
    (chainFrom operator? reader fuel left).run rest = .ok (left, rest) := by
  cases fuel with
  | zero => rfl
  | succ fuel =>
    unfold chainFrom
    rw [run_bind (peek_run rest), h]
    rfl

/-- **Extended**: the reader of a level has taken the tokens of the pieces for the value, and goes
on with its operators from there; the fuel that is left suffices for what follows. -/
def Extends (operator? : TokenKind → Option BinaryOp) (reader : Reading Expr)
    (follow : List Token → Prop) (ps : List Piece) (x : Expr) : Prop :=
  ∀ tokens rest, tokens.map Token.piece = ps → follow rest → ∃ fuel, rest.length ≤ fuel ∧
    (chain operator? reader).run (tokens ++ rest) = (chainFrom operator? reader fuel x).run rest

/-- An operand by itself is the shortest text of its level. -/
theorem Extends.of_takes (h : Takes reader follow ps x) :
    Extends operator? reader follow ps x := by
  intro tokens rest htokens hrest
  refine ⟨rest.length, Nat.le_refl _, ?_⟩
  unfold chain
  rw [run_bind (h tokens rest htokens hrest), run_bind (get_run rest)]

/-- **One more operation**: what has been read becomes the left operand. -/
theorem Extends.binary {op : BinaryOp} {p : Piece} (hop : operator? p.kind = some op)
    (hfollow : ∀ t rest, t.kind = p.kind → follow (t :: rest))
    (hx : Extends operator? reader follow ps x) (hy : Takes reader follow qs y) :
    Extends operator? reader follow (ps ++ p :: qs) (.binary op x y) := by
  intro tokens rest htokens hrest
  obtain ⟨first, t, last, rfl, hfirst, ht, hlast⟩ := split_pieces htokens
  have hkind : t.kind = p.kind := congrArg Piece.kind ht
  obtain ⟨fuel, hfuel, hrun⟩ := hx first (t :: (last ++ rest)) hfirst (hfollow t _ hkind)
  simp only [List.length_cons, List.length_append] at hfuel
  -- the operator itself leaves enough fuel for one more turn
  obtain ⟨fuel, rfl⟩ : ∃ n, fuel = n + 1 := ⟨fuel - 1, by omega⟩
  refine ⟨fuel, by omega, ?_⟩
  rw [List.append_assoc, List.cons_append, hrun]
  conv => lhs; unfold chainFrom
  rw [run_bind (peek_run _), headKind?_cons, hkind, Option.bind_some, hop]
  simp only
  rw [run_bind (next_run t _), run_bind (hy last rest hlast hrest)]

/-- **From the loop to the reader**: what extends the first operand is read by the reader of the
level, if what follows is no operator of it. -/
theorem Extends.takes (h : Extends operator? reader follow ps x) :
    Takes (chain operator? reader) (fun rest => follow rest ∧ Stops operator? rest) ps x := by
  intro tokens rest htokens hrest
  obtain ⟨fuel, -, hrun⟩ := h tokens rest htokens hrest.1
  rw [hrun]
  exact chainFrom_stop hrest.2 fuel x

end

/-! ## Items with a sign between them -/

section

variable {item : Nat → Reading α} {follow : List Token → Prop} {c : Char}

/-- What may follow a list: what may follow an item, and no further sign. -/
def Closes (s : Sign) (follow : List Token → Prop) (rest : List Token) : Prop :=
  follow rest ∧ headKind? rest ≠ some (.sign s)

/-- The last item of a list: no sign follows, so the loop ends. -/
theorem separated_single {reader : Reading α} {ps : List Piece} {a : α}
    (h : Takes reader follow ps a) (fuel : Nat) :
    Takes (separated s reader (fuel + 1)) (Closes s follow) ps [a] := by
  intro tokens rest htokens hrest
  unfold separated
  rw [run_bind (h tokens rest htokens hrest.1), run_bind (accept_of_ne hrest.2)]
  rfl

/-- One more item in front, with a sign behind it.  The sign must be able to follow an item, and
then the loop goes on with one fuel less. -/
theorem separated_cons {reader : Reading α} {p : Piece} {ps qs : List Piece} {a : α}
    {others : List α} (hp : p.kind = .sign s)
    (hfollow : ∀ t rest, t.kind = .sign s → follow (t :: rest)) (h : Takes reader follow ps a)
    {fuel : Nat} (hothers : Takes (separated s reader fuel) (Closes s follow) qs others) :
    Takes (separated s reader (fuel + 1)) (Closes s follow) (ps ++ p :: qs) (a :: others) := by
  intro tokens rest htokens hrest
  obtain ⟨first, t, last, rfl, hfirst, ht, hlast⟩ := split_pieces htokens
  have hkind : t.kind = .sign s := (congrArg Piece.kind ht).trans hp
  rw [List.append_assoc, List.cons_append]
  unfold separated
  rw [run_bind (h first _ hfirst (hfollow t _ hkind)), run_bind (accept_of_kind hkind)]
  simp only [if_true]
  rw [run_bind (hothers last rest hlast hrest)]
  rfl

/-- Items whose texts are known give the pieces of the whole list, and a fuel of one for each item
is enough. -/
theorem exists_separated (hc : Sign.ofChar? c = some s) (hdot : c ≠ '.')
    (hplain : s ≠ .semicolon ∧ s ≠ .question)
    (hfollow : ∀ t rest, t.kind = .sign s → follow (t :: rest)) {css : List (List Char)}
    {as : List α} (h : List.Forall₂ (Spells item follow) css as) (hne : as ≠ []) :
    ∃ ps, Lexes ([c].intercalate css) ps ∧ Plain ps ∧ as.length ≤ ps.length + 1 ∧
      ∀ depth fuel, ps.length ≤ depth → as.length ≤ fuel →
        Takes (separated s (item depth) fuel) (Closes s follow) ps as := by
  induction h with
  | nil => exact absurd rfl hne
  | @cons cs a css as hfirst hothers ih =>
    obtain ⟨ps, hlex, hps, htakes⟩ := hfirst
    cases hothers with
    | nil =>
      refine ⟨ps, by simpa using hlex, hps, by simp, ?_⟩
      intro depth fuel hdepth hfuel
      obtain ⟨fuel, rfl⟩ : ∃ n, fuel = n + 1 := ⟨fuel - 1, by simp at hfuel; omega⟩
      exact separated_single (htakes depth hdepth) fuel
    | @cons cs' a' css as hsecond hothers =>
      obtain ⟨qs, hlex', hqs, hcount, htakes'⟩ := ih (by simp)
      refine ⟨ps ++ Piece.ofSign s c :: qs, ?_, hps.append (hqs.sign hplain), ?_, ?_⟩
      · have happend := hlex.append hc hdot hlex'
        simpa using happend
      · simp only [List.length_cons, List.length_append] at hcount ⊢
        omega
      · intro depth fuel hdepth hfuel
        simp only [List.length_cons, List.length_append] at hdepth hfuel
        obtain ⟨fuel, rfl⟩ : ∃ n, fuel = n + 1 := ⟨fuel - 1, by omega⟩
        exact separated_cons rfl hfollow (htakes depth (by omega))
          (htakes' depth fuel (by omega) (by simp only [List.length_cons]; omega))

end

end Reading

/-- **Lists are put together**: items with a sign between them are read as the list of what each of
them is read as. -/
theorem Spells.listOf {α : Type} {item : Nat → Reading α} {follow : List Token → Prop} {c : Char}
    {s : Sign} (hc : Sign.ofChar? c = some s) (hdot : c ≠ '.')
    (hplain : s ≠ .semicolon ∧ s ≠ .question)
    (hfollow : ∀ t rest, t.kind = .sign s → follow (t :: rest)) {css : List (List Char)}
    {as : List α} (h : List.Forall₂ (Spells item follow) css as) (hne : as ≠ []) :
    Spells (fun depth => Reading.listOf s (item depth)) (Reading.Closes s follow)
      ([c].intercalate css) as := by
  obtain ⟨ps, hlex, hps, hcount, htakes⟩ :=
    Reading.exists_separated hc hdot hplain hfollow h hne
  refine ⟨ps, hlex, hps, ?_⟩
  intro depth hdepth tokens rest htokens hrest
  have hlength : ps.length = tokens.length := by rw [← htokens, List.length_map]
  unfold Reading.listOf
  rw [Reading.run_bind (Reading.get_run _)]
  refine htakes depth _ hdepth ?_ tokens rest htokens hrest
  rw [List.length_append]
  omega

end AnchorLayout
