import AnchorLayout.Proofs.Clause.Expression
/-!
# Guards are read back

  1. **Program** — `Condition.text`, and `conditionPart` and `condition`.
  2. **Specification** — `Condition.isSound` (what has a text that can be read), `Condition.flat`
     (a conjunction without conjunctions in it; a single part stands alone).
  3. **Parts** — an orientation is told from a comparison by its first word, which no expression
     begins with.
  4. **The crux (`text_eq_leaves`)** — the text of nested conjunctions is the text of their leaves,
     so `condition` reads the flat guard and not the nested one.
-/

namespace AnchorLayout

open Reading

namespace Condition

mutual

/-- **Sound**: sound expressions are compared by `<` or `>`, and no conjunction is empty. -/
def isSound : Condition → Bool
  | portrait _ => true
  | landscape _ => true
  | compare lhs comparison rhs => comparison != .equal && Expr.isSound lhs && Expr.isSound rhs
  | all parts => !parts.isEmpty && areSound parts

/-- Whether all of several conditions are sound. -/
def areSound : List Condition → Bool
  | [] => true
  | condition :: rest => isSound condition && areSound rest

end

mutual

/-- The parts of a condition that are not conjunctions themselves, from left to right. -/
def leaves : Condition → List Condition
  | portrait view => [portrait view]
  | landscape view => [landscape view]
  | compare lhs comparison rhs => [compare lhs comparison rhs]
  | all parts => leavesOfAll parts

/-- The leaves of several conditions. -/
def leavesOfAll : List Condition → List Condition
  | [] => []
  | condition :: rest => leaves condition ++ leavesOfAll rest

end

/-- Several parts at once, or the only one. -/
def joined : List Condition → Condition
  | [part] => part
  | parts => all parts

/-- **Flattened**: no conjunction within a conjunction, and none of a single part. -/
def flat (condition : Condition) : Condition := joined condition.leaves

/-- A condition that is its own only leaf. -/
def isLeaf : Condition → Bool
  | all _ => false
  | _ => true

/-! ## Leaves -/

/-- A sound condition has a leaf, as no conjunction in it is empty. -/
theorem leaves_ne_nil (condition : Condition) (h : condition.isSound = true) :
    condition.leaves ≠ [] := by
  induction condition using Condition.induction with
  | portrait view | landscape view | compare lhs comparison rhs => exact List.cons_ne_nil _ _
  | all parts ih =>
    cases parts with
    | nil => cases h
    | cons part rest =>
      simp only [isSound, areSound, Bool.and_eq_true] at h
      intro hnil
      exact ih part List.mem_cons_self h.2.1 (List.append_eq_nil_iff.1 hnil).1

/-- Its leaves are sound, and no conjunctions. -/
theorem isLeaf_of_mem_leaves (condition : Condition) (h : condition.isSound = true) :
    ∀ leaf ∈ condition.leaves, leaf.isLeaf = true ∧ leaf.isSound = true := by
  induction condition using Condition.induction with
  | portrait view | landscape view | compare lhs comparison rhs =>
    intro leaf hleaf
    rw [List.mem_singleton.1 hleaf]
    exact ⟨rfl, h⟩
  | all parts ih =>
    simp only [isSound, Bool.and_eq_true] at h
    obtain ⟨-, hsound⟩ := h
    intro leaf hleaf
    induction parts with
    | nil => exact absurd hleaf List.not_mem_nil
    | cons part rest ihparts =>
      simp only [areSound, Bool.and_eq_true] at hsound
      rcases List.mem_append.1 hleaf with hleaf | hleaf
      · exact ih part List.mem_cons_self hsound.1 leaf hleaf
      · exact ihparts (fun p hp => ih p (List.mem_cons_of_mem part hp)) hsound.2 hleaf

/-- **The text of a condition is the text of its leaves.** -/
theorem text_eq_leaves (condition : Condition) (h : condition.isSound = true) :
    condition.text = "&".intercalate (condition.leaves.map text) := by
  induction condition using Condition.induction with
  | portrait view | landscape view | compare lhs comparison rhs =>
    exact String.intercalate_singleton.symm
  | all parts ih =>
    simp only [isSound, Bool.and_eq_true] at h
    obtain ⟨-, hsound⟩ := h
    show "&".intercalate (texts parts) = "&".intercalate ((leavesOfAll parts).map text)
    induction parts with
    | nil => rfl
    | cons part rest ihparts =>
      simp only [areSound, Bool.and_eq_true] at hsound
      have hpart := ih part List.mem_cons_self hsound.1
      have hrest := ihparts (fun p hp => ih p (List.mem_cons_of_mem part hp)) hsound.2
      show "&".intercalate (part.text :: texts rest) =
        "&".intercalate ((part.leaves ++ leavesOfAll rest).map text)
      rw [List.map_append]
      cases rest with
      | nil =>
        -- the last part has no ampersand behind it
        rw [hpart]
        show "&".intercalate ["&".intercalate (part.leaves.map text)] =
          "&".intercalate (part.leaves.map text ++ [])
        rw [String.intercalate_singleton, List.append_nil]
      | cons next rest =>
        have hnext : next.leaves ≠ [] := by
          simp only [areSound, Bool.and_eq_true] at hsound
          exact next.leaves_ne_nil hsound.2.1
        have hleaves : (leavesOfAll (next :: rest)).map text ≠ [] := by
          intro hnil
          exact hnext (List.append_eq_nil_iff.1 (List.map_eq_nil_iff.1 hnil)).1
        have hmine : part.leaves.map text ≠ [] := fun hnil =>
          part.leaves_ne_nil hsound.1 (List.map_eq_nil_iff.1 hnil)
        rw [String.intercalate_append_of_ne_nil hmine hleaves, ← hpart, ← hrest]
        exact String.intercalate_cons_of_ne_nil (List.cons_ne_nil _ _)

theorem texts_eq_map (parts : List Condition) : texts parts = parts.map text := by
  induction parts with
  | nil => rfl
  | cons part rest ih => rw [texts, ih, List.map_cons]

/-- **A flat condition is written as it was.** -/
theorem text_flat (condition : Condition) (h : condition.isSound = true) :
    condition.flat.text = condition.text := by
  rw [condition.text_eq_leaves h, flat]
  cases condition.leaves with
  | nil => rfl
  | cons part rest =>
    cases rest with
    | nil => exact String.intercalate_singleton.symm
    | cons next rest => exact congrArg ("&".intercalate ·) (texts_eq_map (part :: next :: rest))

/-- **Equal conditions are written alike.** -/
theorem text_eq_of_same (condition condition' : Condition) (h : same condition condition' = true) :
    condition.text = condition'.text := by
  induction condition using Condition.induction generalizing condition' with
  | portrait view =>
    cases condition' with
    | portrait view' => exact congrArg (orientationText "portrait") (beq_iff_eq.1 h)
    | landscape | compare | all => cases h
  | landscape view =>
    cases condition' with
    | landscape view' => exact congrArg (orientationText "landscape") (beq_iff_eq.1 h)
    | portrait | compare | all => cases h
  | compare lhs comparison rhs =>
    cases condition' with
    | compare lhs' comparison' rhs' =>
      simp only [same, Bool.and_eq_true, beq_iff_eq] at h
      obtain ⟨⟨hl, rfl⟩, hr⟩ := h
      rw [text, text, (Expr.text_eq_of_same lhs lhs' hl).1, (Expr.text_eq_of_same rhs rhs' hr).1]
    | portrait | landscape | all => cases h
  | all parts ih =>
    cases condition' with
    | all parts' =>
      have hparts : sameAll parts parts' = true := h
      -- parts are compared one by one, so the lists are of one length
      have htexts : texts parts = texts parts' := by
        clear h
        induction parts generalizing parts' with
        | nil =>
          cases parts' with
          | nil => rfl
          | cons => cases hparts
        | cons part rest ihrest =>
          cases parts' with
          | nil => cases hparts
          | cons part' rest' =>
            simp only [sameAll, Bool.and_eq_true] at hparts
            rw [texts, texts, ih part List.mem_cons_self part' hparts.1,
              ihrest (fun p hp => ih p (List.mem_cons_of_mem part hp)) rest' hparts.2]
      rw [text, text, htexts]
    | portrait | landscape | compare => cases h

end Condition

namespace Comparison

/-- The character of a comparison. -/
def char : Comparison → Char
  | equal => '='
  | less => '<'
  | greater => '>'

/-- The token of a comparison. -/
def sign : Comparison → Sign
  | equal => .equal
  | less => .less
  | greater => .greater

variable (c : Comparison)

/-- A comparison is one character, which is cut into one sign. -/
theorem toList_symbol : c.symbol.toList = [c.char] := by cases c <;> rfl

theorem ofChar?_char : Sign.ofChar? c.char = some c.sign := by cases c <;> rfl

theorem char_ne_point : c.char ≠ '.' := by cases c <;> decide

theorem sign_plain : c.sign ≠ .semicolon ∧ c.sign ≠ .question := by cases c <;> decide

/-- No operator is written like a comparison. -/
theorem ends_of_sign {t : Token} (h : t.kind = .sign c.sign) (rest : List Token) :
    Ends (t :: rest) := by
  cases c <;> exact ends_of_kind h rfl rfl rest

end Comparison

/-! ## Parts -/

/-- Where a part of a guard ends. -/
def EndsPart (rest : List Token) : Prop :=
  Ends rest ∧ headKind? rest ≠ some (.sign .leftParen)

/-- **Read as a part** of a guard. -/
def SpellsPart (cs : List Char) (part : Condition) : Prop :=
  Spells (fun _ => conditionPart) EndsPart cs part

namespace Reading

variable {α β : Type} {tokens rest last : List Token} {t u l d : Token}

/-- A fault of the first reader is that of both. -/
theorem run_bind_error {x : Reading α} {f : α → Reading β} {fault : LocatedFault}
    (h : x.run tokens = .error fault) : (x >>= f).run tokens = .error fault := by
  show (x.run tokens >>= fun p => (f p.1).run p.2) = _
  rw [h]
  rfl

/-- **No expression begins with a word** that is neither a function nor a view. -/
theorem expr_unknown {name : String} (h : headKind? tokens = some (.name name))
    (hgap : name ≠ "gap") (hmin : name ≠ "min") (hmax : name ≠ "max")
    (hview : ViewId.parse? name = none) : ∃ fault, expr.run tokens = .error fault := by
  cases tokens with
  | nil => cases h
  | cons t rest =>
    have hkind : t.kind = .name name := Option.some.inj h
    obtain ⟨fault, hfault⟩ : ∃ fault,
        (operand (sum (t :: rest).length)).run (t :: rest) = .error fault :=
      operand_unknown hkind hgap hmin hmax hview
    refine ⟨fault, ?_⟩
    unfold expr
    rw [run_bind (get_run _), sum]
    exact run_bind_error (run_bind_error hfault)

/-- An expression takes its depth from the number of tokens, which is enough for its text. -/
theorem expr_run {ps : List Piece} {e : Expr}
    (h : ∀ depth, ps.length ≤ depth → Takes (sum depth) Ends ps e) : Takes expr Ends ps e := by
  intro tokens rest htokens hrest
  have hlength : ps.length = tokens.length := by rw [← htokens, List.length_map]
  unfold expr
  rw [run_bind (get_run _)]
  refine h _ ?_ tokens rest htokens hrest
  rw [List.length_append]
  omega

/-- Without a parenthesis there is no view. -/
theorem orientedView_none (h : headKind? rest ≠ some (.sign .leftParen)) :
    orientedView.run rest = .ok (none, rest) := by
  unfold orientedView
  rw [run_bind (accept_of_ne h)]
  rfl

/-- A view stands in parentheses behind the word. -/
theorem orientedView_some {v : ViewId} (hl : l.kind = .sign .leftParen)
    (hu : u.kind = .name v.text) (hd : d.kind = .sign .rightParen) :
    orientedView.run (l :: u :: d :: rest) = .ok (some v, rest) := by
  unfold orientedView
  rw [run_bind (accept_of_kind hl)]
  simp only [if_true]
  rw [run_bind (next_run u _), Option.map_some, hu]
  simp only
  rw [ViewId.parse?_text]
  simp only
  rw [run_bind (expect_of_kind hd)]
  rfl

/-- The words for orientations. -/
def Orients (word : String) (make : Option ViewId → Condition) : Prop :=
  (word = "portrait" ∧ make = .portrait) ∨ (word = "landscape" ∧ make = .landscape)

/-- **An orientation is read**, by either of the two words. -/
theorem conditionPart_oriented {word : String} {make : Option ViewId → Condition}
    (h : Orients word make) {view : Option ViewId} (ht : t.kind = .name word)
    (hview : orientedView.run rest = .ok (view, last)) :
    conditionPart.run (t :: rest) = .ok (make view, last) := by
  unfold conditionPart
  rw [run_bind (peek_run _), headKind?_cons, ht]
  rcases h with ⟨rfl, rfl⟩ | ⟨rfl, rfl⟩
  · simp only
    rw [run_bind (next_run t rest), run_bind hview]
    rfl
  · simp only
    rw [run_bind (next_run t rest), run_bind hview]
    rfl

/-- A part that an expression begins is a comparison. -/
theorem conditionPart_compared {e : Expr} (h : expr.run tokens = .ok (e, rest)) :
    conditionPart.run tokens = comparedExprs.run tokens := by
  unfold conditionPart
  rw [run_bind (peek_run tokens)]
  split
  · next hhead =>
    obtain ⟨fault, hfault⟩ := expr_unknown hhead (by decide) (by decide) (by decide) (by decide)
    rw [h] at hfault
    cases hfault
  · next hhead =>
    obtain ⟨fault, hfault⟩ := expr_unknown hhead (by decide) (by decide) (by decide) (by decide)
    rw [h] at hfault
    cases hfault
  · rfl

/-- **A comparison is read**, by either of the two signs. -/
theorem comparedExprs_run {lhs rhs : Expr} {c : Comparison} (hc : c ≠ .equal)
    (ht : t.kind = .sign c.sign) (hlhs : expr.run tokens = .ok (lhs, t :: rest))
    (hrhs : expr.run rest = .ok (rhs, last)) :
    comparedExprs.run tokens = .ok (.compare lhs c rhs, last) := by
  unfold comparedExprs
  rw [run_bind hlhs, run_bind (peek_run _), headKind?_cons, ht]
  cases c with
  | equal => exact absurd rfl hc
  | less | greater =>
    simp only [Comparison.sign]
    rw [run_bind (next_run t rest), run_bind hrhs]
    rfl

end Reading

/-- **Orientations are read back**, with the view in parentheses if there is one. -/
theorem spelt_orientation {word : String} {make : Option ViewId → Condition}
    (horients : Orients word make) (view : Option ViewId) :
    SpellsPart (Condition.orientationText word view).toList (make view) := by
  have hword : isName word.toList = true := by
    rcases horients with ⟨rfl, -⟩ | ⟨rfl, -⟩ <;> decide
  cases view with
  | none =>
    refine ⟨_, Lexes.lone_word hword, plain_nil.name, ?_⟩
    -- without a view the reader must not see a parenthesis behind the word, and the part ends there
    rintro depth - tokens rest htokens hrest
    obtain ⟨t, rfl, ht⟩ := List.map_eq_singleton_iff.1 htokens
    exact conditionPart_oriented horients (kind_of_name ht) (orientedView_none hrest.2)
  | some v =>
    have htext : (Condition.orientationText word (some v)).toList =
        word.toList ++ '(' :: (v.text.toList ++ [')']) := by
      unfold Condition.orientationText
      simp only [String.toList_append, List.append_assoc]
      rfl
    have hview := Lexes.lone_word v.isName_text
    rw [htext]
    refine ⟨_, Lexes.word hword rfl (lexes_parens hview), (plain_parens plain_nil.name).name, ?_⟩
    rintro depth - tokens rest htokens -
    obtain ⟨t, others, rfl, ht, hothers⟩ := List.map_eq_cons_iff.1 htokens
    obtain ⟨l, others, rfl, hl, hothers⟩ := List.map_eq_cons_iff.1 hothers
    obtain ⟨u, others, rfl, hu, hothers⟩ := List.map_eq_cons_iff.1 hothers
    obtain ⟨d, rfl, hd⟩ := List.map_eq_singleton_iff.1 hothers
    exact conditionPart_oriented horients (kind_of_name ht)
      (orientedView_some (kind_of_piece hl) (kind_of_name hu) (kind_of_piece hd))

/-- **Comparisons are read back**, with either sign. -/
theorem spelt_compare {cs ds : List Char} {lhs rhs : Expr} {c : Comparison} (hc : c ≠ .equal)
    (hlhs : SpellsSum cs lhs) (hrhs : SpellsSum ds rhs) :
    SpellsPart (cs ++ (c.symbol.toList ++ ds)) (.compare lhs c rhs) := by
  obtain ⟨ps, hlex, hps, hl⟩ := hlhs
  obtain ⟨qs, hlex', hqs, hr⟩ := hrhs
  rw [c.toList_symbol]
  refine ⟨_, hlex.append c.ofChar?_char c.char_ne_point hlex', hps.append (hqs.sign c.sign_plain),
    ?_⟩
  rintro depth - tokens rest htokens hrest
  obtain ⟨first, t, last, rfl, hfirst, ht, hlast⟩ := split_pieces htokens
  have hkind := kind_of_piece ht
  have hleft : expr.run (first ++ t :: (last ++ rest)) = .ok (lhs, t :: (last ++ rest)) :=
    expr_run hl first _ hfirst (c.ends_of_sign hkind _)
  have hright : expr.run (last ++ rest) = .ok (rhs, rest) := expr_run hr last rest hlast hrest.1
  rw [List.append_assoc, List.cons_append, conditionPart_compared hleft]
  exact comparedExprs_run hc hkind hleft hright

/-- Each leaf is read back, being an orientation or a comparison. -/
theorem exists_spelt_leaf {leaf : Condition} (hleaf : leaf.isLeaf = true)
    (h : leaf.isSound = true) :
    ∃ leaf', Condition.same leaf leaf' = true ∧ SpellsPart leaf.text.toList leaf' := by
  cases leaf with
  | portrait view =>
    exact ⟨.portrait view, by simp [Condition.same], spelt_orientation (Or.inl ⟨rfl, rfl⟩) view⟩
  | landscape view =>
    exact ⟨.landscape view, by simp [Condition.same], spelt_orientation (Or.inr ⟨rfl, rfl⟩) view⟩
  | compare lhs c rhs =>
    simp only [Condition.isSound, Bool.and_eq_true, bne_iff_ne] at h
    obtain ⟨⟨lhs', hsamel, hl⟩, -⟩ := exists_spelt_expr lhs h.1.2
    obtain ⟨⟨rhs', hsamer, hr⟩, -⟩ := exists_spelt_expr rhs h.2
    refine ⟨.compare lhs' c rhs', by simp [Condition.same, hsamel, hsamer], ?_⟩
    have hspelt := spelt_compare h.1.1 hl hr
    have htext : (Condition.text (.compare lhs c rhs)).toList =
        (Expr.text lhs).toList ++ (c.symbol.toList ++ (Expr.text rhs).toList) := by
      rw [Condition.text, String.toList_append, String.toList_append, List.append_assoc]
    rwa [htext]
  | all parts => cases hleaf

/-! ## Whole guards -/

/-- Where a guard ends. -/
def EndsGuard (rest : List Token) : Prop := Closes .ampersand EndsPart rest

/-- Equal leaves make equal conditions, also where a single one is not put into a conjunction. -/
theorem same_joined {leaves leaves' : List Condition}
    (h : Condition.sameAll leaves leaves' = true) :
    Condition.same (Condition.joined leaves) (Condition.joined leaves') = true := by
  match leaves, leaves' with
  | [], [] => rfl
  | [leaf], [leaf'] =>
    simp only [Condition.sameAll, Bool.and_true] at h
    exact h
  | leaf :: next :: leaves, leaf' :: next' :: leaves' =>
    simp only [Condition.joined, Condition.same]
    exact h
  | [], leaf' :: leaves' => cases h
  | leaf :: leaves, [] => cases h
  | [leaf], leaf' :: next' :: leaves' => simp [Condition.sameAll] at h
  | leaf :: next :: leaves, [leaf'] => simp [Condition.sameAll] at h

/-- All leaves of a sound condition are read back, one by one. -/
theorem exists_spelt_leaves {leaves : List Condition}
    (h : ∀ leaf ∈ leaves, leaf.isLeaf = true ∧ leaf.isSound = true) :
    ∃ leaves', Condition.sameAll leaves leaves' = true ∧
      List.Forall₂ SpellsPart (leaves.map fun leaf => leaf.text.toList) leaves' := by
  induction leaves with
  | nil => exact ⟨[], rfl, .nil⟩
  | cons leaf leaves ih =>
    obtain ⟨hleaf, hsound⟩ := h leaf List.mem_cons_self
    obtain ⟨leaf', hsame, hspelt⟩ := exists_spelt_leaf hleaf hsound
    obtain ⟨leaves', hsames, hspelts⟩ := ih fun l hl => h l (List.mem_cons_of_mem leaf hl)
    exact ⟨leaf' :: leaves', by simp [Condition.sameAll, hsame, hsames], .cons hspelt hspelts⟩

/-- An ampersand ends a part, and so does the mark of the guard. -/
theorem endsPart_of_kind {t : Token} {s : Sign} (h : t.kind = .sign s)
    (hs : s = .ampersand ∨ s = .question) (rest : List Token) : EndsPart (t :: rest) := by
  rcases hs with rfl | rfl
  · exact ⟨ends_of_kind h rfl rfl rest, by rw [headKind?_cons, h]; decide⟩
  · exact ⟨ends_of_kind h rfl rfl rest, by rw [headKind?_cons, h]; decide⟩

/-- The parts that have been read are joined. -/
theorem condition_run {parts : List Condition} {tokens rest : List Token}
    (h : (listOf .ampersand conditionPart).run tokens = .ok (parts, rest)) :
    condition.run tokens = .ok (Condition.joined parts, rest) := by
  unfold condition
  rw [run_bind h]
  cases parts with
  | nil => rfl
  | cons part others => cases others <;> rfl

/-- **Any sound guard is read back flattened.** -/
theorem exists_spelt_condition (c : Condition) (h : c.isSound = true) :
    ∃ c', Condition.same c.flat c' = true ∧
      Spells (fun _ => condition) EndsGuard c.text.toList c' := by
  obtain ⟨leaves', hsame, hspelt⟩ := exists_spelt_leaves (c.isLeaf_of_mem_leaves h)
  have hne : leaves' ≠ [] := by
    rintro rfl
    cases hcases : c.leaves with
    | nil => exact c.leaves_ne_nil h hcases
    | cons => rw [hcases] at hsame; cases hsame
  obtain ⟨ps, hlex, hplain, htakes⟩ := Spells.listOf (c := '&') rfl (by decide) (by decide)
    (fun _ rest ht => endsPart_of_kind ht (Or.inl rfl) rest) hspelt hne
  have htext : c.text.toList = ['&'].intercalate (c.leaves.map fun leaf => leaf.text.toList) := by
    rw [c.text_eq_leaves h, String.toList_intercalate, List.map_map]
    rfl
  rw [← htext] at hlex
  refine ⟨Condition.joined leaves', same_joined hsame, ps, hlex, hplain, ?_⟩
  intro depth hdepth tokens rest htokens hrest
  exact condition_run (htakes depth hdepth tokens rest htokens hrest)

end AnchorLayout
