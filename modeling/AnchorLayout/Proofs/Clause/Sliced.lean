import AnchorLayout.Proofs.Clause.Steady
import AnchorLayout.Proofs.Clause.Walk
/-!
# Every text is read to its end, or to an exact place

  The items of a timing are no tokens: they are sliced out of the text, from where their first token
  starts to where their last one ends.

  1. **Program** — `clausesBySlices?`: the reader of clauses with its items sliced out of the text; to
     slice inside a character is a crash.
  2. **Specification** — `clauses?`; `Spans`, where the tokens lie, and `FaultPlace`, where a fault may.
  3. **Items** — `slices_timingItem`: an item is a stretch of the tokens of the text, so it can be
     sliced out, and there is no white space at its ends to be trimmed off.
  4. **The crux (`slices_clauses`)** — wherever an item is read, an end of the tokens of the text is
     left, as no reader leaves anything else.
-/

namespace AnchorLayout

open Reading

/-! ## Program -/

/-- Reading with slices of the text; no result at all is a crash. -/
abbrev Slicing := StateT (List Token) (ExceptT LocatedFault Option)

namespace Slicing

/-- Reading without slices. -/
def plain {α : Type} (reader : Reading α) : Slicing α := fun tokens =>
  ExceptT.mk (some (reader.run tokens))

/-- One item of a timing, sliced out of the text. -/
def timingItem (text : String) (t : TimingSoFar) : Slicing TimingSoFar := do
  let tokens ← get
  let item := itemTokens 0 tokens
  let start := (tokens.head?.map Token.start).getD text.utf8ByteSize
  let stop := (item.getLast?.map Token.stop).getD start
  if stop = start then plain (failHere .missingAnimation)
  else
    set (tokens.drop item.length)
    let piece ← slice? text start stop
    match t.addItem? (trimBlank piece) with
    | some t => return t
    | none => throw ⟨some start, .tooManyTimes⟩

/-- The items of a timing. -/
def timingItems (text : String) : Nat → TimingSoFar → Slicing Animation
  | 0, t => return t.animation
  | fuel + 1, t => do
    let t ← timingItem text t
    if (← plain (accept .comma)) then timingItems text fuel t else return t.animation

/-- A timing. -/
def timing (text : String) : Slicing Animation := do
  timingItems text ((← get).length + 1) ⟨∅, 0⟩

/-- The timing behind a colon, if there is one. -/
def clauseTiming (text : String) : Slicing (Option Animation) := do
  if (← plain (accept .colon)) then return some (← timing text) else return none

/-- One clause. -/
def clause (text : String) : Slicing Constraint := do
  let condition ← plain Reading.guard
  let target ← plain attributeName
  let comparison ← plain comparison
  let value ← plain expr
  let animation ← clauseTiming text
  return ⟨target, comparison, value, condition, animation⟩

/-- The clauses up to the end. -/
def clauses (text : String) : Nat → Slicing (List Constraint)
  | 0 => return []
  | fuel + 1 => do
    if (← plain (accept .semicolon)) then clauses text fuel
    else
      match (← plain peek) with
      | none => return []
      | some _ =>
        let first ← clause text
        if (← plain (accept .semicolon)) then return first :: (← clauses text fuel)
        else
          match (← plain peek) with
          | none => return [first]
          | found => plain (failHere (.missingEnd found))

end Slicing

/-- Clauses read with slices of their text. -/
def clausesBySlices? (text : String) : Option (Except (Nat × Fault) (List Constraint)) :=
  match tokens? text with
  | .error (position, c) => some (.error (position, .strayCharacter c))
  | .ok tokens => do
    match ← ((Slicing.clauses text (tokens.length + 1)).run tokens).run with
    | .ok (rules, _) => return .ok rules
    | .error failure => return .error (failure.position.getD text.utf8ByteSize, failure.fault)

/-! ## Specification -/

/-- **Spans** of the tokens of a text. -/
structure Spans (text : String) (tokens : List Token) : Prop where
  /-- They are in order and apart from each other. -/
  apart : tokens.Pairwise fun t u => t.stop ≤ u.start
  /-- None is empty, and none goes beyond the text. -/
  inside : ∀ t ∈ tokens, t.start < t.stop ∧ t.stop ≤ text.utf8ByteSize
  /-- Each of them begins and ends where a character does, and holds its token. -/
  slices : ∀ t ∈ tokens, slice? text t.start t.stop = some (String.ofList t.lexeme)
  /-- A character that lies in none of them is white space. -/
  between : ∀ front c back, text.toList = front ++ c :: back →
    (∀ t ∈ tokens, ¬ (t.start ≤ byteLength front ∧ byteLength front < t.stop)) →
      isAsciiBlank c = true

/-- **Where a fault may lie**. -/
inductive FaultPlace (text : String) : Nat → Prop
  | token {tokens : List Token} {t : Token} (read : tokens? text = .ok tokens) (mem : t ∈ tokens) :
      FaultPlace text t.start
  | behindTokens {tokens : List Token} (read : tokens? text = .ok tokens) :
      FaultPlace text text.utf8ByteSize
  /-- No token starts at the character, and none of those in front of it is like that. -/
  | stray {front back : List Char} {c : Char} (split : text.toList = front ++ c :: back)
      (stray : isStray c = true) (first : ∀ d ∈ front, isStray d = false) :
      FaultPlace text (byteLength front)

namespace Reading

/-- The reader with slices does the same as the one without, on whatever is left of a text. -/
def Slices {α : Type} (whole : List Token) (x : Reading α) (y : Slicing α) : Prop :=
  ∀ tokens, tokens <:+ whole → (y.run tokens).run = some (x.run tokens)

/-! ## Trimming -/

/-- No character of a token is white space. -/
theorem isBlank_of_startsToken {c : Char} (h : startsToken c = true) : isBlank c = false := by
  obtain ⟨hlow, hhigh⟩ := printable_of_startsToken h
  simp only [isBlank, Bool.or_eq_false_iff, Bool.and_eq_false_iff, decide_eq_false_iff_not]
  omega

/-- The text of an item ends with its last token. -/
theorem exists_append_lexeme {item : List Token} {u : Token} (h : item.getLast? = some u) :
    ∃ front, (writtenText item).toList = front ++ u.lexeme := by
  obtain ⟨init, rfl⟩ := List.getLast?_eq_some_iff.1 h
  cases init with
  | nil => exact ⟨[], by simp [writtenText]⟩
  | cons t init =>
    refine ⟨t.lexeme ++ (init.flatMap fun t => t.blank ++ t.lexeme) ++ u.blank, ?_⟩
    simp only [List.cons_append, writtenText, String.toList_ofList, List.flatMap_append,
      List.flatMap_cons, List.flatMap_nil, List.append_nil, List.append_assoc]

/-- **There is nothing to trim off** the text of an item. -/
theorem trimBlank_writtenText {start : Nat} {tokens : List Token} (h : Placed start tokens) :
    trimBlank (writtenText tokens) = writtenText tokens := by
  have hlexeme {t : Token} (ht : t ∈ tokens) :
      t.lexeme ≠ [] ∧ ∀ c ∈ t.lexeme, isBlank c = false :=
    ⟨(isPrefix_of_cut? (h.cut ht)).2,
      fun c hc => isBlank_of_startsToken ((shape_of_cut? (h.cut ht)).startsToken hc)⟩
  refine trimBlank_eq_self_iff.2 ⟨fun c hc => ?_, fun c hc => ?_⟩
  · cases tokens with
    | nil => cases hc
    | cons t rest =>
      obtain ⟨hne, hblank⟩ := hlexeme List.mem_cons_self
      rw [writtenText, String.toList_ofList, List.head?_append_of_ne_nil _ hne] at hc
      exact hblank c (List.mem_of_mem_head? hc)
  · cases hlast : tokens.getLast? with
    | none =>
      rw [List.getLast?_eq_none_iff.1 hlast] at hc
      cases hc
    | some u =>
      obtain ⟨hne, hblank⟩ := hlexeme (List.mem_of_getLast? hlast)
      obtain ⟨front, hfront⟩ := exists_append_lexeme hlast
      rw [hfront, List.getLast?_append_of_ne_nil _ hne] at hc
      exact hblank c (List.mem_of_getLast? hc)

/-! ## Slices of items -/

variable {α β : Type} {whole : List Token} {text : String} {behind : List Char}

theorem slices_plain (x : Reading α) : Slices whole x (Slicing.plain x) := fun _ _ => rfl

theorem slices_pure (a : α) : Slices whole (pure a) (pure a) := fun _ _ => rfl

/-- One reading after another slices as its parts do. -/
theorem run_slicing_bind {tokens : List Token} {x : Reading α} {y : Slicing α} {f : α → Reading β}
    {g : α → Slicing β} (hx : (y.run tokens).run = some (x.run tokens))
    (hf : ∀ a left, x.run tokens = .ok (a, left) →
      ((g a).run left).run = some ((f a).run left)) :
    ((y >>= g).run tokens).run = some ((x >>= f).run tokens) := by
  show (y.run tokens >>= fun read => (g read.1).run read.2).run = _
  rw [ExceptT.run_bind, hx, Option.bind_eq_bind, Option.bind_some]
  cases hr : x.run tokens with
  | ok read =>
    rw [run_bind (a := read.1) hr]
    exact hf read.1 read.2 hr
  | error failure =>
    rw [run_bind_error hr]
    rfl

/-- What is read next begins in the same text. -/
theorem Slices.bind {x : Reading α} {y : Slicing α} {f : α → Reading β} {g : α → Slicing β}
    (hx : Slices whole x y) (hsteady : ∀ size, Steady whole size x x)
    (hf : ∀ a, Slices whole (f a) (g a)) : Slices whole (x >>= f) (y >>= g) := by
  intro tokens hin
  refine run_slicing_bind (hx tokens hin) fun a left hrun => ?_
  have hwithin := (hsteady tokens.length tokens hin (Nat.le_refl _)).2
  rw [hrun] at hwithin
  cases hwithin with
  | value _ hleft => exact hf a left (hleft.trans hin)

/-- Nothing more is read. -/
theorem Slices.map {x : Reading α} {y : Slicing α} (hx : Slices whole x y) (f : α → β) :
    Slices whole (x >>= fun a => pure (f a)) (y >>= fun a => pure (f a)) :=
  fun tokens hin => run_slicing_bind (hx tokens hin) fun _ _ _ => rfl

/-- A reader that slices nothing is asked first. -/
theorem Slices.plain_bind {x : Reading α} {f : α → Reading β} {g : α → Slicing β}
    (hsteady : ∀ size, Steady whole size x x) (hf : ∀ a, Slices whole (f a) (g a)) :
    Slices whole (x >>= f) (Slicing.plain x >>= g) := (slices_plain x).bind hsteady hf

/-- **An item** is a stretch of tokens, so it can be sliced out of the text. -/
theorem slices_timingItem (hplaced : Placed 0 whole) (htext : text.toList = spelled whole ++ behind)
    (t : TimingSoFar) : Slices whole (timingItem t) (Slicing.timingItem text t) := by
  rintro tokens ⟨front, rfl⟩
  obtain ⟨-, rest, htokens, -, -⟩ := exists_itemTokens 0 tokens
  unfold Slicing.timingItem timingItem
  rw [StateT.run_bind, StateT.run_get, pure_bind, run_bind (get_run _)]
  generalize itemTokens 0 tokens = item at *
  subst htokens
  cases item with
  | nil =>
    simp only [List.getLast?_nil, Option.map_none, Option.getD_none, if_pos]
    rfl
  | cons first item =>
    obtain ⟨last, hlast⟩ : ∃ last, (first :: item).getLast? = some last :=
      ⟨_, List.getLast?_eq_some_getLast (List.cons_ne_nil _ _)⟩
    -- the item ends where its last token does, so the slice is the text of the item
    have hslice := hplaced.slice?_writtenText item behind hlast
    have hstop := hplaced.stop_last item hlast
    have hfirst := hplaced.cut (List.mem_append_right front (List.mem_append_left rest
      (List.mem_cons_self (a := first) (l := item))))
    have hne : last.stop ≠ first.start := by
      have hpos := byteLength_pos (isPrefix_of_cut? hfirst).2
      rw [hstop, writtenText, String.toList_ofList, byteLength_append]
      omega
    -- nothing is trimmed, as the slice begins and ends with a token
    have htrim : trimBlank (writtenText (first :: item)) = writtenText (first :: item) :=
      trimBlank_writtenText hplaced.drop.before
    rw [← htext, String.ofList_toList] at hslice
    simp only [List.cons_append, List.head?_cons, Option.map_some, Option.getD_some, hlast,
      if_neg hne, List.isEmpty_cons]
    rw [← List.cons_append, List.drop_left, if_neg Bool.false_ne_true]
    have hlift : (liftM (some (writtenText (first :: item))) : Slicing String) =
      pure (writtenText (first :: item)) := rfl
    simp only [hslice, hlift, pure_bind, htrim]
    cases t.addItem? (writtenText (first :: item)) <;> rfl

/-! ## Clauses -/

section

variable (hplaced : Placed 0 whole) (htext : text.toList = spelled whole ++ behind)

include hplaced htext

theorem slices_timingItems (fuel : Nat) (t : TimingSoFar) :
    Slices whole (timingItems fuel t) (Slicing.timingItems text fuel t) := by
  induction fuel generalizing t with
  | zero => exact slices_pure _
  | succ fuel ih =>
    refine (slices_timingItem hplaced htext t).bind (fun _ => steady_timingItem t) fun t => ?_
    refine Slices.plain_bind (fun _ => steady_accept .comma) fun more => ?_
    cases more with
    | true => exact ih t
    | false => exact slices_pure _

theorem slices_timing : Slices whole timing (Slicing.timing text) :=
  fun tokens hin => slices_timingItems hplaced htext (tokens.length + 1) ⟨∅, 0⟩ tokens hin

theorem slices_clauseTiming : Slices whole clauseTiming (Slicing.clauseTiming text) := by
  refine Slices.plain_bind (fun _ => steady_accept .colon) fun timed => ?_
  cases timed with
  | true =>
    exact (slices_timing hplaced htext).map _
  | false => exact slices_pure none

theorem slices_clause : Slices whole clause (Slicing.clause text) :=
  Slices.plain_bind (fun _ => (lockstep_steady whole).guard) fun _ =>
    Slices.plain_bind (fun _ => (lockstep_steady whole).attributeName) fun _ =>
      Slices.plain_bind (fun _ => (lockstep_steady whole).comparison) fun _ =>
        Slices.plain_bind (fun _ => (lockstep_steady whole).expr) fun _ =>
          (slices_clauseTiming hplaced htext).map _

/-- **Clauses are read with slices** as they are read without, however many there are. -/
theorem slices_clauses (fuel : Nat) :
    Slices whole (clauses fuel) (Slicing.clauses text fuel) := by
  induction fuel with
  | zero => exact slices_pure []
  | succ fuel ih =>
    refine Slices.plain_bind (fun _ => steady_accept .semicolon) fun skipped => ?_
    cases skipped with
    | true => exact ih
    | false =>
      refine Slices.plain_bind (fun _ => steady_peek) fun found => ?_
      cases found with
      | none => exact slices_pure []
      | some kind =>
        refine (slices_clause hplaced htext).bind (fun _ => (lockstep_steady whole).clause)
          fun first => ?_
        refine Slices.plain_bind (fun _ => steady_accept .semicolon) fun more => ?_
        cases more with
        | true => exact ih.map _
        | false =>
          refine Slices.plain_bind (fun _ => steady_peek) fun found => ?_
          cases found with
          | none => exact slices_pure _
          | some kind => exact slices_plain _

end

end Reading

/-- **Slices are where they are looked for**: the items of a timing are in the text. -/
theorem clausesBySlices?_eq (text : String) : clausesBySlices? text = some (clauses? text) := by
  unfold clausesBySlices? clauses?
  cases hread : tokens? text with
  | error fault => rfl
  | ok tokens =>
    obtain ⟨hplaced, behind, htext, -⟩ := placed_of_tokens hread
    simp only
    rw [slices_clauses hplaced htext _ tokens (List.suffix_refl _)]
    cases (clauses (tokens.length + 1)).run tokens <;> rfl

/-! ## Places -/

variable {text : String} {tokens : List Token} {position : Nat} {fault : Fault}

theorem spans_of_tokens (h : tokens? text = .ok tokens) : Spans text tokens := by
  obtain ⟨hplaced, behind, htext, hblank⟩ := placed_of_tokens h
  refine ⟨hplaced.pairwise, fun t ht => ⟨hplaced.start_lt_stop ht, ?_⟩, fun t ht => ?_,
    fun front c back hsplit houtside => ?_⟩
  · rw [← byteLength_toList, htext]
    exact hplaced.stop_le ht
  · have hslice := hplaced.slice?_token behind ht
    rwa [← htext, String.ofList_toList] at hslice
  · refine hplaced.blank_of_outside hblank (htext.symm.trans hsplit) fun t ht => ?_
    rw [Nat.zero_add]
    exact houtside t ht

theorem FaultPlace.le (h : FaultPlace text position) : position ≤ text.utf8ByteSize := by
  cases h with
  | token read mem =>
    obtain ⟨hlt, hle⟩ := (spans_of_tokens read).inside _ mem
    exact Nat.le_trans (Nat.le_of_lt hlt) hle
  | behindTokens read => exact Nat.le_refl _
  | stray split stray first =>
    rw [← byteLength_toList, split, byteLength_append]
    exact Nat.le_add_right _ _

/-- **A fault** lies at a token, behind all of them, or at a character that starts none. -/
theorem faultPlace_of_clauses (h : clauses? text = .error (position, fault)) :
    FaultPlace text position := by
  unfold clauses? at h
  cases hread : tokens? text with
  | error stray =>
    obtain ⟨start, c⟩ := stray
    rw [hread] at h
    cases h
    -- no tokens: the fault is the first character that none can start with
    obtain ⟨front, back, hsplit, rfl, hstray, hfirst⟩ := stray_of_tokens hread
    rw [Nat.zero_add]
    exact .stray hsplit hstray hfirst
  | ok tokens =>
    rw [hread] at h
    simp only at h
    -- there are tokens, and the reader is steady, so its fault lies at one of them or at the end
    have hwithin := (steady_clauses (Nat.lt_succ_self _) (Nat.lt_succ_self _) tokens
      (List.suffix_refl tokens) (Nat.le_refl _)).2
    generalize (clauses (tokens.length + 1)).run tokens = r at h hwithin
    cases hwithin with
    | value a behind => cases h
    | @fault failure known =>
      cases h
      cases hposition : failure.position with
      | none => exact .behindTokens hread
      | some start =>
        obtain ⟨t, ht, rfl⟩ := known start hposition
        exact .token hread ht

/-- No message is about an invalid number: each of them begins differently. -/
theorem Fault.message_ne (fault : Fault) : fault.message ≠ "invalid number" := by
  intro h
  have hchars := congrArg String.toList h
  cases fault <;> (delta Fault.message at hchars; simp at hchars)

/-- **Reading is total, and exact in its places.**  Every loop comes to its end by itself.  Tokens are
found by walking over bytes, and items by slicing the text, without ever slicing inside a character or
out of range.  The tokens lie apart from each other in the text, with nothing but white space around
them.  A fault lies within the text, at a token, behind the last one, or at the first character that
starts none; and none is about a number. -/
theorem reading_of_text (text : String) : LoopsEnd ∧
    tokensByBytes? text = some (walked (tokens? text)) ∧
    clausesBySlices? text = some (clauses? text) ∧
    (∀ tokens, tokens? text = .ok tokens → Spans text tokens) ∧
    ∀ position fault, clauses? text = .error (position, fault) →
      position ≤ text.utf8ByteSize ∧ FaultPlace text position ∧
        fault.message ≠ "invalid number" :=
  ⟨loopsEnd, tokensByBytes?_eq text, clausesBySlices?_eq text, fun _ => spans_of_tokens,
    fun _ fault h => ⟨(faultPlace_of_clauses h).le, faultPlace_of_clauses h, fault.message_ne⟩⟩

end AnchorLayout
