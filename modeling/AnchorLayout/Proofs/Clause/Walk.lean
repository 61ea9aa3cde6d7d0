import AnchorLayout.Proofs.Clause.Spans
/-!
# Tokens found by walking over the bytes of a text

  A walk from byte to byte sees a character beyond ASCII as several bytes, none of which it knows, and
  slices out of the text what it has passed over.

  1. **Program** — `walk`: each byte is seen as the character of its number; names and numerals are
     slices, and to slice inside a character is a crash.
  2. **Specification** — the tokens of the text, `tokens?`.
  3. **Bytes** — `cut?_bytes`: a token is cut off bytes as it is cut off characters, since it is made
     of ASCII and whatever is not ASCII ends it.
  4. **The crux (`walk_eq`)** — the walk is always at the edge of a character: it goes on over ASCII
     alone, and stops in front of everything else.
-/

namespace AnchorLayout

/-! ## Program -/

/-- The bytes of a character, each seen as the character of its number. -/
def charBytes (c : Char) : List Char := (String.utf8EncodeChar c).map Char.ofUInt8

/-- **The bytes of a text**, each seen as the character of its number. -/
def textBytes (text : String) : List Char := text.toByteArray.data.toList.map Char.ofUInt8

/-- What a walk finds: the kind of a token, and where it starts and ends. -/
structure Spanned where
  kind : TokenKind
  start : Nat
  stop : Nat

/-- What a token is, and where it starts and ends. -/
def Token.spanned (t : Token) : Spanned := ⟨t.kind, t.start, t.stop⟩

/-- Why a walk does not come to the end. -/
inductive WalkFault where
  | strayCharacter (c : Char)
  | invalidNumber

/-- A token of a kind, read from the slice that it takes up. -/
def readSlice (text : String) (start stop : Nat) :
    TokenKind → ExceptT (Nat × WalkFault) Option TokenKind
  | .number _ => do
    let digits ← slice? text start stop
    match Number.parse? digits with
    | some value => return .number value
    | none => throw (start, .invalidNumber)
  | .name _ => do return .name (← slice? text start stop)
  | .sign s => return .sign s

/-- **A walk** over the bytes that are left of a text; no result at all is a crash. -/
def walk (text : String) (start : Nat) (bytes : List Char) :
    ExceptT (Nat × WalkFault) Option (List Spanned) :=
  match bytes with
  | [] => return []
  | b :: rest =>
    if isAsciiBlank b then walk text (start + 1) rest
    else
      match _cut : cut? (b :: rest) with
      | none => do
        -- only now the character is looked at as a whole
        let left ← slice? text start text.utf8ByteSize
        throw (start, .strayCharacter (left.toList.headD b))
      | some (kind, lexeme) => do
        let stop := start + lexeme.length
        let kind ← readSlice text start stop kind
        let others ← walk text stop ((b :: rest).drop lexeme.length)
        return ⟨kind, start, stop⟩ :: others
termination_by bytes.length
decreasing_by
  · exact Nat.lt_succ_self rest.length
  · exact length_lt_of_cut? _cut

/-- The tokens found by a walk over the bytes of a text. -/
def tokensByBytes? (text : String) : Option (Except (Nat × WalkFault) (List Spanned)) :=
  (walk text 0 (textBytes text)).run

/-- What a walk finds where the tokens are known. -/
def walked : Except (Nat × Char) (List Token) → Except (Nat × WalkFault) (List Spanned)
  | .ok tokens => .ok (tokens.map Token.spanned)
  | .error (position, c) => .error (position, .strayCharacter c)

/-! ## Bytes -/

/-- The bytes of a text are those of its characters. -/
theorem textBytes_ofList (cs : List Char) : textBytes (String.ofList cs) = cs.flatMap charBytes := by
  rw [textBytes, String.toByteArray_ofList, List.utf8Encode, List.data_toByteArray, List.toList_toArray,
    List.map_flatMap]
  rfl

theorem toNat_ofUInt8 (n : Nat) : (Char.ofUInt8 (UInt8.ofNat n)).toNat = n % 256 := by
  show (UInt8.ofNat n).toUInt32.toNat = n % 256
  rw [UInt8.toNat_toUInt32, UInt8.toNat_ofNat']

/-- An ASCII character is its own byte, so on ASCII text the two walks see the same. -/
theorem charBytes_of_ascii {c : Char} (h : c.toNat < 0x80) : charBytes c = [c] := by
  have hval : c.val.toNat ≤ 127 := Nat.le_of_lt_succ h
  have hbyte : Char.ofUInt8 (UInt8.ofNat c.val.toNat) = c := by
    refine Char.ext (UInt32.toNat_inj.1 ?_)
    exact (toNat_ofUInt8 c.val.toNat).trans (Nat.mod_eq_of_lt (by omega))
  rw [charBytes, String.utf8EncodeChar]
  simp only [if_pos hval, List.map_cons, List.map_nil, hbyte]

/-- The first byte of a character beyond ASCII is beyond ASCII. -/
theorem charBytes_of_not_ascii {c : Char} (h : ¬ c.toNat < 0x80) :
    ∃ b rest, charBytes c = b :: rest ∧ ¬ b.toNat < 0x80 := by
  have hval : ¬ c.val.toNat ≤ 127 := fun hle => h (Nat.lt_succ_of_le hle)
  rw [charBytes, String.utf8EncodeChar]
  simp only [if_neg hval]
  split
  · refine ⟨_, _, rfl, ?_⟩
    rw [toNat_ofUInt8]
    omega
  split
  · refine ⟨_, _, rfl, ?_⟩
    rw [toNat_ofUInt8]
    omega
  · refine ⟨_, _, rfl, ?_⟩
    rw [toNat_ofUInt8]
    omega

/-- So is a stretch of them. -/
theorem flatMap_charBytes {cs : List Char} (ascii : ∀ c ∈ cs, c.toNat < 0x80) :
    cs.flatMap charBytes = cs := by
  induction cs with
  | nil => rfl
  | cons c cs ih =>
    rw [List.flatMap_cons, charBytes_of_ascii (ascii c List.mem_cons_self),
      ih fun d hd => ascii d (List.mem_cons_of_mem c hd)]
    rfl

theorem ascii_of_isAsciiBlank {c : Char} (h : isAsciiBlank c = true) : c.toNat < 0x80 := by
  simp only [isAsciiBlank, Bool.or_eq_true, decide_eq_true_eq] at h
  rcases h with (((rfl | rfl) | rfl) | rfl) | rfl <;> decide

/-- Only printable ASCII characters start tokens. -/
theorem printable_of_startsToken {c : Char} (h : startsToken c = true) :
    0x20 < c.toNat ∧ c.toNat < 0x80 := by
  have hbetween {a b : Char} (ha : 0x20 < a.toNat) (hb : b.toNat < 0x80)
      (hle : a.val ≤ c.val ∧ c.val ≤ b.val) : 0x20 < c.toNat ∧ c.toNat < 0x80 :=
    ⟨Nat.lt_of_lt_of_le ha hle.1, Nat.lt_of_le_of_lt hle.2 hb⟩
  have hboth {p q : Prop} [Decidable p] [Decidable q] (h : (decide p && decide q) = true) : p ∧ q :=
    (Bool.and_eq_true_iff.1 h).imp of_decide_eq_true of_decide_eq_true
  simp only [startsToken, startsName, Bool.or_eq_true, beq_iff_eq] at h
  rcases h with (hdigit | halpha | rfl) | hsign
  · exact hbetween (a := '0') (b := '9') (by decide) (by decide) (hboth hdigit)
  · rcases Bool.or_eq_true_iff.1 halpha with hupper | hlower
    · exact hbetween (a := 'A') (b := 'Z') (by decide) (by decide) (of_decide_eq_true hupper)
    · exact hbetween (a := 'a') (b := 'z') (by decide) (by decide) (hboth hlower)
  · decide
  · unfold Sign.ofChar? at hsign
    split at hsign <;> first | decide | cases hsign

/-- Tokens are ASCII, so they are as long in bytes as in characters. -/
theorem ascii_of_startsToken {c : Char} (h : startsToken c = true) : c.toNat < 0x80 :=
  (printable_of_startsToken h).2

/-- A character beyond ASCII is neither a digit nor a point nor part of a name. -/
theorem ends_of_not_ascii {c : Char} (h : ¬ c.toNat < 0x80) :
    c.isDigit = false ∧ continuesName c = false ∧ c ≠ '.' := by
  refine ⟨Bool.eq_false_iff.2 fun hdigit => h ?_, Bool.eq_false_iff.2 fun hname => h ?_, ?_⟩
  · exact ascii_of_startsToken (startsToken_of_isDigit hdigit)
  · exact ascii_of_startsToken (startsToken_of_continuesName hname)
  · rintro rfl
    exact h (by decide)

/-- The ASCII characters that a text begins with, and their bytes, which are followed by the same end:
nothing, or something beyond ASCII. -/
theorem exists_ascii_front (cs : List Char) : ∃ front behind behind',
    cs = front ++ behind ∧ cs.flatMap charBytes = front ++ behind' ∧
      (∀ c ∈ front, c.toNat < 0x80) ∧
      (behind' = [] ∨ ∃ b rest, behind' = b :: rest ∧ ¬ b.toNat < 0x80) := by
  induction cs with
  | nil => exact ⟨[], [], [], rfl, rfl, nofun, Or.inl rfl⟩
  | cons c cs ih =>
    by_cases hc : c.toNat < 0x80
    · obtain ⟨front, behind, behind', rfl, hbytes, hfront, hend⟩ := ih
      refine ⟨c :: front, behind, behind', rfl, ?_, ?_, hend⟩
      · rw [List.flatMap_cons, charBytes_of_ascii hc, hbytes]
        rfl
      · intro d hd
        rcases List.mem_cons.1 hd with rfl | hd
        · exact hc
        · exact hfront d hd
    · obtain ⟨b, rest, hbytes, hb⟩ := charBytes_of_not_ascii hc
      refine ⟨[], c :: cs, (c :: cs).flatMap charBytes, rfl, rfl, nofun,
        Or.inr ⟨b, rest ++ cs.flatMap charBytes, ?_, hb⟩⟩
      rw [List.flatMap_cons, hbytes, List.cons_append]

/-- **A token is cut off bytes** as it is cut off characters. -/
theorem cut?_bytes {lexeme rest : List Char} {kind : TokenKind}
    (h : cut? (lexeme ++ rest) = some (kind, lexeme)) :
    cut? (lexeme ++ rest.flatMap charBytes) = some (kind, lexeme) := by
  obtain ⟨front, behind, behind', rfl, hbytes, -, hend⟩ := exists_ascii_front rest
  have hfront := cut?_of_isPrefix h (List.prefix_append front behind)
  rw [hbytes, ← List.append_assoc]
  rcases hend with rfl | ⟨b, bytes, rfl, hb⟩
  · rwa [List.append_nil]
  · obtain ⟨hdigit, hname, hdot⟩ := ends_of_not_ascii hb
    have hne : lexeme ++ front ≠ [] := fun hnil =>
      (isPrefix_of_cut? h).2 (List.append_eq_nil_iff.1 hnil).1
    rw [cut?_append_end hdigit hname hdot hne]
    exact hfront

/-! ## Walking -/

/-- White space is walked over, byte by byte. -/
theorem walk_blank {text : String} {blank : List Char} (blanks : ∀ c ∈ blank, isAsciiBlank c = true)
    (start : Nat) (bytes : List Char) :
    walk text start (blank ++ bytes) = walk text (start + blank.length) bytes := by
  induction blank generalizing start with
  | nil => rfl
  | cons c blank ih =>
    rw [List.cons_append, walk, if_pos (blanks c List.mem_cons_self),
      ih (fun d hd => blanks d (List.mem_cons_of_mem c hd)), List.length_cons, Nat.add_assoc,
      Nat.add_comm 1]

/-- A byte that starts no token ends the walk.  The character that is reported is found by a slice,
which begins where the character does. -/
theorem walk_stray {text left : String} {b : Char} {bytes : List Char} {start : Nat}
    (hb : isAsciiBlank b = false) (hcut : cut? (b :: bytes) = none)
    (hleft : slice? text start text.utf8ByteSize = some left) :
    walk text start (b :: bytes) = throw (start, .strayCharacter (left.toList.headD b)) := by
  rw [walk, if_neg (by simp [hb])]
  split
  · rw [hleft]
    rfl
  · next hsome =>
    rw [hcut] at hsome
    cases hsome

/-- A token is walked over, and read from the slice it takes up. -/
theorem walk_step {text : String} {lexeme bytes : List Char} {kind : TokenKind} {start : Nat}
    (hcut : cut? (lexeme ++ bytes) = some (kind, lexeme))
    (hread : readSlice text start (start + lexeme.length) kind = pure kind) :
    walk text start (lexeme ++ bytes) =
      ((⟨kind, start, start + lexeme.length⟩ :: ·) <$> walk text (start + lexeme.length) bytes) := by
  obtain ⟨c, cs, hcs⟩ := List.exists_cons_of_ne_nil (isPrefix_of_cut? hcut).2
  have hcons : lexeme ++ bytes = c :: (cs ++ bytes) := by rw [hcs, List.cons_append]
  have hrest : (c :: (cs ++ bytes)).drop lexeme.length = bytes := by rw [← hcons, List.drop_left]
  rw [hcons] at hcut ⊢
  rw [walk, if_neg (by simp [isAsciiBlank_of_cut? hcut])]
  split
  · next hnone =>
    rw [hcut] at hnone
    cases hnone
  · next hsome =>
    rw [hcut] at hsome
    cases hsome
    simp only [hread, hrest, pure_bind]
    rfl

/-- What is read from that slice is the token that was found. -/
theorem readSlice_of_shape {text : String} {start stop : Nat} {kind : TokenKind}
    {lexeme : List Char} (shape : Shape kind lexeme)
    (hslice : slice? text start stop = some (String.ofList lexeme)) :
    readSlice text start stop kind = pure kind := by
  cases kind with
  | number value =>
    rw [readSlice, hslice]
    show (match Number.parse? (String.ofList lexeme) with
      | some value => pure (TokenKind.number value)
      | none => throw (start, WalkFault.invalidNumber)) = _
    rw [shape.parse?_number]
  | name name =>
    rw [readSlice, hslice, shape.name_eq]
    rfl
  | sign s => rfl

/-- **The walk finds the tokens of the text**, wherever in it the walk begins. -/
theorem walk_eq (front cs : List Char) :
    (walk (String.ofList (front ++ cs)) (byteLength front) (cs.flatMap charBytes)).run =
      some (walked (tokensFrom (byteLength front) cs)) := by
  induction cs using text_induction generalizing front with
  | blank cs blanks =>
    have hbytes := flatMap_charBytes fun c hc => ascii_of_isAsciiBlank (blanks c hc)
    rw [tokensFrom_blank blanks, hbytes, ← List.append_nil cs, walk_blank blanks, walk]
    rfl
  | stray blank c rest blanks hc hcut =>
    have hascii : ∀ d ∈ blank, d.toNat < 0x80 := fun d hd => ascii_of_isAsciiBlank (blanks d hd)
    have hslice := slice?_left (front ++ blank) (c :: rest)
    rw [byteLength_append, byteLength_of_ascii hascii, List.append_assoc] at hslice
    obtain ⟨b, bytes, hbytes, hb, hnone⟩ : ∃ b bytes, charBytes c ++ rest.flatMap charBytes =
        b :: bytes ∧ isAsciiBlank b = false ∧ cut? (b :: bytes) = none := by
      by_cases hc' : c.toNat < 0x80
      · rw [charBytes_of_ascii hc']
        exact ⟨c, _, rfl, hc, cut?_eq_none_iff.2 (cut?_eq_none_iff.1 hcut)⟩
      · -- the first byte is beyond ASCII as well
        obtain ⟨b, more, hmore, hb⟩ := charBytes_of_not_ascii hc'
        rw [hmore]
        refine ⟨b, _, rfl, Bool.eq_false_iff.2 fun h => hb (ascii_of_isAsciiBlank h), ?_⟩
        exact cut?_eq_none_iff.2 (Bool.eq_false_iff.2 fun h => hb (ascii_of_startsToken h))
    rw [tokensFrom_stray blanks hc hcut, List.flatMap_append, flatMap_charBytes hascii,
      walk_blank blanks, List.flatMap_cons, hbytes, walk_stray hb hnone hslice, String.toList_ofList,
      byteLength_of_ascii hascii]
    rfl
  | step blank lexeme rest kind blanks hcut ih =>
    have hblank : ∀ d ∈ blank, d.toNat < 0x80 := fun d hd => ascii_of_isAsciiBlank (blanks d hd)
    -- a token is ASCII, so the walk goes as many bytes as the reader goes characters
    have hlexeme : ∀ d ∈ lexeme, d.toNat < 0x80 := fun d hd =>
      ascii_of_startsToken ((shape_of_cut? hcut).startsToken hd)
    have hslice := slice?_append (front ++ blank) lexeme rest
    have hrest := ih (front ++ blank ++ lexeme)
    rw [byteLength_append, byteLength_append, byteLength_of_ascii hblank,
      byteLength_of_ascii hlexeme] at hrest
    rw [byteLength_append, byteLength_of_ascii hblank, byteLength_of_ascii hlexeme] at hslice
    rw [List.append_assoc, List.append_assoc] at hslice hrest
    rw [tokensFrom_step blanks hcut, List.flatMap_append, List.flatMap_append,
      flatMap_charBytes hblank, flatMap_charBytes hlexeme, walk_blank blanks,
      walk_step (cut?_bytes hcut) (readSlice_of_shape (shape_of_cut? hcut) hslice), ExceptT.run_map,
      byteLength_of_ascii hblank, byteLength_of_ascii hlexeme, hrest]
    cases tokensFrom (byteLength front + blank.length + lexeme.length) rest with
    | error fault => rfl
    | ok others =>
      have hstop : Token.stop ⟨kind, lexeme, blank, byteLength front + blank.length⟩ =
          byteLength front + blank.length + lexeme.length := by
        rw [Token.stop, byteLength_of_ascii hlexeme]
      show some (Except.ok _) = some (Except.ok (Token.spanned _ :: others.map Token.spanned))
      rw [Token.spanned, hstop]

/-- **The walk over the bytes** of a text finds its tokens, or fails where they do.  It never slices
inside a character, and every numeral is read. -/
theorem tokensByBytes?_eq (text : String) : tokensByBytes? text = some (walked (tokens? text)) := by
  have hwalk := walk_eq [] text.toList
  rw [List.nil_append, ← textBytes_ofList, String.ofList_toList] at hwalk
  exact hwalk

end AnchorLayout
