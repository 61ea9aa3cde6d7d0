import AnchorLayout.Color
import AnchorLayout.Proofs.Operation
import AnchorLayout.Proofs.Text.Slicing
/-!
# What is read as a colour

  A colour is written by name or in hexadecimal digits, but a pair of digits is read by a reader of
  numbers, and to that one a plus sign and a digit is a number as well.

  1. **Program** — `Color.parse?`, and `Color.parseBytes?`, the same by the bytes of the text: lengths
     are counted in bytes and digits are sliced out by byte.
  2. **Specification** — `Color.Form pair`: the listed names, and three, six or eight digits of which
     `pair` says which two make a channel; `DigitPair` is the documented one.
  3. **Reading (`parse?_eq_ok_iff`)** — what is read is a form, and a form is read: no name is made of
     digits.
  4. **The crux (`ofHexBytes_of_ascii`)** — only ASCII is sliced, and there bytes are characters.
-/

namespace AnchorLayout

namespace Color

/-! ## Specification -/

/-- Two hexadecimal digits and their value. -/
def DigitPair (high low : Char) (byte : Nat) : Prop :=
  ∃ x y, hexValue? high = some x ∧ hexValue? low = some y ∧ byte = 16 * x + y

/-- Two hexadecimal digits, or a plus sign and one digit. -/
def SignedPair (high low : Char) (byte : Nat) : Prop :=
  DigitPair high low byte ∨ (high = '+' ∧ hexValue? low = some byte)

/-- Three, six or eight digits of which pairs make the channels; each of the three is a pair with
itself. -/
inductive Digits (pair : Char → Char → Nat → Prop) : List Char → Color → Prop where
  | short {r g b : Char} {red green blue : Nat} (hr : DigitPair r r red) (hg : DigitPair g g green)
      (hb : DigitPair b b blue) : Digits pair [r, g, b] (ofBytes red green blue 255)
  | long {r r' g g' b b' : Char} {red green blue : Nat} (hr : pair r r' red) (hg : pair g g' green)
      (hb : pair b b' blue) : Digits pair [r, r', g, g', b, b'] (ofBytes red green blue 255)
  | full {r r' g g' b b' a a' : Char} {red green blue opacity : Nat} (hr : pair r r' red)
      (hg : pair g g' green) (hb : pair b b' blue) (ha : pair a a' opacity) :
      Digits pair [r, r', g, g', b, b', a, a'] (ofBytes red green blue opacity)

/-- **A form** of a colour: a listed name, its letters in either case, or digits with at most one `#`
in front. -/
inductive Form (pair : Char → Char → Nat → Prop) (cs : List Char) (color : Color) : Prop where
  | name (named : named? (lowerAscii (String.ofList cs)) = some color)
  | digits {front rest : List Char} (mark : front = [] ∨ front = ['#']) (split : cs = front ++ rest)
      (digits : Digits pair rest color)

/-! ## Pairs -/

/-- **A pair is read** as two digits, or as a plus sign and one: the number behind it is signed. -/
theorem hexByte?_eq_some_iff {high low : Char} {byte : Nat} :
    hexByte? high low = some byte ↔ SignedPair high low byte := by
  unfold hexByte? SignedPair DigitPair
  by_cases hplus : high = '+'
  · -- a plus sign is not a digit
    have hnone : hexValue? '+' = none := by decide
    simp [hplus, hnone]
  · simp only [hplus, false_and, or_false]
    cases hexValue? high <;> cases hexValue? low <;> simp [eq_comm]

/-- The same where a pair that cannot be read is a fault. -/
theorem hexByte_eq_ok_iff {high low : Char} {byte : Nat} :
    hexByte high low = .ok byte ↔ SignedPair high low byte := by
  rw [← hexByte?_eq_some_iff, hexByte]
  cases hexByte? high low <;> simp

/-- A digit that is doubled is no sign. -/
theorem signedPair_self_iff {c : Char} {byte : Nat} : SignedPair c c byte ↔ DigitPair c c byte := by
  refine ⟨fun h => h.resolve_right ?_, Or.inl⟩
  rintro ⟨rfl, h⟩
  have hnone : hexValue? '+' = none := by decide
  rw [hnone] at h
  cases h

/-- **Reading digits**: what is read is three, six or eight of them. -/
theorem ofHex_eq_ok_iff {text : String} {digits : List Char} {color : Color} :
    ofHex text digits = .ok color ↔ Digits SignedPair digits color := by
  constructor
  · intro h
    unfold ofHex at h
    split at h
    -- three digits, each of them doubled; then six, then eight
    · obtain ⟨red, hr, h⟩ := except_bind_eq_ok.1 h
      obtain ⟨green, hg, h⟩ := except_bind_eq_ok.1 h
      obtain ⟨blue, hb, h⟩ := except_bind_eq_ok.1 h
      obtain rfl : ofBytes _ _ _ _ = color := Except.ok.inj h
      exact .short (signedPair_self_iff.1 (hexByte_eq_ok_iff.1 hr))
        (signedPair_self_iff.1 (hexByte_eq_ok_iff.1 hg))
        (signedPair_self_iff.1 (hexByte_eq_ok_iff.1 hb))
    · obtain ⟨red, hr, h⟩ := except_bind_eq_ok.1 h
      obtain ⟨green, hg, h⟩ := except_bind_eq_ok.1 h
      obtain ⟨blue, hb, h⟩ := except_bind_eq_ok.1 h
      obtain rfl : ofBytes _ _ _ _ = color := Except.ok.inj h
      exact .long (hexByte_eq_ok_iff.1 hr) (hexByte_eq_ok_iff.1 hg) (hexByte_eq_ok_iff.1 hb)
    · obtain ⟨red, hr, h⟩ := except_bind_eq_ok.1 h
      obtain ⟨green, hg, h⟩ := except_bind_eq_ok.1 h
      obtain ⟨blue, hb, h⟩ := except_bind_eq_ok.1 h
      obtain ⟨opacity, ha, h⟩ := except_bind_eq_ok.1 h
      obtain rfl : ofBytes _ _ _ _ = color := Except.ok.inj h
      exact .full (hexByte_eq_ok_iff.1 hr) (hexByte_eq_ok_iff.1 hg) (hexByte_eq_ok_iff.1 hb)
        (hexByte_eq_ok_iff.1 ha)
    · cases h
  · intro h
    cases h with
    | short hr hg hb =>
      rw [ofHex, hexByte_eq_ok_iff.2 (Or.inl hr), hexByte_eq_ok_iff.2 (Or.inl hg),
        hexByte_eq_ok_iff.2 (Or.inl hb)]
      rfl
    | long hr hg hb =>
      rw [ofHex, hexByte_eq_ok_iff.2 hr, hexByte_eq_ok_iff.2 hg, hexByte_eq_ok_iff.2 hb]
      rfl
    | full hr hg hb ha =>
      rw [ofHex, hexByte_eq_ok_iff.2 hr, hexByte_eq_ok_iff.2 hg, hexByte_eq_ok_iff.2 hb,
        hexByte_eq_ok_iff.2 ha]
      rfl

/-! ## Names and digits -/

/-- What pairs are made of. -/
def isPairLetter (c : Char) : Bool := c = '+' || (hexValue? c).isSome

/-- Digits are ASCII, so a text of them is as long in bytes as in characters. -/
theorem hexValue?_ascii {c : Char} (h : (hexValue? c).isSome = true) : c.toNat < 0x80 := by
  have hbound : c ≤ 'f' := by
    unfold hexValue? at h
    split at h
    · next hd =>
      simp only [Char.isDigit, Bool.and_eq_true, decide_eq_true_eq] at hd
      exact le_trans (show c ≤ '9' from hd.2) (by decide)
    · split at h
      · next hc => exact hc.2
      · split at h
        · next hc => exact le_trans hc.2 (by decide)
        · cases h
  exact Nat.lt_of_le_of_lt (show c.toNat ≤ 'f'.toNat from hbound) (by decide)

theorem isPairLetter_ascii {c : Char} (h : isPairLetter c = true) : c.toNat < 0x80 := by
  rw [isPairLetter, Bool.or_eq_true, decide_eq_true_eq] at h
  rcases h with rfl | h
  · decide
  · exact hexValue?_ascii h

/-- Letters may be of either case. -/
theorem isPairLetter_toLower {c : Char} (h : isPairLetter c = true) :
    isPairLetter c.toLower = true := by
  have hall : ∀ n < 0x80, isPairLetter (Char.ofNat n) = true →
      isPairLetter (Char.ofNat n).toLower = true := by decide +kernel
  have hc := hall c.toNat (isPairLetter_ascii h)
  rw [Char.ofNat_toNat] at hc
  exact hc h

/-- Both characters of a pair are among the letters of pairs, so no mark and no white space is. -/
theorem SignedPair.letters {high low : Char} {byte : Nat} (h : SignedPair high low byte) :
    isPairLetter high = true ∧ isPairLetter low = true := by
  rcases h with ⟨x, y, hx, hy, -⟩ | ⟨rfl, hy⟩
  · simp [isPairLetter, hx, hy]
  · simp [isPairLetter, hy]

/-- All characters of a colour in digits are. -/
theorem Digits.letters {cs : List Char} {color : Color} (h : Digits SignedPair cs color) :
    ∀ c ∈ cs, isPairLetter c = true := by
  cases h with
  | short hr hg hb =>
    have hr := SignedPair.letters (Or.inl hr)
    have hg := SignedPair.letters (Or.inl hg)
    have hb := SignedPair.letters (Or.inl hb)
    simp [hr, hg, hb]
  | long hr hg hb => simp [hr.letters, hg.letters, hb.letters]
  | full hr hg hb ha => simp [hr.letters, hg.letters, hb.letters, ha.letters]

/-- **No name** is made of digits. -/
theorem named?_eq_none {cs : List Char} (h : ∀ c ∈ cs, c = '#' ∨ isPairLetter c = true) :
    named? (lowerAscii (String.ofList cs)) = none := by
  have hmade : ∀ c ∈ (lowerAscii (String.ofList cs)).toList, c = '#' ∨ isPairLetter c = true := by
    rw [lowerAscii, String.toList_ofList, String.toList_ofList]
    intro c hc
    obtain ⟨d, hd, rfl⟩ := List.mem_map.1 hc
    rcases h d hd with rfl | hd
    · exact Or.inl (by decide)
    · exact Or.inr (isPairLetter_toLower hd)
  -- every name has a letter that is not among them
  have hother (c : Char) {name : String} (hc : c ∈ name.toList)
      (hnot : ¬ (c = '#' ∨ isPairLetter c = true)) : lowerAscii (String.ofList cs) ≠ name := by
    rintro rfl
    exact hnot (hmade c hc)
  rw [named?, if_neg (hother 't' (by decide) (by decide)),
    if_neg (hother 'k' (by decide) (by decide)), if_neg (hother 'w' (by decide) (by decide)),
    if_neg (hother 'r' (by decide) (by decide)), if_neg (hother 'g' (by decide) (by decide)),
    if_neg (hother 'l' (by decide) (by decide)), if_neg]
  exact not_or.2 ⟨hother 'g' (by decide) (by decide), hother 'g' (by decide) (by decide)⟩

/-! ## Reading -/

/-- One mark in front is left out, if there is one. -/
theorem exists_mark (cs : List Char) :
    ∃ front, (front = [] ∨ front = ['#']) ∧ cs = front ++ withoutMark cs := by
  unfold withoutMark
  split
  · exact ⟨['#'], Or.inr rfl, rfl⟩
  · exact ⟨[], Or.inl rfl, rfl⟩

/-- The mark is not taken for a digit: with or without it the same digits are read. -/
theorem Digits.withoutMark_append {front rest : List Char} {color : Color}
    (h : Digits SignedPair rest color) (mark : front = [] ∨ front = ['#']) :
    withoutMark (front ++ rest) = rest := by
  rcases mark with rfl | rfl
  · unfold withoutMark
    split
    · next tail heq =>
      have hmem : '#' ∈ rest := by
        rw [List.nil_append] at heq
        rw [heq]
        exact List.mem_cons_self
      exact absurd (h.letters '#' hmem) (by decide)
    · rfl
  · rfl

/-- **What is read** is a form of a colour, a plus sign and a digit being a pair as well. -/
theorem parse?_eq_ok_iff {text : String} {color : Color} :
    parse? text = .ok color ↔ Form SignedPair (trimBlank text).toList color := by
  constructor
  · intro h
    unfold parse? at h
    dsimp only at h
    split at h
    · next found hnamed =>
      obtain rfl := Except.ok.inj h
      refine .name ?_
      rw [String.ofList_toList]
      exact hnamed
    · split at h
      · obtain ⟨front, mark, hsplit⟩ := exists_mark (trimBlank text).toList
        exact .digits mark hsplit (ofHex_eq_ok_iff.1 h)
      · cases h
  · intro h
    unfold parse?
    dsimp only
    cases h with
    | name hnamed =>
      rw [String.ofList_toList] at hnamed
      rw [hnamed]
    | @digits front rest mark hsplit hdigits =>
      -- digits are no name, so the names do not get in the way
      have hnone : named? (lowerAscii (trimBlank text)) = none := by
        rw [← String.ofList_toList (s := trimBlank text), hsplit]
        refine named?_eq_none fun c hc => ?_
        rcases List.mem_append.1 hc with hc | hc
        · rcases mark with rfl | rfl
          · cases hc
          · exact Or.inl (List.mem_singleton.1 hc)
        · exact Or.inr (hdigits.letters c hc)
      have hascii : rest.all (fun c => decide (c.toNat < 0x80)) = true :=
        List.all_eq_true.2 fun c hc => decide_eq_true (isPairLetter_ascii (hdigits.letters c hc))
      rw [hnone, hsplit, hdigits.withoutMark_append mark, if_pos hascii]
      exact ofHex_eq_ok_iff.2 hdigits

/-! ## By the bytes of a text -/

/-- A number to base sixteen, with the text at fault. -/
def hexNumber (pair : List Char) : Except ColorFault Nat :=
  match pair with
  | [high, low] => hexByte high low
  | _ => .error (.invalidPair pair)

/-- The channel of the pair at a byte; no result at all is a crash. -/
def pairAt (digits : String) (start : Nat) : ExceptT ColorFault Option Nat := do
  let pair ← slice? digits start (start + 2)
  hexNumber pair.toList

/-- The channel of the single digit at a byte. -/
def doubledAt (digits : String) (start : Nat) : ExceptT ColorFault Option Nat := do
  let digit ← slice? digits start (start + 1)
  hexNumber (digit.toList ++ digit.toList)

/-- The colour of three, six or eight bytes of digits. -/
def ofHexBytes (text digits : String) : ExceptT ColorFault Option Color :=
  match digits.utf8ByteSize with
  | 3 => do
    return ofBytes (← doubledAt digits 0) (← doubledAt digits 1) (← doubledAt digits 2) 255
  | 6 => do return ofBytes (← pairAt digits 0) (← pairAt digits 2) (← pairAt digits 4) 255
  | 8 => do
    return ofBytes (← pairAt digits 0) (← pairAt digits 2) (← pairAt digits 4) (← pairAt digits 6)
  | _ => throw (.invalidLength text)

/-- **Reading by bytes**: as `parse?`, with a crash where a slice would end inside a character. -/
def parseBytes? (text : String) : Option (Except ColorFault Color) :=
  let trimmed := trimBlank text
  match named? (lowerAscii trimmed) with
  | some color => some (.ok color)
  | none =>
    let digits := withoutMark trimmed.toList
    if digits.all fun c => c.toNat < 0x80 then (ofHexBytes trimmed (String.ofList digits)).run
    else some (.error (.notAscii trimmed))

/-- On ASCII text a pair is the slice of two bytes. -/
theorem pairAt_of_ascii (front back : List Char) {high low : Char}
    (ascii : ∀ c ∈ front ++ [high, low] ++ back, c.toNat < 0x80) :
    pairAt (String.ofList (front ++ [high, low] ++ back)) front.length =
      ExceptT.mk (some (hexByte high low)) := by
  have hslice := slice?_append front [high, low] back
  rw [byteLength_of_ascii fun c hc => ascii c (by simp [hc]),
    byteLength_of_ascii fun c hc => ascii c (by simp at hc ⊢; tauto)] at hslice
  rw [pairAt, show slice? _ front.length (front.length + 2) = _ from hslice]
  show ExceptT.mk (some (hexNumber (String.ofList [high, low]).toList)) = _
  rw [String.toList_ofList, hexNumber]

/-- And a single digit is that of one. -/
theorem doubledAt_of_ascii (front back : List Char) {digit : Char}
    (ascii : ∀ c ∈ front ++ [digit] ++ back, c.toNat < 0x80) :
    doubledAt (String.ofList (front ++ [digit] ++ back)) front.length =
      ExceptT.mk (some (hexByte digit digit)) := by
  have hslice := slice?_append front [digit] back
  rw [byteLength_of_ascii fun c hc => ascii c (by simp [hc]),
    byteLength_of_ascii fun c hc => ascii c (by simp at hc ⊢; tauto)] at hslice
  rw [doubledAt, show slice? _ front.length (front.length + 1) = _ from hslice]
  show ExceptT.mk (some (hexNumber ((String.ofList [digit]).toList ++
    (String.ofList [digit]).toList))) = _
  rw [String.toList_ofList, List.singleton_append, hexNumber]

/-- **No slice ends inside a character**: on ASCII the digits are where their bytes are. -/
theorem ofHexBytes_of_ascii {text : String} {digits : List Char}
    (ascii : ∀ c ∈ digits, c.toNat < 0x80) :
    (ofHexBytes text (String.ofList digits)).run = some (ofHex text digits) := by
  have hsize : (String.ofList digits).utf8ByteSize = digits.length := by
    rw [byteLength_ofList, byteLength_of_ascii ascii]
  unfold ofHexBytes
  rw [hsize]
  -- only three, six or eight digits are read; each is found behind those in front of it
  match digits with
  | [] | [_] | [_, _] | [_, _, _, _] | [_, _, _, _, _] | [_, _, _, _, _, _, _]
  | _ :: _ :: _ :: _ :: _ :: _ :: _ :: _ :: _ :: _ => rfl
  | [r, g, b] =>
    have hr := doubledAt_of_ascii [] [g, b] ascii
    have hg := doubledAt_of_ascii [r] [b] ascii
    have hb := doubledAt_of_ascii [r, g] [] ascii
    simp only [List.nil_append, List.cons_append, List.append_nil, List.length_nil,
      List.length_cons] at hr hg hb
    simp only [List.length_cons, List.length_nil, ofHex, hr, hg, hb]
    cases hexByte r r <;> cases hexByte g g <;> cases hexByte b b <;> rfl
  | [r, r', g, g', b, b'] =>
    have hr := pairAt_of_ascii [] [g, g', b, b'] ascii
    have hg := pairAt_of_ascii [r, r'] [b, b'] ascii
    have hb := pairAt_of_ascii [r, r', g, g'] [] ascii
    simp only [List.nil_append, List.cons_append, List.append_nil, List.length_nil,
      List.length_cons] at hr hg hb
    simp only [List.length_cons, List.length_nil, ofHex, hr, hg, hb]
    cases hexByte r r' <;> cases hexByte g g' <;> cases hexByte b b' <;> rfl
  | [r, r', g, g', b, b', a, a'] =>
    have hr := pairAt_of_ascii [] [g, g', b, b', a, a'] ascii
    have hg := pairAt_of_ascii [r, r'] [b, b', a, a'] ascii
    have hb := pairAt_of_ascii [r, r', g, g'] [a, a'] ascii
    have ha := pairAt_of_ascii [r, r', g, g', b, b'] [] ascii
    simp only [List.nil_append, List.cons_append, List.append_nil, List.length_nil,
      List.length_cons] at hr hg hb ha
    simp only [List.length_cons, List.length_nil, ofHex, hr, hg, hb, ha]
    cases hexByte r r' <;> cases hexByte g g' <;> cases hexByte b b' <;> cases hexByte a a' <;> rfl

/-- **Slicing bytes never crashes**: by the time it is done the text is known to be ASCII, or it has
been refused. -/
theorem parseBytes?_eq (text : String) : parseBytes? text = some (parse? text) := by
  unfold parseBytes? parse?
  dsimp only
  cases named? (lowerAscii (trimBlank text)) with
  | some color => rfl
  | none =>
    dsimp only
    split
    · next hascii =>
      refine ofHexBytes_of_ascii fun c hc => ?_
      exact of_decide_eq_true (List.all_eq_true.1 hascii c hc)
    · rfl

/-! ## Signs -/

/-- Pairs of another kind may be put in place of these, character by character. -/
theorem Digits.imp {pair pair' : Char → Char → Nat → Prop} {cs : List Char} {color : Color}
    (h : Digits pair cs color)
    (imp : ∀ high low byte, high ∈ cs → pair high low byte → pair' high low byte) :
    Digits pair' cs color := by
  cases h with
  | short hr hg hb => exact .short hr hg hb
  | long hr hg hb =>
    exact .long (imp _ _ _ (by simp) hr) (imp _ _ _ (by simp) hg) (imp _ _ _ (by simp) hb)
  | full hr hg hb ha =>
    exact .full (imp _ _ _ (by simp) hr) (imp _ _ _ (by simp) hg) (imp _ _ _ (by simp) hb)
      (imp _ _ _ (by simp) ha)

theorem mem_of_mem_trimBlank {text : String} {c : Char} (h : c ∈ (trimBlank text).toList) :
    c ∈ text.toList := by
  rw [trimBlank, String.toList_ofList, trimBlankChars, List.mem_reverse] at h
  have hmem := (List.dropWhile_sublist _).subset h
  exact (List.dropWhile_sublist _).subset (List.mem_reverse.1 hmem)

/-- Without a plus sign the forms are the documented ones. -/
theorem form_signedPair_iff {cs : List Char} (unsigned : '+' ∉ cs) {color : Color} :
    Form SignedPair cs color ↔ Form DigitPair cs color := by
  constructor
  · rintro (hname | ⟨mark, hsplit, hdigits⟩)
    · exact .name hname
    · refine .digits mark hsplit (hdigits.imp fun high low byte hmem hpair => ?_)
      refine hpair.resolve_right fun hplus => unsigned ?_
      rw [hsplit, ← hplus.1]
      exact List.mem_append_right _ hmem
  · rintro (hname | ⟨mark, hsplit, hdigits⟩)
    · exact .name hname
    · exact .digits mark hsplit (hdigits.imp fun _ _ _ _ => Or.inl)

/-- **What is read as a colour.**  A text is read exactly when, without the white space around it, it
is a listed name or three, six or eight hexadecimal digits with at most one `#` in front, except that
a plus sign may stand for the first digit of a pair; and the colour is what the name or the digits
say.  No slice ends inside a character on the way. -/
theorem parse?_of_text (text : String) :
    (∀ color, parse? text = .ok color ↔ Form SignedPair (trimBlank text).toList color) ∧
      ('+' ∉ text.toList →
        ∀ color, parse? text = .ok color ↔ Form DigitPair (trimBlank text).toList color) ∧
      parseBytes? text = some (parse? text) := by
  refine ⟨fun color => parse?_eq_ok_iff, fun unsigned color => ?_, parseBytes?_eq text⟩
  exact parse?_eq_ok_iff.trans (form_signedPair_iff fun hplus => unsigned (mem_of_mem_trimBlank hplus))

/-- Three pairs with a plus sign are read, and are not a documented form. -/
theorem signed_pairs_read :
    parse? "#+f+f+f" = .ok (ofBytes 15 15 15 255) ∧
      ∀ color, ¬ Form DigitPair (trimBlank "#+f+f+f").toList color := by
  have htrim : (trimBlank "#+f+f+f").toList = ['#', '+', 'f', '+', 'f', '+', 'f'] := by
    decide
  have hpair : SignedPair '+' 'f' 15 := Or.inr ⟨rfl, by decide⟩
  refine ⟨parse?_eq_ok_iff.2 (.digits (Or.inr rfl) htrim (.long hpair hpair hpair)), ?_⟩
  rintro color (hname | ⟨mark, hsplit, hdigits⟩)
  · have hnone : named? (lowerAscii (String.ofList (trimBlank "#+f+f+f").toList)) = none := by
      decide
    rw [hnone] at hname
    cases hname
  · rw [htrim] at hsplit
    rcases mark with rfl | rfl
    · -- seven characters are no colour
      cases hsplit
      cases hdigits
    · cases hsplit
      cases hdigits with
      | long hr hg hb =>
        obtain ⟨x, y, hx, -, -⟩ := hr
        have hnone : hexValue? '+' = none := by decide
        rw [hnone] at hx
        cases hx

end Color

end AnchorLayout
