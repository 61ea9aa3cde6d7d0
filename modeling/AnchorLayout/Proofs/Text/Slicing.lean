import AnchorLayout.Clause.Token
import Mathlib.Data.String.Basic
/-!
# Slicing a text by bytes

  Lengths and places in a text are counted in bytes, and the part of a text between two bytes is there
  only if neither of them lies inside a character.

  1. **Program** — `slice?`: the part between two bytes; to ask for one that is not there is a crash.
  2. **Specification** — `byteLength`, the bytes of some characters.
  3. **The crux (`slice?_append`)** — whatever stands between two other parts of a text can be sliced
     out of it, since a part ends where a character ends.
-/

namespace AnchorLayout

/-! ## Bytes -/

/-- The length in bytes is that of the library, so its lemmas serve. -/
theorem byteLength_eq_utf8Len (cs : List Char) : byteLength cs = String.utf8Len cs := by
  induction cs with
  | nil => rfl
  | cons c cs ih => rw [byteLength, String.utf8Len, ih, Nat.add_comm]

/-- Lengths add up. -/
theorem byteLength_append (cs ds : List Char) :
    byteLength (cs ++ ds) = byteLength cs + byteLength ds := by
  simp only [byteLength_eq_utf8Len, String.utf8Len_append]

theorem byteLength_ofList (cs : List Char) : (String.ofList cs).utf8ByteSize = byteLength cs := by
  rw [String.utf8ByteSize_ofList, byteLength_eq_utf8Len]

theorem byteLength_toList (text : String) : byteLength text.toList = text.utf8ByteSize := by
  rw [← byteLength_ofList, String.ofList_toList]

/-- Every character takes up a byte at least. -/
theorem byteLength_pos {cs : List Char} (h : cs ≠ []) : 0 < byteLength cs := by
  obtain ⟨c, rest, rfl⟩ := List.exists_cons_of_ne_nil h
  exact Nat.lt_of_lt_of_le c.utf8Size_pos (Nat.le_add_right _ _)

/-- An ASCII character is one byte. -/
theorem byteLength_of_ascii {cs : List Char} (ascii : ∀ c ∈ cs, c.toNat < 0x80) :
    byteLength cs = cs.length := by
  induction cs with
  | nil => rfl
  | cons c cs ih =>
    have hc : c.utf8Size = 1 := Char.utf8Size_eq_one_iff.2 (by
      have := ascii c List.mem_cons_self
      rw [UInt32.le_iff_toNat_le]
      exact Nat.le_of_lt_succ this)
    rw [byteLength, ih fun d hd => ascii d (List.mem_cons_of_mem c hd), hc, List.length_cons,
      Nat.add_comm]

/-! ## Slices -/

/-- **Slicing**: the part of a text between two bytes.  There is none if one of them is past the end
or inside a character, or if they are the wrong way round. -/
def slice? (text : String) (start stop : Nat) : Option String :=
  if String.Pos.Raw.IsValid text ⟨start⟩ ∧ String.Pos.Raw.IsValid text ⟨stop⟩ ∧ start ≤ stop then
    some (String.Pos.Raw.extract text ⟨start⟩ ⟨stop⟩)
  else none

/-- A place between two parts of a text is no place inside a character. -/
theorem isValid_append (front back : List Char) :
    String.Pos.Raw.IsValid (String.ofList (front ++ back)) ⟨byteLength front⟩ := by
  rw [String.Pos.Raw.isValid_iff_exists_append]
  refine ⟨String.ofList front, String.ofList back, String.ofList_append, ?_⟩
  rw [← byteLength_ofList]
  rfl

/-- **Whatever stands** between two other parts of a text can be sliced out. -/
theorem slice?_append (front piece back : List Char) :
    slice? (String.ofList (front ++ piece ++ back)) (byteLength front)
      (byteLength front + byteLength piece) = some (String.ofList piece) := by
  have hstart : String.Pos.Raw.IsValid (String.ofList (front ++ piece ++ back))
      ⟨byteLength front⟩ := by
    rw [List.append_assoc]
    exact isValid_append front (piece ++ back)
  have hstop := isValid_append (front ++ piece) back
  rw [byteLength_append] at hstop
  rw [slice?, if_pos ⟨hstart, hstop, Nat.le_add_right _ _⟩]
  simp only [byteLength_eq_utf8Len, String.extract_of_valid]

/-- What is left of a text behind a part of it can be sliced out. -/
theorem slice?_left (front rest : List Char) :
    slice? (String.ofList (front ++ rest)) (byteLength front)
      (String.ofList (front ++ rest)).utf8ByteSize = some (String.ofList rest) := by
  have hall := slice?_append front rest []
  rwa [List.append_nil, ← byteLength_append, ← byteLength_ofList (front ++ rest)] at hall

end AnchorLayout
