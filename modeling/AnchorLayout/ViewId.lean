import AnchorLayout.Number.Reader
/-!
# View identifiers

  A view is known by a 32-bit number, written `id7`.

  Program        `ViewId.text`, `ViewId.parse?`; `ViewSet.insert`, `erase`.
  Specification  a `ViewSet` is the strictly ascending list of its members.
  Crux           `ViewSet.mem_insert`, `mem_erase`: the list says what the set holds, and the proof
                 of its order travels with it.
-/

namespace AnchorLayout

/-- The identifier of a view in its session. -/
structure ViewId where
  number : UInt32
deriving DecidableEq, Inhabited

namespace ViewId

/-- The identifier as it is written on the wire. -/
def text (v : ViewId) : String := "id" ++ toString v.number.toNat

/-- An unsigned 32-bit number: an optional `+` and digits, however many zeros in front. -/
def number? (cs : List Char) : Option UInt32 :=
  let digits := match cs with
    | '+' :: rest => rest
    | rest => rest
  (Number.natural? digits).bind fun n => if n < UInt32.size then some (UInt32.ofNat n) else none

/-- **Reading** the wire form. -/
def parse? (text : String) : Option ViewId :=
  match text.toList with
  | 'i' :: 'd' :: rest => (number? rest).map ViewId.mk
  | _ => none

/-- The order of issue. -/
instance : LT ViewId := ⟨fun a b => a.number < b.number⟩

instance (a b : ViewId) : Decidable (a < b) := inferInstanceAs (Decidable (a.number < b.number))

/-- Identifiers are ordered as the numbers that they are issued by. -/
theorem lt_iff {a b : ViewId} : a < b ↔ a.number.toNat < b.number.toNat := UInt32.lt_iff_toNat_lt

theorem eq_of_toNat_eq {a b : ViewId} (h : a.number.toNat = b.number.toNat) : a = b := by
  cases a; cases b
  exact congrArg ViewId.mk (UInt32.toNat_inj.1 h)

theorem lt_trans {a b c : ViewId} (h : a < b) (h' : b < c) : a < c := by
  rw [lt_iff] at *
  omega

/-- Of two identifiers one was issued first, unless they are one. -/
theorem lt_or_eq_or_gt (a b : ViewId) : a < b ∨ a = b ∨ b < a := by
  rw [lt_iff, lt_iff]
  rcases Nat.lt_trichotomy a.number.toNat b.number.toNat with h | h | h
  · exact Or.inl h
  · exact Or.inr (Or.inl (eq_of_toNat_eq h))
  · exact Or.inr (Or.inr h)

theorem lt_irrefl (a : ViewId) : ¬ a < a := by
  rw [lt_iff]
  omega

end ViewId

/-! ## Sets of views -/

/-- A set of views, listed in ascending order. -/
structure ViewSet where
  toList : List ViewId
  ascending : toList.Pairwise (· < ·)

namespace ViewSet

/-- The set without views. -/
def empty : ViewSet := ⟨[], List.Pairwise.nil⟩

instance : EmptyCollection ViewSet := ⟨empty⟩

instance : Inhabited ViewSet := ⟨empty⟩

/-- Whether a view is in the set. -/
def contains (s : ViewSet) (v : ViewId) : Bool := s.toList.contains v

theorem ext {s t : ViewSet} (h : s.toList = t.toList) : s = t := by
  cases s; cases t; cases h; rfl

/-- What is in the set is what is listed. -/
theorem contains_iff {s : ViewSet} {v : ViewId} : s.contains v = true ↔ v ∈ s.toList := by
  simp [contains]

/-- A view put into an ascending list, unless it is there. -/
def place (v : ViewId) : List ViewId → List ViewId
  | [] => [v]
  | w :: rest => if v < w then v :: w :: rest else if w = v then w :: rest else w :: place v rest

/-- Putting a view in loses none. -/
theorem mem_place {v w : ViewId} {l : List ViewId} : w ∈ place v l ↔ w = v ∨ w ∈ l := by
  induction l with
  | nil => simp [place]
  | cons x rest ih =>
    by_cases h : v < x
    · simp [place, h]
    · by_cases hx : x = v
      · subst hx; simp [place, h]
      · simp only [place, h, hx, if_false, List.mem_cons, ih]
        grind

/-- **The list stays ascending**, which is the order in which updates are sent. -/
theorem pairwise_place (v : ViewId) {l : List ViewId} (h : l.Pairwise (· < ·)) :
    (place v l).Pairwise (· < ·) := by
  induction l with
  | nil => simp [place]
  | cons x rest ih =>
    rw [List.pairwise_cons] at h
    by_cases hv : v < x
    · simp only [place, hv, if_true, List.pairwise_cons, List.mem_cons]
      refine ⟨?_, h.1, h.2⟩
      rintro y (rfl | hy)
      · exact hv
      · exact ViewId.lt_trans hv (h.1 y hy)
    · by_cases hx : x = v
      · subst hx
        simp only [place, hv, if_true, if_false]
        exact List.pairwise_cons.2 h
      · simp only [place, hv, hx, if_false, List.pairwise_cons]
        refine ⟨?_, ih h.2⟩
        intro y hy
        rcases mem_place.1 hy with rfl | hy
        · rcases ViewId.lt_or_eq_or_gt x y with h' | h' | h'
          · exact h'
          · exact absurd h' hx
          · exact absurd h' hv
        · exact h.1 y hy

/-- The set with a view. -/
def insert (s : ViewSet) (v : ViewId) : ViewSet := ⟨place v s.toList, pairwise_place v s.ascending⟩

/-- The set without a view. -/
def erase (s : ViewSet) (v : ViewId) : ViewSet :=
  ⟨s.toList.filter (· ≠ v), s.ascending.sublist List.filter_sublist⟩

@[simp] theorem toList_empty : empty.toList = [] := rfl

theorem mem_insert {s : ViewSet} {v w : ViewId} :
    w ∈ (s.insert v).toList ↔ w = v ∨ w ∈ s.toList := mem_place

theorem mem_erase {s : ViewSet} {v w : ViewId} :
    w ∈ (s.erase v).toList ↔ w ∈ s.toList ∧ w ≠ v := by simp [erase]

end ViewSet

end AnchorLayout
