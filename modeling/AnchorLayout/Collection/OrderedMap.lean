/-!
# Maps that keep the order of insertion

  Program        `OrderedMap.insert` (in place for a key that is there, at the end for a new one),
                 `erase`, `filter`, `mapValues`.
  Specification  `get?`, the value of a key, and `keys`, the order.
  Crux           the keys are distinct, and the map carries the proof: an entry is found at its key
                 and nowhere else.
-/

namespace AnchorLayout

/-- Entries in the order in which their keys were first inserted. -/
structure OrderedMap (κ ν : Type) where
  entries : List (κ × ν)
  distinct : (entries.map Prod.fst).Nodup

namespace OrderedMap

variable {κ ν μ : Type}

/-- The map without entries. -/
def empty : OrderedMap κ ν := ⟨[], List.nodup_nil⟩

instance : EmptyCollection (OrderedMap κ ν) := ⟨empty⟩

instance : Inhabited (OrderedMap κ ν) := ⟨empty⟩

/-- The keys in order. -/
def keys (m : OrderedMap κ ν) : List κ := m.entries.map Prod.fst

/-- The values in the order of their keys. -/
def values (m : OrderedMap κ ν) : List ν := m.entries.map Prod.snd

/-- The number of entries. -/
def size (m : OrderedMap κ ν) : Nat := m.entries.length

/-- Whether there are no entries. -/
def isEmpty (m : OrderedMap κ ν) : Bool := m.entries.isEmpty

theorem ext {m n : OrderedMap κ ν} (h : m.entries = n.entries) : m = n := by
  cases m; cases n; cases h; rfl

/-- A key has one value. -/
theorem nodup_keys (m : OrderedMap κ ν) : m.keys.Nodup := m.distinct

@[simp] theorem keys_empty : (empty : OrderedMap κ ν).keys = [] := rfl

/-! ## Filtering and changing values -/

/-- The entries that pass a test, in the same order. -/
def filter (m : OrderedMap κ ν) (keep : κ → ν → Bool) : OrderedMap κ ν :=
  ⟨m.entries.filter fun e => keep e.1 e.2,
    List.Nodup.sublist (List.filter_sublist.map Prod.fst) m.distinct⟩

/-- Every value changed, the keys and their order kept. -/
def mapValues (m : OrderedMap κ ν) (f : ν → μ) : OrderedMap κ μ :=
  ⟨m.entries.map fun e => (e.1, f e.2), by
    have h : (m.entries.map fun e => (e.1, f e.2)).map Prod.fst = m.entries.map Prod.fst := by
      simp [Function.comp_def]
    rw [h]
    exact m.distinct⟩

@[simp] theorem keys_mapValues (m : OrderedMap κ ν) (f : ν → μ) :
    (m.mapValues f).keys = m.keys := by
  simp [keys, mapValues, Function.comp_def]

@[simp] theorem values_mapValues (m : OrderedMap κ ν) (f : ν → μ) :
    (m.mapValues f).values = m.values.map f := by
  simp [values, mapValues, Function.comp_def]

@[simp] theorem size_mapValues (m : OrderedMap κ ν) (f : ν → μ) :
    (m.mapValues f).size = m.size := by
  simp [size, mapValues]

/-- A test on keys does not see the values. -/
theorem mapValues_filter (m : OrderedMap κ ν) (keep : κ → Bool) (f : ν → μ) :
    (m.filter fun k _ => keep k).mapValues f = (m.mapValues f).filter fun k _ => keep k := by
  refine ext ?_
  show (m.entries.filter _).map _ = (m.entries.map _).filter _
  rw [List.filter_map]
  rfl

/-! ## Looking up and writing -/

variable [DecidableEq κ]

/-- The value of a key in a list of entries. -/
def find? (k : κ) : List (κ × ν) → Option ν
  | [] => none
  | e :: rest => if e.1 = k then some e.2 else find? k rest

/-- A list of entries with a value put at a key: in place, or at the end when the key is new. -/
def put (k : κ) (v : ν) : List (κ × ν) → List (κ × ν)
  | [] => [(k, v)]
  | e :: rest => if e.1 = k then (k, v) :: rest else e :: put k v rest

/-- The value of a key. -/
def get? (m : OrderedMap κ ν) (k : κ) : Option ν := find? k m.entries

/-- Whether a key has a value. -/
def contains (m : OrderedMap κ ν) (k : κ) : Bool := (m.get? k).isSome

/-- What is found is what is listed. -/
theorem find?_isSome_iff {k : κ} {l : List (κ × ν)} :
    (find? k l).isSome = true ↔ k ∈ l.map Prod.fst := by
  induction l with
  | nil => simp [find?]
  | cons e rest ih =>
    by_cases h : e.1 = k
    · simp [find?, h]
    · simp [find?, h, ih, Ne.symm h]

/-- Writing keeps the order of the keys, and a new key comes last. -/
theorem map_fst_put (k : κ) (v : ν) (l : List (κ × ν)) :
    (put k v l).map Prod.fst =
      if k ∈ l.map Prod.fst then l.map Prod.fst else l.map Prod.fst ++ [k] := by
  induction l with
  | nil => simp [put]
  | cons e rest ih =>
    by_cases h : e.1 = k
    · simp [put, h]
    · by_cases hr : k ∈ rest.map Prod.fst <;> simp_all [put, Ne.symm h]

/-- So no key comes twice. -/
theorem nodup_put (k : κ) (v : ν) {l : List (κ × ν)} (h : (l.map Prod.fst).Nodup) :
    ((put k v l).map Prod.fst).Nodup := by
  rw [map_fst_put]
  split
  · exact h
  · next hk => exact List.nodup_append.2 ⟨h, by simp, by
      intro a ha b hb heq
      rw [List.mem_singleton.1 hb] at heq
      exact hk (heq ▸ ha)⟩

/-- **Writing**: the value of a key, in place when the key is there and at the end when it is
new. -/
def insert (m : OrderedMap κ ν) (k : κ) (v : ν) : OrderedMap κ ν :=
  ⟨put k v m.entries, nodup_put k v m.distinct⟩

/-- The map without a key. -/
def erase (m : OrderedMap κ ν) (k : κ) : OrderedMap κ ν := m.filter fun k' _ => k' ≠ k

/-- The value of one key changed, if it is there. -/
def modify (m : OrderedMap κ ν) (k : κ) (f : ν → ν) : OrderedMap κ ν :=
  match m.get? k with
  | some v => m.insert k (f v)
  | none => m

/-! ## What the writers do to the view -/

@[simp] theorem get?_empty (k : κ) : (empty : OrderedMap κ ν).get? k = none := rfl

theorem contains_iff_mem_keys {m : OrderedMap κ ν} {k : κ} : m.contains k = true ↔ k ∈ m.keys :=
  find?_isSome_iff

theorem find?_put (k k' : κ) (v : ν) (l : List (κ × ν)) :
    find? k' (put k v l) = if k = k' then some v else find? k' l := by
  induction l with
  | nil => simp [put, find?]
  | cons e rest ih =>
    by_cases h : e.1 = k
    · by_cases hk : k = k' <;> simp [put, find?, h, hk]
    · by_cases hk : e.1 = k'
      · subst hk
        simp [put, find?, h, Ne.symm h]
      · simp [put, find?, h, hk, ih]

/-- **Reading after writing**: the value that was written, at its key. -/
theorem get?_insert (m : OrderedMap κ ν) (k k' : κ) (v : ν) :
    (m.insert k v).get? k' = if k = k' then some v else m.get? k' :=
  find?_put k k' v m.entries

theorem get?_insert_of_ne (m : OrderedMap κ ν) {k k' : κ} (v : ν) (h : k ≠ k') :
    (m.insert k v).get? k' = m.get? k' := by simp [get?_insert, h]

theorem keys_insert (m : OrderedMap κ ν) (k : κ) (v : ν) :
    (m.insert k v).keys = if k ∈ m.keys then m.keys else m.keys ++ [k] :=
  map_fst_put k v m.entries

theorem find?_filter_fst (keep : κ → Bool) (k : κ) (l : List (κ × ν)) :
    find? k (l.filter fun e => keep e.1) = if keep k then find? k l else none := by
  induction l with
  | nil => simp [find?]
  | cons e rest ih =>
    by_cases hkeep : keep e.1 = true
    · by_cases h : e.1 = k
      · subst h; simp [find?, hkeep]
      · simp [find?, hkeep, h, ih]
    · by_cases h : e.1 = k
      · subst h; simp [hkeep, ih]
      · simp [find?, hkeep, h, ih]

theorem get?_erase (m : OrderedMap κ ν) (k k' : κ) :
    (m.erase k).get? k' = if k' = k then none else m.get? k' := by
  have h := find?_filter_fst (fun x => decide (x ≠ k)) k' m.entries
  by_cases hk : k' = k <;> simp_all [erase, filter, get?]

theorem keys_erase (m : OrderedMap κ ν) (k : κ) :
    (m.erase k).keys = m.keys.filter fun k' => k' ≠ k := by
  simp only [erase, filter, keys, List.filter_map]
  rfl

/-- **Reading after a change**: the changed value, if there is one. -/
theorem get?_modify (m : OrderedMap κ ν) (k k' : κ) (f : ν → ν) :
    (m.modify k f).get? k' = if k = k' then (m.get? k').map f else m.get? k' := by
  unfold modify
  split
  · next v h =>
    rw [get?_insert]
    split
    · next hk => subst hk; simp [h]
    · rfl
  · next h =>
    split
    · next hk => subst hk; simp [h]
    · rfl

theorem keys_modify (m : OrderedMap κ ν) (k : κ) (f : ν → ν) : (m.modify k f).keys = m.keys := by
  unfold modify
  split
  · next v h =>
    have : k ∈ m.keys := contains_iff_mem_keys.1 (by simp [contains, h])
    rw [keys_insert, if_pos this]
  · rfl

/-- With distinct keys the first entry of a key is the only one. -/
theorem find?_eq_some_iff {k : κ} {v : ν} {l : List (κ × ν)} (distinct : (l.map Prod.fst).Nodup) :
    find? k l = some v ↔ (k, v) ∈ l := by
  induction l with
  | nil => simp [find?]
  | cons e rest ih =>
    obtain ⟨k', v'⟩ := e
    rw [List.map_cons, List.nodup_cons] at distinct
    by_cases h : k' = k
    · subst h
      have hrest : (k', v) ∉ rest := fun hmem => distinct.1 (List.mem_map.2 ⟨_, hmem, rfl⟩)
      simp [find?, hrest, eq_comm]
    · simp [find?, h, Ne.symm h, ih distinct.2]

/-- **An entry is found at its key.** -/
theorem get?_eq_some_iff {m : OrderedMap κ ν} {k : κ} {v : ν} :
    m.get? k = some v ↔ (k, v) ∈ m.entries :=
  find?_eq_some_iff m.distinct

/-- **Maps are equal** when they have the same keys in the same order, and the same value at each. -/
theorem ext_get? {m n : OrderedMap κ ν} (keys : m.keys = n.keys)
    (values : ∀ k, m.get? k = n.get? k) : m = n := by
  have hentries (m : OrderedMap κ ν) :
      m.entries.map some = m.keys.map fun k => (m.get? k).map fun v => (k, v) := by
    rw [OrderedMap.keys, List.map_map]
    exact List.map_congr_left fun e he =>
      (congrArg (Option.map (e.1, ·)) (get?_eq_some_iff.2 he)).symm
  refine ext (List.map_inj_right (fun _ _ => Option.some.inj) |>.1 ?_)
  rw [hentries, hentries, keys]
  exact List.map_congr_left fun k _ => congrArg (Option.map (k, ·)) (values k)

/-- Two changes at one key are one change. -/
theorem modify_modify (m : OrderedMap κ ν) (k : κ) (f g : ν → ν) :
    (m.modify k f).modify k g = m.modify k (g ∘ f) := by
  refine ext_get? (by simp only [keys_modify]) fun k' => ?_
  simp only [get?_modify]
  split
  · exact Option.map_map _ _ _
  · rfl

/-- Changes commute, at different keys or where the changes do. -/
theorem modify_comm (m : OrderedMap κ ν) {k k' : κ} {f g : ν → ν}
    (h : k ≠ k' ∨ ∀ v, g (f v) = f (g v)) :
    (m.modify k f).modify k' g = (m.modify k' g).modify k f := by
  refine ext_get? (by simp only [keys_modify]) fun k'' => ?_
  simp only [get?_modify]
  by_cases hk : k = k''
  · by_cases hk' : k' = k''
    · rw [if_pos hk, if_pos hk', if_pos hk, if_pos hk', Option.map_map, Option.map_map]
      have hsame : ∀ v, g (f v) = f (g v) := h.resolve_left (not_not_intro (hk.trans hk'.symm))
      exact congrFun (congrArg Option.map (funext hsame)) _
    · rw [if_pos hk, if_neg hk', if_pos hk, if_neg hk']
  · rw [if_neg hk, if_neg hk]

theorem size_modify (m : OrderedMap κ ν) (k : κ) (f : ν → ν) : (m.modify k f).size = m.size := by
  have hlength (m : OrderedMap κ ν) : m.keys.length = m.size := List.length_map _
  rw [← hlength, keys_modify, hlength]

/-- A new entry comes at the end. -/
theorem entries_insert_of_not_mem {m : OrderedMap κ ν} {k : κ} (v : ν) (h : k ∉ m.keys) :
    (m.insert k v).entries = m.entries ++ [(k, v)] := by
  have hput (l : List (κ × ν)) (hl : k ∉ l.map Prod.fst) : put k v l = l ++ [(k, v)] := by
    induction l with
    | nil => rfl
    | cons e rest ih =>
      rw [List.map_cons, List.mem_cons, not_or] at hl
      rw [put, if_neg (Ne.symm hl.1), ih hl.2, List.cons_append]
  exact hput m.entries h

/-- Changing all values changes the one that is found. -/
theorem find?_map_snd (k : κ) (f : ν → μ) (l : List (κ × ν)) :
    find? k (l.map fun e => (e.1, f e.2)) = (find? k l).map f := by
  induction l with
  | nil => rfl
  | cons e rest ih =>
    by_cases h : e.1 = k
    · simp [find?, h]
    · simp [find?, h, ih]

theorem get?_mapValues (m : OrderedMap κ ν) (f : ν → μ) (k : κ) :
    (m.mapValues f).get? k = (m.get? k).map f :=
  find?_map_snd k f m.entries

theorem contains_mapValues (m : OrderedMap κ ν) (f : ν → μ) (k : κ) :
    (m.mapValues f).contains k = m.contains k := by
  rw [contains, contains, get?_mapValues, Option.isSome_map]

/-- A value may be changed before it is written or after. -/
theorem mapValues_insert (m : OrderedMap κ ν) (k : κ) (v : ν) (f : ν → μ) :
    (m.insert k v).mapValues f = (m.mapValues f).insert k (f v) := by
  refine ext ?_
  show (put k v m.entries).map _ = put k (f v) (m.entries.map _)
  induction m.entries with
  | nil => rfl
  | cons e rest ih =>
    rw [List.map_cons, put, put]
    by_cases h : e.1 = k
    · rw [if_pos h, if_pos h]
      rfl
    · rw [if_neg h, if_neg h, List.map_cons, ih]

/-- The entries whose key is not the first one are those after the first. -/
theorem filter_notFirst (m : OrderedMap κ ν) :
    (m.entries.filter fun e => !decide (m.keys.head? = some e.1)) = m.entries.tail := by
  have hkeys := m.distinct
  unfold keys
  cases hm : m.entries with
  | nil => rfl
  | cons first rest =>
    rw [hm, List.map_cons, List.nodup_cons] at hkeys
    have hothers : ∀ e ∈ rest, first.1 ≠ e.1 := by
      intro e he heq
      exact hkeys.1 (heq ▸ List.mem_map_of_mem he)
    rw [List.filter_cons_of_neg (by simp), List.tail_cons, List.filter_eq_self]
    intro e he
    simpa using hothers e he

end OrderedMap

end AnchorLayout
