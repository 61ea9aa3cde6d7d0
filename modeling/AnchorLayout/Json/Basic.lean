import AnchorLayout.Number.Text
/-!
# JSON values

  The values that handlers receive and properties hold, and the tree in which patches and records
  are written.

  Program        `Json.canonical`, `Json.get?`.
  Specification  an object is the list of its members in the order of writing; `canonical` sorts
                 them by key and lets the last of several members with one key stand.
  Crux           integers and fractions are different values, so that `1` and `1.0` print as they
                 were read.
-/

namespace AnchorLayout

/-- A JSON value. -/
inductive Json where
  | null
  | bool (value : Bool)
  /-- A numeral without point and exponent that fits in 64 bits, signed or not. -/
  | integer (value : Int)
  /-- Any other numeral. -/
  | float (value : Number)
  | string (value : String)
  | array (items : List Json)
  | object (members : List (String × Json))
deriving Inhabited

namespace Json

/-- The members with a key added: in its place in the order of keys, and in the place of an
earlier member with that key. -/
def insertMember (key : String) (value : Json) :
    List (String × Json) → List (String × Json)
  | [] => [(key, value)]
  | (k, v) :: rest =>
    if key < k then (key, value) :: (k, v) :: rest
    else if k = key then (key, value) :: rest
    else (k, v) :: insertMember key value rest

mutual

/-- **Canonical form**: in every object the keys ascend, and each stands once. -/
def canonical : Json → Json
  | array items => array (canonicalItems items)
  | object members =>
    object ((canonicalMembers members).foldl (fun sorted m => insertMember m.1 m.2 sorted) [])
  | value => value

/-- The canonical forms of a list of values. -/
def canonicalItems : List Json → List Json
  | [] => []
  | value :: rest => value.canonical :: canonicalItems rest

/-- The members with canonical values, in the same order. -/
def canonicalMembers : List (String × Json) → List (String × Json)
  | [] => []
  | (key, value) :: rest => (key, value.canonical) :: canonicalMembers rest

end

/-- The member of an object with a key: the last one, if several have it. -/
def get? (value : Json) (key : String) : Option Json :=
  match value with
  | object members => (members.reverse.find? fun m => m.1 == key).map (·.2)
  | _ => none

/-- Whether the value is `null`. -/
def isNull : Json → Bool
  | null => true
  | _ => false

/-- **The JSON form of a number**: an integer where its wire text is one. -/
def ofNumber (x : Number) : Json :=
  match x.whole? with
  | some n => integer n
  | none => float x

/-- The double that a numeral stands for. -/
def toNumber? : Json → Option Number
  | integer n => some (Number.ofInt n)
  | float x => some x
  | _ => none

/-- The members that are present, in order. -/
def objectOf (members : List (String × Option Json)) : Json :=
  object (members.filterMap fun m => m.2.map fun value => (m.1, value))

end Json

end AnchorLayout
