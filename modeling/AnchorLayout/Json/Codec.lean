import AnchorLayout.ContinuationId
import AnchorLayout.Event.Script
import AnchorLayout.Registry
/-!
# JSON forms of names

  Identifiers, keys, attributes and resume points as JSON values.

  Program        an encoder `json` and a decoder `ofJson?` for each type.
  Specification  a name is a JSON string, and nothing around it; a resume point is an integer.
  Crux           `ofJson?_json`: every decoder reads back what its encoder writes.
-/

namespace AnchorLayout

/-- The text of a JSON string. -/
def Json.toText? : Json → Option String
  | string s => some s
  | _ => none

/-! ## Identifiers and keys -/

/-- The JSON form of a view identifier. -/
def ViewId.json (v : ViewId) : Json := .string v.text

/-- The view identifier of a JSON value. -/
def ViewId.ofJson? (value : Json) : Option ViewId := value.toText?.bind ViewId.parse?

/-- The JSON form of a continuation identifier. -/
def ContinuationId.json (id : ContinuationId) : Json := .string id.text

/-- The continuation identifier of a JSON value. -/
def ContinuationId.ofJson? (value : Json) : Option ContinuationId := value.toText?.map mk

theorem ContinuationId.ofJson?_json (id : ContinuationId) : ofJson? id.json = some id := rfl

/-- The JSON form of a session key. -/
def SessionKey.json (key : SessionKey) : Json := .string key.text

/-- The session key of a JSON value. -/
def SessionKey.ofJson? (value : Json) : Option SessionKey := value.toText?.map mk

theorem SessionKey.ofJson?_json (key : SessionKey) : ofJson? key.json = some key := rfl

/-! ## Resume points -/

/-- The JSON form of a resume point. -/
def ResumePoint.json (point : ResumePoint) : Json := .integer point.index

/-- The resume point of a JSON value. -/
def ResumePoint.ofJson? : Json → Option ResumePoint
  | .integer n => if 0 ≤ n then some ⟨n.toNat⟩ else none
  | _ => none

theorem ResumePoint.ofJson?_json (point : ResumePoint) : ofJson? point.json = some point := by
  simp [json, ofJson?]

/-! ## Attributes -/

/-- The JSON form of an attribute: its name with words apart. -/
def Attribute.json (attr : Attribute) : Json := .string attr.snakeName

/-- The attribute with a name whose words are apart. -/
def Attribute.ofSnakeName? (name : String) : Option Attribute :=
  Attribute.all.find? fun attr => attr.snakeName == name

/-- The attribute of a JSON value: its name, or an object with that name as its only key, however
often given, and no value. -/
def Attribute.ofJson? (value : Json) : Option Attribute :=
  match value.canonical with
  | .string name => ofSnakeName? name
  | .object [(name, .null)] => ofSnakeName? name
  | _ => none

theorem Attribute.ofJson?_json (attr : Attribute) : ofJson? attr.json = some attr := by
  cases attr <;> decide

end AnchorLayout
