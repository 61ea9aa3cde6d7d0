import AnchorLayout.Animation
import AnchorLayout.Error
import AnchorLayout.Json.Reader
/-!
# Session options

  What one session writes and how long it remembers.

  Program        `Options.parse?` (from JSON text), `Options.validate`.
  Specification  `Options.fields`: the order and the types of the fields.
  Crux           an object must not name a field twice or name one that does not exist; a list gives
                 the fields in order, and a missing tail keeps the defaults.
-/

namespace AnchorLayout

/-- The options of a session. -/
structure Options where
  /-- Where events are posted to. -/
  eventEndpoint : String
  /-- Continuations of this age, in nanoseconds, are dropped. -/
  lifetime : Nat
  /-- The number of continuations that are kept; the oldest go first. -/
  maxContinuations : Nat
  /-- Seconds, for an animation that defines no duration. -/
  animationDuration : Number
  /-- Seconds, for debounced bindings without a delay of their own. -/
  debounceDelay : Number
deriving DecidableEq

/-- The number of nanoseconds in a second. -/
def nanosecondsPerSecond : Nat := 1000000000

namespace Options

/-- The options where nothing is chosen. -/
def default : Options where
  eventEndpoint := "/event"
  lifetime := 300 * nanosecondsPerSecond
  maxContinuations := 64
  animationDuration := defaultDuration
  debounceDelay := .ofRatio false 1 2

instance : Inhabited Options := ⟨default⟩

/-! ## Validation -/

/-- A time that a text can hold: finite and not below zero. -/
def isTime (x : Number) : Bool := x.isFinite && x.isAtLeastZero

/-- The first rule that the options break. -/
def fault? (o : Options) : Option Refusal :=
  if o.eventEndpoint = "" then some .emptyEndpoint
  else if o.maxContinuations = 0 then some .noContinuations
  else if o.lifetime = 0 then some .noLifetime
  else if !isTime o.animationDuration then some .invalidAnimationDuration
  else if !isTime o.debounceDelay then some .invalidDebounceDelay
  else none

/-- **Validation**: the options themselves, if they keep all rules. -/
def validate (o : Options) : Except Error Options :=
  match o.fault? with
  | none => .ok o
  | some refusal => .error (.refused refusal)

/-! ## Decoding -/

/-- Seconds in whole nanoseconds, a half going to the even neighbour; below `2^64` seconds. -/
def nanoseconds? : Number → Option Nat
  | .finite negative x =>
    if negative ∧ x.units ≠ 0 then none
    else if x.units < UInt64.size * unitsPerOne then
      some (roundHalfEven (x.units * nanosecondsPerSecond) unitsPerOne)
    else none
  | _ => none

/-- The fields in order, each with what its value changes. -/
def fields : List (String × (Json → Options → Option Options)) :=
  [("event_endpoint", fun value o =>
      match value with
      | .string s => some { o with eventEndpoint := s }
      | _ => none),
    ("continuation_ttl", fun value o =>
      (value.toNumber?.bind nanoseconds?).map fun n => { o with lifetime := n }),
    ("max_continuations", fun value o =>
      match value with
      | .integer n => if 0 ≤ n then some { o with maxContinuations := n.toNat } else none
      | _ => none),
    ("default_animation_duration", fun value o =>
      value.toNumber?.map fun x => { o with animationDuration := x }),
    ("debounce_delay", fun value o => value.toNumber?.map fun x => { o with debounceDelay := x })]

/-- Options with the members of an object, each a field that has not come before. -/
def ofMembers? (seen : List String) (o : Options) : List (String × Json) → Option Options
  | [] => some o
  | (key, value) :: rest =>
    -- a field given twice is refused even where both values agree
    if key ∈ seen then none
    else
      match fields.find? fun field => field.1 == key with
      | some (_, change) => (change value o).bind fun o => ofMembers? (key :: seen) o rest
      | none => none

/-- Options with the first fields given in order. -/
def ofItems? (o : Options) :
    List (String × (Json → Options → Option Options)) → List Json → Option Options
  | _, [] => some o
  | [], _ :: _ => none
  | (_, change) :: fields, value :: rest => (change value o).bind fun o => ofItems? o fields rest

/-- The options of a JSON value. -/
def ofJson? : Json → Option Options
  | .object members => ofMembers? [] default members
  | .array items => ofItems? default fields items
  | _ => none

/-- **Reading** options from JSON text, and validating them. -/
def parse? (text : String) : Except Error Options :=
  match (Json.parse? text).bind ofJson? with
  | some o => o.validate
  | none => .error (.refused .undecodableOptions)

end Options

end AnchorLayout
