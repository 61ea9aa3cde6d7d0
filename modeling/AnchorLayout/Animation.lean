import AnchorLayout.Json.Basic
/-!
# Animations

  The timing attached to a change: duration, easing, delays, direction and iterations, each of them
  optional.

  Program        `Animation.merge` (an inner timing over an outer one), `Animation.text`,
                 `Animation.record`.
  Specification  the six fields; a field that is not defined is left to the client.
  Crux           times are told apart by their position alone, so a delay brings the earlier times
                 with it.
-/

namespace AnchorLayout

/-! ## Parts -/

/-- A CSS timing function. -/
inductive Ease where
  | linear
  | ease
  | easeIn
  | easeOut
  | easeInOut
  /-- Any other timing function, such as `steps(4)`. -/
  | custom (text : String)
deriving DecidableEq

/-- The CSS name of a timing function. -/
def Ease.cssName : Ease → String
  | linear => "linear"
  | ease => "ease"
  | easeIn => "ease-in"
  | easeOut => "ease-out"
  | easeInOut => "ease-in-out"
  | custom text => text

/-- The timing function of a CSS name; a name that is not standard is custom. -/
def Ease.ofCssName (name : String) : Ease :=
  if name = "linear" then linear
  else if name = "ease" then ease
  else if name = "ease-in" then easeIn
  else if name = "ease-out" then easeOut
  else if name = "ease-in-out" then easeInOut
  else custom name

theorem Ease.cssName_ofCssName (name : String) : (ofCssName name).cssName = name := by
  unfold ofCssName
  repeat' split
  all_goals simp_all [cssName]

/-- A CSS animation direction. -/
inductive Direction where
  | normal
  | reverse
  | alternate
  | alternateReverse
deriving DecidableEq

namespace Direction

/-- All directions. -/
def all : List Direction := [normal, reverse, alternate, alternateReverse]

/-- The CSS name of a direction. -/
def cssName : Direction → String
  | normal => "normal"
  | reverse => "reverse"
  | alternate => "alternate"
  | alternateReverse => "alternate-reverse"

/-- The direction of a CSS name. -/
def ofCssName? (name : String) : Option Direction := all.find? fun d => d.cssName == name

end Direction

/-- How often an animation runs. -/
inductive Iterations where
  | count (number : Number)
  | infinite
deriving DecidableEq

namespace Iterations

/-- The wire text. -/
def text : Iterations → String
  | count n => n.text
  | infinite => "inf"

/-- The JSON form; JSON has no infinity. -/
def json : Iterations → Json
  | count n => .ofNumber n
  | infinite => .string "infinite"

/-- Equality of values. -/
def same : Iterations → Iterations → Bool
  | count x, count y => x.same y
  | infinite, infinite => true
  | _, _ => false

end Iterations

/-! ## Timings -/

/-- A timing; times are in seconds. -/
structure Animation where
  duration : Option Number
  ease : Option Ease
  /-- Before the animation starts. -/
  startDelay : Option Number
  /-- After the animation ends. -/
  endDelay : Option Number
  direction : Option Direction
  iterations : Option Iterations
deriving DecidableEq

/-- The duration, in seconds, where a text needs one and none is defined. -/
def defaultDuration : Number := .ofDecimal false ⟨3, -1⟩

/-- Equality of optional values. -/
def sameOption {α : Type} (same : α → α → Bool) : Option α → Option α → Bool
  | none, none => true
  | some a, some b => same a b
  | _, _ => false

namespace Animation

/-- Nothing defined. -/
def empty : Animation := ⟨none, none, none, none, none, none⟩

instance : EmptyCollection Animation := ⟨empty⟩

instance : Inhabited Animation := ⟨empty⟩

/-- Whether nothing is defined. -/
def isEmpty (a : Animation) : Bool :=
  a.duration.isNone && a.ease.isNone && a.startDelay.isNone && a.endDelay.isNone &&
    a.direction.isNone && a.iterations.isNone

/-- **Overlay**: the fields that the inner timing defines, and the others of the outer one. -/
def merge (outer inner : Animation) : Animation where
  duration := inner.duration <|> outer.duration
  ease := inner.ease <|> outer.ease
  startDelay := inner.startDelay <|> outer.startDelay
  endDelay := inner.endDelay <|> outer.endDelay
  direction := inner.direction <|> outer.direction
  iterations := inner.iterations <|> outer.iterations

/-- Equality of values. -/
def same (a b : Animation) : Bool :=
  sameOption Number.same a.duration b.duration && a.ease == b.ease &&
    sameOption Number.same a.startDelay b.startDelay &&
    sameOption Number.same a.endDelay b.endDelay && a.direction == b.direction &&
    sameOption Iterations.same a.iterations b.iterations

/-- The start delay that is written: zero where only the end delay is defined. -/
def writtenStartDelay (a : Animation) : Option Number :=
  a.startDelay <|> a.endDelay.map fun _ => Number.zero

/-- The duration that is written: the default where only a delay is defined. -/
def writtenDuration (a : Animation) : Option Number :=
  a.duration <|> a.writtenStartDelay.map fun _ => defaultDuration

/-- A time with its unit. -/
def timeText (seconds : Number) : String := seconds.text ++ "s"

/-- The items of the wire text. -/
def items (a : Animation) : List String :=
  (a.writtenDuration.map timeText).toList ++ (a.ease.map Ease.cssName).toList ++
    (a.direction.map Direction.cssName).toList ++ (a.writtenStartDelay.map timeText).toList ++
    (a.endDelay.map timeText).toList ++ (a.iterations.map Iterations.text).toList

/-- **Wire text**: duration, easing, direction, start delay, end delay and iterations. -/
def text (a : Animation) : String := ",".intercalate a.items

/-- The defined fields under their record keys. -/
def recordMembers (a : Animation) : List (String × Option Json) :=
  [("a7", a.duration.map .ofNumber), ("a8", a.ease.map fun e => .string e.cssName),
    ("a9", a.startDelay.map .ofNumber), ("a10", a.endDelay.map .ofNumber),
    ("a11", a.direction.map fun d => .string d.cssName), ("a12", a.iterations.map Iterations.json)]

/-- **The positional record** of a timing. -/
def record (a : Animation) : Json := .objectOf a.recordMembers

/-- **Timings nest**: it does not matter in which order the levels of nesting are merged. -/
theorem merge_assoc (a b c : Animation) : (a.merge b).merge c = a.merge (b.merge c) := by
  simp [merge, Option.orElse_eq_orElse, Option.orElse_eq_or, Option.or_assoc]

/-- A timing that defines nothing changes nothing, on either side. -/
theorem merge_empty (a : Animation) : a.merge empty = a := by
  simp [merge, empty, Option.orElse_eq_orElse, Option.orElse_eq_or]

theorem empty_merge (a : Animation) : empty.merge a = a := by
  simp [merge, empty, Option.orElse_eq_orElse, Option.orElse_eq_or]

end Animation

end AnchorLayout
