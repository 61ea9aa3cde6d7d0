import AnchorLayout.Animation
import AnchorLayout.Collection.OrderedMap
import AnchorLayout.Json.Printer
import AnchorLayout.Style.Property
/-!
# The styles of a view

  Declarations that have settled, and transitions that the client has not been told of.

  Program        `StyleSheet.apply` (a write, animated or not), `settle`.
  Specification  `StyleSheet.effective?`: what a CSS name is once the queue is folded in.
  Crux           a write removes what is queued under its name, so that the last write wins.
-/

namespace AnchorLayout

/-- A style change under a timing, sent once. -/
structure Transition where
  key : String
  value : String
  animation : Animation
deriving DecidableEq

/-- Settled declarations and queued transitions. -/
structure StyleSheet where
  settled : OrderedMap String String
  queued : List Transition

namespace StyleSheet

/-- Nothing declared. -/
def empty : StyleSheet := ⟨∅, []⟩

instance : EmptyCollection StyleSheet := ⟨empty⟩

instance : Inhabited StyleSheet := ⟨empty⟩

/-- The queue without a name. -/
def unqueue (s : StyleSheet) (name : String) : StyleSheet :=
  { s with queued := s.queued.filter fun t => t.key ≠ name }

/-- **A write**: at once without a timing, queued with one; an absent declaration is removed
either way. -/
def apply (s : StyleSheet) (name : String) (declaration : Declaration)
    (animation : Option Animation) : StyleSheet :=
  match declaration, animation with
  | .absent, _ => { s.unqueue name with settled := s.settled.erase name }
  | .text css, some animation =>
    { s.unqueue name with queued := (s.unqueue name).queued ++ [⟨name, css, animation⟩] }
  | .text css, none => { s.unqueue name with settled := s.settled.insert name css }

/-- The settled declarations with the queue folded in, in order. -/
def folded (s : StyleSheet) : OrderedMap String String :=
  s.queued.foldl (fun settled t => settled.insert t.key t.value) s.settled

/-- **Settling**: what was queued is declared, and the queue is empty. -/
def settle (s : StyleSheet) : StyleSheet := ⟨s.folded, []⟩

/-- **Wire text** of the settled declarations. -/
def text (s : StyleSheet) : String :=
  ";".intercalate (s.settled.entries.map fun e => e.1 ++ ":" ++ e.2)

/-- **Wire text** of the queue, if there is one. -/
def queueText (s : StyleSheet) : Option String :=
  if s.queued = [] then none
  else some (Json.array (s.queued.map fun t =>
    .object [("key", .string t.key), ("value", .string t.value),
      ("animation", t.animation.record)])).compact

end StyleSheet

end AnchorLayout
