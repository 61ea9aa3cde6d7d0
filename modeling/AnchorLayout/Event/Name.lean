/-!
# Event names

  The browser events that a view can react to.  The order of `EventName.all` is the order in which
  triggers are written.
-/

namespace AnchorLayout

/-- A browser event. -/
inductive EventName where
  | change
  | click
  | input
  | keydown
  | keyup
  | load
  | submit
deriving DecidableEq, Inhabited

namespace EventName

/-- All events, in the order of triggers. -/
def all : List EventName := [change, click, input, keydown, keyup, load, submit]

/-- The name of an event. -/
def text : EventName → String
  | change => "change"
  | click => "click"
  | input => "input"
  | keydown => "keydown"
  | keyup => "keyup"
  | load => "load"
  | submit => "submit"

/-- The event of a name. -/
def ofName? (name : String) : Option EventName := all.find? fun event => event.text == name

theorem mem_all (event : EventName) : event ∈ all := by cases event <;> decide

end EventName

end AnchorLayout
