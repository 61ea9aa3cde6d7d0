import AnchorLayout.Event.Name
import AnchorLayout.Number.Text
/-!
# Event bindings

  At most one handler for each event of a view, with the delay of its trigger.

  Program        `Bindings.bind`, `unbind`, `Bindings.trigger?`.
  Specification  `Bindings.get?`.
-/

namespace AnchorLayout

/-- When a trigger fires. -/
structure BindingOptions where
  /-- Seconds to wait for further events. -/
  delay : Option Number
  /-- Whether the delay of the session applies where there is none of its own. -/
  debounce : Bool
deriving DecidableEq

namespace BindingOptions

/-- At once. -/
def immediate : BindingOptions := ⟨none, false⟩

/-- After the delay of the session. -/
def debounced : BindingOptions := ⟨none, true⟩

/-- After a delay in seconds. -/
def delayed (seconds : Number) : BindingOptions := ⟨some seconds, true⟩

/-- The delay that applies. -/
def resolved (o : BindingOptions) (sessionDelay : Number) : Option Number :=
  match o.delay with
  | some d => some d
  | none => if o.debounce then some sessionDelay else none

end BindingOptions

/-- A handler of type `η` with its options. -/
structure Binding (η : Type) where
  handler : η
  options : BindingOptions

/-- The bindings of a view. -/
structure Bindings (η : Type) where
  get? : EventName → Option (Binding η)

namespace Bindings

variable {η θ : Type}

/-- Nothing bound. -/
def empty : Bindings η := ⟨fun _ => none⟩

instance : EmptyCollection (Bindings η) := ⟨empty⟩

instance : Inhabited (Bindings η) := ⟨empty⟩

/-- A handler bound, in place of an earlier one for the event. -/
def bind (b : Bindings η) (event : EventName) (binding : Binding η) : Bindings η :=
  ⟨fun e => if e = event then some binding else b.get? e⟩

/-- No handler for the event. -/
def unbind (b : Bindings η) (event : EventName) : Bindings η :=
  ⟨fun e => if e = event then none else b.get? e⟩

/-- The bound events with their bindings, in the order of triggers. -/
def toList (b : Bindings η) : List (EventName × Binding η) :=
  EventName.all.filterMap fun event => (b.get? event).map fun binding => (event, binding)

/-- Every handler replaced. -/
def map (b : Bindings η) (f : η → θ) : Bindings θ :=
  ⟨fun event => (b.get? event).map fun binding => ⟨f binding.handler, binding.options⟩⟩

/-- The trigger of one event. -/
def triggerPart (sessionDelay : Number) (entry : EventName × Binding η) : String :=
  match entry.2.options.resolved sessionDelay with
  | some d => entry.1.text ++ " delay:" ++ d.text ++ "s"
  | none => entry.1.text

/-- **Wire text** of the triggers, if anything is bound. -/
def trigger? (b : Bindings η) (sessionDelay : Number) : Option String :=
  if b.toList.isEmpty then none
  else some (",".intercalate (b.toList.map (triggerPart sessionDelay)))

end Bindings

end AnchorLayout
