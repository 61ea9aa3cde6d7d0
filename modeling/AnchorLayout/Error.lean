import AnchorLayout.Clause.Fault
import AnchorLayout.Color
import AnchorLayout.Event.Name
import AnchorLayout.ViewId
/-!
# Errors

  Why an operation was refused.  Each cause is a constructor; `Error.message` words it.
-/

namespace AnchorLayout

/-- Requests that contradict the state or the rules of a session. -/
inductive Refusal where
  /-- A view would end up below itself. -/
  | ownDescendant (child parent : ViewId)
  /-- A container would hold a view above it. -/
  | ownAncestor (container view : ViewId)
  /-- There is no place next to a view without a parent. -/
  | noPlaceBeside (view reference : ViewId)
  | ownSubtree (view : ViewId)
  | color (fault : ColorFault)
  | emptyEndpoint
  | noContinuations
  | noLifetime
  | invalidAnimationDuration
  | invalidDebounceDelay
  | undecodableOptions
  | missingOptions
  /-- A handler's own reason. -/
  | stated (message : String)

/-- The wording of a refusal. -/
def Refusal.message : Refusal → String
  | ownDescendant child parent =>
    "cannot place " ++ child.text ++ " under its own descendant " ++ parent.text
  | ownAncestor container view =>
    container.text ++ " cannot contain its own ancestor " ++ view.text
  | noPlaceBeside view reference =>
    "cannot dock " ++ view.text ++ " next to " ++ reference.text ++ ", which has no parent"
  | ownSubtree view => "cannot dock " ++ view.text ++ " inside its own subtree"
  | color fault => fault.message
  | emptyEndpoint => "event_endpoint must not be empty"
  | noContinuations => "max_continuations must be > 0"
  | noLifetime => "continuation_ttl must be > 0"
  | invalidAnimationDuration => "default_animation_duration must be finite and >= 0"
  | invalidDebounceDelay => "debounce_delay must be finite and >= 0"
  | undecodableOptions => "parse session options JSON"
  | missingOptions => "open session options"
  | stated message => message

/-- An error of any operation. -/
inductive Error where
  | unknownEvent (name : String)
  /-- A value that an attribute, a composite or a style cannot take. -/
  | unsupported (name : String) (value : Outline)
  | unknownDock (keyword : String)
  | unknownAttribute (name : String)
  | continuationNotFound (id : String)
  | unknownView (id : String)
  | refused (refusal : Refusal)
  | malformed (position : Nat) (fault : Fault)
  | undecodable (reason : String)
  /-- Any other failure of a handler. -/
  | other (message : String)
  /-- Handlers that run handlers have reached the limit of nesting. -/
  | nestedTooDeeply
deriving Inhabited

namespace Error

/-- **The wording** of an error. -/
def message : Error → String
  | unknownEvent name =>
    "invalid event name '" ++ name ++ "', expected one of: " ++
      ", ".intercalate (EventName.all.map EventName.text)
  | unsupported name value => "cannot set " ++ value.text ++ " as " ++ name
  | unknownDock keyword => "unknown dock keyword '" ++ keyword ++ "'"
  | unknownAttribute name => "unknown attribute '" ++ name ++ "'"
  | continuationNotFound id => "no suspended handler for continuation '" ++ id ++ "'"
  | unknownView id => "unknown view '" ++ id ++ "'"
  | refused refusal => "validation error: " ++ refusal.message
  | malformed position fault =>
    "parse error at byte " ++ toString position ++ ": " ++ fault.message
  | undecodable reason => "serialization error: " ++ reason
  | other message => message
  | nestedTooDeeply => "handlers are nested too deeply"

/-- The error of a view that is not registered. -/
def noView (view : ViewId) : Error := unknownView view.text

end Error

/-- The error of a JSON value that is not a colour. -/
def Color.DecodeFault.error : Color.DecodeFault → Error
  | .text fault => .undecodable (Error.refused (.color fault)).message
  | .listLength => .undecodable "color array must have len 3 ([r,g,b]) or 4 ([r,g,b,a])"
  | .shape => .undecodable "data did not match any variant of untagged enum Repr"

end AnchorLayout
