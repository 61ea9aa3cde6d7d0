import AnchorLayout.ContinuationId
import AnchorLayout.Json.Printer
import AnchorLayout.ViewId
/-!
# Patches

  What is sent to the client: views with their wire attributes and subtrees.

  Program        `RenderedView.find?`, `Patch.json`.
  Specification  `RenderedView.ids`: the views of a subtree, depth first.
-/

namespace AnchorLayout

/-- A view and its subtree as they are sent. -/
inductive RenderedView where
  /-- `outOfBand` marks the root of an update. -/
  | node (id : ViewId) (tag : String) (attributes : List (String × String))
      (children : List RenderedView) (outOfBand : Bool)

namespace RenderedView

/-- The view. -/
def id : RenderedView → ViewId
  | node id .. => id

/-- Its wire attributes. -/
def attributes : RenderedView → List (String × String)
  | node _ _ attributes .. => attributes

/-- Its children. -/
def children : RenderedView → List RenderedView
  | node _ _ _ children _ => children

/-- The value of a wire attribute. -/
def attribute? (v : RenderedView) (name : String) : Option String :=
  (v.attributes.find? fun a => a.1 == name).map Prod.snd

/-- The same view as the root of an update. -/
def markOutOfBand : RenderedView → RenderedView
  | node id tag attributes children _ => node id tag attributes children true

mutual

/-- **The views** of the subtree, depth first. -/
def ids : RenderedView → List ViewId
  | node id _ _ children _ => id :: idsOfAll children

/-- The views of several subtrees. -/
def idsOfAll : List RenderedView → List ViewId
  | [] => []
  | v :: rest => v.ids ++ idsOfAll rest

end

mutual

/-- The first node of a view in the subtree. -/
def find? (view : ViewId) : RenderedView → Option RenderedView
  | node id tag attributes children outOfBand =>
    if id = view then some (node id tag attributes children outOfBand)
    else findInAll? view children

/-- The first node of a view in several subtrees. -/
def findInAll? (view : ViewId) : List RenderedView → Option RenderedView
  | [] => none
  | v :: rest => (v.find? view) <|> (findInAll? view rest)

end

mutual

/-- **The JSON form**. -/
def json : RenderedView → Json
  | node id tag attributes children outOfBand =>
    .object ([("id", .string id.text), ("tag", .string tag),
      ("attributes", .object (attributes.map fun a => (a.1, .string a.2))),
      ("children", .array (jsonOfAll children))] ++
      (if outOfBand then [("oob", .bool true)] else []))

/-- The JSON forms of several subtrees. -/
def jsonOfAll : List RenderedView → List Json
  | [] => []
  | v :: rest => v.json :: jsonOfAll rest

end

end RenderedView

/-- The answer to a page load, an event or a continuation. -/
structure Patch where
  roots : List RenderedView
  /-- Present while a handler waits for its follow-up request. -/
  continuation : Option ContinuationId

namespace Patch

/-- Whether there is nothing to tell. -/
def isEmpty (p : Patch) : Bool := p.roots.isEmpty && p.continuation.isNone

/-- The first node of a view. -/
def find? (p : Patch) (view : ViewId) : Option RenderedView := RenderedView.findInAll? view p.roots

/-- **The JSON form**. -/
def json (p : Patch) : Json :=
  .object ([("roots", .array (RenderedView.jsonOfAll p.roots))] ++
    (p.continuation.map fun id => ("continuation", .string id.text)).toList)

end Patch

end AnchorLayout
