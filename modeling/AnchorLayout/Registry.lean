import AnchorLayout.Session.Run
/-!
# Registries

  Sessions under keys such as the value of a cookie.

  Program        `Registry.getOrCreate`, `Registry.discard`.
  Specification  a handle stands for one session for good; a key stands for a handle until it is
                 discarded.
  Crux           a session that is held goes on when its key is forgotten.
-/

namespace AnchorLayout

/-- What tells one user from another. -/
structure SessionKey where
  text : String
deriving DecidableEq

/-- A session for as long as anyone holds it. -/
structure SessionHandle where
  index : Nat
deriving DecidableEq

/-- The sessions of all users. -/
structure Registry where
  options : Options
  /-- What the continuation identifiers of all sessions begin with. -/
  issuer : String
  keys : OrderedMap SessionKey SessionHandle
  /-- Every session that was created, at the index of its handle. -/
  sessions : List Session

namespace Registry

/-- A registry without sessions. -/
def new (options : Options) (issuer : String) : Registry := ⟨options, issuer, ∅, []⟩

/-- The number of keys. -/
def size (r : Registry) : Nat := r.keys.size

/-- Whether there are no keys. -/
def isEmpty (r : Registry) : Bool := r.keys.isEmpty

/-- The handle of a key. -/
def get? (r : Registry) (key : SessionKey) : Option SessionHandle := r.keys.get? key

/-- **The handle of a key**, with a new session when there was none. -/
def getOrCreate (r : Registry) (key : SessionKey) : SessionHandle × Registry :=
  match r.get? key with
  | some handle => (handle, r)
  | none =>
    let handle : SessionHandle := ⟨r.sessions.length⟩
    -- the index tells the identifiers of one session from those of another
    let issuer := Issuer.ofText (r.issuer ++ toString handle.index ++ "-")
    (handle, { r with
      keys := r.keys.insert key handle
      sessions := r.sessions ++ [.new r.options issuer] })

/-- **Forgetting a key**; whether there was one. -/
def discard (r : Registry) (key : SessionKey) : Bool × Registry :=
  (r.keys.contains key, { r with keys := r.keys.erase key })

/-- The session of a handle. -/
def session? (r : Registry) (handle : SessionHandle) : Option Session := r.sessions[handle.index]?

/-- The session of a handle replaced. -/
def put (r : Registry) (handle : SessionHandle) (s : Session) : Registry :=
  { r with sessions := r.sessions.set handle.index s }

end Registry

end AnchorLayout
