/-
The pages of the HTTP surface.

A path is cut at its slashes before it is decoded, so a name may hold an encoded
slash.  A name is never empty and a trailing slash is not ignored.
-/
import FleetMesh.Http.Form

namespace FleetMesh
namespace Http

structure Request where
  method : String
  /-- The path and the query, as they stand in the request. -/
  target : String
  headers : List (String × String)
  deriving DecidableEq, Repr

namespace Request

/-- The target without a fragment, cut into the path and the query. -/
def parts (r : Request) : String × String :=
  let whole := ((Text.cut '#' r.target).map Prod.fst).getD r.target
  (Text.cut '?' whole).getD (whole, "")

def path (r : Request) : String := r.parts.1
def query (r : Request) : String := r.parts.2

/-- The first header of a name.  The case of names does not matter. -/
def header? (r : Request) (name : String) : Option String :=
  (r.headers.find? (fun h => h.1.toLower == name)).map Prod.snd

end Request

inductive Route
  | snapshot
  | health
  | status
  | uuids
  | remotes
  | remote (hostname : String)
  | remoteStatus (hostname : String)
  | probes (hostname : String)
  | probe (hostname name : String)
  | probeStatus (hostname name : String)
  | groups
  | group (name : String)
  | clients
  | allow (uuid : String)
  | revoke (uuid : String)
  deriving DecidableEq, Repr

namespace Route

/-- The page at the pieces of a path, its names still encoded. -/
def ofPieces? : List String → Option Route
  | [""] => some snapshot
  | ["health"] => some health
  | ["status"] => some status
  | ["uuids"] => some uuids
  | ["remotes"] => some remotes
  | ["remotes", h] => named1 h remote
  | ["remotes", h, "status"] => named1 h remoteStatus
  | ["remotes", h, "probes"] => named1 h probes
  | ["remotes", h, "probes", p] => named2 h p probe
  | ["remotes", h, "probes", p, "status"] => named2 h p probeStatus
  | ["groups"] => some groups
  | ["groups", g] => named1 g group
  | ["authority"] => some clients
  | ["authority", "allow", u] => named1 u allow
  | ["authority", "revoke", u] => named1 u revoke
  | _ => none
where
  named1 (a : String) (make : String → Route) : Option Route :=
    if a = "" then none else some (make a)
  named2 (a b : String) (make : String → String → Route) : Option Route :=
    if a = "" ∨ b = "" then none else some (make a b)

/-- The page at a path, its names still encoded. -/
def ofPath? (path : String) : Option Route :=
  match Text.split '/' path with
  | "" :: pieces => ofPieces? pieces
  | _ => none

/-- The text of an encoded name, if it is one. -/
def name? (encoded : String) : Option String :=
  Text.decode? (percentDecode (Text.bytesOf encoded))

/-- The same page with its names decoded. -/
def decoded? : Route → Option Route
  | remote h => (name? h).map remote
  | remoteStatus h => (name? h).map remoteStatus
  | probes h => (name? h).map probes
  | probe h p => do return probe (← name? h) (← name? p)
  | probeStatus h p => do return probeStatus (← name? h) (← name? p)
  | group g => (name? g).map group
  | allow u => (name? u).map allow
  | revoke u => (name? u).map revoke
  | r => some r

/-- Whether the page belongs to the authority, so that it takes the key. -/
def isGuarded : Route → Bool
  | clients | allow _ | revoke _ => true
  | _ => false

/-- Whether the page has an answer to a method. -/
def answers (route : Route) (method : String) : Bool :=
  match route with
  | allow _ | revoke _ => method == "POST"
  | _ => method == "GET" || method == "HEAD"

end Route
end Http
end FleetMesh
