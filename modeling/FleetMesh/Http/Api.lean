/-
What the HTTP surface answers.

Every page but the authority's is open and only reads.  The authority's pages
ask for the key before anything else, so without it they tell nothing, not even
whether there is an authority, and change nothing.
-/
import FleetMesh.Http.Route
import FleetMesh.Push.Server
import FleetMesh.Text.Numeral

namespace FleetMesh
namespace Http

inductive Body
  | empty
  | text (s : String)
  | json (v : Json.Value)

structure Response where
  status : Nat
  body : Body

namespace Response

def json (v : Json.Value) : Response := ⟨200, .json v⟩
def noContent : Response := ⟨204, .empty⟩
def badRequest : Response := ⟨400, .empty⟩
def unauthorized : Response := ⟨401, .empty⟩
def notFound : Response := ⟨404, .empty⟩
def methodNotAllowed : Response := ⟨405, .empty⟩
def internalError : Response := ⟨500, .empty⟩

/-- What there is, or that it is not there. -/
def found (v : Option Json.Value) : Response := (v.map json).getD notFound

def withoutBody (r : Response) : Response := { r with body := .empty }

end Response

/-- The depth that a query asks for, 0 unless it says.  It may say so once. -/
def depth? (query : String) : Option Int :=
  match (Form.fields query).filter (fun field => field.1 == "depth") with
  | [] => some 0
  | [(_, text)] => Text.integer? (-0x80000000) 0x7fffffff text
  | _ => none

structure Api where
  mesh : Mesh
  authority : Option Push.Authority
  /-- Whether the authority removes from the tree the machines it forgets. -/
  attached : Bool
  key : Option String

namespace Api

/-- The characters of which a key is made. -/
def isVisible (c : Char) : Bool := 0x20 ≤ c.toNat && c.toNat < 0x7F || c = '\t'

/-- Whether a request shows the key.  Nobody can show an empty one. -/
def admits (api : Api) (r : Request) : Bool :=
  match api.key, r.header? "x-api-key" with
  | some key, some shown => key ≠ "" && shown.toList.all isVisible && shown == key
  | _, _ => false

/-! ## The tree -/

/-- The readings of a machine as the surface shows them. -/
def readingValue (r : Reading) : Json.Value := (Reading.codec 0).write r

/-- What the tree has to say of a page; nothing of those of the authority. -/
def view (root : Node) (query : String) : Route → Response
  | .snapshot => match depth? query with
    | some depth => .json (root.truncate depth).toValue
    | none => .badRequest
  | .health => ⟨200, .text "ok"⟩
  | .status => .json (.int root.globalStatus)
  | .uuids => .json (.strings root.uuids)
  | .remotes => .json (.strings root.hostnames)
  | .remote h => .found ((root.findByHostname h).map Node.toValue)
  | .remoteStatus h => .found ((root.findByHostname h).map (fun n => .int n.globalStatus))
  | .probes h =>
    .found ((root.findByHostname h).map (fun n => .strings (Keyed.keys n.localHost.readings)))
  | .probe h p => .found ((reading? h p).map readingValue)
  | .probeStatus h p => .found ((reading? h p).map (fun r => .int r.status))
  | .groups => .json (.strings root.groups)
  | .group g =>
    let summary := root.groupSummary g
    if summary.hosts.isEmpty then .notFound else .json summary.toValue
  | .clients | .allow _ | .revoke _ => .notFound
where
  reading? (hostname name : String) : Option Reading :=
    (root.findByHostname hostname).bind (fun n => n.localHost.reading? name)

/-! ## The authority -/

def clientsValue (a : Push.Authority) : Json.Value :=
  .object [("waiting", .ofTable .string a.roster.waiting),
    ("allowed", .ofTable .string a.roster.allowed)]

/-- The answer to what an operator asked of the authority. -/
def granted : Except Push.AuthorityError Unit → Response
  | .ok () => .noContent
  | .error (.unknown _) => .notFound
  | .error _ => .internalError

/-- The answer of a page of the authority to one who has the key. -/
def administer (api : Api) (a : Push.Authority) (route : Route) : Api × Response :=
  let desk : Push.Server := ⟨a, api.mesh, false, api.attached⟩
  let done (outcome : Push.Server × Except Push.AuthorityError Unit) : Api × Response :=
    ({ api with authority := some outcome.1.authority, mesh := outcome.1.mesh },
      granted outcome.2)
  match route with
  | .clients => (api, .json (clientsValue a))
  | .allow uuid => done (desk.allow uuid)
  | .revoke uuid => done (desk.revoke uuid)
  | _ => (api, .notFound)

/-! ## Requests -/

/-- The answer to a method that the page has an answer to. -/
def visit (api : Api) (route : Route) (query : String) : Api × Response :=
  match route.decoded? with
  | none => (api, .badRequest)
  | some route =>
    if route.isGuarded then
      match api.authority with
      | none => (api, .notFound)
      | some a => api.administer a route
    else (api, view api.mesh.root query route)

/-- Answers a request.  The key comes before the method, and the method before
the names of the path. -/
def respond (api : Api) (r : Request) : Api × Response :=
  match Route.ofPath? r.path with
  | none => (api, .notFound)
  | some route =>
    if route.isGuarded && !api.admits r then (api, .unauthorized)
    else if !route.answers r.method then (api, .methodNotAllowed)
    else
      let (api, response) := api.visit route r.query
      (api, if r.method = "HEAD" then response.withoutBody else response)

end Api
end Http
end FleetMesh
