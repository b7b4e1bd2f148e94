/-
Fetching the trees of other machines.

A target is asked for its tree at intervals.  What comes back is stored like a
snapshot that was pushed; anything else is a failure, and nothing is stored.
-/
import FleetMesh.Mesh

namespace FleetMesh

/-- A machine to be asked. -/
structure PollTarget where
  hostname : String
  port : Nat
  /-- How many levels below the machine are kept, all if not positive. -/
  depth : Int
  /-- Seconds between two fetches. -/
  interval : Nat
  /-- How often one fetch is tried. -/
  tries : Nat
  deriving DecidableEq, Repr

/-- What one request came to. -/
inductive Fetched
  | unreachable
  | answered (status : Nat) (body : List UInt8)
  deriving DecidableEq, Repr

inductive PollError
  | unreachable
  | status (code : Nat)
  | undecodable (why : Json.DecodeError)
  | rejected
  deriving DecidableEq, Repr

namespace Poll

/-- The address that is fetched. -/
def url (t : PollTarget) : String := "http://" ++ t.hostname ++ ":" ++ toString t.port ++ "/"

def isSuccess (status : Nat) : Bool := 200 ≤ status && status < 300

/-- The snapshot in an answer that came at `now`. -/
def snapshot (now depth : Int) : Fetched → Except PollError Node
  | .unreachable => .error .unreachable
  | .answered status body =>
    if isSuccess status then (Node.ofBytes now body depth).mapError .undecodable
    else .error (.status status)

/-- The first success of at most `tries` requests, or else the last failure.  One
request is made in any case. -/
def attempt (now depth : Int) : Nat → List Fetched → Except PollError Node
  | _, [] => .error .unreachable
  | tries, f :: later =>
    match snapshot now depth f, tries, later with
    | .error _, tries + 2, g :: later => attempt now depth (tries + 1) (g :: later)
    | result, _, _ => result

/-- Fetches a target and stores what it has. -/
def run (m : Mesh) (t : PollTarget) (now : Int) (fetched : List Fetched) :
    Mesh × Except PollError Unit :=
  match attempt now t.depth t.tries fetched with
  | .error e => (m, .error e)
  | .ok node =>
    let (m, outcome) := m.merge node now
    (m, match outcome with
      | .stored .. => .ok ()
      | .refused _ => .error .rejected)

end Poll
end FleetMesh
