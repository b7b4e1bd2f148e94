/-
The side that takes snapshots.

A machine registers, waits until it is allowed, takes its signature, opens a
session with it, and then sends snapshots.  A session ends when it is closed, or
when neither its token nor the machine's last snapshot is recent.
-/
import FleetMesh.Clock
import FleetMesh.Mesh
import FleetMesh.Push.Authority
import FleetMesh.Push.Message

namespace FleetMesh
namespace Push

/-- Seconds that a session lasts without a snapshot. -/
def sessionLifetime : Int := 300

structure Server where
  authority : Authority
  mesh : Mesh
  /-- Whether a machine that registers is allowed at once. -/
  autoAccept : Bool
  /-- Whether the authority announces new machines to the tree's event queue and
  removes from the tree those it forgets. -/
  attached : Bool
  /-- How the errors of a snapshot's text are told. -/
  [wording : Json.Wording]

namespace Server

/-- The announcement of a machine that waits. -/
def announcement (uuid hostname : String) : Event :=
  .notice ("New client " ++ hostname ++ " (" ++ uuid ++ ") is waiting for approval")

/-- Puts a machine on the waiting list and announces it if it was unknown. -/
def enroll (s : Server) (uuid hostname : String) : Server × Except AuthorityError Unit :=
  match s.authority.enroll uuid hostname with
  | (a, .error e) => ({ s with authority := a }, .error e)
  | (a, .ok isNew) =>
    let mesh := if isNew && s.attached then s.mesh.notify (announcement uuid hostname) else s.mesh
    ({ s with authority := a, mesh := mesh }, .ok ())

def allow (s : Server) (uuid : String) : Server × Except AuthorityError Unit :=
  let (a, result) := s.authority.allow uuid
  ({ s with authority := a }, result)

/-- Forgets a machine, and then removes what it reported. -/
def revoke (s : Server) (uuid : String) : Server × Except AuthorityError Unit :=
  match s.authority.dismiss uuid with
  | (a, none) => ({ s with authority := a }, .error (.unknown uuid))
  | (a, some result) =>
    let mesh := if s.attached then s.mesh.run (.dropChild uuid) else s.mesh
    ({ s with authority := a, mesh := mesh }, result)

def internal (e : AuthorityError) : Failure := .internal e.message

/-! ## Calls -/

def register (s : Server) (who : Greeting) : Server × Except Failure Reply :=
  if s.authority.isAllowed who.uuid then (s, .ok .ack)
  else match s.enroll who.uuid who.hostname with
    | (s, .error (.full limit)) => (s, .error (.full limit))
    | (s, .error e) => (s, .error (internal e))
    | (s, .ok ()) =>
      if s.autoAccept then
        match s.allow who.uuid with
        | (s, .ok ()) => (s, .ok .ack)
        | (s, .error e) => (s, .error (internal e))
      else (s, .ok .ack)

def giveSignature (s : Server) (who : Greeting) : Except Failure Reply :=
  match s.authority.signature who.uuid with
  | .ok bytes => .ok (.signature bytes)
  | .error (.notAllowed _) =>
    .error (if s.authority.isWaiting who.uuid then .waiting else .notAllowed)
  | .error e => .error (internal e)

/-- Opens a session for an allowed machine that shows its signature. -/
def hello (s : Server) (who : Greeting) (clock : Int) : Server × Except Failure Reply :=
  if !s.authority.isAllowed who.uuid then (s, .error .notAllowed)
  else match s.authority.verify who.uuid who.signature with
    | .error _ => (s, .error .notAllowed)
    | .ok () =>
      let (a, token) := s.authority.openSession who.uuid clock
      ({ s with authority := a }, .ok (.token token))

/-- When a machine was last heard of: the later of its session's start and its
last snapshot. -/
def lastSeen (s : Server) (uuid : String) (session : Session) : Int :=
  max ((s.mesh.root.lastUpdate? uuid).getD session.issuedAt) session.issuedAt

/-- Checks the token and the age of the session, as the clock's word has it.  A session
that is too old is closed. -/
def authenticate (s : Server) (uuid token : String) (now : Int) : Server × Except Failure Unit :=
  match s.authority.session uuid token with
  | .error _ => (s, .error .notAllowed)
  | .ok session =>
    if sessionLifetime < Clock.sub now (s.lastSeen uuid session) then
      ({ s with authority := (s.authority.closeSession token).1 }, .error .notAllowed)
    else (s, .ok ())

def rejection : Node.Refusal → String
  | .ownIdentity => "SelfReference"
  | .noIdentity => "MissingUuid"

/-- Stores a snapshot that was received. -/
def deposit (s : Server) (node : Node) (clock : Int) : Server × Except Failure Reply :=
  let (mesh, outcome) := s.mesh.merge node clock
  ({ s with mesh := mesh }, match outcome with
    | .stored .. => .ok .ack
    | .refused why => .error (.invalid ("snapshot rejected: " ++ rejection why)))

/-- Takes a snapshot within a session. -/
def update (s : Server) (what : Delivery) (clock now : Int) : Server × Except Failure Reply :=
  match s.authenticate what.uuid what.token now with
  | (s, .error f) => (s, .error f)
  | (s, .ok ()) =>
    match Node.ofText clock what.node 0 with
    | .error e => (s, .error (.undecodable (s.wording.describe what.node e)))
    | .ok node =>
      if node.uuid ≠ what.uuid then
        (s, .error (.invalid "snapshot uuid does not match the session"))
      else s.deposit node clock

def goodbye (s : Server) (who : Credentials) : Server × Except Failure Reply :=
  match s.authority.session who.uuid who.token with
  | .error _ => (s, .error .notAllowed)
  | .ok _ => ({ s with authority := (s.authority.closeSession who.token).1 }, .ok .ack)

/-- Does a call that passed its check. -/
def perform (s : Server) (call : Call) (clock now : Int) : Server × Except Failure Reply :=
  match call with
  | .getCertificate => (s, .ok (.certificate s.authority.certificate))
  | .register who => s.register who
  | .getSignature who => (s, s.giveSignature who)
  | .hello who => s.hello who clock
  | .update what => s.update what clock now
  | .goodbye who => s.goodbye who

/-- Answers a call as if it came at `now`.  The wall clock dates what is stored. -/
def handleAt (s : Server) (call : Call) (clock now : Int) : Server × Except Failure Reply :=
  match call.validate with
  | .error f => (s, .error f)
  | .ok () => s.perform call clock now

def handle (s : Server) (call : Call) (clock : Int) : Server × Except Failure Reply :=
  s.handleAt call clock clock

end Server
end Push
end FleetMesh
