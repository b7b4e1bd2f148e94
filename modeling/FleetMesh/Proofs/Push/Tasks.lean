/-
Handlers that serve at the same time.

A handler takes the authority's lock and the tree's one after the other, each for one
step, and between two steps others have their turns.  A `Task` says where a handler
stands, and `Task.step` is its next turn.  A `World` is a server with all its
handlers, of which any may have the next turn.

A handler that has all its turns in a row does what the whole call does
(`Task.alone_call`), and so it is with the decisions (`Task.alone_allow`,
`Task.alone_revoke`).
-/
import FleetMesh.Proofs.Mesh
import FleetMesh.Proofs.Push.Calls
import FleetMesh.Proofs.Push.Run
import Mathlib.Logic.Function.Iterate

namespace FleetMesh
namespace Push

/-- Where a handler stands: what it has found out, and so what its next turn is. -/
inductive Task
  /-- A call came in, to be answered as if it came at `now`. -/
  | arrived (c : Call) (now : Int)
  /-- A machine registers that was not allowed. -/
  | enrolling (who : Greeting)
  /-- A machine was put on the waiting list. -/
  | announcing (who : Greeting)
  /-- A machine that waits is to be allowed at once. -/
  | accepting (who : Greeting)
  /-- There is no signature for a machine. -/
  | refusing (who : Greeting)
  /-- A hello of a machine that was allowed. -/
  | greeted (who : Greeting)
  /-- A hello of a machine that was allowed, with its signature. -/
  | verified (who : Greeting)
  /-- An update with a token that was good. -/
  | authenticated (what : Delivery) (now : Int) (session : Session)
  /-- An update in a session that was too old. -/
  | expiring (what : Delivery)
  /-- An update in a session that was good. -/
  | delivering (what : Delivery)
  /-- A goodbye with a token that was good. -/
  | leaving (who : Credentials)
  | answered (answer : Except Failure Reply)
  /-- It was decided to allow a machine. -/
  | allowing (uuid : String)
  /-- It was decided to forget a machine. -/
  | revoking (uuid : String)
  /-- The authority has forgotten a machine, and the tree has not. -/
  | removing (uuid : String) (result : Except AuthorityError Unit)
  | decided (result : Except AuthorityError Unit)
  deriving DecidableEq

namespace Task

variable (s : Server) (clock : Int)

/-- The first turn of a call that passed its check.  It only looks. -/
def start (now : Int) : Call → Task
  | .getCertificate => .answered (.ok (.certificate s.authority.certificate))
  | .register who => if s.authority.isAllowed who.uuid then .answered (.ok .ack) else .enrolling who
  | .getSignature who =>
    match s.authority.signature who.uuid with
    | .ok bytes => .answered (.ok (.signature bytes))
    | .error (.notAllowed _) => .refusing who
    | .error e => .answered (.error (Server.internal e))
  | .hello who =>
    if !s.authority.isAllowed who.uuid then .answered (.error .notAllowed) else .greeted who
  | .update what =>
    match s.authority.session what.uuid what.token with
    | .error _ => .answered (.error .notAllowed)
    | .ok session => .authenticated what now session
  | .goodbye who =>
    match s.authority.session who.uuid who.token with
    | .error _ => .answered (.error .notAllowed)
    | .ok _ => .leaving who

/-- What comes after the waiting list. -/
def enrolled (who : Greeting) : Task :=
  if s.autoAccept then .accepting who else .answered (.ok .ack)

/-- The next turn of a handler.  One that is done has nothing left to do. -/
def step : Task → Server × Task
  | .arrived c now =>
    match c.validate with
    | .error f => (s, .answered (.error f))
    | .ok () => (s, start s now c)
  | .enrolling who =>
    match s.authority.enroll who.uuid who.hostname with
    | (a, .error (.full limit)) => ({ s with authority := a }, .answered (.error (.full limit)))
    | (a, .error e) => ({ s with authority := a }, .answered (.error (Server.internal e)))
    | (a, .ok isNew) =>
      ({ s with authority := a }, if isNew then .announcing who else enrolled s who)
  | .announcing who =>
    let event := Server.announcement who.uuid who.hostname
    ({ s with mesh := if s.attached then s.mesh.notify event else s.mesh }, enrolled s who)
  | .accepting who =>
    match s.allow who.uuid with
    | (s, .ok ()) => (s, .answered (.ok .ack))
    | (s, .error e) => (s, .answered (.error (Server.internal e)))
  | .refusing who =>
    let why := if s.authority.isWaiting who.uuid then .waiting else .notAllowed
    (s, .answered (.error why))
  | .greeted who =>
    match s.authority.verify who.uuid who.signature with
    | .error _ => (s, .answered (.error .notAllowed))
    | .ok () => (s, .verified who)
  | .verified who =>
    let (a, token) := s.authority.openSession who.uuid clock
    ({ s with authority := a }, .answered (.ok (.token token)))
  | .authenticated what now session =>
    if sessionLifetime < Clock.sub now (s.lastSeen what.uuid session) then (s, .expiring what)
    else (s, .delivering what)
  | .expiring what =>
    let (a, _) := s.authority.closeSession what.token
    ({ s with authority := a }, .answered (.error .notAllowed))
  | .delivering what => ((s.deliver what clock).1, .answered (s.deliver what clock).2)
  | .leaving who =>
    let (a, _) := s.authority.closeSession who.token
    ({ s with authority := a }, .answered (.ok .ack))
  | .answered answer => (s, .answered answer)
  | .allowing uuid => ((s.allow uuid).1, .decided (s.allow uuid).2)
  | .revoking uuid =>
    match s.authority.dismiss uuid with
    | (a, none) => ({ s with authority := a }, .decided (.error (.unknown uuid)))
    | (a, some result) => ({ s with authority := a }, .removing uuid result)
  | .removing uuid result =>
    let mesh := if s.attached then s.mesh.run (.dropChild uuid) else s.mesh
    ({ s with mesh := mesh }, .decided result)
  | .decided result => (s, .decided result)

/-! ## One handler alone -/

/-- A handler that has the next turn too. -/
def again (p : Server × Task) : Server × Task := step p.1 clock p.2

variable {s : Server}

theorem again_enrolled (s : Server) (who : Greeting) :
    again clock (s, enrolled s who) = ((s.accept who).1, .answered (s.accept who).2) := by
  rw [again, enrolled, Server.accept]
  split
  · rw [step]
    dsimp only
    rcases s.allow who.uuid with ⟨t, e | ⟨⟩⟩ <;> rfl
  · rfl

theorem alone_register (s : Server) (who : Greeting) (now : Int) :
    (again clock)^[3] (s, start s now (.register who)) =
      ((s.register who).1, .answered (s.register who).2) := by
  rw [start, Server.register]
  split
  · rfl
  rw [Server.enroll]
  show (again clock)^[2] (step s clock (.enrolling who)) = _
  rw [step]
  rcases s.authority.enroll who.uuid who.hostname with ⟨a, e | isNew⟩
  · cases e <;> rfl
  let known : Server := { s with authority := a }
  cases isNew with
  | false =>
    show again clock (again clock (known, enrolled known who)) = _
    rw [again_enrolled]
    rfl
  | true =>
    let told : Server := { known with mesh :=
      if s.attached then s.mesh.notify (Server.announcement who.uuid who.hostname) else s.mesh }
    show again clock (told, enrolled told who) = _
    rw [again_enrolled]
    rfl

theorem alone_getSignature (s : Server) (who : Greeting) (now : Int) :
    (again clock)^[3] (s, start s now (.getSignature who)) =
      (s, .answered (s.giveSignature who)) := by
  rw [start, Server.giveSignature]
  rcases s.authority.signature who.uuid with e | bytes
  · cases e <;> rfl
  · rfl

theorem alone_hello (s : Server) (who : Greeting) (now : Int) :
    (again clock)^[3] (s, start s now (.hello who)) =
      ((s.hello who clock).1, .answered (s.hello who clock).2) := by
  rw [start, Server.hello]
  split
  · rfl
  show (again clock)^[2] (step s clock (.greeted who)) = _
  rw [step]
  rcases s.authority.verify who.uuid who.signature with e | ⟨⟩ <;> rfl

theorem alone_update (s : Server) (what : Delivery) (now : Int) :
    (again clock)^[3] (s, start s now (.update what)) =
      ((s.update what clock now).1, .answered (s.update what clock now).2) := by
  rw [start, Server.update_eq, Server.authenticate]
  rcases s.authority.session what.uuid what.token with e | session
  · rfl
  show (again clock)^[2] (step s clock (.authenticated what now session)) = _
  rw [step]
  dsimp only
  split <;> rfl

theorem alone_goodbye (s : Server) (who : Credentials) (now : Int) :
    (again clock)^[3] (s, start s now (.goodbye who)) =
      ((s.goodbye who).1, .answered (s.goodbye who).2) := by
  rw [start, Server.goodbye]
  rcases s.authority.session who.uuid who.token with e | session <;> rfl

/-- A call that has all its turns in a row is done as a whole. -/
theorem alone_call (s : Server) (c : Call) (now : Int) :
    (again clock)^[4] (s, .arrived c now) =
      ((s.handleAt c clock now).1, .answered (s.handleAt c clock now).2) := by
  show (again clock)^[3] (step s clock (.arrived c now)) = _
  rw [step, Server.handleAt]
  cases c.validate with
  | error f => rfl
  | ok u =>
    cases c with
    | getCertificate => rfl
    | register who => exact alone_register clock s who now
    | getSignature who => exact alone_getSignature clock s who now
    | hello who => exact alone_hello clock s who now
    | update what => exact alone_update clock s what now
    | goodbye who => exact alone_goodbye clock s who now

theorem alone_allow (s : Server) (uuid : String) :
    again clock (s, .allowing uuid) = ((s.allow uuid).1, .decided (s.allow uuid).2) := rfl

theorem alone_revoke (s : Server) (uuid : String) :
    (again clock)^[2] (s, .revoking uuid) = ((s.revoke uuid).1, .decided (s.revoke uuid).2) := by
  show again clock (step s clock (.revoking uuid)) = _
  rw [step, Server.revoke]
  rcases s.authority.dismiss uuid with ⟨a, _ | result⟩ <;> rfl

end Task

/-! ## All handlers -/

/-- A server with its handlers, in the order in which they came. -/
structure World where
  server : Server
  tasks : List Task

/-- What may happen next. -/
inductive Turn
  | call (c : Call) (now : Int)
  | allow (uuid : String)
  | revoke (uuid : String)
  /-- A handler has its next turn, at a time of the wall clock. -/
  | task (place : Nat) (clock : Int)
  /-- A change of the tree by another writer. -/
  | change (c : Change)
  /-- The file of allowed machines is changed from outside, or its disk is. -/
  | disk (ledger : Ledger)

namespace World

def join (w : World) (task : Task) : World := { w with tasks := w.tasks ++ [task] }

def step (w : World) : Turn → World
  | .call c now => w.join (.arrived c now)
  | .allow uuid => w.join (.allowing uuid)
  | .revoke uuid => w.join (.revoking uuid)
  | .task place clock =>
    match w.tasks[place]? with
    | none => w
    | some task =>
      ⟨(task.step w.server clock).1, w.tasks.set place (task.step w.server clock).2⟩
  | .change c => { w with server := { w.server with mesh := w.server.mesh.run c } }
  | .disk ledger =>
    { w with server := { w.server with authority := { w.server.authority with ledger := ledger } } }

/-- The worlds that any turns lead to, from a server that starts anew. -/
inductive Reachable : World → Prop
  | start {s : Server} (h : Run [] s) (hmesh : s.mesh.Reachable) : Reachable ⟨s, []⟩
  | step {w : World} (h : Reachable w) (t : Turn) : Reachable (w.step t)

def after (w : World) (turns : List Turn) : World := turns.foldl step w

theorem Reachable.after {w : World} (h : w.Reachable) (turns : List Turn) :
    (w.after turns).Reachable := by
  induction turns generalizing w with
  | nil => exact h
  | cons t turns ih => exact ih (h.step t)

/-- Turns that each meet a condition, one after the other. -/
inductive Turns (P : World → Turn → Prop) (w : World) : World → Prop
  | refl : Turns P w w
  | step {v : World} (h : Turns P w v) (t : Turn) (ht : P v t) : Turns P w (v.step t)

theorem Reachable.turns {P : World → Turn → Prop} {w v : World} (h : w.Reachable)
    (hv : Turns P w v) : v.Reachable := by
  induction hv with
  | refl => exact h
  | step _ t _ ih => exact ih.step t

end World
end Push
end FleetMesh
