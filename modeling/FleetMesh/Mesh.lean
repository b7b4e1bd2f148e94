/-
The tree that all tasks share, and the queue of its events.

Every writer changes the tree in one step and then queues the events of that
step.  The step is a `Change`, a function of the tree alone, so that what the
writers do together can be said as what their changes do one after another.
-/
import FleetMesh.Node.Liveness
import FleetMesh.Node.Merge
import FleetMesh.Node.Query
import FleetMesh.Node.Text

namespace FleetMesh

/-- Events waiting for delivery, the oldest first.  Once nobody receives, what is
queued is lost. -/
structure EventQueue where
  pending : List Event
  isOpen : Bool
  deriving Repr

namespace EventQueue

def empty : EventQueue := ⟨[], true⟩

def push (q : EventQueue) (e : Event) : EventQueue :=
  if q.isOpen then { q with pending := q.pending ++ [e] } else q

/-- Takes out everything that waits. -/
def drain (q : EventQueue) : EventQueue × List Event :=
  ({ q with pending := [] }, q.pending)

/-- Nobody receives any more. -/
def close (_ : EventQueue) : EventQueue := ⟨[], false⟩

end EventQueue

/-- One step of a writer of the tree. -/
inductive Change
  | merge (incoming : Node) (now : Int)
  | submit (reading : Reading)
  | dropReading (name : String)
  | disable (name : String)
  | sweep (now : Int)
  | dropChild (uuid : String)

/-- The tree after a change, and the events of the change in their order. -/
def Change.apply (timeout : Int) (c : Change) (root : Node) : Node × List Event :=
  match c with
  | merge incoming now =>
    let (root, outcome) := root.merge incoming now
    (root, outcome.events)
  | submit r => root.submit r
  | dropReading name =>
    let (root, event) := root.dropReading name
    (root, event.toList)
  | disable name => (root.disable name, [])
  | sweep now => root.sweep now timeout
  | dropChild uuid => (root.dropChild uuid, [])

structure Mesh where
  root : Node
  /-- Seconds after which a child that was not merged again is down. -/
  timeout : Int
  queue : EventQueue

namespace Mesh

def new (root : Node) (timeout : Int) : Mesh := ⟨root, timeout, .empty⟩

def notify (m : Mesh) (e : Event) : Mesh := { m with queue := m.queue.push e }

/-- Queues events one by one. -/
def publish (m : Mesh) (events : List Event) : Mesh := events.foldl notify m

/-- A change of the tree, and then its events. -/
def run (m : Mesh) (c : Change) : Mesh :=
  let (root, events) := c.apply m.timeout m.root
  publish { m with root := root } events

def merge (m : Mesh) (incoming : Node) (now : Int) : Mesh × Node.Merged :=
  (m.run (.merge incoming now), (m.root.merge incoming now).2)

/-- One liveness pass, and the number of transitions. -/
def sweep (m : Mesh) (now : Int) : Mesh × Nat :=
  (m.run (.sweep now), (m.root.sweep now m.timeout).2.length)

/-- The tree cut to some levels; a depth that is not positive keeps them all. -/
def snapshot (m : Mesh) (depth : Int) : Node := m.root.truncate depth

end Mesh
end FleetMesh
