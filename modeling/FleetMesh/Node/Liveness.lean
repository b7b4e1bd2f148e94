/-
Which children still report.

A child goes down when its snapshot has become too old, and only the sweep brings
it up again.  Each transition is one event.
-/
import FleetMesh.Clock
import FleetMesh.Node

namespace FleetMesh
namespace Node

/-- Flags the node as not reporting.  Its last message stays. -/
def markDown (n : Node) : Node × Event :=
  let n := rollup { n with isAlive := false }
  (n, .nodeDown n.uuid n.hostname n.globalMessage)

def markUp (n : Node) : Node × Event :=
  let n := rollup { n with isAlive := true }
  (n, .nodeUp n.uuid n.hostname)

/-- One child at a sweep: down if it was last merged before `deadline`, and up
otherwise. -/
def judge (deadline : Int) (child : Node) : Node × List Event :=
  let stale := child.lastUpdate < deadline
  if stale ∧ child.isAlive then
    let (child, event) := child.markDown
    (child, [event])
  else if ¬ stale ∧ ¬ child.isAlive then
    let (child, event) := child.markUp
    (child, [event])
  else (child, [])

/-- The children after a sweep, and the transitions in their order. -/
def judgeAll (deadline : Int) :
    List (String × Node) → List (String × Node) × List Event
  | [] => ([], [])
  | (key, child) :: rest =>
    let (child, events) := judge deadline child
    let (others, more) := judgeAll deadline rest
    ((key, child) :: others, events ++ more)

/-- One liveness pass over the children at `now`.  The deadline is what the clock's word
has for `now` less the timeout. -/
def sweep (n : Node) (now timeout : Int) : Node × List Event :=
  let (children, events) := judgeAll (Clock.sub now timeout) n.children
  if events.isEmpty then (n, [])
  else (rollup { n with children := children }, events)

end Node
end FleetMesh
