/-
The events between two snapshots of one subtree.

A node that goes down says so and nothing more, since nothing below it can be
told apart from the outage.  A node that comes up says so first and then what
changed meanwhile.  That a node's global status moved is only reported where
nothing below explains it.
-/
import FleetMesh.Node

namespace FleetMesh
namespace Node

/-- The change of one reading that is in both snapshots. -/
def readingChange (new : NodeInfo) (name : String) (old latest : Reading) : List Event :=
  if latest.status = old.status then []
  else [.statusChanged
    ⟨new.hostname, some name, old.status, latest.status, latest.message, new.localHost.alarming⟩]

/-- What became of the readings of the older snapshot. -/
def diffOlder (old new : NodeInfo) : List Event :=
  old.localHost.readings.flatMap fun (name, r) =>
    match new.localHost.reading? name with
    | some latest => readingChange new name r latest
    | none => if new.isAlive then [.probeRemoved new.hostname r] else []

/-- The readings that only the newer snapshot has. -/
def diffNewer (old new : NodeInfo) : List Event :=
  if new.isAlive then
    new.localHost.readings.flatMap fun (name, r) =>
      if Keyed.contains name old.localHost.readings then [] else [.probeAdded new.hostname r]
  else []

/-- The changes of a node's own readings. -/
def diffReadings (old new : NodeInfo) : List Event :=
  diffOlder old new ++ diffNewer old new

/-- That the global status moved. -/
def diffStatus (old new : NodeInfo) : List Event :=
  if old.globalStatus = new.globalStatus then []
  else [.statusChanged
    ⟨new.hostname, none, old.globalStatus, new.globalStatus, new.globalMessage,
      new.localHost.alarming⟩]

mutual

/-- The events that lead from the older snapshot to the newer one. -/
def diff : Node → Node → List Event
  | ⟨old, oldChildren⟩, new =>
    if old.isAlive && !new.isAlive then
      [.nodeDown new.uuid new.hostname new.globalMessage]
    else
      let below := diffReadings old new.toNodeInfo ++ diffChildren oldChildren new.children
      if !old.isAlive && new.isAlive then .nodeUp new.uuid new.hostname :: below
      else if below.isEmpty then diffStatus old new.toNodeInfo
      else below

/-- The events of the children that both snapshots have. -/
def diffChildren : List (String × Node) → List (String × Node) → List Event
  | [], _ => []
  | (key, child) :: rest, newer =>
    (match Keyed.find? key newer with
      | some latest => diff child latest
      | none => []) ++ diffChildren rest newer

end

end Node
end FleetMesh
