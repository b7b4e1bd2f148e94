/-
Questions to the tree, answered from the nodes in pre-order.
-/
import FleetMesh.Node

namespace FleetMesh

/-- One node as the summary of its group lists it. -/
structure HostSummary where
  name : String
  uuid : String
  group : String
  status : Int
  message : String
  isAlive : Bool
  alarming : List String
  deriving DecidableEq, Repr

structure GroupSummary where
  name : String
  /-- The worst status of the hosts, 0 for a group without any. -/
  status : Int
  hosts : List HostSummary
  deriving DecidableEq, Repr

namespace HostSummary

def ofNode (n : Node) : HostSummary :=
  ⟨n.hostname, n.uuid, n.localHost.group, n.globalStatus, n.globalMessage, n.isAlive,
    n.localHost.alarming⟩

def toValue (h : HostSummary) : Json.Value :=
  .object [("name", .string h.name), ("uuid", .string h.uuid), ("group", .string h.group),
    ("status", .int h.status), ("message", .string h.message), ("is_alive", .bool h.isAlive),
    ("probes_in_error", .strings h.alarming)]

end HostSummary

def GroupSummary.toValue (g : GroupSummary) : Json.Value :=
  .object [("name", .string g.name), ("status", .int g.status),
    ("hosts", .array (g.hosts.map HostSummary.toValue))]

namespace Node

/-- The worst of some statuses, 0 if there are none. -/
def worstOf : List Int → Int
  | [] => 0
  | s :: rest => rest.foldl max s

def groupSummary (n : Node) (group : String) : GroupSummary :=
  let hosts := (n.subtree.filter (fun m => m.localHost.group == group)).map HostSummary.ofNode
  ⟨group, worstOf (hosts.map HostSummary.status), hosts⟩

/-- The first node of that hostname, the root included. -/
def findByHostname (n : Node) (hostname : String) : Option Node :=
  n.subtree.find? (fun m => m.hostname == hostname)

def findByUuid (n : Node) (uuid : String) : Option Node :=
  n.subtree.find? (fun m => m.uuid == uuid)

/-- Everything below the node. -/
def descendants (n : Node) : List Node := n.subtree.tail

def uuids (n : Node) : List String := n.descendants.map (fun m => m.uuid)

def hostnames (n : Node) : List String := n.descendants.map (fun m => m.hostname)

/-- The groups that have a name, each once, in the order they are met. -/
def groups (n : Node) : List String :=
  n.subtree.foldl (fun met m =>
    let group := m.localHost.group
    if group = "" ∨ group ∈ met then met else met ++ [group]) []

end Node
end FleetMesh
