/-
The monitoring tree.

A node is one machine: its own host, and under it the last snapshots of the
machines that report to it, each under its durable identifier.  The identifier
is what a node is; the hostname is a label that may repeat.

Tree operations recurse over a node and over the list of its children together,
so each comes as a pair of definitions.
-/
import FleetMesh.Event
import FleetMesh.Host

namespace FleetMesh

/-- What a node says of itself. -/
structure NodeInfo where
  uuid : String
  version : String
  hostname : String
  isAlive : Bool
  /-- The worst status of the node and everything below it. -/
  globalStatus : Int
  globalMessage : String
  localHost : Host
  /-- When the node's snapshot was last merged, in Unix seconds. -/
  lastUpdate : Int
  /-- The names of probes that are not to run any more.  They stay on the machine
  and are never part of a snapshot's text. -/
  disabled : List (String × Unit)
  deriving BEq, Repr

/-- A node and its children, under their keys in ascending order. -/
structure Node extends NodeInfo where
  children : List (String × Node)
  deriving BEq, Repr

namespace Node

/-- The version that a node of this library reports. -/
def currentVersion : String := "0.1.0"

/-- The status of the node without its children.  One that stopped reporting is
at least down. -/
def localStatus (n : NodeInfo) : Int :=
  if n.isAlive then n.localHost.status else max n.localHost.status Status.down

/-- The worst of a status and the global statuses of some children. -/
def worst (status : Int) (children : List (String × Node)) : Int :=
  children.foldl (fun s entry => max s entry.2.globalStatus) status

/-- Sets the global status from the children's. -/
def rate (n : Node) : Node :=
  { n with globalStatus := worst (localStatus n.toNodeInfo) n.children }

mutual

/-- Sets the global statuses of the node and of everything below it. -/
def rollup : Node → Node
  | ⟨info, children⟩ => rate ⟨info, rollupAll children⟩

def rollupAll : List (String × Node) → List (String × Node)
  | [] => []
  | (key, child) :: rest => (key, child.rollup) :: rollupAll rest

end

/-- A machine that nothing reports to yet. -/
def new (uuid hostname group : String) (now : Int) : Node :=
  rollup ⟨⟨uuid, currentVersion, hostname, true, 0, "OK", .new hostname group, now, []⟩, []⟩

/-! ## Reaching into the tree -/

/-- The node at the end of a path of keys. -/
def at? : List String → Node → Option Node
  | [], n => some n
  | key :: path, n => (Keyed.find? key n.children).bind (at? path)

/-- Changes the node at the end of a path. -/
def modifyAt (f : Node → Node) : List String → Node → Node
  | [], n => f n
  | key :: path, n => { n with children := Keyed.modify key (modifyAt f path) n.children }

/-- Removes the node at the end of a path.  The empty path removes nothing. -/
def eraseAt : List String → Node → Node
  | [], n => n
  | [key], n => { n with children := Keyed.erase key n.children }
  | key :: path, n => { n with children := Keyed.modify key (eraseAt path) n.children }

mutual

/-- The node and everything below it, each node before its children. -/
def subtree : Node → List Node
  | ⟨info, children⟩ => ⟨info, children⟩ :: subtrees children

def subtrees : List (String × Node) → List Node
  | [] => []
  | (_, child) :: rest => child.subtree ++ subtrees rest

end

mutual

/-- How many levels the tree has. -/
def height : Node → Nat
  | ⟨_, children⟩ => heights children + 1

def heights : List (String × Node) → Nat
  | [] => 0
  | (_, child) :: rest => max child.height (heights rest)

end

/-! ## Snapshots

A snapshot comes from another machine, and nothing in it that can be computed is
taken from it. -/

mutual

/-- Rebuilds what is derived: children under their own identifiers, of two with
the same the later one, and none without; the status of every host; the hostname
where there is none; and then the rollup. -/
def normalize : Node → Node
  | ⟨info, children⟩ =>
    rollup ⟨{ info with
      hostname := if info.hostname = "" then info.localHost.name else info.hostname
      localHost := info.localHost.rate }, normalizeAll children []⟩

def normalizeAll : List (String × Node) → List (String × Node) → List (String × Node)
  | [], done => done
  | (_, child) :: rest, done =>
    normalizeAll rest (if child.uuid = "" then done else Keyed.insert child.uuid child.normalize done)

end

/-- The tree without what is more than `depth` levels below the node. -/
def keepLevels : Nat → Node → Node
  | 0, n => { n with children := [] }
  | depth + 1, n => { n with children := Keyed.mapValues (keepLevels depth) n.children }

/-- Cuts the tree `depth` levels below the node and sets the statuses anew.  A
depth that is not positive leaves the tree as it is. -/
def truncate (depth : Int) (n : Node) : Node :=
  if depth ≤ 0 then n else rollup (keepLevels depth.toNat n)

/-! ## Local readings -/

/-- Stores a fresh reading on the local host, and reports a name that was unknown
or a status that moved. -/
def submit (n : Node) (r : Reading) : Node × List Event :=
  let previous := n.localHost.reading? r.name
  let host := n.localHost.store r
  let events := match previous with
    | none => [.probeAdded n.hostname r]
    | some old =>
      if old.status = r.status then []
      else [.statusChanged
        ⟨n.hostname, some r.name, old.status, r.status, r.message, host.alarming⟩]
  (rollup { n with localHost := host }, events)

/-- Drops a reading and reports that it is gone. -/
def dropReading (n : Node) (name : String) : Node × Option Event :=
  match n.localHost.reading? name with
  | none => (n, none)
  | some r =>
    (rollup { n with localHost := n.localHost.drop name }, some (.probeRemoved n.hostname r))

def isDisabled (n : Node) (name : String) : Bool := Keyed.contains name n.disabled

/-- Takes a probe out of service. -/
def disable (n : Node) (name : String) : Node :=
  { n with disabled := Keyed.insert name () n.disabled }

end Node
end FleetMesh
