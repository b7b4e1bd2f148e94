/-
Merging a snapshot into the tree.

A machine may be reported along several paths, and two machines may report each
other.  Of all nodes with the same identifier only the one nearest to the root
is kept, and at equal distance what was in the tree before wins over what comes
with the newcomer.  The search for duplicates goes level by level and does not
look below a node that it is going to remove.
-/
import FleetMesh.Node.Diff

namespace FleetMesh
namespace Node

/-! ## Duplicates -/

/-- A node below the root, with the path that leads to it. -/
abbrev Placed := List String × Node

/-- The children of a node that stands at the end of `path`. -/
def placedChildren (path : List String) (n : Node) : List Placed :=
  n.children.map (fun (key, child) => (path ++ [key], child))

/-- One level of the search: the identifiers met, the duplicates found and the
nodes of the next level. -/
structure Sweepline where
  seen : List (String × Unit)
  doomed : List Placed
  next : List Placed

/-- Visits the nodes of a level in order. -/
def scanLevel (seen : List (String × Unit)) : List Placed → Sweepline
  | [] => ⟨seen, [], []⟩
  | (path, n) :: rest =>
    if Keyed.contains n.uuid seen then
      let s := scanLevel seen rest
      { s with doomed := (path, n) :: s.doomed }
    else
      let s := scanLevel (Keyed.insert n.uuid () seen) rest
      { s with next := placedChildren path n ++ s.next }

/-- The duplicates of a level and of those below it, in the order they are met.
The levels left bound the search. -/
def duplicates : Nat → List (String × Unit) → List Placed → List Placed
  | 0, _, _ => []
  | levels + 1, seen, level =>
    let s := scanLevel seen level
    s.doomed ++ duplicates levels s.seen s.next

/-- The first level: the children by key, a newcomer after all others. -/
def firstLevel (newcomer : Option String) (n : Node) : List Placed :=
  let isNew (p : Placed) : Bool := newcomer.any (fun key => p.1 == [key])
  let placed := placedChildren [] n
  placed.filter (fun p => !isNew p) ++ placed.filter isNew

/-- The nodes whose identifier stands nearer to the root, the root included. -/
def doomed (newcomer : Option String) (n : Node) : List Placed :=
  duplicates (heights n.children) [(n.uuid, ())] (firstLevel newcomer n)

/-- Removes the duplicates and names them. -/
def prune (newcomer : Option String) (n : Node) : Node × List String :=
  let gone := doomed newcomer n
  (gone.foldl (fun tree p => tree.eraseAt p.1) n, gone.map (fun p => p.2.uuid))

/-! ## The merge -/

/-- Why a snapshot was not taken. -/
inductive Refusal
  /-- It carries the identifier of the node that receives it. -/
  | ownIdentity
  | noIdentity
  deriving DecidableEq, Repr

inductive Merged
  /-- Stored; `pruned` are the identifiers of the duplicates that were removed. -/
  | stored (events : List Event) (pruned : List String)
  | refused (why : Refusal)
  deriving Repr

def Merged.events : Merged → List Event
  | stored events _ => events
  | refused _ => []

/-- The snapshot as it is stored.  A node that was down stays down until the next
sweep finds it fresh. -/
def received (incoming : Node) (previous : Option Node) (now : Int) : Node :=
  let n := incoming.normalize
  let wasDown := previous.any (fun p => !p.isAlive)
  { n with isAlive := if wasDown then false else n.isAlive, lastUpdate := now }

/-- Stores a snapshot under its identifier in place of the one before, and
reports what changed between the two. -/
def merge (n incoming : Node) (now : Int) : Node × Merged :=
  if incoming.uuid = "" then (n, .refused .noIdentity)
  else if incoming.uuid = n.uuid then (n, .refused .ownIdentity)
  else
    let uuid := incoming.uuid
    let previous := Keyed.find? uuid n.children
    let placed := { n with children := Keyed.insert uuid (received incoming previous now) n.children }
    let (pruned, gone) := placed.prune (some uuid)
    let tree := pruned.rollup
    let events := match previous, Keyed.find? uuid tree.children with
      | some old, some new => diff old new
      | _, _ => []
    (tree, .stored events gone)

/-- Removes a child and all below it. -/
def dropChild (n : Node) (uuid : String) : Node :=
  if Keyed.contains uuid n.children then
    rollup { n with children := Keyed.erase uuid n.children }
  else n

def lastUpdate? (n : Node) (uuid : String) : Option Int :=
  (Keyed.find? uuid n.children).map (fun child => child.lastUpdate)

end Node
end FleetMesh
