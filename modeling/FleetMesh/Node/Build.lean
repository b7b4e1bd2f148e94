/-
Small trees to start from.
-/
import FleetMesh.Node

namespace FleetMesh
namespace Node

/-- The group of the nodes built here. -/
def sampleGroup : String := "test"

/-- A node with one reading for each name and status. -/
def withReadings (uuid hostname : String) (readings : List (String × Int)) (now : Int) : Node :=
  let n := readings.foldl (fun n (name, status) =>
    (n.submit (.plain name status 0 (name ++ " is " ++ toString status) now)).1)
    (new uuid hostname sampleGroup now)
  n.rollup

/-- A chain of nodes, each the only child of the one before; none for no links. -/
def chain (now : Int) : List (String × String) → Option Node
  | [] => none
  | (uuid, hostname) :: rest =>
    let n := new uuid hostname sampleGroup now
    match chain now rest with
    | none => some n.rollup
    | some child => some (rollup { n with children := [(child.uuid, child)] })

end Node
end FleetMesh
