/-
Running the probes of a directory.

Probes stand in directories that are named for the seconds between their runs.
A round runs every probe of a directory that is in service, stores what they
report, and drops the readings of those that were there before and are gone.
-/
import FleetMesh.Mesh
import FleetMesh.Probe.Report
import FleetMesh.Text.Numeral

namespace FleetMesh
namespace Probe

/-- The greatest number of seconds between two runs. -/
def maxInterval : Nat := 0xffffffffffffffff

/-- The directories among `names` that say how often their probes run, the shortest
interval first and of equals by name. -/
def intervals (names : List String) : List (Nat × String) :=
  let found := names.filterMap fun name =>
    ((Text.natural? maxInterval name).filter (0 < ·)).map (fun n => (n, name))
  found.mergeSort (fun a b => a.1 < b.1 || (a.1 == b.1 && a.2 ≤ b.2))

/-- A program of a listing.  What it is called is what can be shown of its name, so two
programs of a directory may be called the same. -/
structure Program where
  name : String
  /-- When its run ends, if it is run, and how. -/
  time : Timestamp
  ending : Ending

def Program.outcome (p : Program) : Outcome := Probe.outcome p.name p.time p.ending

/-- A round while it runs: the tree, and the programs that were run, the latest last. -/
structure Round where
  mesh : Mesh
  executed : List Program

/-- A set of names. -/
abbrev Names := List (String × Unit)

def names (list : List String) : Names := Keyed.ofList (list.map (fun name => (name, ())))

/-- One program of the listing. -/
def visit (r : Round) (p : Program) : Round :=
  if r.mesh.root.isDisabled p.name then r
  else
    let mesh := match p.outcome with
      | .reading reading => r.mesh.run (.submit reading)
      | .disable => (r.mesh.run (.disable p.name)).run (.dropReading p.name)
    ⟨mesh, r.executed ++ [p]⟩

/-- Runs the programs of a listing in their order.  `known` are the names of the last
round, and a directory that cannot be listed leaves everything as it was.  The result
has the names of this round. -/
def round (m : Mesh) (known : Names) (listing : Option (List Program)) : Round × Names :=
  match listing with
  | none => (⟨m, []⟩, known)
  | some programs =>
    let seen := names (programs.map Program.name)
    let r := programs.foldl visit ⟨m, []⟩
    let gone := (Keyed.keys known).filter (fun name => !Keyed.contains name seen)
    let mesh := gone.foldl (fun m name => m.run (.dropReading name)) r.mesh
    (⟨mesh, r.executed⟩, seen)

end Probe
end FleetMesh
