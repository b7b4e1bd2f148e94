/-
What the runner sees of the disk: directories, and the programs in them.
-/
import FleetMesh.Probe.Round

namespace FleetMesh
namespace Probe

/-- What is at a path: a directory, or a program, of which only matters how a run
of it ends. -/
inductive Entry
  | directory
  | program (ending : Ending)
  deriving DecidableEq, Repr

/-- Everything under some directory, by its path from there, whose names are joined
by slashes.  The empty path is that directory itself. -/
abbrev Disk := List (String × Entry)

namespace Disk

/-- The path and what leads to it as directories. -/
def makeDirectory (disk : Disk) (path : String) : Disk :=
  let pieces := (Text.split '/' path).filter (· ≠ "")
  (List.range pieces.length).foldl (fun disk i =>
    Keyed.insert ("/".intercalate (pieces.take (i + 1))) .directory disk) disk

def place (disk : Disk) (path : String) (ending : Ending) : Disk :=
  Keyed.insert path (.program ending) disk

/-- Whether one path is another or below it. -/
def isWithin (path other : String) : Bool := path = other || other.startsWith (path ++ "/")

def remove (disk : Disk) (path : String) : Disk :=
  disk.filter (fun entry => !isWithin path entry.1)

/-- What stands directly in a directory, by name. -/
def below (disk : Disk) (path : String) : List (String × Entry) :=
  disk.filterMap fun (p, entry) =>
    let pieces := Text.split '/' p
    if "/".intercalate pieces.dropLast = path then pieces.getLast?.map (fun name => (name, entry))
    else none

def isDirectory (disk : Disk) (path : String) : Bool :=
  path = "" || (match Keyed.find? path disk with
    | some .directory => true
    | _ => false)

/-- The programs of a directory; none if it is no directory. -/
def programs? (disk : Disk) (path : String) : Option (List (String × Ending)) :=
  if !isDirectory disk path then none
  else some ((below disk path).filterMap fun (name, entry) => match entry with
    | .program ending => some (name, ending)
    | .directory => none)

/-- The directories in the probes directory that say how often their probes run; none
if the probes directory is not there. -/
def intervals? (disk : Disk) (path : String) : Option (List (Nat × String)) :=
  if !isDirectory disk path then none
  else some (Probe.intervals ((below disk path).filterMap fun (name, entry) => match entry with
    | .directory => some name
    | .program _ => none))

/-- A round over a directory, whose programs are run in the order of their names. -/
def round (disk : Disk) (m : Mesh) (now : Timestamp) (known : Names) (path : String) :
    Round × Names :=
  Probe.round m known ((disk.programs? path).map fun programs =>
    (Keyed.ofList programs).map fun (name, ending) => ⟨name, now, ending⟩)

/-- The path of a name in a directory. -/
def join (path name : String) : String := if path = "" then name else path ++ "/" ++ name

/-- The first round of every directory in the probes directory, and how many there
are. -/
def firstRounds? (disk : Disk) (m : Mesh) (now : Timestamp) (path : String) : Option (Mesh × Nat) :=
  (disk.intervals? path).map fun found =>
    (found.foldl (fun m (_, name) => (disk.round m now [] (join path name)).1.mesh) m,
      found.length)

end Disk
end Probe
end FleetMesh
