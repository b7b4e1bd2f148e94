/-
Hosts: the readings of one machine.

The status of a host is that of its worst reading, and `Status.ok` when it has
none.  Every operation that changes the readings sets it anew.
-/
import FleetMesh.Keyed
import FleetMesh.Reading

namespace FleetMesh

structure Host where
  name : String
  group : String
  status : Int
  readings : List (String × Reading)
  deriving BEq, Repr

namespace Host

def new (name group : String) : Host := ⟨name, group, Status.ok, []⟩

/-- The worst of some statuses, `Status.ok` if there are none. -/
def worst : List Int → Int
  | [] => Status.ok
  | s :: rest => rest.foldl max s

/-- Sets the status to that of the worst reading. -/
def rate (h : Host) : Host :=
  { h with status := worst (h.readings.map (fun entry => entry.2.status)) }

/-- The reading stored under a name. -/
def reading? (h : Host) (name : String) : Option Reading := Keyed.find? name h.readings

/-- Stores a reading under its name. -/
def store (h : Host) (r : Reading) : Host :=
  rate { h with readings := Keyed.insert r.name r h.readings }

/-- Drops a reading.  Without one of that name nothing changes, the status
included. -/
def drop (h : Host) (name : String) : Host :=
  if Keyed.contains name h.readings then
    rate { h with readings := Keyed.erase name h.readings }
  else h

/-- The names, as the readings give them, of those at warning or worse. -/
def alarming (h : Host) : List String :=
  ((Keyed.values h.readings).filter Reading.isAlarming).map Reading.name

/-! ## Text -/

def record (now : Int) : Json.Record [String, String, Int, List (String × Reading)] where
  title := "struct Host"
  layout :=
    (.required "name" .string,
      .optional "group" .string "",
      .optional "status" .int32 0,
      .optional "probes" (.table (Reading.codec now)) [], ())

def codec (now : Int) : Json.Codec Host :=
  (record now).codec
    (fun (name, group, status, readings, ()) => ⟨name, group, status, readings⟩)
    (fun h => (h.name, h.group, h.status, h.readings, ()))

end Host
end FleetMesh
