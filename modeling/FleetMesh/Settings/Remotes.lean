/-
The machines that are to be asked for their trees.

A short entry is a host, or a host and a port after the last colon.  A long entry
may set more; what it leaves open is taken from the section, and the port from
the machine's own.
-/
import FleetMesh.Poll
import FleetMesh.Text.Blank
import FleetMesh.Text.Numeral
import FleetMesh.Toml.Value

namespace FleetMesh
namespace Settings

/-- A long entry. -/
structure Remote where
  hostname : String
  port : Option Nat
  depth : Int
  interval : Option Nat
  tries : Option Nat
  deriving DecidableEq, Repr

structure Remotes where
  interval : Nat
  tries : Nat
  short : List String
  long : List Remote
  deriving DecidableEq, Repr

namespace Remote

def read : Toml.Reader Remote := fun v => do
  return {
    hostname := ← Toml.Read.required 0 "hostname" Toml.Read.string v
    port := ← Toml.Read.sparse 1 "port" Toml.Read.word16 v
    depth := ← Toml.Read.setting 2 "check_remotes_depth" Toml.Read.int32 0 v
    interval := ← Toml.Read.sparse 3 "check_interval" Toml.Read.word64 v
    tries := ← Toml.Read.sparse 4 "check_tries" Toml.Read.word32 v }

/-- The text before the last colon and the text after it. -/
def cutLast (cs : List Char) : Option (List Char × List Char) :=
  (Text.cutBy (· == ':') cs.reverse).map (fun (a, b) => (b.reverse, a.reverse))

/-- The greatest port. -/
def maxPort : Nat := 0xffff

/-- The entry that a short one stands for, none if it is blank.  What follows the
colon is dropped if it is no port. -/
def ofShort? (entry : String) : Option Remote :=
  let cs := Text.trimBy Text.isBlank entry.toList
  if cs = [] then none
  else match cutLast cs with
    | none => some ⟨String.ofList cs, none, 0, none, none⟩
    | some (host, port) =>
      some ⟨String.ofList host, Text.natural? maxPort (String.ofList port), 0, none, none⟩

/-- What is asked for an entry.  Nothing is asked less than once. -/
def target (all : Remotes) (port : Nat) (r : Remote) : PollTarget :=
  ⟨r.hostname, r.port.getD port, r.depth, max (r.interval.getD all.interval) 1,
    max (r.tries.getD all.tries) 1⟩

end Remote

namespace Remotes

def default : Remotes := ⟨10, 3, [], []⟩

def read : Toml.Reader Remotes := fun v => do
  return {
    interval := ← Toml.Read.setting 0 "check_interval" Toml.Read.word64 default.interval v
    tries := ← Toml.Read.setting 1 "check_tries" Toml.Read.word32 default.tries v
    short := ← Toml.Read.setting 2 "list" (Toml.Read.list Toml.Read.string) default.short v
    long := ← Toml.Read.setting 3 "advanced" (Toml.Read.list Remote.read) default.long v }

/-- The targets, those of the short entries first. -/
def targets (r : Remotes) (port : Nat) : List PollTarget :=
  (r.short.filterMap Remote.ofShort? ++ r.long).map (Remote.target r port)

end Remotes
end Settings
end FleetMesh
