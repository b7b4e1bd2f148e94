/-
Status integers and their bands.

A status says how bad something is, greater being worse.  The bands give it a
name: everything up to 100 is fine, and everything from 500 on is an error of the
monitoring itself.
-/
import FleetMesh.Json.Record

namespace FleetMesh
namespace Status

/-- Everything fine. -/
def ok : Int := 100

/-- The least status of the warning band. -/
def warning : Int := 200

/-- The least status of the critical band. -/
def critical : Int := 300

/-- The least status of a node that stopped reporting. -/
def down : Int := 499

/-- A probe that could not be run, or whose output could not be read. -/
def error : Int := 500

end Status

/-- The band of a status. -/
inductive Severity
  | ok
  | info
  | warning
  | critical
  | error
  deriving DecidableEq, Repr

namespace Severity

def ofStatus (status : Int) : Severity :=
  if status ≤ Status.ok then ok
  else if status < Status.warning then info
  else if status < Status.critical then warning
  else if status < Status.error then critical
  else error

def name : Severity → String
  | ok => "ok"
  | info => "info"
  | warning => "warning"
  | critical => "critical"
  | error => "error"

/-- The name as a log line writes it. -/
def title : Severity → String
  | ok => "Ok"
  | info => "Info"
  | warning => "Warning"
  | critical => "Critical"
  | error => "Error"

def all : List Severity := [ok, info, warning, critical, error]

def ofName? (s : String) : Option Severity := all.find? (fun severity => severity.name = s)

/-- A severity as one of five names. -/
def codec : Json.Codec Severity where
  write s := .string s.name
  read source := Json.Read.variant (all.map name) "variant identifier" fun s content =>
    Json.Read.noContent ((ofName? s).getD ok) source content

end Severity
end FleetMesh
