/-
Who may push.

A machine that registers waits until it is allowed, and an allowed machine opens
a session, of which it has one at a time.  Who is allowed is kept in a file, one
line for each: the identifier, a space, and the hostname.
-/
import FleetMesh.Keyed
import FleetMesh.Text.Blank
import FleetMesh.Text.Glyph

namespace FleetMesh
namespace Push

/-- A session, under its token. -/
structure Session where
  uuid : String
  issuedAt : Int
  deriving DecidableEq, Repr

/-- The machines by identifier, with their hostnames, and the sessions by token. -/
structure Roster where
  waiting : List (String × String)
  allowed : List (String × String)
  sessions : List (String × Session)
  deriving DecidableEq, Repr

namespace Roster

def ofAllowed (allowed : List (String × String)) : Roster := ⟨[], allowed, []⟩

def isAllowed (r : Roster) (uuid : String) : Bool := Keyed.contains uuid r.allowed

def isWaiting (r : Roster) (uuid : String) : Bool := Keyed.contains uuid r.waiting

/-- The roster without the sessions of a machine. -/
def dropSessions (r : Roster) (uuid : String) : Roster :=
  { r with sessions := r.sessions.filter (fun entry => entry.2.uuid != uuid) }

/-- Opens a session in place of the one the machine had. -/
def openSession (r : Roster) (token uuid : String) (now : Int) : Roster :=
  let r := r.dropSessions uuid
  { r with sessions := Keyed.insert token ⟨uuid, now⟩ r.sessions }

def closeSession (r : Roster) (token : String) : Roster :=
  { r with sessions := Keyed.erase token r.sessions }

/-- The session of a token, if it is this machine's. -/
def session? (r : Roster) (uuid token : String) : Option Session :=
  (Keyed.find? token r.sessions).bind fun s => if s.uuid = uuid then some s else none

end Roster

/-! ## The file -/

namespace AllowedList

/-- The machine that a line names; none for a line of another form. -/
def ofLine? (line : List Char) : Option (String × String) := do
  let (uuid, rest) ← Text.cutBy Text.isBlank (Text.trimBy Text.isBlank line)
  let hostname := Text.trimBy Text.isBlank rest
  if hostname = [] then none else return (String.ofList uuid, String.ofList hostname)

/-- The machines of a text, lines of another form left out.  Of two lines with one
identifier the later counts. -/
def parse (text : String) : List (String × String) :=
  Keyed.ofList ((Text.splitBy (· == '\n') text.toList).filterMap ofLine?)

def lineChars (entry : String × String) : List Char :=
  entry.1.toList ++ ' ' :: entry.2.toList ++ ['\n']

def render (allowed : List (String × String)) : String :=
  String.ofList (allowed.flatMap lineChars)

end AllowedList

/-- The file of the allowed machines, as far as it can be told: what it holds, if
it is there, and whether it can be read and written. -/
structure Ledger where
  contents : Option (List UInt8)
  readable : Bool
  writable : Bool
  deriving DecidableEq, Repr

namespace Ledger

def ofContents (contents : Option (List UInt8)) : Ledger := ⟨contents, true, true⟩

/-- The machines in the file, none if there is no file.  A file that cannot be
read or is no text has none to tell. -/
def allowed? (l : Ledger) : Option (List (String × String)) :=
  if !l.readable then none
  else match l.contents with
    | none => some []
    | some bytes => (Text.decode? bytes).map AllowedList.parse

/-- Replaces the contents.  A write that fails leaves them as they were. -/
def write (l : Ledger) (text : String) : Option Ledger :=
  if l.writable then some { l with contents := some (Text.bytesOf text) } else none

end Ledger
end Push
end FleetMesh
