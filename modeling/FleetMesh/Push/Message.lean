/-
The messages between a machine that pushes its snapshots and the one that takes
them.

A machine calls, the other side answers each call under the call's number.  Every
call is checked once, before anything is done for it.
-/
import FleetMesh.Json.Tagged
import FleetMesh.Text.Blank
import FleetMesh.Text.Glyph

namespace FleetMesh
namespace Push

/-- Who calls, before a session.  The signature is the other side's signature of
the identifier, once it has been given. -/
structure Greeting where
  hostname : String
  uuid : String
  signature : List UInt8
  deriving DecidableEq, Repr

/-- Who calls, within a session. -/
structure Credentials where
  uuid : String
  token : String
  deriving DecidableEq, Repr

/-- A snapshot, as a text, within a session. -/
structure Delivery where
  uuid : String
  token : String
  node : String
  deriving DecidableEq, Repr

inductive Call
  | getCertificate
  | register (who : Greeting)
  | getSignature (who : Greeting)
  | hello (who : Greeting)
  | update (what : Delivery)
  | goodbye (who : Credentials)
  deriving DecidableEq, Repr

inductive Reply
  | certificate (pem : String)
  | ack
  | signature (bytes : List UInt8)
  | token (token : String)
  deriving DecidableEq, Repr

/-- Why a call was not done. -/
inductive Failure
  | waiting
  | notAllowed
  | full (limit : Nat)
  | undecodable (why : String)
  | invalid (why : String)
  | internal (why : String)
  deriving DecidableEq, Repr

structure Request where
  id : Nat
  call : Call
  deriving DecidableEq, Repr

structure Response where
  id : Nat
  result : Except Failure Reply

def Failure.message : Failure → String
  | waiting => "client is waiting for approval"
  | notAllowed => "client is not allowed"
  | full limit => "waiting list is full (" ++ toString limit ++ " clients)"
  | undecodable why => "cannot decode payload: " ++ why
  | invalid why => "invalid request: " ++ why
  | internal why => "internal error: " ++ why

/-! ## The check of a call -/

/-- The most bytes an identifier may have. -/
def maxUuidLength : Nat := 128

def isControl (c : Char) : Bool :=
  c.toNat < 0x20 || (0x7F ≤ c.toNat && c.toNat < 0xA0)

def isValidUuid (uuid : String) : Bool :=
  uuid ≠ "" && uuid.utf8ByteSize ≤ maxUuidLength && !uuid.toList.any Text.isBlank

def isValidHostname (hostname : String) : Bool :=
  !hostname.toList.all Text.isBlank && !hostname.toList.any isControl

def checkUuid (uuid : String) : Except Failure Unit :=
  if isValidUuid uuid then .ok () else .error (.invalid "malformed uuid")

def checkHostname (hostname : String) : Except Failure Unit :=
  if isValidHostname hostname then .ok () else .error (.invalid "malformed hostname")

theorem checkUuid_eq_ok {uuid : String} : checkUuid uuid = .ok () ↔ isValidUuid uuid = true := by
  rw [checkUuid]
  split <;> simp [*]

theorem checkHostname_eq_ok {hostname : String} :
    checkHostname hostname = .ok () ↔ isValidHostname hostname = true := by
  rw [checkHostname]
  split <;> simp [*]

def checkToken (token : String) : Except Failure Unit :=
  if token = "" then .error (.invalid "missing token") else .ok ()

namespace Call

/-- The first thing wrong with the fields of a call. -/
def validate : Call → Except Failure Unit
  | getCertificate => .ok ()
  | register who | getSignature who => do
    checkUuid who.uuid
    checkHostname who.hostname
  | hello who => do
    checkUuid who.uuid
    checkHostname who.hostname
    if who.signature = [] then .error (.invalid "missing uuid signature") else .ok ()
  | update what => do
    checkUuid what.uuid
    checkToken what.token
    if what.node = "" then .error (.invalid "empty node payload") else .ok ()
  | goodbye who => do
    checkUuid who.uuid
    checkToken who.token

def name : Call → String
  | getCertificate => "GetServerCertificate"
  | register _ => "Register"
  | getSignature _ => "GetUuidSignature"
  | hello _ => "Hello"
  | update _ => "Update"
  | goodbye _ => "Goodbye"

def names : List String :=
  ["GetServerCertificate", "Register", "GetUuidSignature", "Hello", "Update", "Goodbye"]

end Call
end Push
end FleetMesh
