/-
The authority: it decides who may push, and gives out the credentials.

An allowed machine gets the authority's signature of its identifier, once and for
all, and shows it to open a session.  How signatures are made is a parameter, and
so is where fresh tokens come from.

The memory and the file of allowed machines change together: the file is written
first, and a list that could not be written does not take effect.
-/
import FleetMesh.Crypto.Rsa
import FleetMesh.Push.Roster

namespace FleetMesh
namespace Push

inductive AuthorityError
  | full (limit : Nat)
  | unknown (uuid : String)
  | notAllowed (uuid : String)
  | badSignature
  | badToken
  | key
  | certificate
  /-- A file could not be read or written; what was to be done with it. -/
  | io (what : String)
  deriving DecidableEq, Repr

def AuthorityError.message : AuthorityError → String
  | full limit => "waiting list is full (" ++ toString limit ++ " clients)"
  | unknown uuid => "unknown client " ++ uuid
  | notAllowed uuid => "client " ++ uuid ++ " is not allowed"
  | badSignature => "uuid signature does not verify"
  | badToken => "invalid or expired token"
  | key => "private key"
  | certificate => "certificate"
  | io what => what

/-- How identifiers are signed. -/
structure Signer where
  sign : String → Option (List UInt8)
  verify : String → List UInt8 → Bool

/-- Signatures with an RSA key. -/
def Signer.ofKey (k : Rsa.Key) : Signer where
  sign uuid := Rsa.sign k (Text.bytesOf uuid)
  verify uuid signature := Rsa.verify k (Text.bytesOf uuid) signature

structure Authority where
  signer : Signer
  certificate : String
  /-- How many machines may wait. -/
  limit : Nat
  /-- The tokens, in the order they are given out, and how many have been. -/
  mint : Nat → String
  minted : Nat
  roster : Roster
  ledger : Ledger

namespace Authority

/-- An authority that starts from the file. -/
def start (signer : Signer) (certificate : String) (limit : Nat) (mint : Nat → String)
    (minted : Nat) (ledger : Ledger) : Except AuthorityError Authority :=
  match ledger.allowed? with
  | none => .error (.io "reading the allowed clients")
  | some allowed =>
    .ok ⟨signer, certificate, limit, mint, minted, .ofAllowed allowed, ledger⟩

/-- An authority with a certificate and a key given as PEM texts.  The certificate
is looked at first. -/
def ofPem (certificate key : String) (limit : Nat) (mint : Nat → String) (ledger : Ledger) :
    Except AuthorityError Authority :=
  match Pem.certificate? (Text.bytesOf certificate) with
  | none => .error .certificate
  | some _ =>
    match Rsa.Key.ofPem? key with
    | none => .error .key
    | some k => start (.ofKey k) certificate limit mint 0 ledger

/-- The same authority after a restart: only the file is left of what it knew. -/
def restart (a : Authority) : Except AuthorityError Authority :=
  start a.signer a.certificate a.limit a.mint a.minted a.ledger

/-! ## Steps

Each of these is one step under the authority's lock. -/

def isAllowed (a : Authority) (uuid : String) : Bool := a.roster.isAllowed uuid

def isWaiting (a : Authority) (uuid : String) : Bool := a.roster.isWaiting uuid

/-- Puts a machine on the waiting list, and says whether it was unknown. -/
def enroll (a : Authority) (uuid hostname : String) : Authority × Except AuthorityError Bool :=
  if a.isAllowed uuid || a.isWaiting uuid then (a, .ok false)
  else if a.limit ≤ a.roster.waiting.length then (a, .error (.full a.limit))
  else
    let roster := { a.roster with waiting := Keyed.insert uuid hostname a.roster.waiting }
    ({ a with roster := roster }, .ok true)

/-- Writes the list of allowed machines and, if that succeeds, adopts it. -/
def adopt (a : Authority) (allowed : List (String × String)) : Option Authority :=
  (a.ledger.write (AllowedList.render allowed)).map fun ledger =>
    { a with ledger := ledger, roster := { a.roster with allowed := allowed } }

/-- Allows a machine that waits. -/
def allow (a : Authority) (uuid : String) : Authority × Except AuthorityError Unit :=
  match Keyed.find? uuid a.roster.waiting with
  | none => (a, .error (.unknown uuid))
  | some hostname =>
    match a.adopt (Keyed.insert uuid hostname a.roster.allowed) with
    | none => (a, .error (.io "writing the allowed clients"))
    | some a =>
      let roster := { a.roster with waiting := Keyed.erase uuid a.roster.waiting }
      ({ a with roster := roster }, .ok ())

/-- Forgets a machine: its place on the lists and its session.  Nothing for one
that is on no list.  If the list cannot be written the session is closed all the
same, and the machine stays allowed as the file says. -/
def dismiss (a : Authority) (uuid : String) :
    Authority × Option (Except AuthorityError Unit) :=
  let waits := a.isWaiting uuid
  let allowed := a.isAllowed uuid
  if !waits && !allowed then (a, none)
  else
    let roster := { a.roster with waiting := Keyed.erase uuid a.roster.waiting }
    let a := { a with roster := roster.dropSessions uuid }
    if !allowed then (a, some (.ok ()))
    else match a.adopt (Keyed.erase uuid a.roster.allowed) with
      | some a => (a, some (.ok ()))
      | none => (a, some (.error (.io "writing the allowed clients")))

/-- The signature of an allowed machine's identifier. -/
def signature (a : Authority) (uuid : String) : Except AuthorityError (List UInt8) :=
  if !a.isAllowed uuid then .error (.notAllowed uuid)
  else match a.signer.sign uuid with
    | some bytes => .ok bytes
    | none => .error .key

def verify (a : Authority) (uuid : String) (signature : List UInt8) :
    Except AuthorityError Unit :=
  if a.signer.verify uuid signature then .ok () else .error .badSignature

/-- Opens a session with a fresh token. -/
def openSession (a : Authority) (uuid : String) (now : Int) : Authority × String :=
  let token := a.mint a.minted
  ({ a with minted := a.minted + 1, roster := a.roster.openSession token uuid now }, token)

/-- The session of a token, if it is this machine's. -/
def session (a : Authority) (uuid token : String) : Except AuthorityError Session :=
  match a.roster.session? uuid token with
  | some s => .ok s
  | none => .error .badToken

/-- Closes a session, and says whether there was one. -/
def closeSession (a : Authority) (token : String) : Authority × Bool :=
  ({ a with roster := a.roster.closeSession token }, Keyed.contains token a.roster.sessions)

end Authority
end Push
end FleetMesh
