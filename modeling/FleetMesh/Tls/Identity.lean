/-
What the two ends of a TLS channel need to know before it opens.

A server shows one certificate and proves that it has its key.  A client has no
list of trusted issuers: it takes exactly the certificate it was given, or any
if it was given none.
-/
import FleetMesh.Crypto.X509
import FleetMesh.Tls.ServerName

namespace FleetMesh
namespace Tls

inductive TlsError
  | pem
  | noCertificate
  | invalidName (host : String)
  /-- The certificate cannot be read, or the key cannot be used with it. -/
  | unusable
  deriving DecidableEq, Repr

def TlsError.message : TlsError → String
  | pem => "invalid PEM material"
  | noCertificate => "no certificate found in PEM input"
  | invalidName host => "unexpected error: invalid server name " ++ host
  | unusable => "unusable certificate or key"

def serverName (host : String) : Except TlsError ServerName :=
  match ServerName.parse? host with
  | some name => .ok name
  | none => .error (.invalidName host)

/-! ## The server's side -/

/-- What a server shows. -/
structure Identity where
  chain : List (List UInt8)
  key : Pem.Section
  deriving DecidableEq, Repr

/-- Whether the key is the one that the first certificate names. -/
def Identity.agrees (i : Identity) : Bool :=
  match i.chain.head?.bind X509.publicKey?, X509.ofSection? i.key with
  | some a, some b => a == b
  | _, _ => false

/-- The identity in two PEM texts. -/
def Identity.ofPem (certificates key : List UInt8) : Except TlsError Identity :=
  match Pem.all? Pem.certificateLabel certificates with
  | none => .error .pem
  | some [] => .error .noCertificate
  | some (c :: rest) =>
    match Pem.first? X509.privateKeyLabels key with
    | none => .error .pem
    | some s =>
      let identity : Identity := ⟨(c :: rest).map Pem.Section.der, s⟩
      if identity.agrees then .ok identity else .error .unusable

/-! ## The client's side -/

/-- The certificate that a client insists on, if it does. -/
structure Pin where
  certificate : Option (List UInt8)
  deriving DecidableEq, Repr

/-- The pin of a PEM text; without one every certificate is taken. -/
def Pin.ofPem : Option (List UInt8) → Except TlsError Pin
  | none => .ok ⟨none⟩
  | some text =>
    match Pem.certificate? text with
    | some certificate => .ok ⟨some certificate⟩
    | none => .error .pem

/-- Whether a client goes on with a server that shows `certificate`. -/
def Pin.accepts (p : Pin) (certificate : List UInt8) : Bool :=
  p.certificate.all (· == certificate)

end Tls
end FleetMesh
