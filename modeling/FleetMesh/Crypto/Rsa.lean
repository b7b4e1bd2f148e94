/-
RSA signatures: PKCS #1 version 1.5 over SHA-256.
-/
import FleetMesh.Crypto.Der
import FleetMesh.Crypto.Pem
import FleetMesh.Crypto.Sha256

namespace FleetMesh
namespace Rsa

/-- A private key with two primes. -/
structure Key where
  modulus : Nat
  publicExponent : Nat
  privateExponent : Nat
  prime1 : Nat
  prime2 : Nat
  deriving DecidableEq, Repr

namespace Key

/-- How many bytes the modulus has. -/
def size (k : Key) : Nat := (Nat.log2 k.modulus + 8) / 8

/-- The most bits a modulus may have. -/
def maxBits : Nat := 4096

/-- The parts belong together: the primes give the modulus, and the exponents undo
each other. -/
def isConsistent (k : Key) : Bool :=
  let product := k.publicExponent * k.privateExponent
  2 ≤ k.publicExponent && k.publicExponent < Nat.pow 2 33 && Nat.log2 k.modulus < maxBits
    && 2 ≤ k.prime1 && 2 ≤ k.prime2 && k.prime1 * k.prime2 == k.modulus
    && product % (k.prime1 - 1) == 1 && product % (k.prime2 - 1) == 1

/-- The key of a PKCS #1 structure. -/
def ofPkcs1? (der : List UInt8) : Option Key := do
  let content ← Der.only Der.sequenceTag der
  match ← Der.naturals? 9 content with
  | [0, n, e, d, p, q, _, _, _] =>
    let k : Key := ⟨n, e, d, p, q⟩
    if k.isConsistent then return k else none
  | _ => none

/-- The object identifier of RSA keys. -/
def algorithm : List UInt8 := [0x2A, 0x86, 0x48, 0x86, 0xF7, 0x0D, 0x01, 0x01, 0x01]

/-- The key of a PKCS #8 structure. -/
def ofPkcs8? (der : List UInt8) : Option Key := do
  let content ← Der.only Der.sequenceTag der
  let (version, content) ← Der.natural? content
  let (parameters, content) ← Der.expect Der.sequenceTag content
  let (oid, parameters) ← Der.expect Der.oidTag parameters
  let nothing ← Der.only Der.nullTag parameters
  let (key, _) ← Der.expect Der.octetStringTag content
  if version ≤ 1 ∧ oid = algorithm ∧ nothing = [] then ofPkcs1? key else none

/-- The key of a PEM text, in either form. -/
def ofPem? (text : String) : Option Key := do
  let s ← Pem.strict text
  if s.label = "RSA PRIVATE KEY" then ofPkcs1? s.der
  else if s.label = "PRIVATE KEY" then ofPkcs8? s.der
  else none

end Key

/-- `base ^ exponent` modulo `m`, by squaring. -/
def power (m : Nat) (base exponent : Nat) : Nat :=
  if exponent = 0 then 1 % m
  else
    let half := power m (base * base % m) (exponent / 2)
    if exponent % 2 = 1 then base * half % m else half
termination_by exponent

/-- A number in `size` bytes, the most significant first. -/
def bytesOfNat (size n : Nat) : List UInt8 :=
  (List.range size).map (fun i => UInt8.ofNat (n / Nat.pow 256 (size - 1 - i)))

/-- What names SHA-256 in front of the hash. -/
def digestMark : List UInt8 :=
  [0x30, 0x31, 0x30, 0x0D, 0x06, 0x09, 0x60, 0x86, 0x48, 0x01, 0x65, 0x03, 0x04, 0x02, 0x01, 0x05,
    0x00, 0x04, 0x20]

/-- The padded block that is signed; none if the modulus is too short for it. -/
def block? (size : Nat) (message : List UInt8) : Option (List UInt8) :=
  let digest := digestMark ++ Sha256.hash message
  if size < digest.length + 11 then none
  else some ([0x00, 0x01] ++ List.replicate (size - digest.length - 3) 0xFF ++ [0x00] ++ digest)

/-- The signature of a message. -/
def sign (k : Key) (message : List UInt8) : Option (List UInt8) :=
  (block? k.size message).map fun block =>
    bytesOfNat k.size (power k.modulus (Der.bigEndian block) k.privateExponent)

/-- Whether a signature is the message's. -/
def verify (k : Key) (message signature : List UInt8) : Bool :=
  let s := Der.bigEndian signature
  match block? k.size message with
  | none => false
  | some block => signature.length = k.size && s < k.modulus
    && bytesOfNat k.size (power k.modulus s k.publicExponent) == block

end Rsa
end FleetMesh
