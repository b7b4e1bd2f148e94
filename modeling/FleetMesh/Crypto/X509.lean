/-
The public keys of certificates and of private keys.

A certificate is read as far as its public key.  Both sides give the key as the
content of the structure that names its algorithm and holds its bits, so that
whether a key belongs to a certificate is whether two byte strings are equal.
-/
import FleetMesh.Crypto.Rsa

namespace FleetMesh
namespace X509

/-! ## Writing DER -/

/-- The bytes of a number without leading zeros, none for zero. -/
def minimalBytes (n : Nat) : List UInt8 :=
  if n = 0 then [] else minimalBytes (n / 256) ++ [UInt8.ofNat n]
termination_by n

/-- The shortest form of a length. -/
def lengthBytes (n : Nat) : List UInt8 :=
  if n < 0x80 then [UInt8.ofNat n]
  else
    let bytes := minimalBytes n
    UInt8.ofNat (0x80 + bytes.length) :: bytes

/-- A value of a tag and a content. -/
def wrap (tag : UInt8) (content : List UInt8) : List UInt8 :=
  tag :: lengthBytes content.length ++ content

/-- A natural number, with a zero in front where it would look negative. -/
def naturalValue (n : Nat) : List UInt8 :=
  match minimalBytes n with
  | [] => wrap Der.integerTag [0]
  | b :: rest => wrap Der.integerTag (if b < 0x80 then b :: rest else 0 :: b :: rest)

def bitString (bits : List UInt8) : List UInt8 := wrap Der.bitStringTag (0 :: bits)

/-! ## Certificates -/

/-- The version of a certificate, which has to be the third. -/
def dropVersion? (bytes : List UInt8) : Option (List UInt8) := do
  let (content, rest) ← Der.expect (Der.contextTag 0) bytes
  let (version, more) ← Der.natural? content
  if version = 2 ∧ more = [] then return rest else none

/-- The public key of a certificate.  The algorithm of its signature is named twice
and has to be the same. -/
def publicKey? (certificate : List UInt8) : Option (List UInt8) := do
  let content ← Der.only Der.sequenceTag certificate
  let (body, content) ← Der.expect Der.sequenceTag content
  let (outer, content) ← Der.expect Der.sequenceTag content
  let (_, content) ← Der.bits? content
  let body ← dropVersion? body
  let (_, body) ← Der.expect Der.integerTag body
  let (inner, body) ← Der.expect Der.sequenceTag body
  let (_, body) ← Der.expect Der.sequenceTag body
  let (_, body) ← Der.expect Der.sequenceTag body
  let (_, body) ← Der.expect Der.sequenceTag body
  let (key, _) ← Der.expect Der.sequenceTag body
  if content = [] ∧ inner = outer then return key else none

/-! ## Private keys -/

/-- The object identifiers of keys on elliptic curves, and of the curve P-256. -/
def curveAlgorithm : List UInt8 := [0x2A, 0x86, 0x48, 0xCE, 0x3D, 0x02, 0x01]
def curveP256 : List UInt8 := [0x2A, 0x86, 0x48, 0xCE, 0x3D, 0x03, 0x01, 0x07]

/-- The algorithm of keys on P-256. -/
def p256 : List UInt8 :=
  wrap Der.oidTag curveAlgorithm ++ wrap Der.oidTag curveP256

/-- The algorithm of RSA keys. -/
def rsa : List UInt8 := wrap Der.oidTag Rsa.Key.algorithm ++ wrap Der.nullTag []

/-- The public key of a private key on P-256, as the key's own structure gives it. -/
def ofCurveKey? (der : List UInt8) : Option (List UInt8) := do
  let content ← Der.only Der.sequenceTag der
  let (version, content) ← Der.natural? content
  let (secret, content) ← Der.expect Der.octetStringTag content
  let content := match Der.expect (Der.contextTag 0) content with
    | some (_, rest) => rest
    | none => content
  let point ← Der.only (Der.contextTag 1) content
  let (bits, more) ← Der.bits? point
  if version = 1 ∧ secret.length = 32 ∧ bits.length = 65 ∧ more = [] then
    return wrap Der.sequenceTag p256 ++ bitString bits
  else none

/-- The least bits of an RSA modulus that may sign for a server. -/
def minRsaBits : Nat := 2048

/-- The public key of an RSA private key that is long enough. -/
def ofRsaKey? (k : Rsa.Key) : Option (List UInt8) :=
  if Nat.log2 k.modulus + 1 < minRsaBits then none
  else
    let pair := naturalValue k.modulus ++ naturalValue k.publicExponent
    some (wrap Der.sequenceTag rsa ++ bitString (wrap Der.sequenceTag pair))

/-- The public key of a structure that names the algorithm of its private key. -/
def ofPkcs8? (der : List UInt8) : Option (List UInt8) :=
  match Rsa.Key.ofPkcs8? der with
  | some k => ofRsaKey? k
  | none => do
    let content ← Der.only Der.sequenceTag der
    let (version, content) ← Der.natural? content
    let (algorithm, content) ← Der.expect Der.sequenceTag content
    let (key, _) ← Der.expect Der.octetStringTag content
    if version = 0 ∧ algorithm = p256 then ofCurveKey? key else none

def privateKeyLabels : List String := ["RSA PRIVATE KEY", "PRIVATE KEY", "EC PRIVATE KEY"]

/-- The public key of the private key in a section. -/
def ofSection? (s : Pem.Section) : Option (List UInt8) :=
  if s.label = "RSA PRIVATE KEY" then (Rsa.Key.ofPkcs1? s.der).bind ofRsaKey?
  else if s.label = "EC PRIVATE KEY" then ofCurveKey? s.der
  else ofPkcs8? s.der

end X509
end FleetMesh
