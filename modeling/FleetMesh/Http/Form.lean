/-
Percent encoding, and forms written with it.

A form is a list of names and values, joined by `=` and `&`, in which a space is
a plus sign and a byte that would be taken for something else is a percent sign
and two digits.  Reading is lenient: a percent sign without two digits stands for
itself, and bytes that are no text come out as replacement characters.
-/
import FleetMesh.Text.Blank
import FleetMesh.Text.Glyph
import FleetMesh.Text.Hex

namespace FleetMesh
namespace Http

/-- The byte of two hexadecimal digits. -/
def hexPair? (a b : UInt8) : Option UInt8 := do
  let high ← Text.hexDigit? (Char.ofNat a.toNat)
  let low ← Text.hexDigit? (Char.ofNat b.toNat)
  return UInt8.ofNat (16 * high + low)

/-- Replaces every percent sign and two digits by their byte. -/
def percentDecode : List UInt8 → List UInt8
  | c :: a :: b :: rest =>
    match if c = 0x25 then hexPair? a b else none with
    | some byte => byte :: percentDecode rest
    | none => c :: percentDecode (a :: b :: rest)
  | bytes => bytes

namespace Form

/-! ## Writing -/

/-- The bytes that a form shows as they are. -/
def isPlain (b : UInt8) : Bool :=
  let c := Char.ofNat b.toNat
  b.toNat < 0x80 && (c.isAlphanum || c = '*' || c = '-' || c = '.' || c = '_')

def upperHex (n : Nat) : Char :=
  if n < 10 then Char.ofNat ('0'.toNat + n) else Char.ofNat ('A'.toNat + n - 10)

def encodeByte (b : UInt8) : List Char :=
  if isPlain b then [Char.ofNat b.toNat]
  else if b = 0x20 then ['+']
  else ['%', upperHex (b.toNat / 16), upperHex (b.toNat % 16)]

def encode (s : String) : String :=
  String.ofList ((Text.bytesOf s).flatMap encodeByte)

/-! ## Reading -/

/-- The text of a name or a value. -/
def decode (bytes : List UInt8) : String :=
  Text.decodeLossy (percentDecode (bytes.map (fun b => if b = 0x2B then 0x20 else b)))

/-- The field of one piece; without a `=` the value is empty. -/
def field (piece : List UInt8) : String × String :=
  let name := piece.takeWhile (· != 0x3D)
  (decode name, decode (piece.drop (name.length + 1)))

/-- The fields of a form in their order. -/
def fields (text : String) : List (String × String) :=
  ((Text.splitBy (· == 0x26) (Text.bytesOf text)).filter (· ≠ [])).map field

end Form
end Http
end FleetMesh
