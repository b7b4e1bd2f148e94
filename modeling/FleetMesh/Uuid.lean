/-
The durable identifier of a machine.

A machine without one draws it at random and keeps it in a file, which nobody
else may read; from then on the file is what it is called.
-/
import FleetMesh.Text.Blank
import FleetMesh.Text.Glyph
import FleetMesh.Text.Hex

namespace FleetMesh
namespace Uuid

/-! ## Random identifiers -/

/-- The two bytes of sixteen that say how an identifier was made. -/
def stamp (bytes : List UInt8) : List UInt8 :=
  bytes.zipIdx.map fun (b, i) =>
    if i = 6 then 0x40 ||| (b &&& 0x0F)
    else if i = 8 then 0x80 ||| (b &&& 0x3F)
    else b

/-- How many digits stand between the hyphens. -/
def groups : List Nat := [8, 4, 4, 4, 12]

/-- Cuts a list into pieces of the given lengths. -/
def cutAt : List Nat → List Char → List (List Char)
  | [], _ => []
  | n :: lengths, cs => cs.take n :: cutAt lengths (cs.drop n)

/-- The identifier of sixteen random bytes. -/
def ofRandom (bytes : List UInt8) : String :=
  let digits := (Text.hexOfBytes (stamp bytes)).toList
  "-".intercalate ((cutAt groups digits).map String.ofList)

def isLowerHex (c : Char) : Bool := c.isDigit || ('a' ≤ c && c ≤ 'f')

/-- Whether a text is a random identifier in lower case. -/
def isRandom (s : String) : Bool :=
  let pieces := Text.splitBy (· == '-') s.toList
  pieces.map List.length = groups && pieces.all (fun piece => piece.all isLowerHex)
    && pieces[2]?.any (fun piece => piece.head? = some '4')
    && pieces[3]?.any (fun piece => piece.head?.any (fun c => "89ab".toList.contains c))

/-! ## The file -/

/-- What is at the place of the file. -/
inductive Place
  | file (contents : List UInt8)
  | directory
  /-- Nothing is there, and whether a file can be. -/
  | vacant (writable : Bool)
  deriving DecidableEq, Repr

inductive UuidError
  | read
  | write
  | malformed
  deriving DecidableEq, Repr

/-- Who may read and write a file that is made, as an octal mode says it. -/
def fileMode : Nat := 0o600

/-- The identifier in a file: one word. -/
def ofContents (contents : List UInt8) : Except UuidError String :=
  match Text.decode? contents with
  | none => .error .read
  | some text =>
    let word := Text.trim text
    if word = "" ∨ word.toList.any Text.isBlank then .error .malformed else .ok word

/-- The identifier that is kept at a place, or a fresh one that is kept from now
on. -/
def load (random : List UInt8) : Place → Except UuidError (String × Place)
  | .file contents => (ofContents contents).map (fun uuid => (uuid, .file contents))
  | .directory => .error .read
  | .vacant false => .error .write
  | .vacant true =>
    let uuid := ofRandom random
    .ok (uuid, .file (Text.bytesOf uuid))

end Uuid
end FleetMesh
