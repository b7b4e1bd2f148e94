/-
DER values: a tag, a length and the content.
-/
namespace FleetMesh
namespace Der

def integerTag : UInt8 := 0x02
def bitStringTag : UInt8 := 0x03
def octetStringTag : UInt8 := 0x04
def nullTag : UInt8 := 0x05
def oidTag : UInt8 := 0x06
def sequenceTag : UInt8 := 0x30

/-- A context tag of a constructed value. -/
def contextTag (n : UInt8) : UInt8 := 0xA0 + n

def bigEndian (bytes : List UInt8) : Nat :=
  bytes.foldl (fun n b => 256 * n + b.toNat) 0

/-- A length and what follows it.  Of the forms that write it the shortest is
required. -/
def length? : List UInt8 → Option (Nat × List UInt8)
  | [] => none
  | b :: rest =>
    if b < 0x80 then some (b.toNat, rest)
    else
      let count := b.toNat - 0x80
      let bytes := rest.take count
      let n := bigEndian bytes
      if count = 0 ∨ 4 < count ∨ bytes.length < count then none
      else if n < 0x80 ∨ n < Nat.pow 256 (count - 1) then none
      else some (n, rest.drop count)

/-- The first value with its tag: the content, and what follows the value. -/
def value? : List UInt8 → Option (UInt8 × List UInt8 × List UInt8)
  | [] => none
  | tag :: rest => do
    let (n, rest) ← length? rest
    if rest.length < n then none else return (tag, rest.take n, rest.drop n)

/-- The content of the first value, which has to have the tag. -/
def expect (tag : UInt8) (bytes : List UInt8) : Option (List UInt8 × List UInt8) := do
  let (t, content, rest) ← value? bytes
  if t = tag then return (content, rest) else none

/-- The content of a value that is all there is. -/
def only (tag : UInt8) (bytes : List UInt8) : Option (List UInt8) := do
  let (content, rest) ← expect tag bytes
  if rest = [] then return content else none

/-- A natural number in its shortest form. -/
def natural? (bytes : List UInt8) : Option (Nat × List UInt8) := do
  let (content, rest) ← expect integerTag bytes
  match content with
  | [] => none
  | [b] => if b < 0x80 then return (b.toNat, rest) else none
  | a :: b :: _ =>
    if 0x80 ≤ a ∨ (a = 0 ∧ b < 0x80) then none else return (bigEndian content, rest)

/-- Natural numbers one after another, and nothing after the last. -/
def naturals? : Nat → List UInt8 → Option (List Nat)
  | 0, [] => some []
  | 0, _ :: _ => none
  | n + 1, bytes => do
    let (first, rest) ← natural? bytes
    return first :: (← naturals? n rest)

/-- The content of a bit string without unused bits. -/
def bits? (bytes : List UInt8) : Option (List UInt8 × List UInt8) := do
  let (content, rest) ← expect bitStringTag bytes
  match content with
  | 0 :: bits => return (bits, rest)
  | _ => none

end Der
end FleetMesh
