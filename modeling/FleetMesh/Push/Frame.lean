/-
Frames: byte strings on a connection, each after its length in four bytes.

The reader takes one byte at a time, so how a stream was cut into reads cannot
matter.  A length past the limit shuts it, and then nothing more is read.
-/
import FleetMesh.Crypto.Der

namespace FleetMesh
namespace Push

namespace Frame

/-- The most bytes a frame may hold. -/
def maxLength : Nat := 16 * 1024 * 1024

/-- How many bytes the length takes. -/
def headerSize : Nat := 4

/-- A length, the most significant byte first. -/
def header (n : Nat) : List UInt8 :=
  (List.range headerSize).map (fun i => UInt8.ofNat (n / Nat.pow 256 (headerSize - 1 - i)))

def encode (payload : List UInt8) : List UInt8 := header payload.length ++ payload

/-- What is written for a content; nothing for one that is too long. -/
def encode? (payload : List UInt8) : Option (List UInt8) :=
  if maxLength < payload.length then none else some (encode payload)

end Frame

/-- How far the frame at hand was received. -/
inductive Inbox
  /-- Within the length: its bytes so far. -/
  | length (bytes : List UInt8)
  /-- Within the content: how many bytes are to come, and those so far, the latest
  first. -/
  | content (left : Nat) (bytes : List UInt8)
  | shut
  deriving DecidableEq, Repr

namespace Inbox

def empty : Inbox := length []

/-- A length is complete.  A frame without content is complete with it. -/
def opened (n : Nat) : Inbox × Option (List UInt8) :=
  if Frame.maxLength < n then (shut, none)
  else if n = 0 then (empty, some [])
  else (content n [], none)

/-- One byte more, and the frame that it completes. -/
def take : Inbox → UInt8 → Inbox × Option (List UInt8)
  | length bytes, b =>
    let bytes := bytes ++ [b]
    if bytes.length < Frame.headerSize then (length bytes, none)
    else opened (Der.bigEndian bytes)
  | content left bytes, b =>
    if left ≤ 1 then (empty, some (b :: bytes).reverse)
    else (content (left - 1) (b :: bytes), none)
  | shut, _ => (shut, none)

end Inbox
end Push
end FleetMesh
