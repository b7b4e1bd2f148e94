/-
Hexadecimal digits, and byte strings written with two of them a byte.
-/
namespace FleetMesh
namespace Text

/-- The value of a hexadecimal digit of either case. -/
def hexDigit? (c : Char) : Option Nat :=
  if '0' ≤ c ∧ c ≤ '9' then some (c.toNat - '0'.toNat)
  else if 'a' ≤ c ∧ c ≤ 'f' then some (c.toNat - 'a'.toNat + 10)
  else if 'A' ≤ c ∧ c ≤ 'F' then some (c.toNat - 'A'.toNat + 10)
  else none

/-- The lower-case digit of a value below sixteen. -/
def hexDigit (n : Nat) : Char :=
  if n < 10 then Char.ofNat ('0'.toNat + n) else Char.ofNat ('a'.toNat + n - 10)

/-- A number in lower-case hexadecimal without leading zeros, `0` for zero. -/
def hexNumber (n : Nat) : List Char :=
  Nat.toDigits 16 n

def hexOfBytes (bytes : List UInt8) : String :=
  String.ofList (bytes.flatMap (fun b => [hexDigit (b.toNat / 16), hexDigit (b.toNat % 16)]))

/-- Reads two digits a byte; `none` on an odd digit or another character. -/
def bytesOfHexDigits : List Char → Option (List UInt8)
  | [] => some []
  | [_] => none
  | a :: b :: rest => do
    let hi ← hexDigit? a
    let lo ← hexDigit? b
    let bytes ← bytesOfHexDigits rest
    return UInt8.ofNat (16 * hi + lo) :: bytes

def bytesOfHex (s : String) : Option (List UInt8) :=
  bytesOfHexDigits s.toList

end Text
end FleetMesh
