/-
Base64 with padding.
-/
namespace FleetMesh
namespace Base64

/-- The six bits of a character of the alphabet. -/
def value? (b : UInt8) : Option Nat :=
  let n := b.toNat
  if 65 ≤ n ∧ n ≤ 90 then some (n - 65)
  else if 97 ≤ n ∧ n ≤ 122 then some (n - 97 + 26)
  else if 48 ≤ n ∧ n ≤ 57 then some (n - 48 + 52)
  else if n = 43 then some 62
  else if n = 47 then some 63
  else none

/-- The padding character. -/
def pad : UInt8 := 61

/-- The bytes of four characters, of which the last ones may be padding.  When
`exact`, the bits that padding cuts off have to be zero. -/
def group (exact : Bool) (a b c d : UInt8) : Option (List UInt8) := do
  let a ← value? a
  let b ← value? b
  if c = pad then
    if d ≠ pad ∨ (exact ∧ b % 16 ≠ 0) then none
    else return [UInt8.ofNat (4 * a + b / 16)]
  else
    let c ← value? c
    if d = pad then
      if exact ∧ c % 4 ≠ 0 then none
      else return [UInt8.ofNat (4 * a + b / 16), UInt8.ofNat (16 * (b % 16) + c / 4)]
    else
      let d ← value? d
      return [UInt8.ofNat (4 * a + b / 16), UInt8.ofNat (16 * (b % 16) + c / 4),
        UInt8.ofNat (64 * (c % 4) + d)]

/-- Reads whole groups; only the last one may be padded. -/
def decode (exact : Bool) : List UInt8 → Option (List UInt8)
  | [] => some []
  | a :: b :: c :: d :: rest => do
    let bytes ← group exact a b c d
    if d = pad ∧ rest ≠ [] then none
    else return bytes ++ (← decode exact rest)
  | _ => none

end Base64
end FleetMesh
