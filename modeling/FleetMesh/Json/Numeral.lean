/-
Numerals and the numbers they write.

A numeral without point and exponent is an integer if a signed or unsigned
64-bit word holds it; every other numeral is a float.  A float is computed in
two roundings: the leading digits that fit an unsigned word are taken as a float,
which is then multiplied or divided by the power of ten that is left.  The result
may differ from the nearest float in the last place, and it is the same on every
machine.
-/
import FleetMesh.Json.Value

namespace FleetMesh
namespace Json

/-- The parts of a numeral, digits as they are written. -/
structure Numeral where
  negative : Bool
  whole : List Nat
  fraction : Option (List Nat)
  /-- The exponent's sign (`true` for minus) and digits. -/
  exponent : Option (Bool × List Nat)
  deriving Repr

namespace Numeral

/-- The greatest unsigned word. -/
def maxWord : Nat := 0xffffffffffffffff

def ofDigits (digits : List Nat) : Nat :=
  digits.foldl (fun n d => 10 * n + d) 0

/-- Appends digits to `n` while it stays a word, and counts those left over. -/
def gather (n : Nat) : List Nat → Nat × Nat
  | [] => (n, 0)
  | d :: rest => if 10 * n + d ≤ maxWord then gather (10 * n + d) rest else (n, rest.length + 1)

/-- The greatest power of ten that a float holds. -/
def greatestPower : Nat := 308

/-- A float times a power of ten.  Powers below the range are taken in steps; two
steps bring every word to zero, so three tries always end. -/
def scale (f : Binary64) (e : Int) : Nat → Option Binary64
  | 0 => some (Binary64.zero false)
  | tries + 1 =>
    if e.natAbs ≤ greatestPower then
      (Binary64.powerOfTen e.natAbs).bind (fun p => if 0 ≤ e then f.mul p else f.div p)
    else if f.significand = 0 then some f
    else if 0 ≤ e then none
    else (Binary64.powerOfTen greatestPower).bind fun p =>
      (f.div p).bind fun g => scale g (e + greatestPower) tries

/-- The float `n * 10 ^ e` with a sign; none past the largest. -/
def toFloat (negative : Bool) (n : Nat) (e : Int) : Option Number :=
  (Binary64.ofNat n).bind fun f =>
    (scale f e 4).map fun g => .float (if negative then g.neg else g)

/-- The number that a numeral writes; none if it is too large for a float. -/
def number (m : Numeral) : Option Number :=
  let (n, left) := gather 0 m.whole
  match m.fraction, m.exponent with
  | none, none =>
    if left ≠ 0 then toFloat m.negative n left
    else if !m.negative then some (.int n)
    else if n = 0 ∨ 0x8000000000000000 < n then toFloat true n 0
    else some (.int (-n))
  | fraction, exponent =>
    let digits := fraction.getD []
    let (n, unused) := gather n digits
    let e : Int := (left : Int) - ((digits.length : Int) - (unused : Int))
    let shift : Int := match exponent with
      | none => 0
      | some (true, ds) => -(ofDigits ds : Int)
      | some (false, ds) => ofDigits ds
    toFloat m.negative n (e + shift)

end Numeral
end Json
end FleetMesh
