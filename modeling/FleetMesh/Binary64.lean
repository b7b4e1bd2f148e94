/-
Floating-point numbers of the binary64 format, as exact dyadic rationals.

A finite number is `significand * 2 ^ exponent` with a sign, in the one form in
which the significand is below `2 ^ 53` and as large as the exponent's lower
bound allows.  Every operation computes the exact result as a ratio of naturals
and rounds it once, to the nearest number and to the even significand on a tie
(`ofRatio`).  Infinities are not numbers here: an operation whose result would
round past the largest finite number has none.
-/
namespace FleetMesh

/-- A finite number.  The fields are kept in the form that `ofRatio` gives them,
so that equal fields is equal bits. -/
structure Binary64 where
  negative : Bool
  significand : Nat
  exponent : Int
  deriving DecidableEq, Repr

namespace Binary64

/-- The exponent of the subnormal numbers, the least there is. -/
def minExponent : Int := -1074

/-- The exponent of the largest finite numbers. -/
def maxExponent : Int := 971

def zero (negative : Bool) : Binary64 := ⟨negative, 0, minExponent⟩

/-- Numerically equal: the two zeros are, and otherwise the fields decide. -/
instance : BEq Binary64 where
  beq a b := (a.significand == 0 && b.significand == 0)
    || (a.negative == b.negative && a.significand == b.significand && a.exponent == b.exponent)

def neg (a : Binary64) : Binary64 := { a with negative := !a.negative }

/-- The quotient rounded to the nearest natural, to the even one on a tie. -/
def roundDiv (num den : Nat) : Nat :=
  let q := num / den
  let r := num % den
  if 2 * r < den then q
  else if den < 2 * r then q + 1
  else q + q % 2

/-- `num / den * 2 ^ shift` as a ratio of naturals. -/
def scaled (num den : Nat) (shift : Int) : Nat × Nat :=
  if 0 ≤ shift then (num * Nat.pow 2 shift.toNat, den) else (num, den * Nat.pow 2 (-shift).toNat)

/-- With `e` the difference of the operands' bit lengths the ratio lies between
`2 ^ (e - 1)` and `2 ^ (e + 1)`, so this or the next exponent leaves 53 bits before
the point. -/
def firstExponent (num den : Nat) : Int :=
  max ((Nat.log2 num : Int) - (Nat.log2 den : Int) - 53) minExponent

/-- The exponent that a ratio is rounded with: one comparison settles which of the two. -/
def roundingExponent (num den : Nat) : Int :=
  let first := firstExponent num den
  let r := scaled num den (-first)
  if r.2 * Nat.pow 2 53 ≤ r.1 then first + 1 else first

/-- The number with these fields, unless it is past the largest. -/
def finite? (negative : Bool) (significand : Nat) (exponent : Int) : Option Binary64 :=
  if maxExponent < exponent then none else some ⟨negative, significand, exponent⟩

/-- The number nearest to `num / den`, unless it is past the largest. -/
def ofRatio (negative : Bool) (num den : Nat) : Option Binary64 :=
  if num = 0 then some (zero negative)
  else
    let exponent := roundingExponent num den
    let r := scaled num den (-exponent)
    let m := roundDiv r.1 r.2
    if m = Nat.pow 2 53 then finite? negative (Nat.pow 2 52) (exponent + 1)
    else finite? negative m exponent

/-- The magnitude as a ratio of naturals. -/
def ratio (a : Binary64) : Nat × Nat :=
  scaled a.significand 1 a.exponent

def ofNat (n : Nat) : Option Binary64 := ofRatio false n 1

def mul (a b : Binary64) : Option Binary64 :=
  let (an, ad) := a.ratio
  let (bn, bd) := b.ratio
  ofRatio (a.negative != b.negative) (an * bn) (ad * bd)

/-- The quotient, for a divisor that is not zero. -/
def div (a b : Binary64) : Option Binary64 :=
  let (an, ad) := a.ratio
  let (bn, bd) := b.ratio
  ofRatio (a.negative != b.negative) (an * bd) (ad * bn)

/-- The number nearest to a power of ten. -/
def powerOfTen (k : Nat) : Option Binary64 := ofNat (Nat.pow 10 k)

end Binary64
end FleetMesh
