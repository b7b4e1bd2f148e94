/-
The shortest decimal of a binary64 number.

Of all decimals that round to the number this is one with the fewest digits, and
of those the nearest to it.  The reals that round to a number form an interval
around it, which holds its ends when the significand is even.  For one, two, …
digits the two decimals next to the number on the grid of that many digits are
tried, in exact arithmetic: if any decimal of that many digits lies in the
interval, one of these two does.
-/
import FleetMesh.Binary64

namespace FleetMesh

/-- The decimal `digits * 10 ^ exponent`. -/
structure Decimal where
  digits : Nat
  exponent : Int
  deriving DecidableEq, Repr

namespace Decimal

/-- Moves trailing zeros of the digits into the exponent. -/
def trimmed : Nat → Decimal → Decimal
  | 0, d => d
  | fuel + 1, d =>
    if d.digits ≠ 0 ∧ d.digits % 10 = 0 then trimmed fuel ⟨d.digits / 10, d.exponent + 1⟩ else d

end Decimal

namespace Binary64

/-- The reals between `low / den` and `high / den`, the ends with them if
`closed`. -/
structure Interval where
  low : Nat
  high : Nat
  den : Nat
  closed : Bool

/-- The reals that round to the number.  In quarters of the last place the number
is `4 * significand`; the gap below a power of two is half the gap above. -/
def interval (a : Binary64) : Interval :=
  let below := if a.significand = Nat.pow 2 52 ∧ minExponent < a.exponent then 1 else 2
  let (unit, den) := scaled 1 1 (a.exponent - 2)
  ⟨(4 * a.significand - below) * unit, (4 * a.significand + 2) * unit, den,
    a.significand % 2 = 0⟩

/-- A power of ten as a ratio of naturals. -/
def tenTo (p : Int) : Nat × Nat :=
  if 0 ≤ p then (Nat.pow 10 p.toNat, 1) else (1, Nat.pow 10 (-p).toNat)

def Interval.holds (i : Interval) (d : Decimal) : Bool :=
  let (tn, td) := tenTo d.exponent
  let x := d.digits * tn * i.den
  if i.closed then i.low * td ≤ x && x ≤ i.high * td
  else i.low * td < x && x < i.high * td

/-- How many decimal digits a natural has; zero has none. -/
def digitCount (n : Nat) : Nat :=
  if n = 0 then 0 else (Nat.toDigits 10 n).length

/-- The exponent of the leading decimal digit of `num / den`. -/
def leadingExponent (num den : Nat) : Int :=
  if den ≤ num then (digitCount (num / den) : Int) - 1
  else -(digitCount ((den + num - 1) / num - 1) : Int)

/-- The decimal of the grid `10 ^ p` that is in the interval and nearest. -/
def onGrid (a : Binary64) (p : Int) : Option Decimal :=
  let (num, den) := a.ratio
  let (tn, td) := tenTo p
  let n := num * td
  let d := den * tn
  let floor : Decimal := ⟨n / d, p⟩
  let above : Decimal := ⟨n / d + 1, p⟩
  let i := a.interval
  let nearFloor := 2 * (n % d) < d || (2 * (n % d) = d && n / d % 2 = 0)
  match i.holds floor && floor.digits != 0, i.holds above with
  | true, true => some (if nearFloor then floor else above)
  | true, false => some floor
  | false, true => some above
  | false, false => none

/-- Tries the grids from `p` downwards. -/
def searchGrids (a : Binary64) : Nat → Int → Option Decimal
  | 0, _ => none
  | tries + 1, p =>
    match onGrid a p with
    | some d => some d
    | none => searchGrids a tries (p - 1)

/-- The shortest decimal of the magnitude.  Seventeen digits always suffice. -/
def shortest (a : Binary64) : Decimal :=
  if a.significand = 0 then ⟨0, 0⟩
  else
    let (num, den) := a.ratio
    match searchGrids a 17 (leadingExponent num den) with
    | some d => Decimal.trimmed 18 d
    | none => ⟨a.significand, 0⟩

end Binary64
end FleetMesh
