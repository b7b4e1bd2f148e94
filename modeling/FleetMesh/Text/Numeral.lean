/-
Decimal numerals as settings and addresses write them: ASCII digits, leading
zeros allowed, and a sign where the type has one.
-/
namespace FleetMesh
namespace Text

/-- The decimal number that a text of one or more ASCII digits writes. -/
def digits? (cs : List Char) : Option Nat :=
  if cs ≠ [] ∧ cs.all Char.isDigit then
    some (cs.foldl (fun n c => 10 * n + (c.toNat - '0'.toNat)) 0)
  else none

/-- A number without a minus sign, at most `high`. -/
def natural? (high : Nat) (s : String) : Option Nat :=
  let value := match s.toList with
    | '+' :: cs => digits? cs
    | cs => digits? cs
  value.filter (fun n => n ≤ high)

/-- A number with or without a sign, within bounds. -/
def integer? (low high : Int) (s : String) : Option Int :=
  let value : Option Int := match s.toList with
    | '+' :: cs => (digits? cs).map Int.ofNat
    | '-' :: cs => (digits? cs).map (fun n => -Int.ofNat n)
    | cs => (digits? cs).map Int.ofNat
  value.filter (fun n => low ≤ n ∧ n ≤ high)

end Text
end FleetMesh
