/-
IP addresses as texts.

An address of four parts is written in decimal without leading zeros.  One of
eight groups is written in hexadecimal; one run of zero groups may be left out,
and the last two groups may be written as an address of four parts.  Writing
leaves out the longest run, the first of equals, and the case of digits is lower.
-/
import FleetMesh.Text.Blank
import FleetMesh.Text.Hex
import FleetMesh.Text.Numeral

namespace FleetMesh
namespace Tls

inductive Address
  | v4 (parts : List Nat)
  | v6 (groups : List Nat)
  deriving DecidableEq, Repr

namespace Address

def pieces (sep : Char) (cs : List Char) : List (List Char) :=
  Text.splitBy (· == sep) cs

/-! ## Reading -/

/-- A decimal part below 256 without leading zeros. -/
def part? (cs : List Char) : Option Nat :=
  if 1 < cs.length ∧ cs.head? = some '0' then none
  else (Text.digits? cs).filter (fun n => cs.length ≤ 3 && n < 256)

def ofV4? (cs : List Char) : Option (List Nat) := do
  let parts ← (pieces '.' cs).mapM part?
  if parts.length = 4 then return parts else none

/-- A group of one to four hexadecimal digits. -/
def group? (cs : List Char) : Option Nat :=
  if cs = [] ∨ 4 < cs.length then none
  else (cs.mapM Text.hexDigit?).map (fun ds => ds.foldl (fun n d => 16 * n + d) 0)

/-- Groups in their order.  The last piece may be an address of four parts. -/
def groups? : List (List Char) → Option (List Nat)
  | [] => some []
  | [last] =>
    match ofV4? last with
    | some [a, b, c, d] => some [256 * a + b, 256 * c + d]
    | _ => (group? last).map (fun g => [g])
  | piece :: rest => do
    let g ← group? piece
    return g :: (← groups? rest)

/-- The text before the first `::` and the text after it. -/
def cutGap : List Char → Option (List Char × List Char)
  | ':' :: ':' :: rest => some ([], rest)
  | c :: rest => (cutGap rest).map (fun (a, b) => (c :: a, b))
  | [] => none

def side? (cs : List Char) : Option (List Nat) :=
  if cs = [] then some [] else groups? (pieces ':' cs)

def ofV6? (cs : List Char) : Option (List Nat) :=
  match cutGap cs with
  | none => do
    let groups ← groups? (pieces ':' cs)
    if groups.length = 8 then return groups else none
  | some (front, back) => do
    let front' ← side? front
    let back' ← side? back
    if front.contains '.' ∨ 7 < front'.length + back'.length then none
    else return front' ++ List.replicate (8 - front'.length - back'.length) 0 ++ back'

def parse? (text : String) : Option Address :=
  let cs := text.toList
  match ofV4? cs with
  | some parts => some (v4 parts)
  | none => (ofV6? cs).map v6

/-! ## Writing -/

def dotted (parts : List Nat) : String :=
  ".".intercalate (parts.map toString)

def colons (groups : List Nat) : String :=
  ":".intercalate (groups.map (fun g => String.ofList (Text.hexNumber g)))

/-- How many zeros a list begins with. -/
def zeros (groups : List Nat) : Nat := (groups.takeWhile (· == 0)).length

/-- The longest run of zero groups, the first of equals: where it starts, and its
length. -/
def longestRun (groups : List Nat) : Nat × Nat :=
  (List.range groups.length).foldl (fun best i =>
    let n := zeros (groups.drop i)
    if best.2 < n then (i, n) else best) (0, 0)

def render : Address → String
  | v4 parts => dotted parts
  | v6 [0, 0, 0, 0, 0, 0xFFFF, a, b] =>
    "::ffff:" ++ dotted [a / 256, a % 256, b / 256, b % 256]
  | v6 groups =>
    let (start, length) := longestRun groups
    if length < 2 then colons groups
    else colons (groups.take start) ++ "::" ++ colons (groups.drop (start + length))

end Address
end Tls
end FleetMesh
