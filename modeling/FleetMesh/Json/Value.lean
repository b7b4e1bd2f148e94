/-
JSON values and their compact text.

Objects keep the order of their members, since a record is written in the order
of its fields; `Value.sorted` puts the members in order, as free-form content is
kept.  Integers are exact.  A float is written with the fewest digits that read
back, and always with a point or an exponent, so that it reads back as a float.
-/
import FleetMesh.Keyed
import FleetMesh.Text.Hex
import FleetMesh.Binary64.Shortest

namespace FleetMesh
namespace Json

inductive Number
  | int (n : Int)
  | float (x : Binary64)
  deriving DecidableEq, BEq, Repr

inductive Value
  | null
  | bool (b : Bool)
  | number (n : Number)
  | string (s : String)
  | array (items : List Value)
  | object (members : List (String × Value))
  deriving BEq, Repr

namespace Number

/-- The least and greatest exponents of the leading digit for which a float is
written without an exponent. -/
def positional : Int × Int := (-5, 15)

def zeros (n : Nat) : List Char := List.replicate n '0'

/-- The digits of a decimal with a point `place` digits after the first one. -/
def pointed (digits : List Char) (place : Int) : List Char :=
  if place < 0 then ['0', '.'] ++ zeros (-place - 1).toNat ++ digits
  else
    let before := place.toNat + 1
    if digits.length ≤ before then digits ++ zeros (before - digits.length) ++ ['.', '0']
    else digits.take before ++ ['.'] ++ digits.drop before

def floatChars (x : Binary64) : List Char :=
  let sign := if x.negative then ['-'] else []
  if x.significand = 0 then sign ++ ['0', '.', '0']
  else
    let d := x.shortest
    let digits := Nat.toDigits 10 d.digits
    let place : Int := d.exponent + (digits.length : Int) - 1
    if positional.1 ≤ place ∧ place ≤ positional.2 then sign ++ pointed digits place
    else
      let mantissa := match digits with
        | [c] => [c]
        | c :: rest => c :: '.' :: rest
        | [] => []
      let mark := if place < 0 then ['e', '-'] else ['e', '+']
      sign ++ mantissa ++ mark ++ Nat.toDigits 10 place.natAbs

def intChars (n : Int) : List Char :=
  if n < 0 then '-' :: Nat.toDigits 10 n.natAbs else Nat.toDigits 10 n.natAbs

def chars : Number → List Char
  | int n => intChars n
  | float x => floatChars x

end Number

/-! ## Text -/

/-- A character inside a string.  Control characters are escaped, the five that
have a letter by it. -/
def charText (c : Char) : List Char :=
  if c = '"' then ['\\', '"']
  else if c = '\\' then ['\\', '\\']
  else if c = '\n' then ['\\', 'n']
  else if c = '\r' then ['\\', 'r']
  else if c = '\t' then ['\\', 't']
  else if c = '\x08' then ['\\', 'b']
  else if c = '\x0c' then ['\\', 'f']
  else if c.toNat < 0x20 then
    ['\\', 'u', '0', '0', Text.hexDigit (c.toNat / 16), Text.hexDigit (c.toNat % 16)]
  else [c]

def stringText (s : String) : List Char :=
  '"' :: s.toList.flatMap charText ++ ['"']

mutual

/-- The compact text of a value. -/
def Value.chars : Value → List Char
  | .null => ['n', 'u', 'l', 'l']
  | .bool true => ['t', 'r', 'u', 'e']
  | .bool false => ['f', 'a', 'l', 's', 'e']
  | .number n => n.chars
  | .string s => stringText s
  | .array [] => ['[', ']']
  | .array (v :: rest) => '[' :: v.chars ++ Value.moreItems rest
  | .object [] => ['\x7b', '\x7d']
  | .object ((k, v) :: rest) =>
    '\x7b' :: stringText k ++ ':' :: v.chars ++ Value.moreMembers rest

/-- The items of an array after its first, and the closing bracket. -/
def Value.moreItems : List Value → List Char
  | [] => [']']
  | v :: rest => ',' :: v.chars ++ Value.moreItems rest

/-- The members of an object after its first, and the closing brace. -/
def Value.moreMembers : List (String × Value) → List Char
  | [] => ['\x7d']
  | (k, v) :: rest => ',' :: stringText k ++ ':' :: v.chars ++ Value.moreMembers rest

end

namespace Value

def render (v : Value) : String := String.ofList v.chars

def int (n : Int) : Value := number (.int n)

def strings (texts : List String) : Value := array (texts.map string)

/-- A table as an object, its keys as the names. -/
def ofTable {α : Type} (write : α → Value) (table : List (String × α)) : Value :=
  object (Keyed.mapValues write table)

mutual

/-- The members of every object in ascending order of their names, of two with
the same name the later one. -/
def sorted : Value → Value
  | array items => array (sortedItems items)
  | object members => object (Keyed.ofList (sortedMembers members))
  | v => v

def sortedItems : List Value → List Value
  | [] => []
  | v :: rest => v.sorted :: sortedItems rest

def sortedMembers : List (String × Value) → List (String × Value)
  | [] => []
  | (k, v) :: rest => (k, v.sorted) :: sortedMembers rest

end

/-- The member of an object. -/
def member? (name : String) : Value → Option Value
  | object members => Keyed.find? name members
  | _ => none

end Value
end Json
end FleetMesh
