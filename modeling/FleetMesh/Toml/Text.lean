/-
Reading a whole TOML text.
-/
import FleetMesh.Toml.Document
import FleetMesh.Toml.Scalar

namespace FleetMesh
namespace Toml

/-! ## Keys -/

/-- The most names that dots may join in a key, and the most brackets that may be
open in a value. -/
def nestingLimit : Nat := 79

def isKeyChar (c : Char) : Bool := c.isAlphanum || c = '-' || c = '_'

/-- One name, bare or quoted. -/
def name? (cs : List Char) : Option (String × List Char) :=
  match cs with
  | '"' :: rest => lineString '"' true (.plain 0) [] rest
  | '\'' :: rest => lineString '\'' false (.plain 0) [] rest
  | cs =>
    let bare := cs.takeWhile isKeyChar
    if bare = [] then none else some (String.ofList bare, cs.drop bare.length)

/-- Names joined by dots, with the spaces around them. -/
def key : Nat → List Char → Option (List String × List Char)
  | 0, _ => none
  | left + 1, cs => do
    let (name, rest) ← name? (skipSpaces cs)
    match skipSpaces rest with
    | '.' :: more =>
      let (names, rest) ← key left more
      return (name :: names, rest)
    | rest => return ([name], rest)

/-! ## Values -/

/-- A word that is a value. -/
def word? (cs : List Char) : Option (Value × List Char) :=
  match cs with
  | 't' :: 'r' :: 'u' :: 'e' :: rest => some (.bool true, rest)
  | 'f' :: 'a' :: 'l' :: 's' :: 'e' :: rest => some (.bool false, rest)
  | _ => none

/-- A value of one token. -/
def scalar (cs : List Char) : Option (Value × List Char) :=
  match cs with
  | '"' :: _ | '\'' :: _ => (string? cs).map (fun (s, rest) => (.string s, rest))
  | _ => (word? cs).orElse fun _ => (moment cs).orElse fun _ => number cs

mutual

/-- A value with at most `levels` brackets open in it.  Every step takes a
character, so a text's length is fuel enough for it. -/
def value : Nat → Nat → List Char → Option (Value × List Char)
  | 0, _, _ => none
  | fuel + 1, levels, cs =>
    match cs, levels with
    | '[' :: rest, levels + 1 =>
      (items fuel levels (skipBlank false rest)).map (fun (vs, rest) => (.array vs, rest))
    | '\x7b' :: rest, levels + 1 => do
      let (pairs, rest) ← pairs fuel levels true (skipSpaces rest)
      return ((← Entries.ofPairs pairs).toValue, rest)
    | '[' :: _, 0 | '\x7b' :: _, 0 => none
    | cs, _ => scalar cs

/-- The items of an array to its end.  The last may be followed by a comma. -/
def items : Nat → Nat → List Char → Option (List Value × List Char)
  | 0, _, _ => none
  | _, _, ']' :: rest => some ([], rest)
  | fuel + 1, levels, cs => do
    let (v, rest) ← value fuel levels cs
    match skipBlank false rest with
    | ',' :: more =>
      let (vs, rest) ← items fuel levels (skipBlank false more)
      return (v :: vs, rest)
    | ']' :: rest => return ([v], rest)
    | _ => none

/-- The pairs of a table in one line to its end, which may come at once only where
it is `first`. -/
def pairs : Nat → Nat → Bool → List Char → Option (List (List String × Value) × List Char)
  | 0, _, _, _ => none
  | _, _, true, '\x7d' :: rest => some ([], rest)
  | fuel + 1, levels, _, cs => do
    let (path, rest) ← key nestingLimit cs
    let rest ← Timestamp.one (· == '=') rest
    let (v, rest) ← value fuel levels (skipSpaces rest)
    match skipSpaces rest with
    | ',' :: more =>
      let (more, rest) ← pairs fuel levels false more
      return ((path, v) :: more, rest)
    | '\x7d' :: rest => return ([(path, v)], rest)
    | _ => none

end

/-! ## Lines -/

/-- A line that is not blank. -/
def line? (cs : List Char) : Option (Line × List Char) :=
  match cs with
  | '[' :: '[' :: rest => do
    let (path, rest) ← key nestingLimit rest
    match rest with
    | ']' :: ']' :: rest => return (.element path, rest)
    | _ => none
  | '[' :: rest => do
    let (path, rest) ← key nestingLimit rest
    let rest ← Timestamp.one (· == ']') rest
    return (.table path, rest)
  | cs => do
    let (path, rest) ← key nestingLimit cs
    let rest ← Timestamp.one (· == '=') rest
    let (v, rest) ← value (rest.length + 1) nestingLimit (skipSpaces rest)
    return (.assign path v, rest)

/-- The lines of a text.  Every line takes a character, so the text's length is
fuel enough. -/
def lines : Nat → List Char → Option (List Line)
  | 0, cs => if cs = [] then some [] else none
  | fuel + 1, cs =>
    match skipSpaces cs with
    | [] => some []
    | c :: rest =>
      if c = '#' ∨ c = '\n' ∨ c = '\r' then do
        lines fuel (← endLine? (c :: rest))
      else do
        let (line, rest) ← line? (c :: rest)
        return line :: (← lines fuel (← endLine? rest))

/-- The table that a text writes.  A mark of the byte order may stand before it. -/
def parse (text : String) : Option Value := do
  let cs := match text.toList with
    | '\uFEFF' :: rest => rest
    | cs => cs
  let entries ← Entries.ofLines (← lines cs.length cs)
  return entries.toValue

end Toml
end FleetMesh
