/-
Tables, as the lines of a document build them.

A table is made once: by a header, by the dots of a key, or on the way to a table
that has a header.  Only one of the last kind may get a header later, and the
dots of a key never reach into a table that has one.
-/
import FleetMesh.Toml.Value

namespace FleetMesh
namespace Toml

/-- What made a table. -/
inductive Origin
  | header
  | passage
  | dots
  deriving DecidableEq, Repr

inductive Item
  | value (v : Value)
  | table (origin : Origin) (entries : List (String × Item))
  /-- Tables that have the header of an array's element, in their order. -/
  | elements (tables : List (List (String × Item)))

abbrev Entries := List (String × Item)

/-- One line of a document. -/
inductive Line
  | assign (path : List String) (v : Value)
  | table (path : List String)
  | element (path : List String)

namespace Entries

/-- Changes the table at the end of a path with `f`, which is told what made it.
Tables that are missing on the way are made; of the elements of an array the last
is meant. -/
def reach (made : Origin) (f : Origin → Entries → Option Entries) :
    List String → Origin → Entries → Option Entries
  | [], origin, entries => f origin entries
  | key :: path, _, entries =>
    let keep (item : Item) : Entries := Keyed.insert key item entries
    match Keyed.find? key entries with
    | none => (reach made f path made []).map (fun inner => keep (.table made inner))
    | some (.value _) => none
    | some (.table origin inner) =>
      if made = .dots ∧ origin = .header then none
      else (reach made f path origin inner).map (fun inner => keep (.table origin inner))
    | some (.elements tables) =>
      match tables.getLast? with
      | none => none
      | some last => (reach made f path .header last).map
          (fun last => keep (.elements (tables.dropLast ++ [last])))

/-- The last key of a path and those before it. -/
def cutLast : List String → Option (List String × String)
  | [] => none
  | [key] => some ([], key)
  | key :: path => (cutLast path).map (fun (front, last) => (key :: front, last))

/-- Sets a key that is not set.  A key with dots sets it in a table that dots made,
and only there. -/
def assign (path : List String) (v : Value) (origin : Origin) (entries : Entries) :
    Option Entries := do
  let (front, key) ← cutLast path
  reach .dots (fun origin entries =>
    if (origin = .dots) ≠ (front ≠ []) ∨ Keyed.contains key entries then none
    else some (Keyed.insert key (.value v) entries)) front origin entries

/-- Gives a table its header. -/
def openTable (path : List String) (entries : Entries) : Option Entries := do
  let (front, key) ← cutLast path
  reach .passage (fun _ entries => match Keyed.find? key entries with
    | none => some (Keyed.insert key (.table .header []) entries)
    | some (.table .passage inner) => some (Keyed.insert key (.table .header inner) entries)
    | some _ => none) front .header entries

/-- Starts an element of an array. -/
def openElement (path : List String) (entries : Entries) : Option Entries := do
  let (front, key) ← cutLast path
  reach .passage (fun _ entries => match Keyed.find? key entries with
    | none => some (Keyed.insert key (.elements [[]]) entries)
    | some (.elements tables) => some (Keyed.insert key (.elements (tables ++ [[]])) entries)
    | some _ => none) front .header entries

/-! ## Lines -/

/-- One line more, in the table that the last header opened. -/
def step : Entries × List String → Line → Option (Entries × List String)
  | (entries, current), .assign path v =>
    (reach .passage (assign path v) current .header entries).map (fun e => (e, current))
  | (entries, _), .table path => (openTable path entries).map (fun e => (e, path))
  | (entries, _), .element path => (openElement path entries).map (fun e => (e, path))

def ofLines (lines : List Line) : Option Entries :=
  (lines.foldlM step ([], [])).map Prod.fst

/-- The entries of a table that is written in one line. -/
def ofPairs (pairs : List (List String × Value)) : Option Entries :=
  ofLines (pairs.map (fun (path, v) => .assign path v))

end Entries

mutual

def Item.toValue : Item → Value
  | .value v => v
  | .table _ entries => .table (Item.entryValues entries)
  | .elements tables => .array (Item.elementValues tables)

def Item.entryValues : List (String × Item) → List (String × Value)
  | [] => []
  | (key, item) :: rest => (key, item.toValue) :: Item.entryValues rest

def Item.elementValues : List (List (String × Item)) → List Value
  | [] => []
  | entries :: rest => .table (Item.entryValues entries) :: Item.elementValues rest

end

def Entries.toValue (entries : Entries) : Value := .table (Item.entryValues entries)

end Toml
end FleetMesh
