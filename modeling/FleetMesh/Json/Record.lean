/-
Records as JSON objects.

A record is described once, by its fields in order, and the description both
writes and reads it.  It is written as an object with its members in that order.
It is read from an object with its members in any order, unknown ones passed
over, or from the list of its fields.

A description is indexed by the list of its fields' types.  `Row` is one value
for each, and `Draft` the values read so far.
-/
import FleetMesh.Json.Decode

namespace FleetMesh
namespace Json

/-- How the values of a type are written and read. -/
structure Codec (α : Type) where
  write : α → Value
  read : Reader α

/-- A field of a record.  `write` is `none` for a value that is left out. -/
structure Field (α : Type) where
  name : String
  write : α → Option Value
  read : Reader α
  /-- What stands for the field when an object lacks it. -/
  missing : Option α
  /-- What stands for the field when a list ends before it. -/
  cut : Option α

namespace Codec

def string : Codec String := ⟨.string, Read.string⟩
def bool : Codec Bool := ⟨.bool, Read.bool⟩
def int32 : Codec Int := ⟨.int, Read.int32⟩
def int64 : Codec Int := ⟨.int, Read.int64⟩
def word8 : Codec Nat := ⟨fun n => .int n, Read.word8⟩
def word64 : Codec Nat := ⟨fun n => .int n, Read.word64⟩

def list {α : Type} (c : Codec α) : Codec (List α) :=
  ⟨fun as => .array (as.map c.write), Read.list c.read⟩

def table {α : Type} (c : Codec α) : Codec (List (String × α)) :=
  ⟨Value.ofTable c.write, Read.table c.read⟩

def option {α : Type} (c : Codec α) : Codec (Option α) :=
  ⟨fun a => match a with
    | none => .null
    | some a => c.write a, Read.option c.read⟩

/-- The same texts for another type. -/
def imap {α β : Type} (c : Codec α) (f : α → β) (g : β → α) : Codec β :=
  ⟨fun b => c.write (g b), fun source d => (c.read source d).map f⟩

end Codec

namespace Field

variable {α : Type}

def required (name : String) (c : Codec α) : Field α :=
  ⟨name, fun a => some (c.write a), c.read, none, none⟩

def optional (name : String) (c : Codec α) (default : α) : Field α :=
  ⟨name, fun a => some (c.write a), c.read, some default, some default⟩

/-- A field that is left out when it has nothing. -/
def sparse (name : String) (c : Codec α) : Field (Option α) :=
  ⟨name, fun a => a.map c.write, Read.option c.read, some none, some none⟩

/-- A field that is `null` when it has nothing, and may then be missing from an
object but not from a list. -/
def nullable (name : String) (c : Codec α) : Field (Option α) :=
  ⟨name, fun a => some (c.option.write a), Read.option c.read, some none, none⟩

end Field

/-- The fields of a record, in order. -/
def Layout : List Type → Type
  | [] => Unit
  | α :: ts => Field α × Layout ts

/-- A value for each field. -/
@[reducible] def Row : List Type → Type
  | [] => Unit
  | α :: ts => α × Row ts

/-- The values of the fields read so far. -/
def Draft : List Type → Type
  | [] => Unit
  | α :: ts => Option α × Draft ts

namespace Layout

def members : {ts : List Type} → Layout ts → Row ts → List (String × Value)
  | [], _, _ => []
  | _ :: _, (f, rest), (a, row) =>
    match f.write a with
    | some v => (f.name, v) :: members rest row
    | none => members rest row

def blank : {ts : List Type} → Draft ts
  | [] => ()
  | _ :: _ => (none, blank)

/-- Reads the field called `name`; `none` if no field is.  A field that was read
before is reported without looking at its value. -/
def accept (source : Source) (name : String) (d : Doc) :
    {ts : List Type} → Layout ts → Draft ts → Option (Decoded (Draft ts))
  | [], _, _ => none
  | _ :: _, (f, rest), (slot, draft) =>
    if f.name = name then some (match slot with
      | some _ => .error (.duplicateField name)
      | none => (f.read source d).map (fun a => (some a, draft)))
    else (accept source name d rest draft).map (fun result => result.map (fun draft => (slot, draft)))

/-- Reads the fields of an object in the order they are written. -/
def readFields {ts : List Type} (layout : Layout ts) (source : Source) :
    List (Doc × Doc) → Option Fault → Draft ts → Decoded (Draft ts)
  | [], none, draft => .ok draft
  | [], some fault, _ => Fault.raise fault
  | (name, value) :: rest, ending, draft => do
    let key ← name.key
    match layout.accept source key value draft with
    | some result => readFields layout source rest ending (← result)
    | none => do
      raising value.skip
      readFields layout source rest ending draft

/-- The row of a draft.  The first field that has neither a value nor a default
is missing. -/
def complete : {ts : List Type} → Layout ts → Draft ts → Decoded (Row ts)
  | [], _, _ => .ok ()
  | _ :: _, (f, rest), (slot, draft) =>
    match slot, f.missing with
    | some a, _ | none, some a => (complete rest draft).map (fun row => (a, row))
    | none, none => .error (.missingField f.name)

end Layout

/-- `4 elements`. -/
def elements (n : Nat) : String :=
  toString n ++ (if n = 1 then " element" else " elements")

/-- What is wrong with a list that goes on after the last field.  `count` fields
were read. -/
def surplus {α : Type} (source : Source) (count extra : Nat) : Decoded α :=
  match source with
  | .text => Fault.raise .malformed
  | .held => .error (.invalidLength (count + extra) (elements count ++ " in sequence"))

namespace Layout

/-- Reads the fields from a list, `index` of them being done. -/
def readItems (source : Source) (whole : String) :
    {ts : List Type} → Layout ts → Nat → List Doc → Option Fault → Decoded (Row ts)
  | [], _, _, [], none => .ok ()
  | [], _, _, [], some fault => Fault.raise fault
  | [], _, index, d :: more, _ => surplus source index (d :: more).length
  | _ :: _, _, _, [], some fault => Fault.raise fault
  | _ :: _, (f, rest), index, [], none =>
    match f.cut with
    | some a => (readItems source whole rest (index + 1) [] none).map (fun row => (a, row))
    | none => .error (.invalidLength index whole)
  | _ :: _, (f, rest), index, d :: more, ending => do
    let a ← f.read source d
    let row ← readItems source whole rest (index + 1) more ending
    return (a, row)

end Layout

/-- A record: what it is called in messages, and its fields. -/
structure Record (ts : List Type) where
  title : String
  layout : Layout ts

namespace Record

variable {ts : List Type}

/-- What a list of the wrong length was to be. -/
def withLength (r : Record ts) : String :=
  r.title ++ " with " ++ elements ts.length

def ofFields (r : Record ts) (source : Source) (fields : List (Doc × Doc))
    (ending : Option Fault) : Decoded (Row ts) := do
  r.layout.complete (← r.layout.readFields source fields ending Layout.blank)

def ofItems (r : Record ts) (source : Source) (docs : List Doc) (ending : Option Fault) :
    Decoded (Row ts) :=
  r.layout.readItems source r.withLength 0 docs ending

def read (r : Record ts) : Reader (Row ts)
  | source, .object fields ending => r.ofFields source fields ending
  | source, .array docs ending => r.ofItems source docs ending
  | _, .deep _ => Fault.raise .malformed
  | _, d => d.refuse r.title

def codec {α : Type} (r : Record ts) (ofRow : Row ts → α) (toRow : α → Row ts) : Codec α where
  write a := .object (r.layout.members (toRow a))
  read source d := (r.read source d).map ofRow

end Record
end Json
end FleetMesh
