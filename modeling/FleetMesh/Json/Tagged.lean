/-
Alternatives that are written as objects with a tag.

Two forms are in use.  In the inner form the tag is a field among the fields of
the alternative, so all fields are held until the tag is known.  In the outer
form the object has a field for the tag and one for the content, and only
content that comes before its tag is held.  Either may be written as a list, the
tag first.
-/
import FleetMesh.Json.Record

namespace FleetMesh
namespace Json
namespace Read

/-- What has to hold where a list that was read to its end closes. -/
def closeList (source : Source) (count : Nat) : List Doc → Option Fault → Decoded Unit
  | [], none => .ok ()
  | [], some fault => Fault.raise fault
  | d :: more, _ => surplus source count (d :: more).length

/-! ## The inner form -/

/-- Separates the tag from the other fields, which are held in their order. -/
def separate (tag : String) (known : List String) :
    List (Doc × Doc) → Option Fault → Option String → Decoded (String × List (Doc × Doc))
  | [], none, some name => .ok (name, [])
  | [], none, none => .error (.missingField tag)
  | [], some fault, _ => Fault.raise fault
  | (name, value) :: rest, ending, found => do
    let key ← name.key
    if key = tag then
      match found with
      | some _ => .error (.duplicateField tag)
      | none => separate tag known rest ending (some (← identifier known "variant identifier" value))
    else
      raising value.hold
      let (variant, fields) ← separate tag known rest ending found
      return (variant, (name, value) :: fields)

/-- Reads an alternative by its tag.  `content` is given the fields without the
tag. -/
def tagged {α : Type} (title tag : String) (known : List String)
    (content : String → Reader α) : Reader α
  | _, .object fields ending => do
    let (name, fields) ← separate tag known fields ending none
    content name .held (.object fields none)
  | _, .array [] none => .error (.missingField tag)
  | _, .array [] (some fault) => Fault.raise fault
  | _, .array (first :: rest) ending => do
    let name ← identifier known "variant identifier" first
    raising (Doc.holdItems rest ending)
    content name .held (.array rest none)
  | _, .deep _ => Fault.raise .malformed
  | _, d => d.refuse title

/-! ## The outer form -/

inductive Part
  | tag
  | content
  deriving DecidableEq, Repr

/-- Passes over other fields to the next one that matters. -/
def seek (tag content : String) :
    List (Doc × Doc) → Option Fault → Decoded (Option (Part × Doc × List (Doc × Doc)))
  | [], none => .ok none
  | [], some fault => Fault.raise fault
  | (name, value) :: rest, ending => do
    let key ← name.key
    if key = tag then return some (.tag, value, rest)
    else if key = content then return some (.content, value, rest)
    else
      raising value.skip
      seek tag content rest ending

/-- What has to hold of the fields after both were read. -/
def closeFields (tag content : String) (fields : List (Doc × Doc)) (ending : Option Fault) :
    Decoded Unit := do
  match ← seek tag content fields ending with
  | none => .ok ()
  | some (.tag, _) => .error (.duplicateField tag)
  | some (.content, _) => .error (.duplicateField content)

/-- The tag where it is a field's value: a name, or the object form of one. -/
def tagName (known : List String) (source : Source) : Doc → Decoded String :=
  variant known "variant identifier" (fun name => noContent name source)

/-- An alternative in the outer form. -/
structure Outer (α : Type) where
  title : String
  tag : String
  content : String
  known : List String
  /-- What stands for an alternative whose content is left out. -/
  alone : String → Option α
  read : String → Reader α

def Outer.reader {α : Type} (o : Outer α) : Reader α
  | source, .object fields ending => do
    match ← seek o.tag o.content fields ending with
    | none => .error (.missingField o.tag)
    | some (.tag, value, rest) => do
      let name ← tagName o.known source value
      match ← seek o.tag o.content rest ending with
      | none => match o.alone name with
        | some a => .ok a
        | none => .error (.missingField o.content)
      | some (.tag, _) => .error (.duplicateField o.tag)
      | some (.content, value, rest) => do
        let a ← o.read name source value
        closeFields o.tag o.content rest ending
        return a
    | some (.content, held, rest) => do
      raising held.hold
      match ← seek o.tag o.content rest ending with
      | none => .error (.missingField o.tag)
      | some (.content, _) => .error (.duplicateField o.content)
      | some (.tag, value, rest) => do
        let name ← tagName o.known source value
        let a ← o.read name .held held
        closeFields o.tag o.content rest ending
        return a
  | _, .array [] none => .error (.invalidLength 0 o.title)
  | _, .array [] (some fault) => Fault.raise fault
  | _, .array [first] ending => do
    let _ ← identifier o.known "variant identifier" first
    match ending with
    | some fault => Fault.raise fault
    | none => .error (.invalidLength 1 o.title)
  | source, .array (first :: second :: rest) ending => do
    let name ← identifier o.known "variant identifier" first
    let a ← o.read name source second
    closeList source 2 rest ending
    return a
  | _, .deep _ => Fault.raise .malformed
  | _, d => d.refuse o.title

end Read
end Json
end FleetMesh
