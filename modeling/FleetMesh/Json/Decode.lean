/-
Reading a `Doc` as a value of a given type.

A reader either gives a value or the first thing in text order that keeps the
text from being one.  `DecodeError` says what that is; its wording is in
`DecodeError.message?`, and grammar faults have none beyond their kind: what a
decoder adds in words of its own is a `Wording`.
-/
import FleetMesh.Json.Token
import FleetMesh.Text.Quoted

namespace FleetMesh
namespace Json

/-- What was found in the place of what was expected. -/
inductive Found
  | null
  | bool (b : Bool)
  | number (n : Number)
  | string (s : String)
  | sequence
  | map
  | unitVariant
  deriving DecidableEq, Repr

inductive DecodeError
  | fault (f : Fault)
  | missingField (name : String)
  | duplicateField (name : String)
  | unknownVariant (name : String) (known : List String)
  | invalidType (found : Found) (expected : String)
  | invalidValue (found : Found) (expected : String)
  | invalidLength (length : Nat) (expected : String)
  | invalidDate
  deriving DecidableEq, Repr

abbrev Decoded (α : Type) := Except DecodeError α

/-- The three kinds of error: the text breaks the grammar, it ends early, or it
is well formed so far and does not fit the type. -/
inductive ErrorKind
  | malformed
  | truncated
  | unfitting
  deriving DecidableEq, Repr

def Found.text : Found → String
  | .null => "null"
  | .bool b => "boolean `" ++ (if b then "true" else "false") ++ "`"
  | .number (.int n) => "integer `" ++ String.ofList (Number.intChars n) ++ "`"
  | .number (.float x) => "floating point `" ++ String.ofList (Number.floatChars x) ++ "`"
  | .string s => "string " ++ Text.quote s
  | .sequence => "sequence"
  | .map => "map"
  | .unitVariant => "unit variant"

/-- The choice that was open: one name, either of two, or one of several. -/
def oneOf (names : List String) : String :=
  match names.map (fun n => "`" ++ n ++ "`") with
  | [a] => a
  | [a, b] => a ++ " or " ++ b
  | all => "one of " ++ ", ".intercalate all

namespace DecodeError

def kind : DecodeError → ErrorKind
  | fault .malformed => .malformed
  | fault .truncated => .truncated
  | _ => .unfitting

def message? : DecodeError → Option String
  | fault _ | invalidDate => none
  | missingField name => some ("missing field `" ++ name ++ "`")
  | duplicateField name => some ("duplicate field `" ++ name ++ "`")
  | unknownVariant name known =>
    some ("unknown variant `" ++ name ++ "`, expected " ++ oneOf known)
  | invalidType found expected =>
    some ("invalid type: " ++ found.text ++ ", expected " ++ expected)
  | invalidValue found expected =>
    some ("invalid value: " ++ found.text ++ ", expected " ++ expected)
  | invalidLength length expected =>
    some ("invalid length " ++ toString length ++ ", expected " ++ expected)

end DecodeError

/-- What a decoder says of an error in its own words: how the text breaks the grammar, and
the place of the error in the text. -/
class Wording where
  details : String → DecodeError → String

/-- Nothing is said beyond the error itself. -/
instance : Wording := ⟨fun _ _ => ""⟩

/-- An error of a text, in words. -/
def Wording.describe (w : Wording) (text : String) (e : DecodeError) : String :=
  e.message?.getD "" ++ w.details text e

def Fault.raise {α : Type} (f : Fault) : Decoded α := .error (.fault f)

/-- A check of the grammar, as a step of a decoder. -/
def raising {α : Type} (checked : Except Fault α) : Decoded α :=
  checked.mapError .fault

/-- Where a doc comes from: the text itself, or a value that was read whole
before its type was known.  The two report surplus items of a list
differently. -/
inductive Source
  | text
  | held
  deriving DecidableEq, Repr

abbrev Reader (α : Type) := Source → Doc → Decoded α

namespace Doc

/-- The error of a doc that is not what was expected.  One that could not be read
at all reports its own fault. -/
def refuse {α : Type} (expected : String) : Doc → Decoded α
  | absent => Fault.raise .truncated
  | astray | garbled => Fault.raise .malformed
  | broken _ fault _ => Fault.raise fault
  | null => .error (.invalidType .null expected)
  | bool b => .error (.invalidType (.bool b) expected)
  | number n => .error (.invalidType (.number n) expected)
  | string s => .error (.invalidType (.string s) expected)
  | array .. => .error (.invalidType .sequence expected)
  | object .. => .error (.invalidType .map expected)
  | deep d => d.refuse expected

/-- The name of a field.  What is no string breaks the grammar there. -/
def key : Doc → Decoded String
  | string s => .ok s
  | absent => Fault.raise .truncated
  | broken true fault _ => Fault.raise fault
  | _ => Fault.raise .malformed

/-- The error of a doc that stands where an alternative is to be named. -/
def refuseVariant {α : Type} : Doc → Decoded α
  | absent => Fault.raise .truncated
  | broken true fault _ => Fault.raise fault
  | _ => Fault.raise .malformed

/-! ## Reading a value whole

Before the type of a value is known it is read whole, and then every string and
number in it counts. -/

mutual

def hold : Doc → Except Fault Unit
  | absent => .error .truncated
  | astray | garbled | deep _ => .error .malformed
  | broken _ fault _ => .error fault
  | null | bool _ | number _ | string _ => .ok ()
  | array items ending => holdItems items ending
  | object fields ending => holdFields fields ending

def holdItems : List Doc → Option Fault → Except Fault Unit
  | [], none => .ok ()
  | [], some fault => .error fault
  | d :: rest, ending => do
    d.hold
    holdItems rest ending

def holdFields : List (Doc × Doc) → Option Fault → Except Fault Unit
  | [], none => .ok ()
  | [], some fault => .error fault
  | (name, value) :: rest, ending => do
    name.holdName
    value.hold
    holdFields rest ending

def holdName : Doc → Except Fault Unit
  | string _ => .ok ()
  | absent => .error .truncated
  | broken true fault _ => .error fault
  | _ => .error .malformed

end

end Doc

/-! ## Readers of simple types -/

namespace Read

def string : Reader String
  | _, .string s => .ok s
  | _, d => d.refuse "a string"

def bool : Reader Bool
  | _, .bool b => .ok b
  | _, d => d.refuse "a boolean"

/-- An integer within bounds; `name` is what the bounds are called. -/
def integer (low high : Int) (name : String) : Reader Int
  | _, .number (.int n) =>
    if low ≤ n ∧ n ≤ high then .ok n else .error (.invalidValue (.number (.int n)) name)
  | _, d => d.refuse name

def int32 : Reader Int := integer (-0x80000000) 0x7fffffff "i32"
def int64 : Reader Int := integer (-0x8000000000000000) 0x7fffffffffffffff "i64"

def natural (high : Nat) (name : String) : Reader Nat := fun source d =>
  (integer 0 high name source d).map Int.toNat

def word8 : Reader Nat := natural 0xff "u8"
def word64 : Reader Nat := natural 0xffffffffffffffff "u64"

/-- `null` for nothing. -/
def option {α : Type} (read : Reader α) : Reader (Option α)
  | _, .null => .ok none
  | source, d => (read source d).map some

def unit : Reader Unit
  | _, .null => .ok ()
  | _, d => d.refuse "unit"

def items {α : Type} (read : Reader α) (source : Source) :
    List Doc → Option Fault → Decoded (List α)
  | [], none => .ok []
  | [], some fault => Fault.raise fault
  | d :: rest, ending => do
    let a ← read source d
    return a :: (← items read source rest ending)

def list {α : Type} (read : Reader α) : Reader (List α)
  | source, .array docs ending => items read source docs ending
  | _, .deep (.array ..) => Fault.raise .malformed
  | _, d => d.refuse "a sequence"

/-- The entries of a table; a later one replaces an earlier one of its name. -/
def entries {α : Type} (read : Reader α) (source : Source) :
    List (Doc × Doc) → Option Fault → List (String × α) → Decoded (List (String × α))
  | [], none, table => .ok table
  | [], some fault, _ => Fault.raise fault
  | (name, value) :: rest, ending, table => do
    let key ← name.key
    let a ← read source value
    entries read source rest ending (Keyed.insert key a table)

def table {α : Type} (read : Reader α) : Reader (List (String × α))
  | source, .object fields ending => entries read source fields ending []
  | _, .deep (.object ..) => Fault.raise .malformed
  | _, d => d.refuse "a map"

mutual

/-- Free-form content.  The members of its objects come out in order, of two with
the same name the later one. -/
def freeForm : Doc → Decoded Value
  | .absent => Fault.raise .truncated
  | .astray | .garbled | .deep _ => Fault.raise .malformed
  | .broken _ fault _ => Fault.raise fault
  | .null => .ok .null
  | .bool b => .ok (.bool b)
  | .number n => .ok (.number n)
  | .string s => .ok (.string s)
  | .array docs ending => do
    return .array (← freeFormItems docs ending)
  | .object fields ending => do
    return .object (Keyed.ofList (← freeFormMembers fields ending))

def freeFormItems : List Doc → Option Fault → Decoded (List Value)
  | [], none => .ok []
  | [], some fault => Fault.raise fault
  | d :: rest, ending => do
    let v ← freeForm d
    return v :: (← freeFormItems rest ending)

def freeFormMembers : List (Doc × Doc) → Option Fault → Decoded (List (String × Value))
  | [], none => .ok []
  | [], some fault => Fault.raise fault
  | (name, value) :: rest, ending => do
    let key ← name.key
    let v ← freeForm value
    return (key, v) :: (← freeFormMembers rest ending)

end

def value : Reader Value := fun _ d => freeForm d

/-! ## Alternatives

An alternative is written as its name alone, or as an object whose one field is
named for it and holds its content. -/

/-- The name of an alternative, which has to be one of `known`. -/
def identifier (known : List String) (expected : String) : Doc → Decoded String
  | .string s => if s ∈ known then .ok s else .error (.unknownVariant s known)
  | d => d.refuse expected

/-- Reads an alternative; `content` gets its name and, unless that stands alone,
its content. -/
def variant {α : Type} (known : List String) (expected : String)
    (content : String → Option Doc → Decoded α) : Doc → Decoded α
  | .string s => do content (← identifier known expected (.string s)) none
  | .object [] none => Fault.raise .malformed
  | .object [] (some fault) => Fault.raise fault
  | .object ((name, value) :: more) ending => do
    let a ← content (← identifier known expected name) (some value)
    match more, ending with
    | [], none => .ok a
    | [], some fault => Fault.raise fault
    | _ :: _, _ => Fault.raise .malformed
  | d => d.refuseVariant

/-- The content of an alternative that has none: left out, or `null`. -/
def noContent {α : Type} (a : α) (source : Source) : Option Doc → Decoded α
  | none => .ok a
  | some d => do
    unit source d
    return a

/-- The content of an alternative that has one. -/
def someContent {α : Type} (read : Reader α) (source : Source) : Option Doc → Decoded α
  | none => .error (.invalidType .unitVariant "newtype variant")
  | some d => read source d

end Read

/-! ## Whole texts -/

/-- Reads a text that holds one value and nothing after it. -/
def decodeGlyphs {α : Type} (read : Reader α) (glyphs : List Text.Glyph) : Decoded α := do
  let (d, more) := Doc.ofGlyphs glyphs
  let a ← read .text d
  if more then Fault.raise .malformed else return a

def decode {α : Type} (read : Reader α) (text : String) : Decoded α :=
  decodeGlyphs read (Text.Glyph.ofString text)

def decodeBytes {α : Type} (read : Reader α) (bytes : List UInt8) : Decoded α :=
  decodeGlyphs read (Text.Glyph.ofBytes bytes)

end Json
end FleetMesh
