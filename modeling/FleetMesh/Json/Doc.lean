/-
JSON texts as they were written, faults included.

A text is decoded against the type that is asked for, in one pass, and the first
thing wrong in text order is what is reported: a value of the wrong type near
the start wins over a missing bracket at the end.  So reading a text gives a
`Doc` in every case.  It is the tree of what was written up to the first fault,
with the fault at its place, and a decoder that walks the tree in text order
meets type errors and faults in the order of the text.

Some texts can be passed over but not read: a string with half a surrogate pair
(`garbled`), and a container nested too deeply (`deep`).
-/
import FleetMesh.Json.Value

namespace FleetMesh
namespace Json

/-- What is wrong with a text: it breaks the grammar, or it ends early. -/
inductive Fault
  | malformed
  | truncated
  deriving DecidableEq, Repr

inductive Doc
  /-- The text ended where a value was to come. -/
  | absent
  /-- A character that begins no value. -/
  | astray
  /-- A value that breaks off.  Reading a value and passing over it may call the
  same break by different names; `quoted` tells a string from a word or a number. -/
  | broken (quoted : Bool) (read skip : Fault)
  /-- A string or number that is complete and has no meaning. -/
  | garbled
  | null
  | bool (b : Bool)
  | number (n : Number)
  | string (s : String)
  /-- `ending` is what is wrong at the place of a comma or the closing bracket. -/
  | array (items : List Doc) (ending : Option Fault)
  | object (fields : List (Doc × Doc)) (ending : Option Fault)
  /-- A container at or past the nesting limit. -/
  | deep (d : Doc)
  deriving Repr

/-- What may be written between the tokens of a value that is not a container:
the brackets and marks, and the values that are one token. -/
inductive Token
  | openArray
  | closeArray
  | openObject
  | closeObject
  | comma
  | colon
  | leaf (d : Doc)
  deriving Repr

namespace Doc

/-- How many containers may be open at once; the next one is not entered. -/
def nestingLimit : Nat := 127

/-- Whether a value of one token breaks the text off. -/
def isFaulty : Doc → Bool
  | absent | astray | broken .. => true
  | _ => false

/-- A container that has been opened: the array's items so far, the object's
fields so far, or those and the name whose value is to come.  The latest is the
first in each list. -/
inductive Frame
  | array (items : List Doc)
  | object (fields : List (Doc × Doc))
  | field (fields : List (Doc × Doc)) (name : Doc)

/-- What the grammar allows next. -/
inductive Next
  | value
  /-- Just after an opening bracket: what the container holds, or its end. -/
  | first
  | name
  | colon
  /-- After an item or a field: a comma or the end of the container. -/
  | comma
  deriving DecidableEq

/-- A text being read. -/
inductive Builder
  | reading (frames : List Frame) (next : Next)
  /-- The value is complete; `more` if something follows it. -/
  | whole (d : Doc) (more : Bool)

/-- A container inside `outer` others. -/
def atDepth (outer : Nat) (d : Doc) : Doc :=
  if nestingLimit ≤ outer then deep d else d

/-- The text breaks off with `d` as the last thing read. -/
def collapse (d : Doc) : List Frame → Doc
  | [] => d
  | .array items :: outer =>
    collapse (atDepth outer.length (array (d :: items).reverse none)) outer
  | .object fields :: outer =>
    collapse (atDepth outer.length (object ((d, absent) :: fields).reverse none)) outer
  | .field fields name :: outer =>
    collapse (atDepth outer.length (object ((name, d) :: fields).reverse none)) outer

/-- The text breaks off where a comma or a closing bracket was to come. -/
def collapseAt (fault : Fault) : List Frame → Doc
  | [] => astray
  | .array items :: outer =>
    collapse (atDepth outer.length (array items.reverse (some fault))) outer
  | .object fields :: outer | .field fields _ :: outer =>
    collapse (atDepth outer.length (object fields.reverse (some fault))) outer

/-- A complete value takes its place. -/
def place (d : Doc) : List Frame → Builder
  | [] => .whole d false
  | .array items :: outer => .reading (.array (d :: items) :: outer) .comma
  | .object fields :: outer => .reading (.object fields :: outer) .comma
  | .field fields name :: outer => .reading (.object ((name, d) :: fields) :: outer) .comma

def breakOff (d : Doc) (frames : List Frame) : Builder :=
  .whole (collapse d frames) false

/-- A token where a value has to come. -/
def pushValue (frames : List Frame) : Token → Builder
  | .leaf d => if d.isFaulty then breakOff d frames else place d frames
  | .openArray => .reading (.array [] :: frames) .first
  | .openObject => .reading (.object [] :: frames) .first
  | _ => breakOff astray frames

/-- A token where the name of a field has to come.  A name that is no string
breaks the text off, but what it is decides how that is reported. -/
def pushName (frames : List Frame) : Token → Builder
  | .leaf d => match d, frames with
    | string s, .object fields :: outer => .reading (.field fields (string s) :: outer) .colon
    | garbled, .object fields :: outer => .reading (.field fields garbled :: outer) .colon
    | _, _ => breakOff d frames
  | .openArray => breakOff (array [] none) frames
  | .openObject => breakOff (object [] none) frames
  | _ => breakOff astray frames

/-- One token more. -/
def push : Builder → Token → Builder
  | .whole d _, _ => .whole d true
  | .reading frames .value, t => pushValue frames t
  | .reading frames .name, t => pushName frames t
  | .reading frames .colon, t => match t with
    | .colon => .reading frames .value
    | _ => breakOff astray frames
  | .reading frames .first, t => match frames, t with
    | .array items :: outer, .closeArray =>
      place (atDepth outer.length (array items.reverse none)) outer
    | .object fields :: outer, .closeObject =>
      place (atDepth outer.length (object fields.reverse none)) outer
    | .object _ :: _, t => pushName frames t
    | _, t => pushValue frames t
  | .reading frames .comma, t => match frames, t with
    | .array _ :: _, .comma => .reading frames .value
    | .object _ :: _, .comma => .reading frames .name
    | .array items :: outer, .closeArray =>
      place (atDepth outer.length (array items.reverse none)) outer
    | .object fields :: outer, .closeObject =>
      place (atDepth outer.length (object fields.reverse none)) outer
    | _, _ => .whole (collapseAt .malformed frames) false

/-- The text ends. -/
def finish : Builder → Doc × Bool
  | .whole d more => (d, more)
  | .reading frames .value => (collapse absent frames, false)
  | .reading frames .colon => (collapse absent frames, false)
  | .reading frames .name => (collapse absent frames, false)
  | .reading frames .first | .reading frames .comma => (collapseAt .truncated frames, false)

/-- The first value that the tokens write, and whether anything follows it. -/
def ofTokens (tokens : List Token) : Doc × Bool :=
  finish (tokens.foldl push (.reading [] .value))

/-! ## Passing over a value

A value that nobody asked for must still be well formed.  Strings are not looked
into, numbers are not evaluated, and nesting is not limited. -/

mutual

def skip : Doc → Except Fault Unit
  | absent => .error .truncated
  | astray => .error .malformed
  | broken _ _ fault => .error fault
  | garbled | null | bool _ | number _ | string _ => .ok ()
  | array items ending => skipItems items ending
  | object fields ending => skipFields fields ending
  | deep d => d.skip

def skipItems : List Doc → Option Fault → Except Fault Unit
  | [], none => .ok ()
  | [], some fault => .error fault
  | d :: rest, ending => do
    d.skip
    skipItems rest ending

def skipFields : List (Doc × Doc) → Option Fault → Except Fault Unit
  | [], none => .ok ()
  | [], some fault => .error fault
  | (name, value) :: rest, ending => do
    name.skipName
    value.skip
    skipFields rest ending

/-- Only a string may be a name. -/
def skipName : Doc → Except Fault Unit
  | absent => .error .truncated
  | broken true _ fault => .error fault
  | garbled | string _ => .ok ()
  | _ => .error .malformed

end

/-! ## Values as texts -/

mutual

/-- The text of a value, as it would be read back. -/
def ofValue : Value → Doc
  | .null => null
  | .bool b => bool b
  | .number n => number n
  | .string s => string s
  | .array items => array (ofItems items) none
  | .object members => object (ofMembers members) none

def ofItems : List Value → List Doc
  | [] => []
  | v :: rest => ofValue v :: ofItems rest

def ofMembers : List (String × Value) → List (Doc × Doc)
  | [] => []
  | (k, v) :: rest => (string k, ofValue v) :: ofMembers rest

end

end Doc
end Json
end FleetMesh
