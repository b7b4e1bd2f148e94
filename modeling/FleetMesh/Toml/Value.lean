/-
TOML values, and reading them as values of a given type.

A record is read from a table, whose other entries do not matter, or from an
array of its fields in their order, whose surplus items do not matter.  A date
stands for a record in which nothing is set.
-/
import FleetMesh.Keyed

namespace FleetMesh
namespace Toml

/-- A value.  Of floats and dates only what they are is kept, for nothing that is
read from a document is one. -/
inductive Value
  | string (s : String)
  | integer (n : Int)
  | float
  | bool (b : Bool)
  | date
  | array (items : List Value)
  | table (entries : List (String × Value))
  deriving Repr

/-- A reader of values of one type; `none` for a value that is not of it. -/
abbrev Reader (α : Type) := Value → Option α

namespace Read

def string : Reader String
  | .string s => some s
  | _ => none

def bool : Reader Bool
  | .bool b => some b
  | _ => none

/-- An integer within bounds. -/
def integer (low high : Int) : Reader Int
  | .integer n => if low ≤ n ∧ n ≤ high then some n else none
  | _ => none

def natural (high : Nat) : Reader Nat := fun v => (integer 0 high v).map Int.toNat

def word16 : Reader Nat := natural 0xffff
def word32 : Reader Nat := natural 0xffffffff
def word64 : Reader Nat := natural 0xffffffffffffffff
def int32 : Reader Int := integer (-0x80000000) 0x7fffffff
def int64 : Reader Int := integer (-0x8000000000000000) 0x7fffffffffffffff

def list {α : Type} (read : Reader α) : Reader (List α)
  | .array items => items.mapM read
  | _ => none

/-! ## Fields -/

/-- The field of a record, by its name and its place; `some none` where the record
does not say. -/
def field? (place : Nat) (name : String) : Value → Option (Option Value)
  | .table entries => some (Keyed.find? name entries)
  | .array items => some items[place]?
  | .date => some none
  | _ => none

variable {α : Type}

/-- A field that need not be set. -/
def setting (place : Nat) (name : String) (read : Reader α) (default : α) : Reader α :=
  fun v => (field? place name v).bind fun
    | some w => read w
    | none => some default

def required (place : Nat) (name : String) (read : Reader α) : Reader α :=
  fun v => (field? place name v).bind fun
    | some w => read w
    | none => none

/-- A field that may have nothing. -/
def sparse (place : Nat) (name : String) (read : Reader α) : Reader (Option α) :=
  setting place name (fun v => (read v).map some) none

end Read
end Toml
end FleetMesh
