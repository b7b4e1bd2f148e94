/-
Snapshots as JSON texts.

A text of a snapshot may state any statuses and any keys; `ofText` decodes it and
normalizes what it gets, so what it states is not believed.
-/
import FleetMesh.Node

namespace FleetMesh
namespace Node

open Json (Codec Record Value)

/-- The types of a node's fields. -/
abbrev Fields : List Type :=
  [String, String, String, Bool, Int, String, Host, List (String × Node), Int]

/-- The fields of a node, its children being read and written by `children`. -/
def record (now : Int) (children : Codec (List (String × Node))) : Record Fields where
  title := "struct Node"
  layout :=
    (.required "uuid" .string,
      .optional "version" .string "",
      .optional "hostname" .string "",
      .optional "is_alive" .bool true,
      .optional "global_status" .int32 0,
      .optional "global_message" .string "",
      .required "local_host" (Host.codec now),
      .optional "children" children [],
      .optional "last_update" .int64 0, ())

/-- The node of a row.  Nothing is disabled on it. -/
def ofRow : Json.Row Fields → Node
  | (uuid, version, hostname, isAlive, status, message, host, children, lastUpdate, ()) =>
    ⟨⟨uuid, version, hostname, isAlive, status, message, host, lastUpdate, []⟩, children⟩

mutual

/-- A node as an object, its children under their keys. -/
def toValue : Node → Value
  | ⟨info, children⟩ =>
    let host := (Host.codec 0).write info.localHost
    .object [("uuid", .string info.uuid), ("version", .string info.version),
      ("hostname", .string info.hostname), ("is_alive", .bool info.isAlive),
      ("global_status", .int info.globalStatus), ("global_message", .string info.globalMessage),
      ("local_host", host), ("children", .object (childMembers children)),
      ("last_update", .int info.lastUpdate)]

def childMembers : List (String × Node) → List (String × Value)
  | [] => []
  | (key, child) :: rest => (key, child.toValue) :: childMembers rest

end

/-- Reads a node with at most `levels` levels below it.  A reading without a date
was taken at `now`. -/
def readLevels (now : Int) : Nat → Json.Reader Node
  | 0 => fun _ _ => Json.Fault.raise .malformed
  | levels + 1 => fun source d =>
    let children : Codec (List (String × Node)) :=
      ⟨fun entries => .object (childMembers entries), Json.Read.table (readLevels now levels)⟩
    ((record now children).read source d).map ofRow

/-- A node as a JSON text.  Every level of the tree opens two containers, so the
nesting limit of texts bounds the levels. -/
def codec (now : Int) : Codec Node where
  write := toValue
  read := readLevels now Json.Doc.nestingLimit

def toText (n : Node) : String := n.toValue.render

/-- Whether every date in the tree can be written. -/
def isDated (n : Node) : Bool :=
  n.subtree.all (fun m => m.localHost.readings.all (fun e => e.2.date.isWritable))

/-- The text of a node.  There is none of a tree with a date that cannot be written. -/
def text? (n : Node) : Option String := if n.isDated then some n.toText else none

/-- A decoded snapshot, normalized and cut `depth` levels below its root. -/
def settle (depth : Int) (n : Node) : Node := n.normalize.truncate depth

/-- Reads a snapshot received at `now`. -/
def ofText (now : Int) (text : String) (depth : Int) : Json.Decoded Node :=
  (Json.decode (codec now).read text).map (settle depth)

def ofBytes (now : Int) (bytes : List UInt8) (depth : Int) : Json.Decoded Node :=
  (Json.decodeBytes (codec now).read bytes).map (settle depth)

end Node
end FleetMesh
