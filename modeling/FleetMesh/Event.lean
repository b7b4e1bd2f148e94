/-
Events: what the tree reports of its changes.

An event is made where the change is made and says what a reader needs to act on
it; how it is delivered is decided elsewhere.
-/
import FleetMesh.Json.Tagged
import FleetMesh.Reading

namespace FleetMesh

/-- A status that moved, of a probe or, without one, of a node as a whole. -/
structure StatusChange where
  hostname : String
  probe : Option String
  oldStatus : Int
  newStatus : Int
  message : String
  /-- The probes of the same host that are at warning or worse. -/
  alarming : List String
  deriving DecidableEq, Repr

inductive Event
  | probeAdded (hostname : String) (reading : Reading)
  | probeRemoved (hostname : String) (reading : Reading)
  | statusChanged (change : StatusChange)
  | nodeUp (uuid hostname : String)
  | nodeDown (uuid hostname lastMessage : String)
  /-- Something worth telling that is no change of a status. -/
  | notice (message : String)
  deriving Repr

namespace Event

def hostname? : Event → Option String
  | probeAdded hostname _ | probeRemoved hostname _ | nodeUp _ hostname
  | nodeDown _ hostname _ => some hostname
  | statusChanged change => some change.hostname
  | notice _ => none

def severity : Event → Severity
  | probeAdded _ r => r.severity
  | probeRemoved .. | nodeUp .. | notice _ => .info
  | statusChanged change => .ofStatus change.newStatus
  | nodeDown .. => .critical

/-- One line that describes the event. -/
def message : Event → String
  | probeAdded hostname r =>
    "New probe " ++ r.name ++ " with status " ++ toString r.status ++ " detected on host " ++ hostname
  | probeRemoved hostname r =>
    "Probe " ++ r.name ++ " on host " ++ hostname ++ " does not exist anymore. Last status was "
      ++ toString r.status
  | statusChanged c =>
    match c.probe with
    | some probe =>
      "Probe " ++ probe ++ " status changed from " ++ toString c.oldStatus ++ " to "
        ++ toString c.newStatus ++ " on host " ++ c.hostname
    | none =>
      "Host " ++ c.hostname ++ " status changed from " ++ toString c.oldStatus ++ " to "
        ++ toString c.newStatus
  | nodeUp _ hostname => "Host " ++ hostname ++ " UP"
  | nodeDown _ hostname _ => "Host " ++ hostname ++ " DOWN"
  | notice message => message

/-- The name of the kind, which is its tag in texts and in the log. -/
def kind : Event → String
  | probeAdded .. => "NewProbe"
  | probeRemoved .. => "RemovedProbe"
  | statusChanged _ => "StatusChanged"
  | nodeUp .. => "NodeUp"
  | nodeDown .. => "NodeDown"
  | notice _ => "Info"

def kinds : List String :=
  ["NewProbe", "RemovedProbe", "StatusChanged", "NodeUp", "NodeDown", "Info"]

end Event

/-! ## Text -/

def StatusChange.record :
    Json.Record [String, Option String, Int, Int, String, List String] where
  title := "struct StatusChange"
  layout :=
    (.required "hostname" .string,
      .nullable "probe" .string,
      .required "old_status" .int32,
      .required "new_status" .int32,
      .required "message" .string,
      .optional "probes_in_error" (.list .string) [], ())

def StatusChange.codec : Json.Codec StatusChange :=
  record.codec
    (fun (hostname, probe, oldStatus, newStatus, message, alarming, ()) =>
      ⟨hostname, probe, oldStatus, newStatus, message, alarming⟩)
    (fun c => (c.hostname, c.probe, c.oldStatus, c.newStatus, c.message, c.alarming, ()))

namespace Event

open Json (Codec Record Value)

/-- The fields of an event about a reading. -/
def readingRecord (kind : String) (now : Int) : Record [String, Reading] where
  title := "struct variant Event::" ++ kind
  layout := (.required "hostname" .string, .required "probe" (Reading.codec now), ())

def upRecord : Record [String, String] where
  title := "struct variant Event::NodeUp"
  layout := (.required "uuid" .string, .required "hostname" .string, ())

def downRecord : Record [String, String, String] where
  title := "struct variant Event::NodeDown"
  layout :=
    (.required "uuid" .string, .required "hostname" .string, .required "last_message" .string, ())

def noticeRecord : Record [String] where
  title := "struct variant Event::Info"
  layout := (.required "message" .string, ())

/-- The members of an event without its tag. -/
def members : Event → List (String × Value)
  | probeAdded hostname r => (readingRecord "NewProbe" 0).layout.members (hostname, r, ())
  | probeRemoved hostname r => (readingRecord "RemovedProbe" 0).layout.members (hostname, r, ())
  | statusChanged c =>
    StatusChange.record.layout.members
      (c.hostname, c.probe, c.oldStatus, c.newStatus, c.message, c.alarming, ())
  | nodeUp uuid hostname => upRecord.layout.members (uuid, hostname, ())
  | nodeDown uuid hostname last => downRecord.layout.members (uuid, hostname, last, ())
  | notice message => noticeRecord.layout.members (message, ())

def toValue (e : Event) : Value :=
  .object (("kind", .string e.kind) :: e.members)

/-- Reads the fields of an event of the given kind. -/
def readKind (now : Int) (kind : String) : Json.Reader Event := fun source d =>
  if kind = "NewProbe" then
    ((readingRecord kind now).read source d).map fun (hostname, r, ()) => probeAdded hostname r
  else if kind = "RemovedProbe" then
    ((readingRecord kind now).read source d).map fun (hostname, r, ()) => probeRemoved hostname r
  else if kind = "StatusChanged" then (StatusChange.codec.read source d).map statusChanged
  else if kind = "NodeUp" then
    (upRecord.read source d).map fun (uuid, hostname, ()) => nodeUp uuid hostname
  else if kind = "NodeDown" then
    (downRecord.read source d).map fun (uuid, hostname, last, ()) => nodeDown uuid hostname last
  else (noticeRecord.read source d).map fun (message, ()) => notice message

/-- An event as an object tagged with its kind.  A reading without a date was
taken at `now`. -/
def codec (now : Int) : Codec Event where
  write := toValue
  read := Json.Read.tagged "internally tagged enum Event" "kind" kinds (readKind now)

end Event
end FleetMesh
