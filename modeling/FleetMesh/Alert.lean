/-
Which events are delivered, and how they are written down.

Every event is logged.  One that the policy admits is also posted to a hook, as
the single field of a form, if delivery is switched on.
-/
import FleetMesh.Event
import FleetMesh.Http.Form

namespace FleetMesh

/-- What is delivered. -/
structure AlertPolicy where
  /-- The least status that makes a change of a probe worth delivering. -/
  minLevel : Int
  onNodeChange : Bool
  onProbeChange : Bool
  httpEnabled : Bool
  httpUrl : String
  deriving DecidableEq, Repr

namespace AlertPolicy

def default : AlertPolicy := ⟨101, true, true, false, ""⟩

/-- Whether an event passes the filter.  A probe's change passes if it reaches the
level on either side, so that the end of a problem is delivered like its start. -/
def admits (p : AlertPolicy) : Event → Bool
  | .statusChanged c =>
    if c.probe.isSome then
      p.onProbeChange && (p.minLevel ≤ c.newStatus || p.minLevel ≤ c.oldStatus)
    else p.onNodeChange
  | .probeAdded _ r => p.onProbeChange && p.minLevel ≤ r.status
  | .probeRemoved .. => p.onProbeChange
  | .nodeUp .. | .nodeDown .. => p.onNodeChange
  | .notice _ => true

/-- Whether an event is posted to the hook. -/
def delivers (p : AlertPolicy) (e : Event) : Bool := p.httpEnabled && p.admits e

def record : Json.Record [Int, Bool, Bool, Bool, String] where
  title := "struct NotificationsConfig"
  layout :=
    (.optional "min_level_to_send" .int32 default.minLevel,
      .optional "on_node_change" .bool default.onNodeChange,
      .optional "on_probe_change" .bool default.onProbeChange,
      .optional "http_enabled" .bool default.httpEnabled,
      .optional "http_url" .string default.httpUrl, ())

def codec : Json.Codec AlertPolicy :=
  record.codec
    (fun (minLevel, onNodeChange, onProbeChange, httpEnabled, httpUrl, ()) =>
      ⟨minLevel, onNodeChange, onProbeChange, httpEnabled, httpUrl⟩)
    (fun p => (p.minLevel, p.onNodeChange, p.onProbeChange, p.httpEnabled, p.httpUrl, ()))

end AlertPolicy

/-- What the log says of an event. -/
structure LogLine where
  kind : String
  severity : String
  hostname : String
  message : String
  deriving DecidableEq, Repr

namespace Event

/-- The kind as the log writes it. -/
def logKind : Event → String
  | probeAdded .. => "new_probe"
  | probeRemoved .. => "removed_probe"
  | statusChanged _ => "status_changed"
  | nodeUp .. => "node_up"
  | nodeDown .. => "node_down"
  | notice _ => "info"

def logLine (e : Event) : LogLine :=
  ⟨e.logKind, e.severity.title, e.hostname?.getD "-", e.message⟩

end Event

/-! ## Delivery -/

/-- The JSON text of an event that is delivered. -/
def Event.payload (e : Event) : String := e.toValue.render

/-- The body that is posted: the event's JSON text as the field of a form. -/
def Event.formBody (e : Event) : String :=
  "Notification=" ++ Http.Form.encode e.payload

end FleetMesh
