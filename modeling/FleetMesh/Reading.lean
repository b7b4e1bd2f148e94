/-
Readings: the outcome of one run of a probe.

A reading is never changed.  A new run gives a new reading, which takes the place
of the one before it under the same name.
-/
import FleetMesh.Status
import FleetMesh.Timestamp

namespace FleetMesh

/-- What one run of a probe reported.  `value`, `metrics` and `detail` are
free-form content that is passed on as it came. -/
structure Reading where
  name : String
  status : Int
  message : String
  value : Option Json.Value
  metrics : Option Json.Value
  detail : Option Json.Value
  exitCode : Int
  date : Timestamp
  deriving BEq, Repr

namespace Reading

/-- A reading that carries no free-form content. -/
def plain (name : String) (status exitCode : Int) (message : String) (date : Timestamp) :
    Reading :=
  ⟨name, status, message, none, none, none, exitCode, date⟩

/-- The reading with a text as its detail; an empty text is no detail. -/
def withDetail (detail : String) (r : Reading) : Reading :=
  if detail = "" then r else { r with detail := some (.string detail) }

def severity (r : Reading) : Severity := .ofStatus r.status

/-- Warning or worse. -/
def isAlarming (r : Reading) : Bool := Status.warning ≤ r.status

/-! ## Text -/

def freeForm : Json.Codec Json.Value := ⟨id, Json.Read.value⟩

/-- The fields of a reading.  One without a date was taken at `now`. -/
def record (now : Int) : Json.Record
    [String, Int, String, Option Json.Value, Option Json.Value, Option Json.Value, Int,
      Timestamp] where
  title := "struct ProbeResult"
  layout :=
    (.required "name" .string,
      .required "status" .int32,
      .optional "message" .string "",
      .sparse "value" freeForm,
      .sparse "metrics" freeForm,
      .sparse "detail" freeForm,
      .optional "exit_code" .int32 0,
      .optional "probe_date" Timestamp.codec (.ofUnix now), ())

def codec (now : Int) : Json.Codec Reading :=
  (record now).codec
    (fun (name, status, message, value, metrics, detail, exitCode, date, ()) =>
      ⟨name, status, message, value, metrics, detail, exitCode, date⟩)
    (fun r => (r.name, r.status, r.message, r.value, r.metrics, r.detail, r.exitCode, r.date, ()))

end Reading
end FleetMesh
