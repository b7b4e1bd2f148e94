/-
What a run of a probe comes to.

A probe is a program that writes its report as a JSON text and ends well.  Any
other end is a reading too, one of status `Status.error` that says what happened.
Only one exit code is set apart: with it a probe says that it has nothing to do
on this machine.
-/
import FleetMesh.Reading
import FleetMesh.Text.Blank

namespace FleetMesh
namespace Probe

/-- What a probe writes. -/
structure Report where
  status : Int
  message : String
  value : Option Json.Value
  metrics : Option Json.Value
  detail : Option Json.Value

namespace Report

def record : Json.Record
    [Int, String, Option Json.Value, Option Json.Value, Option Json.Value] where
  title := "struct ProbeOutput"
  layout :=
    (.required "status" .int32,
      .optional "message" .string "",
      .sparse "value" Reading.freeForm,
      .sparse "metrics" Reading.freeForm,
      .sparse "detail" Reading.freeForm, ())

def codec : Json.Codec Report :=
  record.codec
    (fun (status, message, value, metrics, detail, ()) =>
      ⟨status, message, value, metrics, detail⟩)
    (fun r => (r.status, r.message, r.value, r.metrics, r.detail, ()))

end Report

/-- Why a program could not be started. -/
inductive StartFailure
  | notFound
  | notExecutable
  | notAProgram
  /-- Anything else, in the words of the system. -/
  | other (why : String)
  deriving DecidableEq, Repr

/-- How a run ended. -/
inductive Ending
  | notStarted (why : StartFailure)
  | timedOut
  /-- It could not be waited for. -/
  | lost (why : String)
  /-- `details` is what the decoder adds to its message if the output is no report:
  where in the output it stands, or how the output breaks the grammar. -/
  | exited (code : Nat) (output errors : List UInt8) (details : String := "")
  /-- `dumped` is whether its memory was written to a file. -/
  | killed (signal : Nat) (output errors : List UInt8) (dumped : Bool := false)
  deriving DecidableEq, Repr

/-- What is to be done about a run. -/
inductive Outcome
  | reading (r : Reading)
  | disable

/-- The exit code of a probe that is to be taken out of service. -/
def disableCode : Nat := 13

/-- The exit code that a reading shows when there was none. -/
def noCode : Int := -1

def StartFailure.message : StartFailure → String
  | notFound => "No such file or directory (os error 2)"
  | notExecutable => "Permission denied (os error 13)"
  | notAProgram => "Exec format error (os error 8)"
  | other why => why

/-- The names of the signals from 1 on. -/
def signalNames : List String :=
  ["SIGHUP", "SIGINT", "SIGQUIT", "SIGILL", "SIGTRAP", "SIGABRT", "SIGBUS", "SIGFPE", "SIGKILL",
    "SIGUSR1", "SIGSEGV", "SIGUSR2", "SIGPIPE", "SIGALRM", "SIGTERM", "SIGSTKFLT", "SIGCHLD",
    "SIGCONT", "SIGSTOP", "SIGTSTP", "SIGTTIN", "SIGTTOU", "SIGURG", "SIGXCPU", "SIGXFSZ",
    "SIGVTALRM", "SIGPROF", "SIGWINCH", "SIGIO", "SIGPWR", "SIGSYS"]

/-- A signal with its name, if it has one. -/
def signalText (signal : Nat) : String :=
  let name := if signal = 0 then none else signalNames[signal - 1]?
  "signal: " ++ toString signal ++ ((name.map (fun s => " (" ++ s ++ ")")).getD "")

/-- The reading of a run that failed. -/
def failed (name : String) (code : Int) (message detail : String) (date : Timestamp) : Outcome :=
  .reading ((Reading.plain name Status.error code message date).withDetail detail)

/-- The outcome of a run that ended well: its report, if that can be read. -/
def reported (name : String) (output : List UInt8) (details : String) (date : Timestamp) :
    Outcome :=
  let text := Text.decodeLossy output
  match Json.decode Report.codec.read (Text.trim text) with
  | .ok r =>
    .reading { Reading.plain name r.status 0 r.message date with
      value := r.value, metrics := r.metrics, detail := r.detail }
  | .error e =>
    failed name 0 ("invalid probe output: " ++ e.message?.getD "" ++ details) text date

/-- The outcome of a probe's run.  Its reading is dated when the run has ended. -/
def outcome (name : String) (date : Timestamp) : Ending → Outcome
  | .notStarted why => failed name noCode ("cannot start probe: " ++ why.message) "" date
  | .timedOut => failed name noCode "Probe timeout" "" date
  | .lost why => failed name noCode ("error waiting for probe: " ++ why) "" date
  | .exited code output errors details =>
    if code = disableCode then .disable
    else if code = 0 then reported name output details date
    else failed name code ("error: exit status: " ++ toString code) (both output errors) date
  | .killed signal output errors dumped =>
    failed name noCode ("error: " ++ signalText signal ++ if dumped then " (core dumped)" else "")
      (both output errors) date
where
  both (output errors : List UInt8) : String :=
    Text.decodeLossy output ++ Text.decodeLossy errors

end Probe
end FleetMesh
