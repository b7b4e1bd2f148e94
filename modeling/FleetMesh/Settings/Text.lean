/-
Settings as JSON, every field under the name it has in a file.
-/
import FleetMesh.Settings

namespace FleetMesh
namespace Settings

open Json (Value)

/-- A number that may be missing. -/
def countOrNull : Option Nat → Value
  | some n => .int n
  | none => .null

def Remote.toValue (r : Remote) : Value :=
  .object [("hostname", .string r.hostname), ("port", countOrNull r.port),
    ("check_remotes_depth", .int r.depth), ("check_interval", countOrNull r.interval),
    ("check_tries", countOrNull r.tries)]

def Remotes.toValue (r : Remotes) : Value :=
  .object [("check_interval", .int r.interval), ("check_tries", .int r.tries),
    ("list", .strings r.short), ("advanced", .array (r.long.map Remote.toValue))]

def General.toValue (g : General) : Value :=
  .object [("hostname", .string g.hostname), ("group", .string g.group),
    ("uuid_file", .string g.uuidFile), ("listen_address", .string g.address),
    ("listen_port", .int g.port), ("probes_directory", .string g.probesDirectory),
    ("probe_timeout", .int g.probeTimeout), ("alive_timeout", .int g.aliveTimeout)]

def Receiver.toValue (r : Receiver) : Value :=
  .object [("enabled", .bool r.enabled), ("address", .string r.address), ("port", .int r.port),
    ("ssl_enabled", .bool r.secured), ("ssl_cert", .string r.certificateFile),
    ("ssl_key", .string r.keyFile), ("allowed_clients_file", .string r.allowedFile),
    ("max_waiting_clients", .int r.maxWaiting), ("auto_accept_clients", .bool r.autoAccept)]

def Sender.toValue (s : Sender) : Value :=
  .object [("enabled", .bool s.enabled), ("address", .string s.address), ("port", .int s.port),
    ("ssl_enabled", .bool s.secured), ("ssl_cert", .string s.certificateFile),
    ("uuid_sig", .string s.signatureFile), ("timeout", .int s.timeout),
    ("push_interval", .int s.interval)]

def toValue (s : Settings) : Value :=
  .object [("global", s.general.toValue), ("remote_nodes", s.remotes.toValue),
    ("push_server", s.receiver.toValue), ("push_client", s.sender.toValue),
    ("notifications", AlertPolicy.codec.write s.alerts)]

end Settings
end FleetMesh
