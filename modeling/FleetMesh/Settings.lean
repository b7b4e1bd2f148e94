/-
What a machine is told about its work.

Every section and every field has a default, so any part of a text will do, and
none at all.  A text that is there and wrong is refused, for each kind of fault
with its own error.
-/
import FleetMesh.Alert
import FleetMesh.Settings.Remotes
import FleetMesh.Toml.Text

namespace FleetMesh

open Toml.Read (setting string bool word16 word64 int32 int64)

namespace Settings

/-- The machine itself. -/
structure General where
  /-- Empty for the name that the machine has. -/
  hostname : String
  group : String
  uuidFile : String
  address : String
  port : Nat
  probesDirectory : String
  /-- Seconds before a probe is killed. -/
  probeTimeout : Nat
  /-- Seconds after which a machine that does not report is down. -/
  aliveTimeout : Int
  deriving DecidableEq, Repr

/-- The side that takes snapshots. -/
structure Receiver where
  enabled : Bool
  address : String
  port : Nat
  secured : Bool
  certificateFile : String
  keyFile : String
  allowedFile : String
  maxWaiting : Nat
  autoAccept : Bool
  deriving DecidableEq, Repr

/-- The side that pushes them. -/
structure Sender where
  enabled : Bool
  address : String
  port : Nat
  secured : Bool
  certificateFile : String
  signatureFile : String
  /-- Seconds to wait for an answer. -/
  timeout : Nat
  /-- Seconds between two snapshots. -/
  interval : Nat
  deriving DecidableEq, Repr

end Settings

structure Settings where
  general : Settings.General
  remotes : Settings.Remotes
  receiver : Settings.Receiver
  sender : Settings.Sender
  alerts : AlertPolicy
  deriving DecidableEq, Repr

namespace Settings

namespace General

def default : General :=
  ⟨"", "local", "/var/lib/vigil/uuid", "0.0.0.0", 4000, "/usr/local/vigil/probes", 10, 60⟩

def read : Toml.Reader General := fun v => do
  return {
    hostname := ← setting 0 "hostname" string default.hostname v
    group := ← setting 1 "group" string default.group v
    uuidFile := ← setting 2 "uuid_file" string default.uuidFile v
    address := ← setting 3 "listen_address" string default.address v
    port := ← setting 4 "listen_port" word16 default.port v
    probesDirectory := ← setting 5 "probes_directory" string default.probesDirectory v
    probeTimeout := ← setting 6 "probe_timeout" word64 default.probeTimeout v
    aliveTimeout := ← setting 7 "alive_timeout" int64 default.aliveTimeout v }

end General

namespace Receiver

def default : Receiver :=
  ⟨false, "0.0.0.0", 4001, true, "/etc/vigil/ssl/vigil.crt", "/etc/vigil/ssl/vigil.key",
    "/var/lib/vigil/allowed_clients", 100, false⟩

def read : Toml.Reader Receiver := fun v => do
  return {
    enabled := ← setting 0 "enabled" bool default.enabled v
    address := ← setting 1 "address" string default.address v
    port := ← setting 2 "port" word16 default.port v
    secured := ← setting 3 "ssl_enabled" bool default.secured v
    certificateFile := ← setting 4 "ssl_cert" string default.certificateFile v
    keyFile := ← setting 5 "ssl_key" string default.keyFile v
    allowedFile := ← setting 6 "allowed_clients_file" string default.allowedFile v
    maxWaiting := ← setting 7 "max_waiting_clients" word64 default.maxWaiting v
    autoAccept := ← setting 8 "auto_accept_clients" bool default.autoAccept v }

end Receiver

namespace Sender

def default : Sender :=
  ⟨false, "", 4001, true, "/var/lib/vigil/master.crt", "/var/lib/vigil/uuid.sig", 5, 10⟩

def read : Toml.Reader Sender := fun v => do
  return {
    enabled := ← setting 0 "enabled" bool default.enabled v
    address := ← setting 1 "address" string default.address v
    port := ← setting 2 "port" word16 default.port v
    secured := ← setting 3 "ssl_enabled" bool default.secured v
    certificateFile := ← setting 4 "ssl_cert" string default.certificateFile v
    signatureFile := ← setting 5 "uuid_sig" string default.signatureFile v
    timeout := ← setting 6 "timeout" word64 default.timeout v
    interval := ← setting 7 "push_interval" word64 default.interval v }

/-- The waits that are kept: none is shorter than a second. -/
def effective (s : Sender) : Sender :=
  { s with timeout := max s.timeout 1, interval := max s.interval 1 }

end Sender

/-- The policy of a section. -/
def readAlerts : Toml.Reader AlertPolicy := fun v => do
  let d := AlertPolicy.default
  return {
    minLevel := ← setting 0 "min_level_to_send" int32 d.minLevel v
    onNodeChange := ← setting 1 "on_node_change" bool d.onNodeChange v
    onProbeChange := ← setting 2 "on_probe_change" bool d.onProbeChange v
    httpEnabled := ← setting 3 "http_enabled" bool d.httpEnabled v
    httpUrl := ← setting 4 "http_url" string d.httpUrl v }

def default : Settings :=
  ⟨.default, .default, .default, .default, .default⟩

def read : Toml.Reader Settings := fun v => do
  return {
    general := ← setting 0 "global" General.read default.general v
    remotes := ← setting 1 "remote_nodes" Remotes.read default.remotes v
    receiver := ← setting 2 "push_server" Receiver.read default.receiver v
    sender := ← setting 3 "push_client" Sender.read default.sender v
    alerts := ← setting 4 "notifications" readAlerts default.alerts v }

/-! ## Checks -/

/-- What may be wrong with settings that can be read. -/
inductive Flaw
  | aliveTimeout
  | senderAddress
  | hookAddress
  deriving DecidableEq, Repr

inductive SettingsError
  | unreadable
  | malformed
  | invalid (flaw : Flaw)
  deriving DecidableEq, Repr

def Flaw.message : Flaw → String
  | aliveTimeout => "global.alive_timeout must be positive"
  | senderAddress => "push_client.address is required"
  | hookAddress => "notifications.http_url is required"

def SettingsError.message : SettingsError → String
  | unreadable => "cannot read the settings"
  | malformed => "invalid TOML"
  | invalid flaw => "invalid configuration: " ++ flaw.message

/-- The first flaw. -/
def flaw? (s : Settings) : Option Flaw :=
  if s.general.aliveTimeout ≤ 0 then some .aliveTimeout
  else if s.sender.enabled ∧ s.sender.address = "" then some .senderAddress
  else if s.alerts.httpEnabled ∧ s.alerts.httpUrl = "" then some .hookAddress
  else none

/-! ## Texts -/

def ofText (text : String) : Except SettingsError Settings :=
  match (Toml.parse text).bind read with
  | none => .error .malformed
  | some s => match s.flaw? with
    | some flaw => .error (.invalid flaw)
    | none => .ok s

/-- The settings in a file, given what it holds. -/
def ofFile (contents : Option (List UInt8)) : Except SettingsError Settings :=
  match contents.bind Text.decode? with
  | none => .error .unreadable
  | some text => ofText text

/-- The settings in a file, or the default ones if it has none to tell. -/
def load (contents : Option (List UInt8)) : Settings :=
  match ofFile contents with
  | .ok s => s
  | .error _ => default

def targets (s : Settings) : List PollTarget := s.remotes.targets s.general.port

end Settings
end FleetMesh
