/-
The side that pushes.

A client keeps two files: the certificate of the other side, which it fetches
once over a channel that it cannot verify yet, and its signature, which it gets
once it is allowed.  With both it opens a session and sends its tree at
intervals.  Any failure drops the connection, and after a wait the client starts
over.

The client is a machine that takes signals and answers with acts.  How long it
waits, when it is cancelled and what the network does are signals; whether its
files can be used is part of the setting of each step.

A wait ends when its time is over or when the client finds that it was cancelled.
Where both are so either may be seen first, so a cancelled client can go on as
long as some wait is over.
-/
import FleetMesh.Push.Frame
import FleetMesh.Push.Text
import FleetMesh.Node.Text
import FleetMesh.Tls.Identity

namespace FleetMesh
namespace Push

/-- What can be done with a file at the moment. -/
structure Access where
  read : Bool
  write : Bool
  remove : Bool
  deriving DecidableEq, Repr

/-- What is around the client in one step. -/
structure Setting where
  root : Node
  certificateFile : Access
  signatureFile : Access

inductive Phase
  | opening
  | securing (pinned : Bool)
  /-- The certificate was asked for. -/
  | fetching
  | registering
  /-- The signature was asked for. -/
  | asking
  /-- Before the signature is asked for again. -/
  | pausing
  | greeting
  /-- In a session, until the next snapshot is due. -/
  | idle (token : String)
  | updating (token : String)
  | leaving
  /-- Before the next connection. -/
  | resting
  | stopped
  deriving DecidableEq, Repr

inductive Signal
  /-- The connection is there, or is secured. -/
  | connected
  | failed
  | answered (r : Response)
  /-- The connection was closed, was silent too long, or brought no answer. -/
  | lost
  /-- A wait is over. -/
  | elapsed
  | cancelled
  /-- A client that waits finds that it was cancelled. -/
  | noticed

inductive Act
  | connect
  | secure (name : Tls.ServerName) (pin : Tls.Pin)
  | send (r : Request)
  | wait
  | disconnect
  | stop

structure Client where
  address : String
  /-- Whether the connection is secured. -/
  secured : Bool
  certificate : Option (List UInt8)
  signature : Option (List UInt8)
  phase : Phase
  /-- How many requests were sent on this connection.  A count of 64 bits would do: at a
  request each nanosecond it lasts for more than 500 years. -/
  sent : Nat
  cancelled : Bool
  deriving DecidableEq, Repr

namespace Client

def start (address : String) (secured : Bool) (certificate signature : Option (List UInt8)) :
    Client × List Act :=
  (⟨address, secured, certificate, signature, .opening, 0, false⟩, [.connect])

/-- What a file holds, if it can be read.  An empty file holds nothing. -/
def contents? (a : Access) (contents : Option (List UInt8)) : Option (Option (List UInt8)) :=
  if a.read then some (contents.filter (· ≠ [])) else none

/-! ## Turns of the way -/

def finish (c : Client) : Client × List Act :=
  ({ c with phase := .stopped }, [.disconnect, .stop])

/-- Starts over at once. -/
def reconnect (c : Client) : Client × List Act :=
  if c.cancelled then c.finish
  else ({ c with phase := .opening, sent := 0 }, [.disconnect, .connect])

/-- Starts over after a wait.  A client that was cancelled does not, however the wait
ends. -/
def giveUp (c : Client) : Client × List Act :=
  if c.cancelled then c.finish
  else ({ c with phase := .resting }, [.disconnect, .wait])

/-- Sends a request; one too long for a frame is a failure. -/
def call (c : Client) (phase : Phase) (call : Call) : Client × List Act :=
  let request : Request := ⟨c.sent + 1, call⟩
  if Frame.maxLength < request.render.utf8ByteSize then c.giveUp
  else ({ c with phase := phase, sent := c.sent + 1 }, [.send request])

/-! ## Requests -/

def greeting (root : Node) (signature : List UInt8) : Greeting :=
  ⟨root.hostname, root.uuid, signature⟩

/-- The node and its children, without what is below them, if they can be written. -/
def delivery? (root : Node) (token : String) : Option Delivery :=
  (root.truncate 1).text?.map (fun text => ⟨root.uuid, token, text⟩)

def ask (c : Client) (w : Setting) : Client × List Act :=
  c.call .asking (.getSignature (greeting w.root []))

def leave (c : Client) (w : Setting) (token : String) : Client × List Act :=
  c.call .leaving (.goodbye ⟨w.root.uuid, token⟩)

/-- The first request on a connection that can be trusted. -/
def converse (c : Client) (w : Setting) : Client × List Act :=
  match contents? w.signatureFile c.signature with
  | none => c.giveUp
  | some none => c.call .registering (.register (greeting w.root []))
  | some (some signature) => c.call .greeting (.hello (greeting w.root signature))

/-- Secures the connection, with the certificate if there is one. -/
def handshake (c : Client) (w : Setting) : Client × List Act :=
  match contents? w.certificateFile c.certificate with
  | none => c.giveUp
  | some text =>
    match Tls.Pin.ofPem text, Tls.serverName c.address with
    | .ok pin, .ok name => ({ c with phase := .securing text.isSome }, [.secure name pin])
    | _, _ => c.giveUp

/-! ## Files -/

/-- Keeps the certificate, if it is one. -/
def storeCertificate (c : Client) (w : Setting) (pem : String) : Client × List Act :=
  let text := Text.bytesOf pem
  match Tls.Pin.ofPem (some text) with
  | .error _ => c.giveUp
  | .ok _ =>
    if w.certificateFile.write then reconnect { c with certificate := some text } else c.giveUp

def storeSignature (c : Client) (w : Setting) (signature : List UInt8) : Client × List Act :=
  if w.signatureFile.write then reconnect { c with signature := some signature } else c.giveUp

/-- Drops a signature that was refused.  A file that cannot be removed stays. -/
def dropSignature (c : Client) (w : Setting) : Client × List Act :=
  reconnect { c with signature := if w.signatureFile.remove then none else c.signature }

/-! ## Steps -/

/-- The answer to the latest request came. -/
def onAnswer (c : Client) (w : Setting) (result : Except Failure Reply) : Client × List Act :=
  match c.phase, result with
  | .fetching, .ok (.certificate pem) => c.storeCertificate w pem
  | .registering, .ok .ack => c.ask w
  | .asking, .ok (.signature bytes) => c.storeSignature w bytes
  | .asking, .error .waiting => ({ c with phase := .pausing }, [.wait])
  | .greeting, .ok (.token token) => ({ c with phase := .idle token }, [])
  | .greeting, .error .notAllowed => c.dropSignature w
  | .updating token, .ok .ack => ({ c with phase := .idle token }, [])
  | .leaving, _ => c.finish
  | _, _ => c.giveUp

/-- Whether an answer is awaited. -/
def awaits (c : Client) : Bool :=
  match c.phase with
  | .fetching | .registering | .asking | .greeting | .updating _ | .leaving => true
  | _ => false

/-- The client is cancelled.  Between two connections that is its end; elsewhere it has to
notice first. -/
def onCancel (c : Client) : Client × List Act :=
  let c := { c with cancelled := true }
  if c.phase = .resting then c.finish else (c, [])

def onNotice (c : Client) (w : Setting) : Client × List Act :=
  if c.cancelled then match c.phase with
    | .pausing => c.finish
    | .idle token => c.leave w token
    | _ => (c, [])
  else (c, [])

/-- One signal.  What does not concern the phase is ignored. -/
def step (c : Client) (w : Setting) (signal : Signal) : Client × List Act :=
  match signal with
  | .cancelled => c.onCancel
  | .noticed => c.onNotice w
  | .connected => match c.phase with
    | .opening => if c.secured then c.handshake w else c.converse w
    | .securing pinned => if pinned then c.converse w else c.call .fetching .getCertificate
    | _ => (c, [])
  | .failed => match c.phase with
    | .opening | .securing _ => c.giveUp
    | _ => (c, [])
  | .answered r =>
    if !c.awaits then (c, [])
    else if r.id = c.sent then c.onAnswer w r.result
    else if c.phase = .leaving then c.finish
    else c.giveUp
  | .lost =>
    if !c.awaits then (c, [])
    else if c.phase = .leaving then c.finish
    else c.giveUp
  | .elapsed => match c.phase with
    | .pausing => c.ask w
    | .idle token => match delivery? w.root token with
      | some what => c.call (.updating token) (.update what)
      | none => c.giveUp
    | .resting => c.reconnect
    | _ => (c, [])

/-- Signals one after another, each in its setting, and all acts in their order. -/
def run (c : Client) : List (Setting × Signal) → Client × List Act
  | [] => (c, [])
  | (w, signal) :: rest =>
    let (c, acts) := c.step w signal
    let (c, more) := run c rest
    (c, acts ++ more)

end Client
end Push
end FleetMesh
