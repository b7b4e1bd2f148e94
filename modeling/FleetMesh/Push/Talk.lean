/-
One connection of a machine that pushes.

Every complete frame is a request, which is done before the next byte is looked
at, and its answer carries the request's number.  The connection is shut by the
first frame that is no request, by a length past the limit, and by an answer too
long for a frame.
-/
import FleetMesh.Push.Frame
import FleetMesh.Push.Server
import FleetMesh.Push.Text

namespace FleetMesh
namespace Push

def Server.answer (s : Server) (r : Request) (clock : Int) : Server × Response :=
  let (s, result) := s.handle r.call clock
  (s, ⟨r.id, result⟩)

/-- The request of a frame. -/
def Request.ofFrame (frame : List UInt8) : Json.Decoded Request :=
  Json.decodeBytes Request.codec.read frame

/-- The frame of an answer, which holds the bytes of its text. -/
def Response.frame? (r : Response) : Option (List UInt8) := Frame.encode? (Text.bytesOf r.render)

def Response.fits (r : Response) : Bool := r.frame?.isSome

structure Talk where
  server : Server
  inbox : Inbox
  /-- The answers in the order they were written. -/
  answers : List Response
  /-- The bytes that were written. -/
  output : List UInt8

namespace Talk

def start (s : Server) : Talk := ⟨s, .empty, [], []⟩

/-- Does the request of a frame, and writes the frame of the answer. -/
def accept (clock : Int) (t : Talk) (frame : List UInt8) : Talk :=
  match Request.ofFrame frame with
  | .error _ => { t with inbox := .shut }
  | .ok request =>
    let (server, response) := t.server.answer request clock
    match response.frame? with
    | some bytes => ⟨server, t.inbox, t.answers ++ [response], t.output ++ bytes⟩
    | none => ⟨server, .shut, t.answers, t.output⟩

/-- One byte more. -/
def byte (clock : Int) (t : Talk) (b : UInt8) : Talk :=
  let (inbox, frame) := t.inbox.take b
  let t := { t with inbox := inbox }
  match frame with
  | none => t
  | some frame => t.accept clock frame

def receive (clock : Int) (t : Talk) (bytes : List UInt8) : Talk :=
  bytes.foldl (byte clock) t

/-- Nothing more is read: the peer left, was silent too long, or the server stops. -/
def hangUp (t : Talk) : Talk := { t with inbox := .shut }

def isOpen (t : Talk) : Bool := t.inbox ≠ .shut

end Talk
end Push
end FleetMesh
