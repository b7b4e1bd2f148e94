/-
The messages as JSON texts.

A call is an object with its method and its parameters, a reply and a failure
are written by name, with their content if they have any.
-/
import FleetMesh.Push.Message

namespace FleetMesh
namespace Push

open Json (Codec Decoded Doc Reader Record Source Value)

/-- Bytes as a list of small numbers. -/
def bytes : Codec (List UInt8) :=
  (Codec.list .word8).imap (fun ns => ns.map UInt8.ofNat) (fun bs => bs.map UInt8.toNat)

def Greeting.record : Record [String, String, List UInt8] where
  title := "struct HelloRequest"
  layout :=
    (.required "hostname" .string, .required "uuid" .string,
      .optional "uuid_signature" bytes [], ())

def Greeting.codec : Codec Greeting :=
  record.codec (fun (hostname, uuid, signature, ()) => ⟨hostname, uuid, signature⟩)
    (fun g => (g.hostname, g.uuid, g.signature, ()))

def Credentials.record : Record [String, String] where
  title := "struct Request"
  layout := (.required "uuid" .string, .required "token" .string, ())

def Credentials.codec : Codec Credentials :=
  record.codec (fun (uuid, token, ()) => ⟨uuid, token⟩) (fun c => (c.uuid, c.token, ()))

def Delivery.record : Record [String, String, String] where
  title := "struct UpdateRequest"
  layout := (.required "uuid" .string, .required "token" .string, .required "node" .string, ())

def Delivery.codec : Codec Delivery :=
  record.codec (fun (uuid, token, node, ()) => ⟨uuid, token, node⟩)
    (fun d => (d.uuid, d.token, d.node, ()))

/-! ## Calls -/

namespace Call

def params? : Call → Option Value
  | getCertificate => none
  | register who | getSignature who | hello who => some (Greeting.codec.write who)
  | update what => some (Delivery.codec.write what)
  | goodbye who => some (Credentials.codec.write who)

def toValue (c : Call) : Value :=
  .object (("method", .string c.name) :: (c.params?.map (fun v => ("params", v))).toList)

/-- Reads the parameters of a method. -/
def readParams (method : String) : Reader Call := fun source d =>
  if method = "Register" then (Greeting.codec.read source d).map register
  else if method = "GetUuidSignature" then (Greeting.codec.read source d).map getSignature
  else if method = "Hello" then (Greeting.codec.read source d).map hello
  else if method = "Update" then (Delivery.codec.read source d).map update
  else if method = "Goodbye" then (Credentials.codec.read source d).map goodbye
  else match d with
    | .null => .ok getCertificate
    | d => d.refuse "unit variant Call::GetServerCertificate"

def codec : Codec Call where
  write := toValue
  read := Json.Read.Outer.reader {
    title := "adjacently tagged enum Call"
    tag := "method"
    content := "params"
    known := names
    alone := fun name => if name = "GetServerCertificate" then some getCertificate else none
    read := readParams }

end Call

/-! ## Answers -/

/-- An alternative with its content. -/
def named (name : String) (content : Value) : Value := .object [(name, content)]

namespace Reply

def toValue : Reply → Value
  | certificate pem => named "Certificate" (.string pem)
  | ack => .string "Ack"
  | signature bs => named "Signature" (bytes.write bs)
  | token t => named "Token" (.string t)

def names : List String := ["Certificate", "Ack", "Signature", "Token"]

def codec : Codec Reply where
  write := toValue
  read source := Json.Read.variant names "variant identifier" fun name content =>
    if name = "Certificate" then
      (Json.Read.someContent Json.Read.string source content).map certificate
    else if name = "Ack" then Json.Read.noContent ack source content
    else if name = "Signature" then (Json.Read.someContent bytes.read source content).map signature
    else (Json.Read.someContent Json.Read.string source content).map token

end Reply

namespace Failure

def toValue : Failure → Value
  | waiting => .string "Waiting"
  | notAllowed => .string "NotAllowed"
  | full limit => named "CapacityExceeded" (.int limit)
  | undecodable why => named "CannotDecode" (.string why)
  | invalid why => named "InvalidRequest" (.string why)
  | internal why => named "Internal" (.string why)

def names : List String :=
  ["Waiting", "NotAllowed", "CapacityExceeded", "CannotDecode", "InvalidRequest", "Internal"]

/-- The greatest size of a list. -/
def readLimit : Reader Nat := Json.Read.natural 0xffffffffffffffff "usize"

def codec : Codec Failure where
  write := toValue
  read source := Json.Read.variant names "variant identifier" fun name content =>
    let text (make : String → Failure) : Decoded Failure :=
      (Json.Read.someContent Json.Read.string source content).map make
    if name = "Waiting" then Json.Read.noContent waiting source content
    else if name = "NotAllowed" then Json.Read.noContent notAllowed source content
    else if name = "CapacityExceeded" then
      (Json.Read.someContent readLimit source content).map full
    else if name = "CannotDecode" then text undecodable
    else if name = "InvalidRequest" then text invalid
    else text internal

end Failure

/-- The outcome of a call. -/
def outcome : Codec (Except Failure Reply) where
  write
    | .ok reply => named "Ok" (Reply.codec.write reply)
    | .error failure => named "Err" (Failure.codec.write failure)
  read source := Json.Read.variant ["Ok", "Err"] "`Ok` or `Err`" fun name content =>
    if name = "Ok" then (Json.Read.someContent Reply.codec.read source content).map .ok
    else (Json.Read.someContent Failure.codec.read source content).map .error

def Request.record : Record [Nat, Call] where
  title := "struct RpcRequest"
  layout := (.required "id" .word64, .required "call" Call.codec, ())

def Request.codec : Codec Request :=
  record.codec (fun (id, call, ()) => ⟨id, call⟩) (fun r => (r.id, r.call, ()))

def Response.record : Record [Nat, Except Failure Reply] where
  title := "struct RpcResponse"
  layout := (.required "id" .word64, .required "result" outcome, ())

def Response.codec : Codec Response :=
  record.codec (fun (id, result, ()) => ⟨id, result⟩) (fun r => (r.id, r.result, ()))

def Request.render (r : Request) : String := (Request.codec.write r).render

def Response.render (r : Response) : String := (Response.codec.write r).render

end Push
end FleetMesh
