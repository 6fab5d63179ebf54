import SubnetRegistry.Service
import SubnetRegistry.Subject
import SubnetRegistry.Wire.Request
import SubnetRegistry.Wire.Response

/-!
# Requests that arrive as messages

A message names its operation by its subject and holds the request as JSON. A message with another
subject or another content is answered too, with the reason.

## Main definitions

* `Request.ofBytes`, `Response.ofBytes` — the JSON readers of requests and replies.
* `Request.ofMessage` — the request that a message is.
* `Service.answer`, `Service.answerSubject` — the reply to a message.
-/
namespace SubnetRegistry

/-- The value of a JSON text, or the report of its fault. -/
def Json.decodeText {α : Type} (read : Json.Node → Except Json.Fault α) (bytes : List UInt8) :
    Except String α :=
  (Json.decode read bytes).mapError fun fault => fault.message bytes

def InfrastructureError.undecodable (report : String) : InfrastructureError :=
  ⟨.deserialization, report⟩

/-- The failure that the report of a JSON fault is where nothing more is known of it. -/
def InfrastructureError.ofJsonReport (report : String) : InfrastructureError :=
  ⟨.serialization, report⟩

def Request.ofBytes (op : Operation) (bytes : List UInt8) : Except InfrastructureError Request :=
  let read : Json.Node → Except Json.Fault Request := match op with
    | .create => fun node => .create <$> CreateRequest.ofNode node
    | .get => fun node => .get <$> GetRequest.ofNode node
    | .update => fun node => .update <$> UpdateRequest.ofNode node
    | .delete => fun node => .delete <$> DeleteRequest.ofNode node
  (Json.decodeText read bytes).mapError .undecodable

def Response.ofBytes (bytes : List UInt8) : Except InfrastructureError Response :=
  (Json.decodeText Response.ofNode bytes).mapError .undecodable

def Request.operation : Request → Operation
  | .create _ => .create
  | .get _ => .get
  | .update _ => .update
  | .delete _ => .delete

def Request.ofPayload (op : Operation) (payload : List UInt8) : Except String Request :=
  (Request.ofBytes op payload).mapError InfrastructureError.message

/-- The request of a message with a subject under a root, or the reason why it is none. -/
def Request.ofMessage (root subject : String) (payload : List UInt8) : Except String Request := do
  let op ← (Subject.operation? root subject).mapError SubjectError.message
  Request.ofPayload op payload

/-- What comes of a message: the reply, the calls made to the store and the service after it. -/
structure Answered where
  response : Response
  calls : List Call
  service : Service

/-- Answers a message that is a request, or is none for some reason. -/
def Service.reply (s : Service) (around : Surroundings) : Except String Request → Answered
  | .error reason => ⟨.invalidRequest reason, [], s⟩
  | .ok r =>
    let handled := s.handle around r
    ⟨.ofResult handled.result, handled.calls, handled.service⟩

def Service.answer (s : Service) (around : Surroundings) (op : Operation) (payload : List UInt8) :
    Answered :=
  s.reply around (Request.ofPayload op payload)

/-- Answers a message with a subject, for the subjects under a root. -/
def Service.answerSubject (s : Service) (around : Surroundings) (root subject : String)
    (payload : List UInt8) : Answered :=
  s.reply around (Request.ofMessage root subject payload)

end SubnetRegistry
