import SubnetRegistry.Config
import SubnetRegistry.Handler

/-!
# A service on a message bus

A service subscribes to the pattern of its root. It answers every message that asks for a reply, by
publishing the reply on the subject the message names, and does nothing with the others. A reply asks
for no reply itself. Beside the service, others may answer messages on subjects of their own.

## Main definitions

* `Message` — what the bus carries.
* `Service.serve` — what the service does with a message it hears.
* `Bus.send` — a message on its way to whoever listens.
* `Bus.request` — a client's request and the reply it reads.
-/
namespace SubnetRegistry

/-- What the bus carries: some bytes on a subject, and the subject for a reply to them. -/
structure Message where
  subject : String
  payload : List UInt8
  reply : Option String
  deriving DecidableEq, Repr

def Message.ofResponse (subject : String) (response : Response) : Message :=
  ⟨subject, response.toJson.bytes, none⟩

/-- What a service does with a message: the message it publishes, the calls it makes and the service
after it. -/
structure Served where
  publish : Option Message
  calls : List Call
  service : Service

/-- Serves a message that was heard on the subscription. -/
def Service.serve (s : Service) (around : Surroundings) (root : String) (m : Message) : Served :=
  match m.reply with
  | none => ⟨none, [], s⟩
  | some reply =>
    let answered := s.answerSubject around root m.subject m.payload
    ⟨some (.ofResponse reply answered.response), answered.calls, answered.service⟩

/-- A service under a root, and others that answer messages on single subjects. -/
structure Bus where
  root : String
  service : Service
  responders : List (String × List UInt8) := []

namespace Bus

def subscription (b : Bus) : String := Subject.all b.root

/-- The bus with a responder, in place of the one on its subject. -/
def respond (b : Bus) (subject : String) (payload : List UInt8) : Bus :=
  { b with responders := (subject, payload) :: b.responders }

inductive Delivery where
  | replied (payload : List UInt8)
  | dropped
  | unrouted
  deriving DecidableEq, Repr

/-- What comes of sending a message: its delivery, the calls made and the bus after it. -/
structure Sent where
  delivery : Delivery
  calls : List Call
  bus : Bus

/-- Sends a message. The service hears it if its subject is of the pattern, and else a responder. -/
def send (b : Bus) (around : Surroundings) (m : Message) : Sent :=
  if Subject.matches? b.subscription m.subject then
    let served := b.service.serve around b.root m
    let delivery := match served.publish with
      | some reply => .replied reply.payload
      | none => .dropped
    ⟨delivery, served.calls, { b with service := served.service }⟩
  else match b.responders.lookup m.subject, m.reply with
    | some payload, some _ => ⟨.replied payload, [], b⟩
    | some _, none => ⟨.dropped, [], b⟩
    | none, _ => ⟨.unrouted, [], b⟩

def noResponders : InfrastructureError := ⟨.natsPublish, "no responders: no responders"⟩

/-- The subject on which a client awaits its reply. -/
def inbox : String := "_INBOX"

/-- Sends a client's request and reads the reply. -/
def request (b : Bus) (around : Surroundings) (subject : String) (body : Json.Value) :
    Except InfrastructureError Response × Sent :=
  let sent := b.send around ⟨subject, body.bytes, some inbox⟩
  let response := match sent.delivery with
    | .replied payload => Response.ofBytes payload
    | _ => .error noResponders
  (response, sent)

/-- Sends a client's message that asks for no reply. -/
def publish (b : Bus) (around : Surroundings) (subject : String) (body : Json.Value) : Sent :=
  b.send around ⟨subject, body.bytes, none⟩

end Bus

def InfrastructureError.refused (reason : String) : InfrastructureError :=
  ⟨.natsConnection, "IO error: " ++ reason⟩

end SubnetRegistry
