import SubnetRegistry.Decimal.Integer
import SubnetRegistry.Json.Value
import SubnetRegistry.Text.Separated

/-!
# The lines of a message server

A message server and its clients talk in lines. The line of a message gives the number of bytes of its
payload, which follow on a line of their own.

## Main definitions

* `Notice` — what the server says.
* `Frame.connect`, `Frame.subscribe`, `Frame.publish`, `Frame.pong` — what a client says.
-/
namespace SubnetRegistry

/-- What a message server says: that there is a message, the payload of which has `size` bytes, or
that it wants to know whether the client is there. The rest needs no answer. -/
inductive Notice where
  | message (subject : String) (reply : Option String) (size : Nat)
  | ping
  | other
  deriving DecidableEq, Repr

/-- The words of a line, which blanks divide. -/
def Notice.words (line : String) : List String :=
  let spaced := line.toList.map fun c => if c.isWhitespace then ' ' else c
  (Text.split ' ' spaced |>.filter fun w => !w.isEmpty).map String.ofList

def Notice.ofSize (subject : String) (reply : Option String) (size : String) : Notice :=
  match Decimal.nat? size.toList with
  | some size => .message subject reply size
  | none => .other

def Notice.ofLine (line : String) : Notice :=
  match words line with
  | ["MSG", subject, _, size] => ofSize subject none size
  | ["MSG", subject, _, reply, size] => ofSize subject (some reply) size
  | ["PING"] => .ping
  | _ => .other

namespace Frame

def lineEnd : String := "\r\n"

/-- Gives the name of the client. -/
def connect (clientName : String) : String :=
  let options : Json.Value := .object
    [("verbose", .boolean false), ("pedantic", .boolean false), ("name", .text clientName)]
  "CONNECT " ++ options.render ++ lineEnd

def subscribe (pattern : String) : String := "SUB " ++ pattern ++ " 1" ++ lineEnd

/-- Announces a payload for a subject, which follows with another `lineEnd`. -/
def publish (subject : String) (payload : List UInt8) : String :=
  "PUB " ++ subject ++ " " ++ Decimal.natText payload.length ++ lineEnd

def pong : String := "PONG" ++ lineEnd

end Frame
end SubnetRegistry
