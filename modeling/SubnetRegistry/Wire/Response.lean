import SubnetRegistry.Request
import SubnetRegistry.Wire.Subnet

/-!
# Replies as JSON

A reply is an object whose member `result` names its variant, at any place, or an array that starts
with the name. It is read in two steps. The first reads the whole of it, finds the variant and sets
the rest aside; its faults have places. The second reads the variant's fields from what was set aside;
its faults have none.

## Main definitions

* `ErrorKind.ofNode` — a class of error: its name, or an object with the name as its one key.
* `Node.check` — reads a part of any shape, to a limited depth.
* `Response.ofNode`, `Response.toJson` — a reply.
-/
namespace SubnetRegistry

open Json (Node Member Ending Origin Shape Fault Expectation)

/-! ## Classes of error -/

namespace ErrorKind

def toJson (k : ErrorKind) : Json.Value := .text k.text

/-- The class of error of a name that ends at `place`. -/
def ofName (place : Nat) (name : String) : Except Fault ErrorKind :=
  match ofText? name with
  | some k => .ok k
  | none => .error (.at (.unknownVariant name (all.map text)) place)

/-- Reads the value of the one key, which carries nothing. -/
def unitOfNode : Node → Except Fault Unit
  | .null .. => .ok ()
  | node => .error (node.refuse .unit)

/-- Reads a class of error from an object of the text. -/
def ofMembers (members : List Member) (ending : Ending) : Except Fault ErrorKind :=
  match members with
  | [] =>
    match ending with
    | .closed stop => .error (.at .valueExpected stop)
    | ending => do
      let stop ← ending.readObject
      throw (.at .valueExpected stop)
  | m :: rest => do
    let kind ← ofName m.key.stop (← m.key.read)
    m.key.colon
    unitOfNode m.value
    match rest, ending with
    | [], .closed _ => return kind
    | [], .unfinished stop => throw (.at .endInObject stop)
    | _, _ => throw (.at .valueExpected m.next)

/-- Reads the value of the one key of an object that was set aside: null or an empty object. -/
def unitOfKept : Node → Except Fault Unit
  | .object [] _ _ => .ok ()
  | node => unitOfNode node

def ofNode : Origin → Node → Except Fault ErrorKind
  | _, .text read _ _ stop => do ofName stop (← read)
  | .text, .object members ending _ => ofMembers members ending
  | .text, .absent stop => .error (.at .endInValue stop)
  | .text, node => .error (.at .valueExpected node.firstByte)
  | .kept, .object [m] _ _ => do
    let kind ← ofName m.key.stop (← m.key.read)
    unitOfKept m.value
    return kind
  | .kept, .object _ _ start => .error (.at (.wrongValue .map .singleEntry) start)
  | .kept, node => .error (node.refuse .textOrMap)

end ErrorKind

/-! ## Reading a part of any shape -/

mutual

/-- Reads a part of any shape with at most `room` containers inside each other. -/
def Json.Node.check : Node → Nat → Except Fault Unit
  | .null .., _ | .boolean .., _ => .ok ()
  | .number read _ _, _ => read.map fun _ => ()
  | .text read _ _ _, _ => read.map fun _ => ()
  | .array _ _ start, 0 | .object _ _ start, 0 => .error (.at .tooDeep (start + 1))
  | .array items ending _, room + 1 => do
    Json.Node.checkItems items room
    let _ ← ending.readArray
  | .object members ending _, room + 1 => do
    Json.Node.checkMembers members room
    let _ ← ending.readObject
  | .broken fault _ _, _ => .error fault
  | .absent stop, _ => .error (.at .endInValue stop)

def Json.Node.checkItems : List Node → Nat → Except Fault Unit
  | [], _ => .ok ()
  | node :: rest, room => do
    node.check room
    Json.Node.checkItems rest room

def Json.Member.check : Member → Nat → Except Fault Unit
  | .mk key value _, room => do
    let _ ← key.read
    key.colon
    value.check room

def Json.Node.checkMembers : List Member → Nat → Except Fault Unit
  | [], _ => .ok ()
  | member :: rest, room => do
    member.check room
    Json.Node.checkMembers rest room

end

/-! ## Replies -/

namespace Response

inductive Variant where
  | subnet
  | empty
  | error
  | invalidRequest
  deriving DecidableEq

def Variant.all : List Variant := [.subnet, .empty, .error, .invalidRequest]

def Variant.text : Variant → String
  | .subnet => "subnet"
  | .empty => "empty"
  | .error => "error"
  | .invalidRequest => "invalid_request"

def Variant.ofNode : Node → Except Fault Variant
  | .text read _ _ stop => do
    let name ← read
    match all.find? fun v => v.text == name with
    | some v => return v
    | none => throw (.at (.unknownVariant name (all.map text)) stop)
  | node => .error (node.refuse .variantName)

/-- The member that names the variant. -/
def tag : String := "result"

/-- The number of containers inside each other that a member of a reply may hold. -/
def room : Nat := 126

/-- What has been read of a reply: the variant, if it has been found, and the other members in
reverse. -/
structure Sought where
  variant : Option Variant
  others : List Member

def Sought.add (s : Sought) (m : Member) : Except Fault Sought := do
  let name ← m.key.read
  if name = tag then
    if s.variant.isSome then throw (.at (.repeatedField tag) m.key.settled)
    m.key.colon
    return { s with variant := some (← Variant.ofNode m.value) }
  else
    m.key.colon
    m.value.check room
    return { s with others := m :: s.others }

/-- The variant of a reply, and the rest of it. -/
def split : Node → Except Fault (Variant × Node)
  | .object members ending start => do
    let sought ← members.foldlM Sought.add ⟨none, []⟩
    let stop ← ending.readObject
    match sought.variant with
    | some v => return (v, .object sought.others.reverse ending start)
    | none => throw (.at (.missingField tag) stop)
  | .array [] ending _ => do
    let stop ← ending.readArray
    throw (.at (.missingField tag) stop)
  | .array (first :: items) ending start => do
    let v ← Variant.ofNode first
    Node.checkItems items room
    let _ ← ending.readArray
    return (v, .array items ending start)
  | node => .error (node.refuse (.titled "internally tagged enum SubnetResponse"))

inductive SubnetField where
  | subnet
  deriving DecidableEq

abbrev SubnetField.Value : SubnetField → Type
  | .subnet => Subnet

def subnetShape : Shape SubnetField SubnetField.Value where
  title := "struct variant SubnetResponse::Subnet"
  fields := [.subnet]
  name
    | .subnet => "subnet"
  read
    | .subnet, o, node => Subnet.ofNode o node
  fallback
    | .subnet => none

inductive ErrorField where
  | kind
  | message
  deriving DecidableEq

abbrev ErrorField.Value : ErrorField → Type
  | .kind => ErrorKind
  | .message => String

def errorShape : Shape ErrorField ErrorField.Value where
  title := "struct variant SubnetResponse::Error"
  fields := [.kind, .message]
  name
    | .kind => "kind"
    | .message => "message"
  read
    | .kind, o, node => ErrorKind.ofNode o node
    | .message, _, node => node.asText
  fallback
    | .kind => none
    | .message => none

inductive InvalidField where
  | message
  deriving DecidableEq

abbrev InvalidField.Value : InvalidField → Type
  | .message => String

def invalidShape : Shape InvalidField InvalidField.Value where
  title := "struct variant SubnetResponse::InvalidRequest"
  fields := [.message]
  name
    | .message => "message"
  read
    | .message, _, node => node.asText
  fallback
    | .message => none

/-- Reads a variant from what was set aside. A reply without fields ignores members but not items. -/
def ofKept : Variant → Node → Except Fault Response
  | .subnet, node => do
    let get ← subnetShape.read? .kept node
    return .subnet (← get .subnet)
  | .empty, .array (first :: rest) _ start =>
    .error (.at (.wrongLength (first :: rest).length (.items 0)) start)
  | .empty, _ => .ok .empty
  | .error, node => do
    let get ← errorShape.read? .kept node
    return .error (← get .kind) (← get .message)
  | .invalidRequest, node => do
    let get ← invalidShape.read? .kept node
    return .invalidRequest (← get .message)

def ofNode (node : Node) : Except Fault Response := do
  let (variant, rest) ← split node
  (ofKept variant rest).mapError Fault.unplaced

def toJson : Response → Json.Value
  | .subnet s => .object [(tag, .text Variant.subnet.text), ("subnet", s.toJson)]
  | .empty => .object [(tag, .text Variant.empty.text)]
  | .error kind message =>
    .object [(tag, .text Variant.error.text), ("kind", kind.toJson), ("message", .text message)]
  | .invalidRequest message =>
    .object [(tag, .text Variant.invalidRequest.text), ("message", .text message)]

end Response
end SubnetRegistry
