import SubnetRegistry.Mask

/-!
# Requests

The four things a client can ask for. Requests hold what the client sent; nothing in them has been
checked.
-/
namespace SubnetRegistry

/-- Creates a subnet under an identifier, or under a generated one if the identifier is empty. -/
structure CreateRequest where
  parent : String := ""
  subnetId : String := ""
  subnet : Subnet
  deriving DecidableEq, Repr

structure GetRequest where
  name : String
  deriving DecidableEq, Repr

/-- Replaces the masked fields of the subnet with the payload's name. -/
structure UpdateRequest where
  subnet : Subnet
  updateMask : Option FieldMask := none
  allowMissing : Bool := false
  deriving DecidableEq, Repr

structure DeleteRequest where
  name : String
  allowMissing : Bool := false
  deriving DecidableEq, Repr

inductive Request where
  | create (r : CreateRequest)
  | get (r : GetRequest)
  | update (r : UpdateRequest)
  | delete (r : DeleteRequest)
  deriving DecidableEq, Repr

/-- What a successful request gives: a subnet, or nothing for a deletion. -/
inductive Outcome where
  | subnet (s : Subnet)
  | empty
  deriving DecidableEq, Repr

/-- The reply to a request that arrived as a message. -/
inductive Response where
  | subnet (s : Subnet)
  | empty
  | error (kind : ErrorKind) (message : String)
  | invalidRequest (message : String)
  deriving DecidableEq, Repr

def Response.ofResult : Except SubnetError Outcome → Response
  | .ok (.subnet s) => .subnet s
  | .ok .empty => .empty
  | .error e => .error e.kind e.message

end SubnetRegistry
