import SubnetRegistry.Decimal.Integer

/-!
# Errors

What a request for a subnet can fail with, and what the parts around the service can fail with. Each
error is its cause; the wording clients see is in the `message` functions. A failure of the store is
reported to the client as a storage error with its wording.
-/
namespace SubnetRegistry

inductive FieldMaskError where
  | wildcardWithOtherPaths
  | unknownPath (path : String)
  deriving DecidableEq, Repr

def FieldMaskError.message : FieldMaskError → String
  | .wildcardWithOtherPaths => "'*' must not be used with other paths"
  | .unknownPath path => path

inductive SubnetError where
  | invalidIdentifier (character : Char) (position : Nat)
  | invalidName (segment : String)
  | invalidFieldMask (reason : FieldMaskError)
  | notFound (name : String)
  | storage (detail : String)
  deriving DecidableEq, Repr

def SubnetError.message : SubnetError → String
  | .invalidIdentifier character position =>
    "user-settable ID must only contain lowercase, numbers and hyphens (got: '" ++
      String.singleton character ++ "' in position " ++ Decimal.natText position ++ ")"
  | .invalidName segment => "segment '" ++ segment ++ "': not a valid DNS name"
  | .invalidFieldMask reason => "invalid field path: " ++ reason.message
  | .notFound name => "unable to find key " ++ name
  | .storage detail => "storage error: " ++ detail

/-- The class of an error, which clients can tell without reading its wording. -/
inductive ErrorKind where
  | invalidIdentifier
  | invalidName
  | invalidFieldMask
  | notFound
  | storage
  deriving DecidableEq, Repr

def ErrorKind.all : List ErrorKind :=
  [.invalidIdentifier, .invalidName, .invalidFieldMask, .notFound, .storage]

def ErrorKind.text : ErrorKind → String
  | .invalidIdentifier => "invalid_identifier"
  | .invalidName => "invalid_name"
  | .invalidFieldMask => "invalid_field_mask"
  | .notFound => "not_found"
  | .storage => "storage"

def ErrorKind.ofText? (text : String) : Option ErrorKind :=
  ErrorKind.all.find? fun k => k.text == text

theorem ErrorKind.ofText?_text (k : ErrorKind) : ErrorKind.ofText? k.text = some k := by
  cases k <;> decide

def SubnetError.kind : SubnetError → ErrorKind
  | .invalidIdentifier .. => .invalidIdentifier
  | .invalidName _ => .invalidName
  | .invalidFieldMask _ => .invalidFieldMask
  | .notFound _ => .notFound
  | .storage _ => .storage

/-- The parts around the service that can fail. -/
inductive Facility where
  | natsConnection
  | natsPublish
  | natsSubscribe
  | serialization
  | deserialization
  | configuration
  | store
  deriving DecidableEq, Repr

/-- What the wording of a failure starts with. -/
def Facility.heading : Facility → String
  | .natsConnection => "NATS connection error: "
  | .natsPublish => "NATS publish error: "
  | .natsSubscribe => "NATS subscribe error: "
  | .serialization => "Serialization error: "
  | .deserialization => "Deserialization error: "
  | .configuration => "Configuration error: "
  | .store => "Store error: "

structure InfrastructureError where
  facility : Facility
  detail : String
  deriving DecidableEq, Repr

def InfrastructureError.message (e : InfrastructureError) : String := e.facility.heading ++ e.detail

/-- The failure as a client of the service sees it. -/
def InfrastructureError.toSubnetError (e : InfrastructureError) : SubnetError := .storage e.message

end SubnetRegistry
