import SubnetRegistry.Error
import SubnetRegistry.Subject
import SubnetRegistry.Text.Blank

/-!
# Configuration

The server is configured by five variables, each of which may be absent. Of several that are wrong the
first in the order servers, connection timeout, request timeout, root is reported.

## Main definitions

* `Config` — a configuration, with the defaults.
* `Config.ofLookup` — the configuration of the variables.
* `Config.environment` — variables for a configuration.
-/
namespace SubnetRegistry

/-- What the server needs to know. Timeouts are whole seconds. -/
structure Config where
  servers : List String := ["nats://localhost:4222"]
  clientName : String := "cim-subnet"
  connectTimeout : Nat := 10
  requestTimeout : Nat := 5
  subjectRoot : String := Subject.defaultRoot
  deriving DecidableEq, Repr

inductive ConfigError where
  | noServer
  | badSeconds (key : String) (value : String)
  | badRoot (root : String)
  deriving DecidableEq, Repr

namespace Config

def serversVariable : String := "NATS_URL"

def clientNameVariable : String := "NATS_CLIENT_NAME"

def connectTimeoutVariable : String := "NATS_CONNECT_TIMEOUT_SECS"

def requestTimeoutVariable : String := "NATS_REQUEST_TIMEOUT_SECS"

def subjectRootVariable : String := "SUBNET_SUBJECT_ROOT"

def keys : List String :=
  [serversVariable, clientNameVariable, connectTimeoutVariable, requestTimeoutVariable,
    subjectRootVariable]

end Config

def ConfigError.message : ConfigError → String
  | .noServer => Config.serversVariable ++ " does not name any server"
  | .badSeconds key value =>
    key ++ " must be a whole number of seconds, got '" ++ value ++ "'"
  | .badRoot root => Config.subjectRootVariable ++ " is not a valid subject prefix: '" ++ root ++ "'"

def ConfigError.toInfrastructureError (e : ConfigError) : InfrastructureError :=
  ⟨.configuration, e.message⟩

namespace Config

/-- The servers of a text: its pieces between commas without the blanks around them, if anything is
left. -/
def servers? (text : String) : List String :=
  ((Text.split ',' text.toList).map Text.trim |>.filter fun s => !s.isEmpty).map String.ofList

/-- The number of one or more decimal digits, if it fits 64 bits. -/
def digits? (cs : List Char) : Option Nat := (Decimal.nat? cs).filter (· < UInt64.size)

/-- The number of seconds of a text: digits with an optional plus, and blanks around them. -/
def seconds? (text : String) : Option Nat :=
  match Text.trim text.toList with
  | '+' :: rest => digits? rest
  | cs => digits? cs

def isRoot (root : String) : Bool :=
  root != "" && root.toList.all fun c => c != '*' && c != '>' && c != ' '

def secondsOr (default : Nat) (key : String) (value : Option String) :
    Except ConfigError Nat :=
  match value with
  | none => .ok default
  | some text =>
    match seconds? text with
    | some n => .ok n
    | none => .error (.badSeconds key text)

/-- The configuration of the variables. -/
def ofLookup (lookup : String → Option String) : Except ConfigError Config := do
  let defaults : Config := {}
  let servers ← match lookup serversVariable with
    | none => pure defaults.servers
    | some text =>
      match servers? text with
      | [] => throw .noServer
      | servers => pure servers
  let clientName := (lookup clientNameVariable).getD defaults.clientName
  let connectTimeout ← secondsOr defaults.connectTimeout connectTimeoutVariable
    (lookup connectTimeoutVariable)
  let requestTimeout ← secondsOr defaults.requestTimeout requestTimeoutVariable
    (lookup requestTimeoutVariable)
  let subjectRoot := (lookup subjectRootVariable).getD defaults.subjectRoot
  if isRoot subjectRoot then
    return { servers, clientName, connectTimeout, requestTimeout, subjectRoot }
  else throw (.badRoot subjectRoot)

/-- The servers as one text, as a client is given them to connect to. -/
def serverList (c : Config) : String :=
  String.ofList (Text.join ',' (c.servers.map String.toList))

/-- Variables for a configuration. -/
def environment (c : Config) : List (String × String) :=
  [(serversVariable, c.serverList), (clientNameVariable, c.clientName),
    (connectTimeoutVariable, Decimal.natText c.connectTimeout),
    (requestTimeoutVariable, Decimal.natText c.requestTimeout),
    (subjectRootVariable, c.subjectRoot)]

end Config
end SubnetRegistry
