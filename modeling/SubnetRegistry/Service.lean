import SubnetRegistry.Name
import SubnetRegistry.Request
import SubnetRegistry.Store

/-!
# The service

A request is checked first. If it passes, it addresses one name, and what it does is a short program
of calls to the store, in which each call may depend on the answers before it. All programs but that
of a fetch run under the lock of their name. A call may fail; it then leaves the store as it is, and
its failure is the result of the request.

| operation | absent name | present name |
|-----------|-------------|--------------|
| create | stored | the stored subnet, unchanged |
| get | not found | the stored subnet |
| update | not found, or stored if that is allowed | the masked update, stored |
| delete | not found, or nothing if that is allowed | removed |

## Main definitions

* `Program` — calls to the store that end in a result.
* `Program.step`, `Program.run` — the next call of a program, and all of it by itself.
* `Request.plan` — the checks of a request and its program.
* `Service.handle` — a request by itself, on a service that can generate identifiers.
-/
namespace SubnetRegistry

inductive Call where
  | get (name : String)
  | put (name : String) (subnet : Subnet)
  | delete (name : String)
  deriving DecidableEq, Repr

def Call.name : Call → String
  | .get name | .put name _ | .delete name => name

inductive CallKind where
  | get
  | put
  | delete
  deriving DecidableEq, Repr

def Call.kind : Call → CallKind
  | .get _ => .get
  | .put .. => .put
  | .delete _ => .delete

abbrev Result := Except SubnetError Outcome

/-- Calls to the store that end in a result. -/
inductive Program where
  | answer (result : Result)
  | get (name : String) (next : Option Subnet → Program)
  | put (name : String) (subnet : Subnet) (next : Program)
  | delete (name : String) (next : Bool → Program)

namespace Program

def call? : Program → Option Call
  | .answer _ => none
  | .get name _ => some (.get name)
  | .put name subnet _ => some (.put name subnet)
  | .delete name _ => some (.delete name)

/-- The program and the store after the next call. -/
def step (fails : Call → Option InfrastructureError) (store : Store) : Program → Program × Store
  | .answer result => (.answer result, store)
  | .get name next =>
    match fails (.get name) with
    | some e => (.answer (.error e.toSubnetError), store)
    | none => (next (store.get? name), store)
  | .put name subnet next =>
    match fails (.put name subnet) with
    | some e => (.answer (.error e.toSubnetError), store)
    | none => (next, store.put name subnet)
  | .delete name next =>
    match fails (.delete name) with
    | some e => (.answer (.error e.toSubnetError), store)
    | none => (next (store.contains name), store.delete name)

/-- What comes of running a program: its result, the calls it made and the store it left. -/
structure Run where
  result : Result
  calls : List Call
  store : Store

/-- A run after one more call before it. -/
def Run.after (call : Call) (r : Run) : Run := { r with calls := call :: r.calls }

def run (fails : Call → Option InfrastructureError) : Program → Store → Run
  | .answer result, store => ⟨result, [], store⟩
  | .get name next, store =>
    match fails (.get name) with
    | some e => ⟨.error e.toSubnetError, [.get name], store⟩
    | none => ((next (store.get? name)).run fails store).after (.get name)
  | .put name subnet next, store =>
    match fails (.put name subnet) with
    | some e => ⟨.error e.toSubnetError, [.put name subnet], store⟩
    | none => (next.run fails (store.put name subnet)).after (.put name subnet)
  | .delete name next, store =>
    match fails (.delete name) with
    | some e => ⟨.error e.toSubnetError, [.delete name], store⟩
    | none =>
      ((next (store.contains name)).run fails (store.delete name)).after (.delete name)

end Program

/-! ## The four requests -/

/-- Returns what is stored under a name, or stores the subnet there. -/
def Program.create (name : String) (subnet : Subnet) : Program :=
  .get name fun
    | some existing => .answer (.ok (.subnet existing))
    | none => .put name subnet (.answer (.ok (.subnet subnet)))

def Program.fetch (name : String) : Program :=
  .get name fun
    | some subnet => .answer (.ok (.subnet subnet))
    | none => .answer (.error (.notFound name))

/-- Stores the masked update of what is stored under the payload's name. -/
def Program.update (r : UpdateRequest) : Program :=
  .get r.subnet.name fun
    | some stored =>
      match FieldMask.apply r.updateMask stored r.subnet with
      | .ok updated => .put r.subnet.name updated (.answer (.ok (.subnet updated)))
      | .error e => .answer (.error e)
    | none =>
      if r.allowMissing then .put r.subnet.name r.subnet (.answer (.ok (.subnet r.subnet)))
      else .answer (.error (.notFound r.subnet.name))

def Program.remove (r : DeleteRequest) : Program :=
  .delete r.name fun present =>
    if present || r.allowMissing then .answer (.ok .empty)
    else .answer (.error (.notFound r.name))

/-- What a request that passed its checks is going to do. -/
structure Plan where
  name : String
  guarded : Bool
  program : Program

/-- The identifier of a request to create: the one it has, if it is allowed, or a fresh one. -/
def CreateRequest.identifier (r : CreateRequest) (fresh : String) : Except SubnetError String :=
  if r.subnetId = "" then .ok fresh
  else do
    Identifier.validate r.subnetId
    return r.subnetId

/-- Checks a request. A mask is checked before the name of the payload. -/
def Request.plan (fresh : String) : Request → Except SubnetError Plan
  | .create r => do
    let id ← r.identifier fresh
    let name := Name.build Name.collection id
    Name.validate name
    return ⟨name, true, .create name (r.subnet.named name)⟩
  | .get r => do
    Name.validate r.name
    return ⟨r.name, false, .fetch r.name⟩
  | .update r => do
    let _ ← (FieldMask.resolve r.updateMask).mapError SubnetError.invalidFieldMask
    Name.validate r.subnet.name
    return ⟨r.subnet.name, true, .update r⟩
  | .delete r => do
    Name.validate r.name
    return ⟨r.name, true, .remove r⟩

def Request.needsIdentifier : Request → Bool
  | .create r => r.subnetId = ""
  | _ => false

/-! ## A service -/

/-- A store and the number of identifiers that have been generated. -/
structure Service where
  store : Store
  issued : Nat := 0

/-- Where a service runs: the source of its identifiers, and the calls to its store that fail. -/
structure Surroundings where
  identifier : Nat → String
  fails : Call → Option InfrastructureError := fun _ => none

/-- What comes of a request: its result, the calls it made and the service after it. -/
structure Handled where
  result : Result
  calls : List Call
  service : Service

def Service.handle (s : Service) (around : Surroundings) (r : Request) : Handled :=
  let issued := if r.needsIdentifier then s.issued + 1 else s.issued
  match r.plan (around.identifier issued) with
  | .error e => ⟨.error e, [], { s with issued }⟩
  | .ok plan =>
    let run := plan.program.run around.fails s.store
    ⟨run.result, run.calls, ⟨run.store, issued⟩⟩

end SubnetRegistry
