import SubnetRegistry.Locks
import SubnetRegistry.Service

/-!
# Requests side by side

Several requests may be under way at a service. They advance one step at a time and in any order. A
step asks for the lock of a name, takes a lock that has come free, makes one call to the store, or
gives the lock back and ends the request. A request may be abandoned while it waits for its lock, and
not later, so that no program is left half done.

## Main definitions

* `Progress` — how far a request has come.
* `Session` — the requests under way, with the store and the locks they share.
* `Session.advance?`, `Session.abandon?` — the steps. There is none where a request cannot advance.
-/
namespace SubnetRegistry

inductive Progress where
  | ready (plan : Plan)
  | waiting (plan : Plan)
  | running (guarded : Bool) (program : Program)
  | finished (result : Result)
  | abandoned

namespace Progress

/-- A request before its first step. One that does not pass its checks needs none. -/
def ofPlan : Except SubnetError Plan → Progress
  | .ok plan => .ready plan
  | .error e => .finished (.error e)

def ofAnswer (plan : Plan) : Locks.Answer → Progress
  | .acquired _ => .running true plan.program
  | .waiting | .notWaiting => .waiting plan

def isOver : Progress → Bool
  | .finished _ | .abandoned => true
  | .ready _ | .waiting _ | .running .. => false

end Progress

/-- The requests under way at a service, which are numbered by their places. What is held and waited
for in the locks is theirs. The calls they made to the store are in order, with who made them. -/
structure Session where
  store : Store
  locks : Locks Nat
  tasks : List Progress
  calls : List (Nat × Call)

namespace Session

def idle (store : Store) : Session := ⟨store, .empty, [], []⟩

def enter (s : Session) (plan : Except SubnetError Plan) : Session :=
  { s with tasks := s.tasks ++ [.ofPlan plan] }

/-- Requests before their first steps, with an identifier for each that takes one. -/
def start (store : Store) (identifier : Nat → String) (requests : List Request) : Session :=
  (requests.mapIdx fun i r => r.plan (identifier i)).foldl enter (idle store)

def settle (s : Session) (i : Nat) (task : Progress) (locks : Locks Nat) : Session :=
  { s with tasks := s.tasks.set i task, locks }

/-- The next step of a request. The calls of request `i` that fail are those of `fails i`. -/
def advance? (fails : Nat → Call → Option InfrastructureError) (s : Session) (i : Nat) :
    Option Session :=
  match s.tasks[i]? with
  | some (.ready plan) =>
    if plan.guarded then
      let (answer, locks) := s.locks.lock i plan.name
      some (s.settle i (.ofAnswer plan answer) locks)
    else some (s.settle i (.running false plan.program) s.locks)
  | some (.waiting plan) =>
    match s.locks.poll i with
    | (.acquired _, locks) => some (s.settle i (.running true plan.program) locks)
    | _ => none
  | some (.running guarded (.answer result)) =>
    some (s.settle i (.finished result) (if guarded then (s.locks.release i).2 else s.locks))
  | some (.running guarded program) =>
    let (program', store) := program.step (fails i) s.store
    some
      { s.settle i (.running guarded program') s.locks with
        store, calls := s.calls ++ program.call?.toList.map fun call => (i, call) }
  | some (.finished _) | some .abandoned | none => none

/-- Gives up a request that waits for its lock. -/
def abandon? (s : Session) (i : Nat) : Option Session :=
  match s.tasks[i]? with
  | some (.waiting _) => some (s.settle i .abandoned (s.locks.cancel i).2)
  | _ => none

inductive Move where
  | advance (task : Nat)
  | abandon (task : Nat)
  deriving DecidableEq, Repr

def move? (fails : Nat → Call → Option InfrastructureError) (s : Session) : Move → Option Session
  | .advance i => s.advance? fails i
  | .abandon i => s.abandon? i

def run? (fails : Nat → Call → Option InfrastructureError) (s : Session) (moves : List Move) :
    Option Session :=
  moves.foldlM (move? fails) s

def isOver (s : Session) : Bool := s.tasks.all Progress.isOver

def result? (s : Session) (i : Nat) : Option Result :=
  match s.tasks[i]? with
  | some (.finished result) => some result
  | _ => none

end Session
end SubnetRegistry
