import SubnetRegistry.Bus
import SubnetRegistry.Session

/-!
# A service that hears messages while it works

A service does not finish one message before it hears the next. Every message that asks for a reply
becomes a job; one that is no request has its reply at once, and any other when its request is
finished. Replies are published in any order, each once. A reply that is itself heard is no job, since
it asks for no reply.

## Main definitions

* `Job` — what is to be published for a message.
* `Serving` — the jobs, the requests behind them and what has been published.
* `Serving.hear`, `Serving.work?`, `Serving.publish?` — the events.
* `Serving.run?` — what comes of them.
-/
namespace SubnetRegistry

/-- What is to be published for a message: a reply at hand, the reply to a request that is under way,
or nothing more. -/
inductive Job where
  | refused (reply : String) (reason : String)
  | requested (reply : String) (task : Nat)
  | done

/-- A service under a root, with the messages it has yet to answer and those it has published. -/
structure Serving where
  root : String
  session : Session
  jobs : List Job
  published : List Message

namespace Serving

def idle (root : String) (store : Store) : Serving := ⟨root, .idle store, [], []⟩

/-- Hears a message. The identifier is for the request, if it takes one. -/
def hear (s : Serving) (identifier : String) (m : Message) : Serving :=
  match m.reply with
  | none => s
  | some reply =>
    match Request.ofMessage s.root m.subject m.payload with
    | .error reason => { s with jobs := s.jobs ++ [.refused reply reason] }
    | .ok r =>
      { s with
        session := s.session.enter (r.plan identifier)
        jobs := s.jobs ++ [.requested reply s.session.tasks.length] }

def work? (fails : Nat → Call → Option InfrastructureError) (s : Serving) (i : Nat) :
    Option Serving :=
  (s.session.advance? fails i).map fun session => { s with session }

/-- The message to publish for a job, if there is one by now. -/
def message? (s : Serving) : Job → Option Message
  | .refused reply reason => some (.ofResponse reply (.invalidRequest reason))
  | .requested reply task => (s.session.result? task).map fun r => .ofResponse reply (.ofResult r)
  | .done => none

def publish? (s : Serving) (i : Nat) : Option Serving := do
  let m ← s.message? (← s.jobs[i]?)
  return { s with jobs := s.jobs.set i .done, published := s.published ++ [m] }

inductive Event where
  | hear (m : Message)
  | work (task : Nat)
  | publish (job : Nat)
  deriving DecidableEq, Repr

/-- The service after an event, if it can happen. Request `i` takes the identifier `identifier i`, if
it takes one, and its calls that fail are those of `fails i`. -/
def step? (identifier : Nat → String) (fails : Nat → Call → Option InfrastructureError)
    (s : Serving) : Event → Option Serving
  | .hear m => some (s.hear (identifier s.session.tasks.length) m)
  | .work i => s.work? fails i
  | .publish i => s.publish? i

def run? (identifier : Nat → String) (fails : Nat → Call → Option InfrastructureError) (s : Serving)
    (events : List Event) : Option Serving :=
  events.foldlM (step? identifier fails) s

end Serving
end SubnetRegistry
