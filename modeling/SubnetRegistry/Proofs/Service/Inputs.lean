import SubnetRegistry.Handler
import SubnetRegistry.Proofs.Json.Record

/-!
# What reaches a service

A service is asked directly, or by messages with any subject and any content. A message that is no
request changes nothing; one that is a request is that request.

## Main definitions

* `Input` — a request, or a message.
* `Service.take`, `Service.takeAll` — what comes of an input, and the service after some of them.

## Main statements

* `Request.operation_of_ofMessage` — the request of a message is of the operation of its subject.
* `Service.take_cases` — an input is a request or changes nothing.
-/
namespace SubnetRegistry

/-- What reaches a service. -/
inductive Input where
  | request (r : Request)
  | message (root subject : String) (payload : List UInt8)

def Input.operation? : Input → Option Operation
  | .request r => some r.operation
  | .message root subject _ => (Subject.operation? root subject).toOption

def Result.subnet? : Result → Option Subnet
  | .ok (.subnet v) => some v
  | .ok .empty | .error _ => none

def Response.subnet? : Response → Option Subnet
  | .subnet v => some v
  | .empty | .error .. | .invalidRequest _ => none

/-- What comes of an input: the subnet that is returned, if one is, and the service after it. -/
structure Taken where
  returned : Option Subnet
  service : Service

namespace Service

def take (s : Service) (around : Surroundings) : Input → Taken
  | .request r =>
    let handled := s.handle around r
    ⟨handled.result.subnet?, handled.service⟩
  | .message root subject payload =>
    let answered := s.answerSubject around root subject payload
    ⟨answered.response.subnet?, answered.service⟩

def takeAll (s : Service) (inputs : List (Surroundings × Input)) : Service :=
  inputs.foldl (fun s i => (s.take i.1 i.2).service) s

end Service

theorem Response.subnet?_ofResult (result : Result) :
    (Response.ofResult result).subnet? = result.subnet? := by
  rcases result with e | (v | _) <;> rfl

theorem Result.eq_ok_of_subnet? {result : Result} {v : Subnet} (h : result.subnet? = some v) :
    result = .ok (.subnet v) := by
  rcases result with e | (w | _)
  · cases h
  · exact Option.some.inj h ▸ rfl
  · cases h

/-- The request of a message is of the operation of its subject. -/
theorem Request.operation_of_ofMessage {root subject : String} {payload : List UInt8} {r : Request}
    (h : Request.ofMessage root subject payload = .ok r) :
    Subject.operation? root subject = .ok r.operation := by
  obtain ⟨op, hop, h⟩ := exists_of_bind_eq_ok h
  have hdecode := eq_ok_of_mapError_eq_ok
    (eq_ok_of_mapError_eq_ok (eq_ok_of_mapError_eq_ok h))
  obtain ⟨node, hread⟩ := Json.exists_node_of_decode hdecode
  rw [eq_ok_of_mapError_eq_ok hop]
  cases op with
  | create | get | update | delete =>
    obtain ⟨content, -, rfl⟩ := exists_of_map_eq_ok hread
    rfl

/-- An input is a request or changes nothing. -/
theorem Service.take_cases (s : Service) (around : Surroundings) (input : Input) :
    ((s.take around input).returned = none ∧ (s.take around input).service = s) ∨
      ∃ r : Request, input.operation? = some r.operation ∧
        (s.take around input).returned = (s.handle around r).result.subnet? ∧
        (s.take around input).service = (s.handle around r).service := by
  cases input with
  | request r => exact .inr ⟨r, rfl, rfl, rfl⟩
  | message root subject payload =>
    simp only [take, answerSubject]
    cases hm : Request.ofMessage root subject payload with
    | error reason => exact .inl ⟨rfl, rfl⟩
    | ok r =>
      refine .inr ⟨r, ?_, Response.subnet?_ofResult _, rfl⟩
      rw [Input.operation?, Request.operation_of_ofMessage hm]
      rfl

end SubnetRegistry
