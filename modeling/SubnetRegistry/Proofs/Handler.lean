import SubnetRegistry.Handler
import SubnetRegistry.Proofs.Wire.RoundTrip

/-!
# Messages and requests

A request that arrives as a message, under the subject of its operation and in its own JSON text, is
answered as if the service had been asked directly.

## Main statements

* `Request.ofMessage_toJson` — a request is read back from its message.
* `Service.answerSubject_toJson` — it is answered as it is handled, and so its reply is read.
-/
namespace SubnetRegistry

theorem Subject.operation?_ofOperation (root : String) (op : Operation) :
    Subject.operation? root (Subject.ofOperation root op) = .ok op := by
  have hdrop : Subject.dropStart (Subject.heading root).toList
      (Subject.ofOperation root op).toList = some op.text.toList := by
    rw [Subject.dropStart_eq_some_iff, Subject.ofOperation, String.toList_append]
  simp only [Subject.operation?, hdrop, String.ofList_toList, Operation.ofText_text]

section

variable {α β ε : Type} {read : Json.Node → Except Json.Fault α} {bytes : List UInt8}

theorem Json.decodeText_of_ok {a : α} (h : Json.decode read bytes = .ok a) (f : α → β)
    (report : String → ε) :
    (Json.decodeText (fun node => f <$> read node) bytes).mapError report = .ok (f a) := by
  rw [Json.decodeText, Json.decode_map, h]
  rfl

theorem Json.decodeText_of_error (h : ∃ fault, Json.decode read bytes = .error fault) (f : α → β)
    (report : String → ε) :
    ∃ e, (Json.decodeText (fun node => f <$> read node) bytes).mapError report = .error e := by
  obtain ⟨fault, hfault⟩ := h
  rw [Json.decodeText, Json.decode_map, hfault]
  exact ⟨_, rfl⟩

end

namespace Request

/-- The mask of a request, if it has one, is read back from its text. -/
def Plain (r : Request) : Prop := ∀ u, r = .update u → u.Plain

/-- A request of a known operation is read back from its text. -/
theorem ofBytes_toJson {r : Request} (h : r.Plain) :
    ofBytes r.operation r.toJson.bytes = .ok r := by
  cases r with
  | create r => exact Json.decodeText_of_ok r.readsBack _ _
  | get r => exact Json.decodeText_of_ok r.readsBack _ _
  | update r => exact Json.decodeText_of_ok (UpdateRequest.readsBack (h r rfl)) _ _
  | delete r => exact Json.decodeText_of_ok r.readsBack _ _

/-- A request is read back from its message. -/
theorem ofMessage_toJson {r : Request} (h : r.Plain) (root : String) :
    ofMessage root (Subject.ofOperation root r.operation) r.toJson.bytes = .ok r := by
  rw [ofMessage, Subject.operation?_ofOperation]
  show ofPayload r.operation r.toJson.bytes = _
  rw [ofPayload, ofBytes_toJson h]
  rfl

end Request

/-- A reply is read back from its text. -/
theorem Response.ofBytes_toJson (r : Response) : ofBytes r.toJson.bytes = .ok r := by
  rw [ofBytes, Json.decodeText, r.readsBack]
  rfl

/-- A request that arrives as a message is answered as it is handled, and the reply is read back. -/
theorem Service.answerSubject_toJson (s : Service) (around : Surroundings) (root : String)
    (r : Request) (h : ∀ u m, r = .update u → u.updateMask = some m →
      (∀ p ∈ m.paths, ',' ∉ p.toList) ∧ m.paths ≠ [""]) :
    let handled := s.handle around r
    let answered :=
      s.answerSubject around root (Subject.ofOperation root r.operation) r.toJson.bytes
    answered.calls = handled.calls ∧ answered.service = handled.service ∧
      answered.response = .ofResult handled.result ∧
      Response.ofBytes answered.response.toJson.bytes = .ok (.ofResult handled.result) := by
  have hplain : r.Plain := fun u hu m hm => ⟨(h u m hu hm).1, (h u m hu hm).2⟩
  intro handled answered
  have hanswered : answered = ⟨.ofResult handled.result, handled.calls, handled.service⟩ := by
    show s.reply around (Request.ofMessage root _ _) = _
    rw [Request.ofMessage_toJson hplain, Service.reply]
  rw [hanswered]
  exact ⟨rfl, rfl, rfl, Response.ofBytes_toJson _⟩

theorem Service.answerSubject_toJson_update :
    let around : Surroundings := ⟨fun n => Decimal.natText n, fun _ => none⟩
    (∀ u m, Request.update maskedUpdate = .update u → u.updateMask = some m →
        (∀ p ∈ m.paths, ',' ∉ p.toList) ∧ m.paths ≠ [""]) ∧
      let handled := Service.handle ⟨.empty, 0⟩ around (.update maskedUpdate)
      let answered := Service.answerSubject ⟨.empty, 0⟩ around "a.b"
        (Subject.ofOperation "a.b" .update) (Request.update maskedUpdate).toJson.bytes
      answered.calls = handled.calls ∧ answered.service = handled.service ∧
        answered.response = .ofResult handled.result ∧
        Response.ofBytes answered.response.toJson.bytes = .ok (.ofResult handled.result) := by
  intro around
  have h : ∀ u m, Request.update maskedUpdate = .update u → u.updateMask = some m →
      (∀ p ∈ m.paths, ',' ∉ p.toList) ∧ m.paths ≠ [""] := by
    rintro u m ⟨⟩ ⟨⟩
    decide
  exact ⟨h, Service.answerSubject_toJson ⟨.empty, 0⟩ around "a.b" (.update maskedUpdate) h⟩

end SubnetRegistry
