import SubnetRegistry.Handler
import SubnetRegistry.Proofs.Service.Program
import SubnetRegistry.Proofs.Store

/-!
# Failing without a trace

A request that ends with an error leaves the store as it was. What it is refused for is found before
its first call. Its calls are about one name; all but the last only read, and the first that fails is
the last. That failure is what the requester is told, whatever it is. The same holds of messages.

## Main definitions

* `Program.Tidy` — programs that succeed once they have written.
* `InOrder` — calls of which only the last may write or fail.
* `Program.Run.Orderly`, `Handled.Orderly`, `Answered.Orderly` — what is said of a run, of a request and
  of a message.

## Main statements

* `Program.Tidy.orderly`, `Request.plan_tidy` — tidy programs run in order, and those of requests are
  tidy.
* `Service.failure_leaves_no_trace` — so requests and messages fail without a trace.
-/
namespace SubnetRegistry

variable {fails : Call → Option InfrastructureError} {store : Store} {name fresh : String}
  {p : Program} {c : Call}

/-! ## Tidy programs -/

namespace Program

/-- Programs of calls about one name that succeed once they have written, and that report nothing of
their own but that the name is absent. -/
inductive Tidy (name : String) : Program → Prop
  | done (outcome : Outcome) : Tidy name (.answer (.ok outcome))
  | missing : Tidy name (.answer (.error (.notFound name)))
  | get {next : Option Subnet → Program} (h : ∀ v, Tidy name (next v)) : Tidy name (.get name next)
  | put (subnet : Subnet) (outcome : Outcome) : Tidy name (.put name subnet (.answer (.ok outcome)))
  | delete {next : Bool → Program} {outcome : Outcome} {result : Result}
      (hpresent : next true = .answer (.ok outcome)) (habsent : next false = .answer result)
      (h : Tidy name (.answer result)) : Tidy name (.delete name next)

theorem create_tidy (name : String) (subnet : Subnet) : (create name subnet).Tidy name := by
  refine .get fun v => ?_
  cases v with
  | none => exact .put _ _
  | some existing => exact .done _

theorem fetch_tidy (name : String) : (fetch name).Tidy name := by
  refine .get fun v => ?_
  cases v with
  | none => exact .missing
  | some subnet => exact .done _

/-- A mask that passes can be applied. -/
theorem update_tidy {u : UpdateRequest} {fields : List SubnetField}
    (hm : FieldMask.resolve u.updateMask = .ok fields) : (update u).Tidy u.subnet.name := by
  refine .get fun v => ?_
  cases v with
  | none =>
    cases u.allowMissing
    · exact .missing
    · exact .put _ _
  | some stored =>
    have happly : FieldMask.apply u.updateMask stored u.subnet = .ok _ :=
      FieldMask.apply_eq_ok_iff.2 ⟨fields, hm, rfl⟩
    simp only [happly]
    exact .put _ _

theorem remove_tidy (d : DeleteRequest) : (remove d).Tidy d.name := by
  cases ha : d.allowMissing with
  | true => exact .delete rfl (by simp [ha]) (.done .empty)
  | false => exact .delete rfl (by simp [ha]) .missing

end Program

theorem Request.plan_tidy {r : Request} {plan : Plan} (h : r.plan fresh = .ok plan) :
    plan.program.Tidy plan.name := by
  rcases plan_cases h with ⟨c, id, -, -, rfl⟩ | ⟨g, -, rfl⟩ | ⟨u, rfl, rfl⟩ | ⟨d, -, rfl⟩
  · exact Program.create_tidy _ _
  · exact Program.fetch_tidy g.name
  · obtain ⟨fields, hm, -⟩ := exists_of_bind_eq_ok h
    exact Program.update_tidy (eq_ok_of_mapError_eq_ok hm)
  · exact Program.remove_tidy d

/-! ## Runs -/

/-- Calls about one name, of which all but the last only read and do not fail. -/
structure InOrder (fails : Call → Option InfrastructureError) (calls : List Call) : Prop where
  one_name : ∃ name, ∀ c ∈ calls, c.name = name
  reads_first : ∀ c ∈ calls.dropLast, c.kind = .get ∧ fails c = none

def ErrorKind.isRefusal : ErrorKind → Bool
  | .invalidIdentifier | .invalidName | .invalidFieldMask => true
  | .notFound | .storage => false

namespace Program.Run

/-- Calls about a name in order, of which the one that fails is what is reported, and no change where
an error is. -/
structure Orderly (run : Run) (fails : Call → Option InfrastructureError) (name : String)
    (before : Store) : Prop where
  names : ∀ c ∈ run.calls, c.name = name
  reads_first : ∀ c ∈ run.calls.dropLast, c.kind = .get ∧ fails c = none
  reported : ∀ c ∈ run.calls, ∀ e, fails c = some e → run.result = .error (.storage e.message)
  unchanged : ∀ e, run.result = .error e → run.store = before ∧ e.kind.isRefusal = false

/-- A run that makes no call, and whose error, if it has one, is no refusal. -/
theorem orderly_uncalled {result : Result}
    (h : ∀ e, result = .error e → e.kind.isRefusal = false) :
    Orderly ⟨result, [], store⟩ fails name store where
  names := by simp
  reads_first := by simp
  reported := by simp
  unchanged := fun e he => ⟨rfl, h e he⟩

/-- A call that fails is the whole of a run. -/
theorem orderly_failed (hn : c.name = name) {e : InfrastructureError} (hf : fails c = some e) :
    Orderly ⟨.error e.toSubnetError, [c], store⟩ fails name store where
  names := by simpa using hn
  reads_first := by simp
  reported := by
    intro c' hc e' hf'
    rw [List.mem_singleton.1 hc, hf] at hf'
    cases hf'
    rfl
  unchanged := by
    rintro _ ⟨⟩
    exact ⟨rfl, rfl⟩

/-- A call that does not fail, and after which an error is no refusal and changes nothing. -/
theorem orderly_last (hn : c.name = name) (hf : fails c = none) {result : Result} {after : Store}
    (h : ∀ e, result = .error e → after = store ∧ e.kind.isRefusal = false) :
    Orderly ⟨result, [c], after⟩ fails name store where
  names := by simpa using hn
  reads_first := by simp
  reported := by
    intro c' hc e hf'
    rw [List.mem_singleton.1 hc, hf] at hf'
    cases hf'
  unchanged := h

/-- A read that does not fail may come before an orderly run. -/
theorem Orderly.after {run : Run} (h : run.Orderly fails name store) (hf : fails (.get name) = none) :
    (run.after (.get name)).Orderly fails name store where
  names := by
    intro c hc
    rcases List.mem_cons.1 hc with rfl | hc
    · rfl
    · exact h.names c hc
  reads_first := by
    intro c hc
    rcases List.eq_nil_or_concat run.calls with hnil | ⟨made, last, hcalls⟩
    · simp [Run.after, hnil] at hc
    · rw [Run.after, List.dropLast_cons_of_ne_nil (by simp [hcalls])] at hc
      rcases List.mem_cons.1 hc with rfl | hc
      · exact ⟨rfl, hf⟩
      · exact h.reads_first c hc
  reported := by
    intro c hc e hfails
    rcases List.mem_cons.1 hc with rfl | hc
    · cases hf.symm.trans hfails
    · exact h.reported c hc e hfails
  unchanged := h.unchanged

end Program.Run

/-- Tidy programs run in order. -/
theorem Program.Tidy.orderly (h : p.Tidy name) (fails : Call → Option InfrastructureError)
    (store : Store) : (p.run fails store).Orderly fails name store := by
  induction h with
  | done outcome => exact Run.orderly_uncalled (by simp)
  | missing =>
    refine Run.orderly_uncalled fun e he => ?_
    cases he
    rfl
  | @get next h ih =>
    cases hf : fails (.get name) with
    | some e =>
      simp only [run, hf]
      exact Run.orderly_failed rfl hf
    | none =>
      simp only [run, hf]
      exact (ih (store.get? name)).after hf
  | put subnet outcome =>
    cases hf : fails (.put name subnet) with
    | some e =>
      simp only [run, hf]
      exact Run.orderly_failed rfl hf
    | none =>
      simp only [run, hf]
      exact Run.orderly_last rfl hf (by simp)
  | @delete next outcome result hpresent habsent h ih =>
    cases hf : fails (.delete name) with
    | some e =>
      simp only [run, hf]
      exact Run.orderly_failed rfl hf
    | none =>
      cases hc : store.contains name with
      | true =>
        simp only [run, hf, hc, hpresent]
        exact Run.orderly_last rfl hf (by simp)
      | false =>
        simp only [run, hf, hc, habsent, Store.delete_eq_self hc]
        exact Run.orderly_last rfl hf ih.unchanged

/-! ## Requests and messages -/

structure Handled.Orderly (handled : Handled) (fails : Call → Option InfrastructureError)
    (before : Store) : Prop extends InOrder fails handled.calls where
  /-- An error leaves the store as it was. -/
  unchanged : ∀ e, handled.result = .error e → handled.service.store = before
  /-- A request is refused before it makes a call. -/
  refused : ∀ e, handled.result = .error e → e.kind.isRefusal → handled.calls = []
  /-- A call that fails is reported as a failure of the store, with the wording of its cause. -/
  reported : ∀ c ∈ handled.calls, ∀ e, fails c = some e →
    handled.result = .error (.storage e.message)

structure Answered.Orderly (answered : Answered) (fails : Call → Option InfrastructureError)
    (before : Service) : Prop extends InOrder fails answered.calls where
  /-- An error leaves the store as it was. -/
  unchanged : ∀ kind text, answered.response = .error kind text →
    answered.service.store = before.store
  /-- A message that is no request changes nothing and causes no call. -/
  no_request : ∀ reason, answered.response = .invalidRequest reason →
    answered.calls = [] ∧ answered.service = before
  /-- A request is refused before it makes a call. -/
  refused : ∀ kind text, answered.response = .error kind text → kind.isRefusal →
    answered.calls = []
  /-- A call that fails is reported as a failure of the store, with the wording of its cause. -/
  reported : ∀ c ∈ answered.calls, ∀ e, fails c = some e →
    answered.response = .error .storage (SubnetError.storage e.message).message

namespace Service

theorem inOrder_nil : InOrder fails [] := ⟨⟨"", nofun⟩, nofun⟩

theorem handle_orderly (s : Service) (around : Surroundings) (r : Request) :
    (s.handle around r).Orderly around.fails s.store := by
  simp only [handle]
  cases hp : r.plan (around.identifier (if r.needsIdentifier then s.issued + 1 else s.issued)) with
  | error e => exact ⟨inOrder_nil, fun _ _ => rfl, fun _ _ _ => rfl, nofun⟩
  | ok plan =>
    have hrun := (Request.plan_tidy hp).orderly around.fails s.store
    refine ⟨⟨⟨plan.name, hrun.names⟩, hrun.reads_first⟩, fun e he => (hrun.unchanged e he).1, ?_,
      hrun.reported⟩
    intro e he hrefusal
    cases (hrun.unchanged e he).2.symm.trans hrefusal

/-- A fetch never writes. -/
theorem kind_of_fetch (s : Service) (around : Surroundings) (g : GetRequest) :
    ∀ c ∈ (s.handle around (.get g)).calls, c.kind = .get := by
  simp only [handle]
  cases hp : (Request.get g).plan
      (around.identifier (if (Request.get g).needsIdentifier then s.issued + 1 else s.issued)) with
  | error e => exact nofun
  | ok plan =>
    obtain ⟨_, -, h⟩ := exists_of_bind_eq_ok hp
    obtain rfl := Except.ok.inj h
    obtain ⟨result, hrun⟩ := Program.fetch_run_eq around.fails g.name s.store
    simp [hrun, Call.kind]

/-- A message fails as the request that it is. -/
theorem reply_orderly (s : Service) (around : Surroundings) (asked : Except String Request) :
    (s.reply around asked).Orderly around.fails s := by
  cases asked with
  | error reason => exact ⟨inOrder_nil, nofun, fun _ _ => ⟨rfl, rfl⟩, nofun, nofun⟩
  | ok r =>
    have hr := s.handle_orderly around r
    simp only [reply]
    generalize s.handle around r = handled at hr
    obtain ⟨result, calls, after⟩ := handled
    refine ⟨hr.toInOrder, ?_, ?_, ?_, fun c hc e he => ?_⟩
    · intro kind text htext
      rcases result with e | (v | _)
      · exact hr.unchanged e rfl
      · cases htext
      · cases htext
    · intro reason hreason
      rcases result with e | (v | _) <;> cases hreason
    · intro kind text htext hrefusal
      rcases result with e | (v | _) <;> cases htext
      exact hr.refused e rfl hrefusal
    · obtain rfl : result = _ := hr.reported c hc e he
      rfl

/-- Requests and messages fail without a trace. -/
theorem failure_leaves_no_trace (s : Service) (around : Surroundings) :
    (∀ r, (s.handle around r).Orderly around.fails s.store) ∧
      (∀ g, ∀ c ∈ (s.handle around (.get g)).calls, c.kind = .get) ∧
      (∀ u reason, (s.handle around (.update u)).calls ≠ [] →
        (s.handle around (.update u)).result ≠ .error (.invalidFieldMask reason)) ∧
      (∀ op payload, (s.answer around op payload).Orderly around.fails s) ∧
      (∀ root subject payload, (s.answerSubject around root subject payload).Orderly around.fails s) ∧
      (∀ root subject payload e, Subject.operation? root subject = .error e →
        s.answerSubject around root subject payload = ⟨.invalidRequest e.message, [], s⟩) ∧
      ∀ root subject payload op e, Subject.operation? root subject = .ok op →
        Request.ofBytes op payload = .error e →
        s.answerSubject around root subject payload = ⟨.invalidRequest e.message, [], s⟩ := by
  refine ⟨s.handle_orderly around, s.kind_of_fetch around, fun u reason hcalls hresult => ?_,
    fun op payload => s.reply_orderly around _,
    fun root subject payload => s.reply_orderly around _, ?_, ?_⟩
  · exact hcalls ((s.handle_orderly around _).refused _ hresult rfl)
  · intro root subject payload e he
    simp only [answerSubject, Request.ofMessage, he]
    rfl
  · intro root subject payload op e hop he
    simp only [answerSubject, Request.ofMessage, hop]
    show s.reply around ((Request.ofBytes op payload).mapError InfrastructureError.message) = _
    rw [he]
    rfl

/-- The last call of an update fails, and the update has arrived as a message. -/
theorem failure_leaves_no_trace_unwritten :
    let kept : Subnet := { name := "subnets/a", status := some {} }
    let s : Service := ⟨Store.empty.put kept.name kept, 0⟩
    let around : Surroundings :=
      ⟨fun _ => "", fun c => if c.kind = .put then some ⟨.configuration, "read only"⟩ else none⟩
    let answered := s.answerSubject around "opi" "opi.subnet.update"
      (Request.update ⟨{ name := "subnets/a" }, some ⟨["status"]⟩, false⟩).toJson.bytes
    answered.calls = [.get "subnets/a", .put "subnets/a" { name := "subnets/a" }] ∧
      answered.response = .error .storage "storage error: Configuration error: read only" ∧
      answered.service.store = s.store := by
  intro kept s around answered
  have horderly : answered.Orderly around.fails s :=
    (failure_leaves_no_trace s around).2.2.2.2.1 "opi" "opi.subnet.update" _
  have hcalls : answered.calls = [.get "subnets/a", .put "subnets/a" { name := "subnets/a" }] := by
    decide +kernel
  have hresponse := horderly.reported (.put "subnets/a" { name := "subnets/a" }) (by simp [hcalls])
    ⟨.configuration, "read only"⟩ rfl
  exact ⟨hcalls, hresponse, horderly.unchanged _ _ hresponse⟩

end Service
end SubnetRegistry
