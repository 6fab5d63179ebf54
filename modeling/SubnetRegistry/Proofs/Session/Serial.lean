import Mathlib.Data.List.Dedup
import SubnetRegistry.Proofs.Session.Moves

/-!
# Requests one at a time

The requests of a session can be handled one at a time, each in its own surroundings, in the order in
which they made their last calls to the store. Every move of a session keeps step with this.

## Main definitions

* `Serial.run` — requests handled one at a time in a given order.
* `Session.decisions` — the requests that know their results, by their last calls.
* `Serial.Gives` — the store, the results and the calls that handled requests come to.

## Main statements

* `Session.Linear.step` — a move keeps the agreement with the order of the last calls.
-/
namespace SubnetRegistry

/-- A service that has handled some requests, and what came of each. -/
structure Serial where
  service : Service
  handled : List (Nat × Handled)

/-- Where request `i` is handled: it has an identifier of its own, and calls of its own that fail. -/
def Surroundings.ofTask (identifier : Nat → String)
    (fails : Nat → Call → Option InfrastructureError) (i : Nat) : Surroundings :=
  ⟨fun _ => identifier i, fails i⟩

def Plan.runOf (fails : Call → Option InfrastructureError) (plan? : Except SubnetError Plan)
    (store : Store) : Program.Run :=
  match plan? with
  | .ok plan => plan.program.run fails store
  | .error e => ⟨.error e, [], store⟩

/-- What came of a request, without the number of identifiers. -/
def Handled.run (h : Handled) : Program.Run := ⟨h.result, h.calls, h.service.store⟩

theorem Service.handle_run (s : Service) (identifier : String)
    (fails : Call → Option InfrastructureError) (r : Request) :
    (s.handle ⟨fun _ => identifier, fails⟩ r).run =
      Plan.runOf fails (r.plan identifier) s.store := by
  simp only [Service.handle, Plan.runOf]
  cases r.plan identifier <;> rfl

namespace Serial

def next (around : Nat → Surroundings) (requests : List Request) (serial : Serial) (i : Nat) :
    Serial :=
  match requests[i]? with
  | some r =>
    let handled := serial.service.handle (around i) r
    ⟨handled.service, serial.handled ++ [(i, handled)]⟩
  | none => serial

theorem next_eq {around : Nat → Surroundings} {requests : List Request} {i : Nat} {r : Request}
    (hi : requests[i]? = some r) (serial : Serial) :
    serial.next around requests i =
      ⟨(serial.service.handle (around i) r).service,
        serial.handled ++ [(i, serial.service.handle (around i) r)]⟩ := by
  rw [next, hi]

/-- Requests handled one at a time in the given order. -/
def run (around : Nat → Surroundings) (requests : List Request) (store : Store)
    (order : List Nat) : Serial :=
  order.foldl (next around requests) ⟨⟨store, 0⟩, []⟩

theorem run_append (around : Nat → Surroundings) (requests : List Request) (store : Store)
    (order : List Nat) (i : Nat) :
    run around requests store (order ++ [i]) =
      (run around requests store order).next around requests i := by
  simp [run]

/-- What handled requests come to: the store they leave, the order in which they were handled, and
the result and the calls of each. -/
structure Gives (serial : Serial) (store : Store) (order : List Nat)
    (result? : Nat → Option Result) (callsOf : Nat → List Call) : Prop where
  store : serial.service.store = store
  order : serial.handled.map Prod.fst = order
  results : ∀ e ∈ serial.handled, result? e.1 = some e.2.result
  calls : ∀ e ∈ serial.handled, callsOf e.1 = e.2.calls

namespace Gives

variable {identifier : Nat → String} {fails : Nat → Call → Option InfrastructureError}
  {requests : List Request} {serial : Serial} {store store' : Store} {order : List Nat}
  {result? result?' : Nat → Option Result} {callsOf callsOf' : Nat → List Call} {i : Nat}

theorem congr (h : serial.Gives store order result? callsOf)
    (hr : ∀ i ∈ order, result?' i = result? i) (hc : ∀ i ∈ order, callsOf' i = callsOf i) :
    serial.Gives store order result?' callsOf' where
  store := h.store
  order := h.order
  results e he := (hr _ (h.order ▸ List.mem_map_of_mem he)).trans (h.results e he)
  calls e he := (hc _ (h.order ▸ List.mem_map_of_mem he)).trans (h.calls e he)

/-- Handling one more request is running its plan on the store that the others left. -/
theorem next_iff {r : Request} (hi : requests[i]? = some r) :
    (serial.next (.ofTask identifier fails) requests i).Gives store' (order ++ [i]) result? callsOf ↔
      ∃ store, serial.Gives store order result? callsOf ∧
        ∃ run, Plan.runOf (fails i) (r.plan (identifier i)) store = run ∧ run.store = store' ∧
          result? i = some run.result ∧ callsOf i = run.calls := by
  have hrun := serial.service.handle_run (identifier i) (fails i) r
  have hnext : serial.next (.ofTask identifier fails) requests i =
      ⟨(serial.service.handle ⟨fun _ => identifier i, fails i⟩ r).service,
        serial.handled ++ [(i, serial.service.handle ⟨fun _ => identifier i, fails i⟩ r)]⟩ := by
    rw [next, hi]
    rfl
  rw [hnext]
  constructor
  · intro h
    have horder := h.order
    rw [List.map_append] at horder
    refine ⟨serial.service.store, ⟨rfl, (List.append_inj' horder rfl).1, ?_, ?_⟩, _, hrun.symm,
      h.store, h.results (i, _) (by simp), h.calls (i, _) (by simp)⟩
    · exact fun e he => h.results e (List.mem_append_left _ he)
    · exact fun e he => h.calls e (List.mem_append_left _ he)
  · rintro ⟨store, h, run, rfl, rfl, hres, hcalls⟩
    rw [h.store] at hrun
    rw [← hrun] at hres hcalls ⊢
    refine ⟨rfl, by simp [h.order], ?_, ?_⟩
    · intro e he
      rcases List.mem_append.1 he with he | he
      · exact h.results e he
      · exact List.mem_singleton.1 he ▸ hres
    · intro e he
      rcases List.mem_append.1 he with he | he
      · exact h.calls e he
      · exact List.mem_singleton.1 he ▸ hcalls

end Gives
end Serial

theorem dedup_append_singleton {α : Type} [DecidableEq α] (l : List α) (a : α) :
    (l ++ [a]).dedup = l.dedup.filter (fun x => x ≠ a) ++ [a] := by
  induction l with
  | nil => simp
  | cons x l ih =>
    rw [List.cons_append]
    by_cases hx : x ∈ l
    · rw [List.dedup_cons_of_mem (List.mem_append_left _ hx), ih, List.dedup_cons_of_mem hx]
    · rw [List.dedup_cons_of_notMem hx]
      by_cases ha : x = a
      · rw [List.dedup_cons_of_mem (by simp [ha]), ih]
        simp [ha]
      · rw [List.dedup_cons_of_notMem (by simp [hx, ha]), ih]
        simp [ha]

namespace Session

variable {fails : Nat → Call → Option InfrastructureError} {s s' : Session} {i : Nat}

/-- The result of a request that has made its last call. -/
def answer? (s : Session) (i : Nat) : Option Result :=
  match s.tasks[i]? with
  | some (.running _ (.answer result)) | some (.finished result) => some result
  | _ => none

/-- Those who called the store, by their last calls. -/
def callers (s : Session) : List Nat := (s.calls.map Prod.fst).dedup

def decisions (s : Session) : List Nat := s.callers.filter fun i => (s.answer? i).isSome

theorem mem_callers : i ∈ s.callers ↔ s.callsOf i ≠ [] := by
  simp [callers, callsOf, List.filter_eq_nil_iff]

theorem answer?_running {guarded : Bool} {program : Program} {c : Call}
    (ht : s.tasks[i]? = some (.running guarded program)) (hc : program.call? = some c) :
    s.answer? i = none := by
  rw [answer?, ht]
  cases program with
  | answer result => cases hc
  | get | put | delete => rfl

theorem answer?_congr (h : s'.tasks[i]? = s.tasks[i]?) : s'.answer? i = s.answer? i := by
  rw [answer?, answer?, h]

/-- Who makes a call goes to the end of the order, and counts there once it knows its result. -/
theorem decisions_call {c : Call} (hc : s'.calls = s.calls ++ [(i, c)]) (hi : s.answer? i = none)
    (hother : ∀ j, j ≠ i → s'.answer? j = s.answer? j) :
    s'.decisions = s.decisions ++ if (s'.answer? i).isSome then [i] else [] := by
  have hfilter : (s.callers.filter fun j => j ≠ i).filter (fun j => (s'.answer? j).isSome) =
      s.decisions := by
    unfold decisions
    rw [List.filter_filter]
    refine List.filter_congr fun j _ => ?_
    by_cases hj : j = i
    · simp [hj, hi]
    · simp [hj, hother j hj]
  have hcallers : s'.callers = s.callers.filter (fun j => j ≠ i) ++ [i] := by
    unfold callers
    rw [hc, List.map_append]
    exact dedup_append_singleton _ _
  unfold decisions at hfilter ⊢
  rw [hcallers, List.filter_append, hfilter, List.filter_singleton, Bool.cond_eq_ite]

/-- A request whose program begins has no result before and none after. -/
theorem Accounted.answer?_begin {plans : List (Except SubnetError Plan)}
    (h : Accounted fails plans s) {task : Progress} {plan : Plan} (ht : s.tasks[i]? = some task)
    (hw : task = .ready plan ∨ task = .waiting plan) (guarded : Bool) (locks : Locks Nat) :
    s.answer? i = (s.settle i (.running guarded plan.program) locks).answer? i := by
  obtain ⟨plan', -, hsound, hfol⟩ := h.exists_sound_plan ht (by rcases hw with rfl | rfl <;> simp)
  have hplan : plan = plan' := by
    rcases hw with rfl | rfl
    · exact hfol.1
    · exact hfol.1
  subst hplan
  obtain ⟨c, hc⟩ := hsound.calls
  rw [answer?_running (tasks_settle_self ht _ _) hc]
  unfold answer?
  rcases hw with rfl | rfl <;> rw [ht]

/-- A move makes no call and brings no result, or it is the next call of a request. -/
theorem Accounted.step_cases {plans : List (Except SubnetError Plan)}
    (h : Accounted fails plans s) {m : Move} (hm : Step fails s m s') :
    (s'.store = s.store ∧ s'.calls = s.calls ∧ ∀ j, s'.answer? j = s.answer? j) ∨
      ∃ i guarded program c, s.tasks[i]? = some (.running guarded program) ∧
        program.call? = some c ∧
        s' = { s.settle i (.running guarded (program.step (fails i) s.store).1) s.locks with
          store := (program.step (fails i) s.store).2, calls := s.calls ++ [(i, c)] } := by
  have quiet : ∀ {i : Nat} {task new : Progress} {locks : Locks Nat},
      s.tasks[i]? = some task → s.answer? i = (s.settle i new locks).answer? i →
      ∀ j, (s.settle i new locks).answer? j = s.answer? j := by
    intro i task new locks ht hi j
    by_cases hj : j = i
    · rw [hj, hi]
    · exact answer?_congr (tasks_settle_of_ne hj new locks)
  cases hm with
  | @ask i plan ht hg =>
    refine .inl ⟨rfl, rfl, quiet ht ?_⟩
    obtain ⟨plan', -, -, rfl, hstand, -⟩ := h.exists_sound_plan ht (by simp)
    rcases Locks.standing?_lock_self plan.name hstand with ⟨ha, -⟩ | ⟨ha, -⟩
    · rw [ha]
      exact h.answer?_begin ht (.inl rfl) true _
    · unfold answer?
      rw [ha, ht, tasks_settle_self ht]
      rfl
  | @enter i plan ht hg => exact .inl ⟨rfl, rfl, quiet ht (h.answer?_begin ht (.inl rfl) false _)⟩
  | @take i plan name ht ha =>
    exact .inl ⟨rfl, rfl, quiet ht (h.answer?_begin ht (.inr rfl) true _)⟩
  | @finish i guarded result ht =>
    refine .inl ⟨rfl, rfl, quiet ht ?_⟩
    unfold answer?
    rw [ht, tasks_settle_self ht]
  | @abandon i plan ht =>
    refine .inl ⟨rfl, rfl, quiet ht ?_⟩
    unfold answer?
    rw [ht, tasks_settle_self ht]
  | @call i guarded program c ht hc => exact .inr ⟨i, guarded, program, c, ht, hc, rfl⟩

/-- A session that is accounted for, and where handling its requests one at a time, in the order of
their last calls, comes to the same. -/
structure Linear (identifier : Nat → String) (fails : Nat → Call → Option InfrastructureError)
    (requests : List Request) (store : Store) (s : Session) : Prop where
  accounted : Accounted fails (plansOf identifier requests) s
  agrees : (Serial.run (.ofTask identifier fails) requests store s.decisions).Gives s.store
    s.decisions s.answer? s.callsOf

variable {identifier : Nat → String} {requests : List Request} {store : Store}

theorem Linear.step (h : Linear identifier fails requests store s) {m : Move}
    (hm : Step fails s m s') : Linear identifier fails requests store s' := by
  refine ⟨h.accounted.step hm, ?_⟩
  rcases h.accounted.step_cases hm with
    ⟨hs, hc, hr⟩ | ⟨i, guarded, program, c, ht, hc, rfl⟩
  · have hd : s'.decisions = s.decisions := by
      simp only [decisions, callers, hc, hr]
    rw [hd, hs]
    exact h.agrees.congr (fun i _ => hr i) fun i _ => by simp only [callsOf, hc]
  · set t : Session := { s.settle i (.running guarded (program.step (fails i) s.store).1) s.locks with
      store := (program.step (fails i) s.store).2, calls := s.calls ++ [(i, c)] } with htdef
    obtain ⟨plan, hp, hsound, -, -, hgoing⟩ := h.accounted.exists_sound_plan ht (by simp)
    obtain ⟨hw, hres⟩ := hgoing.resumes hsound hc
    have hother : ∀ j, j ≠ i → t.answer? j = s.answer? j := fun j hj =>
      answer?_congr (tasks_settle_of_ne hj _ s.locks)
    have hcalls : ∀ j, j ≠ i → t.callsOf j = s.callsOf j := fun j hj =>
      callsOf_append_of_ne rfl hj
    have hself : t.tasks[i]? = some (.running guarded (program.step (fails i) s.store).1) :=
      tasks_settle_self ht _ s.locks
    have hbefore : s.answer? i = none := answer?_running ht hc
    have hne : ∀ j ∈ s.decisions, j ≠ i := by
      rintro j hj rfl
      simp [decisions, hbefore] at hj
    have hdecisions : t.decisions = s.decisions ++ if (t.answer? i).isSome then [i] else [] :=
      decisions_call rfl hbefore hother
    cases hnext : (program.step (fails i) s.store).1.call? with
    | some c' =>
      have hstore : t.store = s.store := by
        rcases hw.step_cases hc with ⟨result, hlast⟩ | ⟨next, rfl, -, hf⟩
        · rw [hlast] at hnext
          cases hnext
        · rw [htdef, Program.step_get hf]
      rw [hdecisions, answer?_running hself hnext]
      simp only [Option.isSome_none, Bool.false_eq_true, if_false, List.append_nil, hstore]
      exact h.agrees.congr (fun j hj => hother j (hne j hj)) fun j hj => hcalls j (hne j hj)
    | none =>
      obtain ⟨result, hlast⟩ := Program.exists_answer_of_call? hnext
      have hri : t.answer? i = some result := by rw [answer?, hself, hlast]
      obtain ⟨r, hr, hplan⟩ := Option.map_eq_some_iff.1 ((getElem?_plansOf ..).symm.trans hp)
      rw [hdecisions, hri]
      simp only [Option.isSome_some, if_true, Serial.run_append]
      refine (Serial.Gives.next_iff hr).2 ⟨s.store, ?_, _, rfl, ?_, ?_, ?_⟩
      · exact h.agrees.congr (fun j hj => hother j (hne j hj)) fun j hj => hcalls j (hne j hj)
      · rw [hplan, Plan.runOf, hres.run_eq hc hlast]
      · rw [hplan, Plan.runOf, hres.run_eq hc hlast, hri]
      · rw [hplan, Plan.runOf, hres.run_eq hc hlast, callsOf_append_self rfl]

theorem linear_start (store : Store) (identifier : Nat → String) (requests : List Request) :
    Linear identifier fails requests store (start store identifier requests) := by
  refine ⟨accounted_start store identifier requests, ?_⟩
  rw [start_eq]
  exact ⟨rfl, rfl, by simp [decisions, callers, Serial.run], by simp [decisions, callers, Serial.run]⟩

theorem Linear.run {moves : List Move} (h : Linear identifier fails requests store s)
    (hr : s.run? fails moves = some s') : Linear identifier fails requests store s' :=
  run?_induction (fun hs hm => hs.step hm) h hr

end Session
end SubnetRegistry
