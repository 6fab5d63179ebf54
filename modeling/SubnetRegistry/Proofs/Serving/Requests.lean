import SubnetRegistry.Serving
import SubnetRegistry.Proofs.Session.Progress

/-!
# The requests behind messages

The messages that a service has heard, and the requests among them. It makes no difference to a
session when a request enters, as long as that is before its first step. So the session of a service
that hears messages while it works is one in which all requests were there from the start.

## Main definitions

* `Message.request?`, `Message.requestsOf` — the requests among messages.
* `Message.numbered` — messages with the numbers of their requests.
* `Serving.heard`, `Serving.worked` — the messages heard and the requests advanced in a run.
* `Serving.Step` — the events, one by one.

## Main statements

* `Session.run?_enter` — who enters later might as well have been there.
* `Serving.step_of_step?` — there are no other events.
* `Serving.session_run` — the session behind a service that hears messages.
-/
namespace SubnetRegistry

theorem filterMap_append_singleton {α β : Type} (f : α → Option β) (l : List α) (a : α) :
    (l ++ [a]).filterMap f = l.filterMap f ++ (f a).toList := by
  rw [List.filterMap_append]
  cases h : f a <;> simp [h]

/-! ## Entering a session -/

namespace Session

variable {fails : Nat → Call → Option InfrastructureError} {s t : Session} {i : Nat}
  {works : List Nat}

theorem settle_enter (hi : i < s.tasks.length) (task : Progress) (locks : Locks Nat)
    (plan : Except SubnetError Plan) :
    (s.enter plan).settle i task locks = (s.settle i task locks).enter plan := by
  simp only [settle, enter, List.set_append_left _ _ hi]

/-- A step of a request is the same with one more request there. -/
theorem advance?_enter (hi : i < s.tasks.length) (plan : Except SubnetError Plan) :
    (s.enter plan).advance? fails i = (s.advance? fails i).map fun t => t.enter plan := by
  have ht : (s.enter plan).tasks[i]? = s.tasks[i]? := List.getElem?_append_left hi
  have hlocks : (s.enter plan).locks = s.locks := rfl
  simp only [advance?, ht, hlocks]
  split
  · split <;> exact congrArg some (settle_enter hi _ _ plan)
  · split <;> first | rfl | exact congrArg some (settle_enter hi _ _ plan)
  · exact congrArg some (settle_enter hi _ _ plan)
  · simp only [settle_enter hi]
    rfl
  all_goals rfl

/-- Who enters later might as well have been there. -/
theorem run?_enter (hr : s.run? fails (works.map .advance) = some t)
    (plan : Except SubnetError Plan) :
    (s.enter plan).run? fails (works.map .advance) = some (t.enter plan) := by
  induction works generalizing s with
  | nil =>
    cases hr
    rfl
  | cons i works ih =>
    rw [List.map_cons, run?_cons] at hr ⊢
    obtain ⟨u, hmove, hr⟩ := Option.bind_eq_some_iff.1 hr
    have hi : i < s.tasks.length := (step_of_move? hmove).task_lt
    have hnext : (s.enter plan).move? fails (.advance i) = some (u.enter plan) :=
      (advance?_enter hi plan).trans (congrArg (Option.map _) hmove)
    rw [hnext]
    exact ih hr

theorem start_append (store : Store) (identifier : Nat → String) (requests : List Request)
    (r : Request) :
    start store identifier (requests ++ [r]) =
      (start store identifier requests).enter (r.plan (identifier requests.length)) := by
  simp only [start, List.mapIdx_concat, List.foldl_append, List.foldl_cons, List.foldl_nil]

theorem length_tasks_of_run {moves : List Move} (hr : s.run? fails moves = some t) :
    t.tasks.length = s.tasks.length :=
  run?_induction (P := fun u => u.tasks.length = s.tasks.length)
    (fun hs hm => hm.length_tasks.trans hs) rfl hr

/-- Who has a result in the one session has it in the other. -/
def ResultsIn (s t : Session) : Prop :=
  ∀ i result, s.result? i = some result → t.result? i = some result

theorem ResultsIn.result?_eq_none (h : s.ResultsIn t) (ht : t.result? i = none) :
    s.result? i = none := by
  cases hs : s.result? i with
  | none => rfl
  | some result => cases ht.symm.trans (h i result hs)

/-- A result stays. -/
theorem Step.resultsIn {m : Move} (hm : Step fails s m t) : s.ResultsIn t := by
  intro i result h
  by_cases hi : i = m.task
  · subst hi
    unfold result? at h
    cases hm with
    | ask ht | enter ht | take ht | call ht | finish ht | abandon ht =>
      rw [Move.task, ht] at h
      cases h
  · unfold result? at h ⊢
    rw [hm.tasks_of_ne hi]
    exact h

theorem resultsIn_enter (s : Session) (plan : Except SubnetError Plan) :
    s.ResultsIn (s.enter plan) := by
  intro i result h
  unfold result? at h ⊢
  cases ht : s.tasks[i]? with
  | none =>
    rw [ht] at h
    cases h
  | some task =>
    have hi : i < s.tasks.length := (List.getElem?_eq_some_iff.1 ht).1
    rw [enter, List.getElem?_append_left hi]
    exact h

/-- Nobody was abandoned. -/
def Kept (s : Session) : Prop := ∀ i : Nat, s.tasks[i]? ≠ some Progress.abandoned

theorem kept_start (store : Store) (identifier : Nat → String) (requests : List Request) :
    (start store identifier requests).Kept := by
  intro i h
  rw [start_eq, List.getElem?_map] at h
  obtain ⟨plan, -, h⟩ := Option.map_eq_some_iff.1 h
  cases plan <;> cases h

/-- An advance abandons nobody. -/
theorem Kept.step (h : s.Kept) (hm : Step fails s (.advance i) t) : t.Kept := by
  intro j
  by_cases hj : j = i
  · subst hj
    cases hm with
    | @ask _ plan ht =>
      rw [tasks_settle_self ht]
      cases (s.locks.lock j plan.name).1 <;> nofun
    | enter ht | take ht | finish ht =>
      rw [tasks_settle_self ht]
      nofun
    | call ht =>
      refine (tasks_settle_self ht _ s.locks).trans_ne ?_
      nofun
  · rw [hm.tasks_of_ne hj]
    exact h j

theorem Kept.run (h : s.Kept) (hr : s.run? fails (works.map .advance) = some t) : t.Kept := by
  induction works generalizing s with
  | nil =>
    cases hr
    exact h
  | cons i works ih =>
    rw [List.map_cons, run?_cons] at hr
    obtain ⟨u, hmove, hr⟩ := Option.bind_eq_some_iff.1 hr
    exact ih (h.step (step_of_move? hmove)) hr

/-- Who has no result and was not abandoned has not ended. -/
theorem Kept.isOver_eq_false (h : s.Kept) (hi : i < s.tasks.length) (hr : s.result? i = none) :
    s.isOver = false := by
  have ht : s.tasks[i]? = some s.tasks[i] := List.getElem?_eq_getElem hi
  refine List.all_eq_false.2 ⟨s.tasks[i], List.getElem_mem hi, ?_⟩
  have hkept := h i
  rw [result?] at hr
  rw [ht] at hr hkept
  generalize s.tasks[i] = task at hr hkept
  cases task with
  | finished => cases hr
  | abandoned => exact absurd rfl hkept
  | ready | waiting | running => exact Bool.false_ne_true

end Session

/-! ## Messages -/

namespace Message

variable {root : String} {heard : List Message} {m : Message} {r : Request}

def asks (m : Message) : Bool := m.reply.isSome

/-- The request that a message is, if it asks for a reply and is one. -/
def request? (root : String) (m : Message) : Option Request :=
  if m.asks then (Request.ofMessage root m.subject m.payload).toOption else none

def requestsOf (root : String) (heard : List Message) : List Request :=
  heard.filterMap (request? root)

/-- Messages with numbers, where a request has its place among the requests. -/
def numberedFrom (root : String) (n : Nat) : List Message → List (Nat × Message)
  | [] => []
  | m :: rest => (n, m) :: numberedFrom root (n + (m.request? root).toList.length) rest

def numbered (root : String) (heard : List Message) : List (Nat × Message) :=
  numberedFrom root 0 heard

theorem request?_of_silent (hm : m.reply = none) : m.request? root = none := by
  simp [request?, asks, hm]

theorem request?_of_refused {reply reason : String} (hm : m.reply = some reply)
    (hr : Request.ofMessage root m.subject m.payload = .error reason) : m.request? root = none := by
  simp [request?, asks, hm, hr, Except.toOption]

theorem request?_eq_some_iff :
    m.request? root = some r ↔
      ∃ reply, m.reply = some reply ∧ Request.ofMessage root m.subject m.payload = .ok r := by
  cases hm : m.reply with
  | none => simp [request?, asks, hm]
  | some reply =>
    cases hr : Request.ofMessage root m.subject m.payload <;>
      simp [request?, asks, hm, hr, Except.toOption]

theorem requestsOf_append (root : String) (heard : List Message) (m : Message) :
    requestsOf root (heard ++ [m]) = requestsOf root heard ++ (m.request? root).toList :=
  filterMap_append_singleton ..

theorem numberedFrom_append (root : String) (n : Nat) (heard : List Message) (m : Message) :
    numberedFrom root n (heard ++ [m]) =
      numberedFrom root n heard ++ [(n + (requestsOf root heard).length, m)] := by
  induction heard generalizing n with
  | nil => rfl
  | cons x rest ih =>
    have hcount : (requestsOf root (x :: rest)).length =
        (x.request? root).toList.length + (requestsOf root rest).length := by
      cases h : x.request? root <;> simp [requestsOf, h, Nat.add_comm]
    rw [List.cons_append, numberedFrom, numberedFrom, ih, hcount, List.cons_append, Nat.add_assoc]

theorem numbered_append (root : String) (heard : List Message) (m : Message) :
    numbered root (heard ++ [m]) =
      numbered root heard ++ [((requestsOf root heard).length, m)] := by
  rw [numbered, numberedFrom_append, Nat.zero_add]
  rfl

/-- Not every message that asks for a reply is a request. -/
theorem length_requestsOf_le (root : String) (heard : List Message) :
    (requestsOf root heard).length ≤ (heard.filter asks).length := by
  rw [requestsOf, List.length_filterMap_eq_countP, ← List.countP_eq_length_filter]
  refine List.countP_mono_left fun m _ hm => ?_
  obtain ⟨r, hr⟩ := Option.isSome_iff_exists.1 hm
  obtain ⟨reply, hreply, -⟩ := request?_eq_some_iff.1 hr
  rw [asks, hreply]
  rfl

theorem map_snd_numbered (root : String) (heard : List Message) :
    (numbered root heard).map Prod.snd = heard := by
  induction heard using List.reverseRecOn with
  | nil => rfl
  | append_singleton heard m ih =>
    rw [numbered_append, List.map_append, ih]
    rfl

theorem filterMap_numbered {β : Type} (root : String) (heard : List Message)
    (f : Message → Option β) :
    (numbered root heard).filterMap (fun e => f e.2) = heard.filterMap f := by
  conv_rhs => rw [← map_snd_numbered root heard, List.filterMap_map]
  rfl

/-- A message that is a request has the number of that request. -/
theorem getElem?_requestsOf {e : Nat × Message} (he : e ∈ numbered root heard)
    (hr : e.2.request? root = some r) : (requestsOf root heard)[e.1]? = some r := by
  induction heard using List.reverseRecOn with
  | nil => cases he
  | append_singleton heard m ih =>
    rw [requestsOf_append]
    rw [numbered_append] at he
    rcases List.mem_append.1 he with he | he
    · have hi := ih he
      rw [List.getElem?_append_left (List.getElem?_eq_some_iff.1 hi).1]
      exact hi
    · obtain rfl := List.mem_singleton.1 he
      simp [hr]

/-- The messages that are requests have the numbers of the requests. -/
theorem map_fst_numbered (root : String) (heard : List Message) :
    ((numbered root heard).filter fun e => (e.2.request? root).isSome).map Prod.fst =
      List.range (requestsOf root heard).length := by
  induction heard using List.reverseRecOn with
  | nil => rfl
  | append_singleton heard m ih =>
    rw [numbered_append, requestsOf_append, List.filter_append, List.map_append, ih]
    cases h : m.request? root <;> simp [h, List.range_succ]

end Message

/-! ## What a service hears -/

namespace Serving

variable {identifier : Nat → String} {fails : Nat → Call → Option InfrastructureError}
  {root : String} {store : Store} {s t : Serving} {events : List Event}

def Event.heard? : Event → Option Message
  | .hear m => some m
  | .work _ | .publish _ => none

def Event.worked? : Event → Option Nat
  | .work i => some i
  | .hear _ | .publish _ => none

def heard (events : List Event) : List Message := events.filterMap Event.heard?

def worked (events : List Event) : List Nat := events.filterMap Event.worked?

theorem heard_append (events : List Event) (e : Event) :
    heard (events ++ [e]) = heard events ++ e.heard?.toList :=
  filterMap_append_singleton ..

theorem worked_append (events : List Event) (e : Event) :
    worked (events ++ [e]) = worked events ++ e.worked?.toList :=
  filterMap_append_singleton ..

theorem run?_append (s : Serving) (events : List Event) (e : Event) :
    s.run? identifier fails (events ++ [e]) =
      (s.run? identifier fails events).bind fun t => t.step? identifier fails e := by
  simp [run?, List.foldlM_append]

theorem run?_cons (s : Serving) (e : Event) (events : List Event) :
    s.run? identifier fails (e :: events) =
      (s.step? identifier fails e).bind fun t => t.run? identifier fails events := rfl

inductive Step (identifier : Nat → String) (fails : Nat → Call → Option InfrastructureError)
    (s : Serving) : Event → Serving → Prop
  | ignore {m : Message} (hm : m.reply = none) : Step identifier fails s (.hear m) s
  | refuse {m : Message} {reply reason : String} (hm : m.reply = some reply)
      (hr : Request.ofMessage s.root m.subject m.payload = .error reason) :
      Step identifier fails s (.hear m) { s with jobs := s.jobs ++ [.refused reply reason] }
  | accept {m : Message} {reply : String} {r : Request} (hm : m.reply = some reply)
      (hr : Request.ofMessage s.root m.subject m.payload = .ok r) :
      Step identifier fails s (.hear m)
        { s with
          session := s.session.enter (r.plan (identifier s.session.tasks.length))
          jobs := s.jobs ++ [.requested reply s.session.tasks.length] }
  | work {i : Nat} {session : Session} (ha : s.session.advance? fails i = some session) :
      Step identifier fails s (.work i) { s with session }
  | publish {k : Nat} {job : Job} {m : Message} (hj : s.jobs[k]? = some job)
      (hm : s.message? job = some m) :
      Step identifier fails s (.publish k)
        { s with jobs := s.jobs.set k .done, published := s.published ++ [m] }

theorem step_of_step? {e : Event} (h : s.step? identifier fails e = some t) :
    Step identifier fails s e t := by
  cases e with
  | hear m =>
    obtain rfl := Option.some.inj h
    cases hm : m.reply with
    | none =>
      simp only [hear, hm]
      exact .ignore hm
    | some reply =>
      cases hr : Request.ofMessage s.root m.subject m.payload with
      | error reason =>
        simp only [hear, hm, hr]
        exact .refuse hm hr
      | ok r =>
        simp only [hear, hm, hr]
        exact .accept hm hr
  | work i =>
    obtain ⟨session, ha, rfl⟩ := Option.map_eq_some_iff.1 h
    exact .work ha
  | publish k =>
    obtain ⟨job, hj, h⟩ := Option.bind_eq_some_iff.1 h
    obtain ⟨m, hm, h⟩ := Option.bind_eq_some_iff.1 h
    obtain rfl := Option.some.inj h
    exact .publish hj hm

/-- The session behind the service is one where all requests were there from the start. -/
theorem session_run (hrun : (idle root store).run? identifier fails events = some s) :
    s.root = root ∧
      (Session.start store identifier (Message.requestsOf root (heard events))).run? fails
        ((worked events).map .advance) = some s.session := by
  induction events using List.reverseRecOn generalizing s with
  | nil =>
    cases hrun
    exact ⟨rfl, rfl⟩
  | append_singleton events e ih =>
    rw [run?_append] at hrun
    obtain ⟨t, ht, hstep⟩ := Option.bind_eq_some_iff.1 hrun
    obtain ⟨rfl, hsession⟩ := ih ht
    have hm := step_of_step? hstep
    refine ⟨by cases hm <;> rfl, ?_⟩
    rw [heard_append, worked_append]
    cases hm with
    | ignore hm =>
      simpa [Event.heard?, Event.worked?, Message.requestsOf_append, Message.request?_of_silent hm]
        using hsession
    | refuse hm hr =>
      simpa [Event.heard?, Event.worked?, Message.requestsOf_append,
        Message.request?_of_refused hm hr] using hsession
    | @accept m reply r hm hr =>
      have hrequest : m.request? t.root = some r := Message.request?_eq_some_iff.2 ⟨reply, hm, hr⟩
      have hlength : t.session.tasks.length = (Message.requestsOf t.root (heard events)).length :=
        (Session.length_tasks_of_run hsession).trans Session.length_tasks_start
      simp only [Event.heard?, Event.worked?, Option.toList_some, Option.toList_none,
        List.append_nil, Message.requestsOf_append, hrequest, Session.start_append, hlength]
      exact Session.run?_enter hsession _
    | work ha =>
      simp only [Event.heard?, Event.worked?, Option.toList_some, Option.toList_none,
        List.append_nil, List.map_append, List.map_singleton, Session.run?_append, hsession,
        Option.bind_some, Session.run?_singleton]
      exact ha
    | publish hj hm =>
      simpa [Event.heard?, Event.worked?] using hsession

end Serving
end SubnetRegistry
